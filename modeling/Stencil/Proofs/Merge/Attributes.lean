import Stencil.Merge.Attributes
import Stencil.Proofs.Merge.Change
import Stencil.Proofs.Node.Scope

namespace Stencil.Merge

variable {chain : Scope} {side : Side} {s t : MergeState}

theorem attr?_eq_some {tag : Tag} {name : String} {a : Attribute} (h : tag.attr? name = some a) :
    a ∈ tag.attrs ∧ a.name = name :=
  ⟨List.mem_of_find?_eq_some h, by simpa using List.find?_some h⟩

theorem attr?_eq_none {tag : Tag} {name : String} (h : tag.attr? name = none) :
    name ∉ tag.attrs.map Attribute.name := by
  intro hm
  obtain ⟨a, ha, hname⟩ := List.mem_map.mp hm
  simpa [hname] using List.find?_eq_none.mp h a ha

theorem sameAttributeValue_self (n v : String) : sameAttributeValue n v v = true := by
  unfold sameAttributeValue
  split
  · rfl
  · split <;> simp

inductive Each {β γ : Type} (step : β → MergeState → γ → MergeState → Prop) :
    List β → MergeState → List γ → MergeState → Prop
  | nil {s : MergeState} : Each step [] s [] s
  | cons {a : β} {c : γ} {as : List β} {cs : List γ} {s u t : MergeState} : step a s c u →
    Each step as u cs t → Each step (a :: as) s (c :: cs) t

theorem Each.of_mem {β γ : Type} {step : β → MergeState → γ → MergeState → Prop} {P : γ → Prop}
    {as : List β} {cs : List γ} (h : Each step as s cs t)
    (hstep : ∀ a ∈ as, ∀ s c t, step a s c t → P c) : ∀ c ∈ cs, P c := by
  induction h with
  | nil => simp
  | cons ha _ ih =>
    intro d hd
    rcases List.mem_cons.mp hd with rfl | hd
    · exact hstep _ (by simp) _ _ _ ha
    · exact ih (fun a hm => hstep a (by simp [hm])) d hd

inductive Lonely (chain : Scope) (side : Side) :
    Attribute → MergeState → Attribute → MergeState → Prop
  | fixed {n v key : String} {s t : MergeState} : Opens chain side key (.text v) .null s t →
    Lonely chain side (.fixed n v) s (.optional n (chain ++ [key])) t
  | known {a : Attribute} {r : Reference} {s t : MergeState} : a.reference? = some r →
    Reads side.other r.key .null s t → Lonely chain side a s (.optional a.name r) t

inductive Paired (chain : Scope) :
    Attribute → Attribute → MergeState → Attribute → MergeState → Prop
  | known {a b c : Attribute} {r : Reference} {s : MergeState} : a.reference? = some r →
    b.reference? ≠ none → c.reference? = some r → c.name = a.name → Paired chain a b s c s
  | readRight {a : Attribute} {r : Reference} {n w : String} {s t : MergeState} :
    a.reference? = some r → Reads .right r.key (.text w) s t → Paired chain a (.fixed n w) s a t
  | readLeft {b : Attribute} {r : Reference} {n v : String} {s t : MergeState} :
    b.reference? = some r → Reads .left r.key (.text v) s t → Paired chain (.fixed n v) b s b t
  | same {n m v w : String} {s : MergeState} : sameAttributeValue n v w = true →
    Paired chain (.fixed n v) (.fixed m w) s (.fixed n v) s
  | differ {n m v w key : String} {s t : MergeState} : sameAttributeValue n v w = false →
    Opens chain .left key (.text v) (.text w) s t →
    Paired chain (.fixed n v) (.fixed m w) s (.slot n (chain ++ [key])) t

theorem Returns.lonelyAttribute {owner : Tag} {a c : Attribute}
    (h : Returns (lonelyAttribute chain side owner a) s c t) : Lonely chain side a s c t := by
  cases a with
  | fixed n v =>
    simp only [Merge.lonelyAttribute, returns_bind, returns_put, returns_pure] at h
    obtain ⟨key, _, hkey, _, _, rfl, _, _, rfl, rfl, rfl⟩ := h
    have hkey := Returns.newKey hkey
    rw [hkey.reference]
    exact .fixed (hkey.opens (.put ..) (.put ..))
  | slot n r =>
    simp only [Merge.lonelyAttribute, returns_bind, returns_put, returns_pure] at h
    obtain ⟨_, _, rfl, rfl, rfl⟩ := h
    exact .known rfl (.put ..)
  | optional n r =>
    simp only [Merge.lonelyAttribute, returns_bind, returns_put, returns_pure] at h
    obtain ⟨_, _, rfl, rfl, rfl⟩ := h
    exact .known rfl (.put ..)
  | foreign => simp [Merge.lonelyAttribute, noRule] at h

theorem Returns.pairAttribute {owner : Tag} {a b c : Attribute}
    (h : Returns (pairAttribute chain owner a b) s c t) : Paired chain a b s c t := by
  unfold Merge.pairAttribute at h
  split at h
  case h_5 | h_6 =>
    simp only [returns_bind, returns_put, returns_pure] at h
    obtain ⟨_, _, rfl, rfl, rfl⟩ := h
    exact .readRight rfl (.put ..)
  case h_7 | h_8 =>
    simp only [returns_bind, returns_put, returns_pure] at h
    obtain ⟨_, _, rfl, rfl, rfl⟩ := h
    exact .readLeft rfl (.put ..)
  case h_9 =>
    split at h
    · next hsame =>
      rw [returns_pure] at h
      obtain ⟨rfl, rfl⟩ := h
      exact .same hsame
    · next hdiffer =>
      simp only [returns_bind, returns_put, returns_debug, returns_pure] at h
      obtain ⟨key, _, hkey, _, _, rfl, _, _, rfl, _, _, rfl, rfl, rfl⟩ := h
      have hkey := Returns.newKey hkey
      rw [hkey.reference]
      exact .differ (by simpa using hdiffer)
        ((hkey.opens (.put .left ..) (.put .right ..)).quiet (quiet_addLine ..))
  case h_10 => simp [noRule] at h
  all_goals
    rw [returns_pure] at h
    obtain ⟨rfl, rfl⟩ := h
    exact .known rfl (by simp [Attribute.reference?]) rfl rfl

inductive Matched (chain : Scope) (other : Tag) :
    Attribute → MergeState → Attribute → MergeState → Prop
  | paired {a b c : Attribute} {s t : MergeState} : other.attr? a.name = some b →
    Paired chain a b s c t → Matched chain other a s c t
  | lonely {a c : Attribute} {s t : MergeState} : other.attr? a.name = none →
    Lonely chain .left a s c t → Matched chain other a s c t

theorem Returns.leftAttributes {owner other : Tag} {as cs : List Attribute}
    (h : Returns (leftAttributes chain owner other as) s cs t) :
    Each (Matched chain other) as s cs t := by
  induction as generalizing s cs with
  | nil =>
    simp only [Merge.leftAttributes, returns_pure] at h
    obtain ⟨rfl, rfl⟩ := h
    exact .nil
  | cons a as ih =>
    rw [Merge.leftAttributes] at h
    split at h
    · next b hb =>
      simp only [returns_bind, returns_pure] at h
      obtain ⟨c, u, hc, others, _, hothers, rfl, rfl⟩ := h
      exact .cons (.paired hb (Returns.pairAttribute hc)) (ih hothers)
    · next hb =>
      simp only [returns_bind, returns_pure] at h
      obtain ⟨c, u, hc, others, _, hothers, rfl, rfl⟩ := h
      exact .cons (.lonely hb (Returns.lonelyAttribute hc)) (ih hothers)

def missingIn (owner : Tag) (bs : List Attribute) : List Attribute :=
  bs.filter fun b => !(owner.attr? b.name).isSome

theorem Returns.rightAttributes {owner other : Tag} {bs cs : List Attribute}
    (h : Returns (rightAttributes chain owner other bs) s cs t) :
    Each (Lonely chain .right) (missingIn owner bs) s cs t := by
  induction bs generalizing s cs with
  | nil =>
    simp only [Merge.rightAttributes, returns_pure] at h
    obtain ⟨rfl, rfl⟩ := h
    exact .nil
  | cons b bs ih =>
    rw [Merge.rightAttributes] at h
    unfold missingIn at ih ⊢
    split at h
    · next hb =>
      rw [List.filter_cons_of_neg (by simp [hb])]
      exact ih h
    · next hb =>
      simp only [returns_bind, returns_pure] at h
      obtain ⟨c, u, hc, others, _, hothers, rfl, rfl⟩ := h
      rw [List.filter_cons_of_pos (by simpa using hb)]
      exact .cons (Returns.lonelyAttribute hc) (ih hothers)

theorem Returns.mergeAttributes {owner other : Tag} {cs : List Attribute}
    (h : Returns (mergeAttributes chain owner other) s cs t) :
    ∃ left right u, cs = left ++ right ∧ Each (Matched chain other) owner.attrs s left u ∧
      Each (Lonely chain .right) (missingIn owner other.attrs) u right t := by
  simp only [Merge.mergeAttributes, returns_bind, returns_pure] at h
  obtain ⟨left, u, hleft, right, _, hright, rfl, rfl⟩ := h
  exact ⟨left, right, u, rfl, Returns.leftAttributes hleft, Returns.rightAttributes hright⟩

theorem Lonely.name {a c : Attribute} (h : Lonely chain side a s c t) : c.name = a.name := by
  cases h <;> rfl

theorem Matched.name {other : Tag} {a c : Attribute} (h : Matched chain other a s c t) :
    c.name = a.name := by
  cases h with
  | lonely _ h => exact h.name
  | paired hb h =>
    have hname := (attr?_eq_some hb).2
    cases h with
    | known _ _ _ hc => exact hc
    | readLeft _ _ => exact hname
    | _ => rfl

theorem Each.map_eq {β γ δ : Type} {step : β → MergeState → γ → MergeState → Prop}
    {f : β → δ} {g : γ → δ} {as : List β} {cs : List γ} (h : Each step as s cs t)
    (hstep : ∀ a s c t, step a s c t → g c = f a) : cs.map g = as.map f := by
  induction h with
  | nil => rfl
  | cons ha _ ih => rw [List.map_cons, List.map_cons, ih, hstep _ _ _ _ ha]

theorem mem_missingIn {owner : Tag} {bs : List Attribute} {b : Attribute}
    (h : b ∈ missingIn owner bs) : b ∈ bs ∧ b.name ∉ owner.attrs.map Attribute.name := by
  obtain ⟨hb, hno⟩ := List.mem_filter.mp h
  exact ⟨hb, attr?_eq_none (by simpa using hno)⟩

theorem Returns.mergeAttributes_nodup {owner other : Tag} {cs : List Attribute}
    (howner : (owner.attrs.map Attribute.name).Nodup) (hother : (other.attrs.map Attribute.name).Nodup)
    (h : Returns (Merge.mergeAttributes chain owner other) s cs t) :
    (cs.map Attribute.name).Nodup := by
  obtain ⟨left, right, u, rfl, hleft, hright⟩ := Returns.mergeAttributes h
  have hl := hleft.map_eq (f := Attribute.name) (g := Attribute.name) fun _ _ _ _ hm => hm.name
  have hr := hright.map_eq (f := Attribute.name) (g := Attribute.name) fun _ _ _ _ hm => hm.name
  rw [List.map_append, hl, hr]
  refine List.nodup_append.mpr ⟨howner, hother.sublist ((List.filter_sublist).map _), ?_⟩
  rintro x hx y hy rfl
  obtain ⟨b, hb, rfl⟩ := List.mem_map.mp hy
  exact (mem_missingIn hb).2 hx

theorem Returns.mergeAttributes_references {owner other : Tag} {cs : List Attribute}
    (h : Returns (Merge.mergeAttributes chain owner other) s cs t) {r : Reference}
    (hr : r ∈ cs.filterMap Attribute.reference?) :
    r ∈ owner.attrs.filterMap Attribute.reference? ∨
      r ∈ other.attrs.filterMap Attribute.reference? ∨ r.Direct chain := by
  obtain ⟨left, right, u, rfl, hleft, hright⟩ := Returns.mergeAttributes h
  obtain ⟨c, hc, hr⟩ := List.mem_filterMap.mp hr
  have known {as : List Attribute} {a : Attribute} (ha : a ∈ as) (hr : a.reference? = some r) :
      r ∈ as.filterMap Attribute.reference? := List.mem_filterMap.mpr ⟨a, ha, hr⟩
  have lonely {as : List Attribute} {side : Side} {a d : Attribute} {s t : MergeState}
      (hl : Lonely chain side a s d t) (ha : a ∈ as) (hd : d.reference? = some r) :
      r ∈ as.filterMap Attribute.reference? ∨ r.Direct chain := by
    cases hl with
    | fixed hopen =>
      cases hd
      exact .inr ⟨_, rfl⟩
    | known hq _ =>
      cases hd
      exact .inl (known ha hq)
  rcases List.mem_append.mp hc with hc | hc
  · refine hleft.of_mem (P := fun d => d.reference? = some r → _) (fun a ha s d t hm hd => ?_) c hc hr
    cases hm with
    | lonely _ hl => exact (lonely hl ha hd).imp_right .inr
    | paired hb hm =>
      have hmem : _ ∈ other.attrs := List.mem_of_find?_eq_some hb
      cases hm with
      | known hq _ hc' _ => exact .inl (known ha (hc'.symm.trans hd ▸ hq))
      | readRight hq _ => exact .inl (known ha hd)
      | readLeft hq _ => exact .inr (.inl (known hmem hd))
      | same _ => cases hd
      | differ _ _ =>
        cases hd
        exact .inr (.inr ⟨_, rfl⟩)
  · refine .inr (hright.of_mem (P := fun d => d.reference? = some r → _)
      (fun b hb s d t hm hd => ?_) c hc hr)
    exact lonely hm (List.mem_of_mem_filter hb) hd

end Stencil.Merge
