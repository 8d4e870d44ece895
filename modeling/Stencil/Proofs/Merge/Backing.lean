import Stencil.Proofs.Merge.ReadBack
import Stencil.Proofs.Node.Trimmed

/-!
Which records still fill what they filled before a page was merged into a layout. A new slot is filled with what the
layout held in its place, and that is enough as long as no value has to move into another scope.
-/

namespace Stencil.Merge

open Node

variable {chain : Scope} {old new old' new' : List Node} {claim claim' : Fields → Fields → Prop} {side : Side}
  {key : String} {v w x : Value} {s t u : MergeState}

/-- The slots of one part of a layout become those of another. Unless values move, a record with its values for the
old slots and the layout's own for the new ones makes `claim` hold. -/
structure Backed (old new : List Node) (claim : Fields → Fields → Prop) (s t : MergeState) : Prop where
  steady : s.reshaped ≤ t.reshaped
  frame : t.reshaped = s.reshaped → ∀ k ∉ slots new, t.left.lookup k = s.left.lookup k
  backed : t.reshaped = s.reshaped → (∀ k ∈ slots new, ∀ own, t.left.lookup k ≠ some (.map own)) →
    ∀ record fields : Fields, (∀ k ∈ slots old, fields.lookup k = record.lookup k) →
      (∀ k ∈ slots new, k ∉ slots old → fields.lookup k = t.left.lookup k) → claim record fields

def Backs (chain : Scope) (old new : List Node) (claim : Fields → Fields → Prop) (s t : MergeState) : Prop :=
  Placed Tied chain old → (slots old).Nodup → Known s.registry old → Backed old new claim s t

namespace Backs

theorem mono (h : Backs chain old new claim s t) (hc : ∀ record fields, claim record fields → claim' record fields) :
    Backs chain old new claim' s t := by
  intro hp hn hk
  have h := h hp hn hk
  exact { h with backed := fun hs hm record fields ho hf => hc _ _ (h.backed hs hm record fields ho hf) }

theorem append {told told' : Fields → Prop} (h : Backs chain old new claim s u) (g : Backs chain old' new' claim' u t)
    (htold : Tells chain old new told s u) (gtold : Tells chain old' new' told' u t) :
    Backs chain (old ++ old') (new ++ new') (fun record fields => claim record fields ∧ claim' record fields) s t := by
  intro hp hn hk
  obtain ⟨hp, hp'⟩ := Placed.append_iff.mp hp
  obtain ⟨hk, hk'⟩ := known_append.mp hk
  rw [slots_append] at hn
  obtain ⟨hn, hn', hdisjoint⟩ := List.nodup_append.mp hn
  have htold := htold hp hn hk
  have hku : Known u.registry old' := fun r hr => htold.grows _ _ (hk' r hr)
  have gtold := gtold hp' hn' hku
  have h := h hp hn hk
  have g := g hp' hn' hku
  -- neither part writes to the slots of the other
  have hparted := htold.parted gtold (slot_known hp' hk') fun k hold hold' => hdisjoint k hold k hold' rfl
  have hnew : ∀ k ∈ slots new, k ∉ slots old → k ∉ slots (old ++ old') := by
    intro k hk hno hmem
    rw [slots_append, List.mem_append] at hmem
    obtain ⟨hunknown, -⟩ := (htold.fresh k hk).resolve_left hno
    exact hmem.elim hno fun hold' => hunknown (slot_known hp' hk' k hold')
  have hnew' : ∀ k ∈ slots new', k ∉ slots old' → k ∉ slots (old ++ old') := by
    intro k hk' hno hmem
    rw [slots_append, List.mem_append] at hmem
    obtain ⟨hunknown, -⟩ := (gtold.fresh k hk').resolve_left hno
    exact hmem.elim (fun hold => hunknown (htold.grows _ _ (slot_known hp hk k hold))) hno
  -- moves are counted upwards, so there is none in either half
  have hsteps (hs : t.reshaped = s.reshaped) : u.reshaped = s.reshaped ∧ t.reshaped = u.reshaped := by
    have hsu := h.steady
    have hut := g.steady
    omega
  refine ⟨h.steady.trans g.steady, fun hs k hk => ?_, fun hs hmaps record fields hrecord hfields => ?_⟩
  · rw [slots_append, List.mem_append, not_or] at hk
    rw [g.frame (hsteps hs).2 k hk.2, h.frame (hsteps hs).1 k hk.1]
  · simp only [slots_append, List.mem_append] at hmaps hrecord hfields hnew hnew'
    have hleft : ∀ k ∈ slots new, t.left.lookup k = u.left.lookup k := fun k hk =>
      g.frame (hsteps hs).2 k (hparted k hk)
    constructor
    · refine h.backed (hsteps hs).1 (fun k hk own => ?_) record fields (fun k hk => hrecord k (.inl hk))
        fun k hk hno => ?_
      · rw [← hleft k hk]
        exact hmaps k (.inl hk) own
      · rw [hfields k (.inl hk) (hnew k hk hno), hleft k hk]
    · exact g.backed (hsteps hs).2 (fun k hk => hmaps k (.inr hk)) record fields (fun k hk => hrecord k (.inr hk))
        fun k hk hno => hfields k (.inr hk) (hnew' k hk hno)

theorem before (h : Backs chain old new claim u t) (g : Quiet s u) : Backs chain old new claim s t := by
  intro hp hn hk
  have h := h hp hn (g.registry ▸ hk)
  have hsteady := h.steady
  have gsteady := g.steady
  exact {
    steady := gsteady.trans hsteady
    frame := fun hs => g.left ▸ h.frame (by omega)
    backed := fun hs => h.backed (by omega) }

theorem unwritten (hleft : t.left = s.left) (hsteady : s.reshaped ≤ t.reshaped)
    (hc : ∀ record fields : Fields, (∀ k ∈ slots old, fields.lookup k = record.lookup k) → claim record fields) :
    Backs chain old new claim s t := fun _ _ _ =>
  ⟨hsteady, fun _ k _ => by rw [hleft], fun _ _ record fields hrecord _ => hc record fields hrecord⟩

theorem opens (h : Opens chain side key v w s t) (hleft : t.left = Assoc.set key x s.left) (hslots : slots new = [key])
    (hc : ∀ record fields : Fields, (∀ k ∈ slots old, fields.lookup k = record.lookup k) →
      fields.lookup key = some x → claim record fields) : Backs chain old new claim s t := by
  intro hp _ hk
  have hfresh : key ∉ slots old := fun hmem => h.unknown (slot_known hp hk key hmem)
  refine ⟨h.steady, fun _ k hno => ?_, fun _ _ record fields hrecord hfields => hc record fields hrecord ?_⟩
  · rw [hslots, List.mem_singleton] at hno
    rw [hleft, Assoc.lookup_set_of_ne hno]
  · rw [hfields key (by simp [hslots]) hfresh, hleft, Assoc.lookup_set_self]

theorem element {tag tag' : Tag} {cs ds : List Node}
    (h : Backs chain (attributeSlots tag.attrs ++ cs) (attributeSlots tag'.attrs ++ ds) claim s t) :
    Backs chain [.element tag cs] [.element tag' ds] claim s t := by
  intro hp hn hk
  rw [slots_element] at hn
  have h := h (Placed.element_iff.mp hp) hn (known_element.mp hk)
  exact {
    steady := h.steady
    frame := slots_element tag' ds ▸ h.frame
    backed := slots_element tag cs ▸ slots_element tag' ds ▸ h.backed }

end Backs

section Attributes

def Refills (as cs : List Attribute) (record fields : Fields) : Prop :=
  (∀ a ∈ as, a.Suits record) → cs.flatMap (Attribute.fill fields) = as.flatMap (Attribute.fill record)

theorem Refills.append {as as' cs cs' : List Attribute} {record fields : Fields} (h : Refills as cs record fields)
    (g : Refills as' cs' record fields) : Refills (as ++ as') (cs ++ cs') record fields := by
  intro hsuits
  obtain ⟨hhere, hthere⟩ := List.forall_mem_append.mp hsuits
  rw [List.flatMap_append, List.flatMap_append, h hhere, g hthere]

theorem refills_singleton {a c : Attribute} {record fields : Fields}
    (h : a.Suits record → c.fill fields = a.fill record) : Refills [a] [c] record fields := by
  intro hsuits
  rw [List.flatMap_singleton, List.flatMap_singleton, h (hsuits a List.mem_cons_self)]

theorem slots_of_reference {a : Attribute} {r : Reference} (h : a.reference? = some r) :
    slots (attributeSlots [a]) = [r.key] := by
  rw [attributeSlots_of_reference h, slots_slot]

theorem refills_same {a : Attribute} {record fields : Fields}
    (h : ∀ k ∈ slots (attributeSlots [a]), fields.lookup k = record.lookup k) : Refills [a] [a] record fields := by
  refine refills_singleton fun _ => fill_attribute_congr fun r hr => h r.key ?_
  rw [slots_of_reference hr]
  exact List.mem_cons_self

theorem Backs.opensAttribute {c : Attribute} (hslot : c.reference? = some (chain ++ [key]))
    (h : Opens chain side key v w s t) (hleft : t.left = Assoc.set key x s.left)
    (hc : ∀ record fields : Fields, fields.lookup key = some x → claim record fields) :
    Backs chain old (attributeSlots [c]) claim s t :=
  Backs.opens h hleft (by rw [slots_of_reference hslot, Reference.key_append]) fun record fields _ => hc record fields

theorem Lonely.backs_left {a c : Attribute} (h : Lonely chain .left a s c t) :
    Backs chain (attributeSlots [a]) (attributeSlots [c]) (Refills [a] [c]) s t := by
  cases h with
  | fixed hopen =>
    exact Backs.opensAttribute rfl hopen hopen.own fun record fields hf => refills_singleton fun _ => by
      simp [Attribute.fill, hf]
  | @known _ r _ _ hr hread =>
    refine Backs.unwritten hread.other hread.steady fun record fields hrecord => refills_singleton fun hsuits => ?_
    have hsame : fields.lookup r.key = record.lookup r.key :=
      hrecord r.key (by simp [slots_of_reference hr])
    cases a with
    | slot n q =>
      cases hr
      obtain ⟨v, hv⟩ := hsuits
      simp [Attribute.fill, Attribute.name, hsame, hv]
    | optional n q =>
      cases hr
      simp only [Attribute.fill, Attribute.name, hsame]
    | _ => cases hr

theorem Lonely.backs_right {b c : Attribute} (hb : b.reference? = none) (h : Lonely chain .right b s c t) :
    Backs chain [] (attributeSlots [c]) (Refills [] [c]) s t := by
  cases h with
  | fixed hopen =>
    exact Backs.opensAttribute rfl hopen hopen.other fun record fields hf _ => by simp [Attribute.fill, hf]
  | known hr _ => simp [hb] at hr

theorem Matched.backs {other : Tag} {a c : Attribute} (hother : other.attrs.filterMap Attribute.reference? = [])
    (h : Matched chain other a s c t) :
    Backs chain (attributeSlots [a]) (attributeSlots [c]) (Refills [a] [c]) s t := by
  cases h with
  | lonely _ h => exact h.backs_left
  | paired hb h =>
    have hfixed := List.filterMap_eq_nil_iff.mp hother _ (attr?_eq_some hb).1
    cases h with
    | known _ hr _ _ => exact absurd hfixed hr
    | readLeft hr _ => simp [hfixed] at hr
    | readRight _ hread => exact Backs.unwritten hread.other hread.steady fun _ _ => refills_same
    | same _ => exact Backs.unwritten rfl (Nat.le_refl _) fun _ _ => refills_same
    | differ _ hopen =>
      exact Backs.opensAttribute rfl hopen hopen.own fun record fields hf => refills_singleton fun _ => by
        simp [Attribute.fill, hf]

theorem Each.backs {step : Attribute → MergeState → Attribute → MergeState → Prop} {as cs : List Attribute}
    (kept : Attribute → List Attribute) (h : Each step as s cs t)
    (hstep : ∀ a ∈ as, ∀ s c t, step a s c t →
      Backs chain (attributeSlots (kept a)) (attributeSlots [c]) (Refills (kept a) [c]) s t ∧
        Tells chain (attributeSlots (kept a)) (attributeSlots [c]) (fun _ => True) s t) :
    Backs chain (attributeSlots (as.flatMap kept)) (attributeSlots cs) (Refills (as.flatMap kept) cs) s t ∧
      Tells chain (attributeSlots (as.flatMap kept)) (attributeSlots cs) (fun _ => True) s t := by
  induction h with
  | nil =>
    exact ⟨Backs.unwritten rfl (Nat.le_refl _) fun _ _ _ _ => rfl, Tells.quiet rfl (.refl _) fun _ => trivial⟩
  | @cons a c as cs _ _ _ ha _ ih =>
    obtain ⟨hback, htold⟩ := hstep a List.mem_cons_self _ _ _ ha
    obtain ⟨gback, gtold⟩ := ih fun b hb => hstep b (List.mem_cons_of_mem _ hb)
    rw [List.flatMap_cons, attributeSlots_append, attributeSlots_cons c cs]
    exact ⟨(hback.append gback htold gtold).mono fun _ _ hr => hr.1.append hr.2,
      (htold.append gtold).mono fun _ _ => trivial⟩

theorem Returns.mergeAttributes_backs {owner other : Tag} {cs : List Attribute}
    (hfixed : other.attrs.filterMap Attribute.reference? = [])
    (h : Returns (Merge.mergeAttributes chain owner other) s cs t) :
    Backs chain (attributeSlots owner.attrs) (attributeSlots cs) (Refills owner.attrs cs) s t := by
  obtain ⟨left, right, u, rfl, hleft, hright⟩ := Returns.mergeAttributes h
  obtain ⟨hback, htold⟩ := hleft.backs (fun a => [a]) fun a _ s c t hm =>
    ⟨hm.backs hfixed, (hm.tells hfixed).mono fun _ _ => trivial⟩
  have hadded : ∀ b ∈ missingIn owner other.attrs, ∀ s c t, Lonely chain .right b s c t →
      Backs chain (attributeSlots []) (attributeSlots [c]) (Refills [] [c]) s t ∧
        Tells chain (attributeSlots []) (attributeSlots [c]) (fun _ => True) s t := by
    intro b hb s c t hm
    have hno := List.filterMap_eq_nil_iff.mp hfixed b (mem_missingIn hb).1
    exact ⟨hm.backs_right hno, (hm.tells_right hno).mono fun _ _ => trivial⟩
  obtain ⟨gback, gtold⟩ := hright.backs (fun _ => []) hadded
  have hnone : (missingIn owner other.attrs).flatMap (fun _ => ([] : List Attribute)) = [] := by simp
  rw [List.flatMap_singleton'] at hback htold
  rw [hnone] at gback gtold
  rw [attributeSlots_append, ← List.append_nil (attributeSlots owner.attrs)]
  refine (hback.append gback htold gtold).mono fun _ _ hr => ?_
  rw [← List.append_nil owner.attrs]
  exact hr.1.append hr.2

end Attributes

end Stencil.Merge
