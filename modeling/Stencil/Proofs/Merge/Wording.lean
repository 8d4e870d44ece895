import Stencil.Proofs.Merge.Telling
import Stencil.Proofs.Node.Fill

namespace Stencil.Merge

open Node

variable {chain : Scope} {old : List Node} {s t : MergeState}

theorem gist_of_sameAttributeValue {n v w : String} (h : sameAttributeValue n v w = true) :
    (Attribute.fixed n v).gist = (Attribute.fixed n w).gist := by
  unfold sameAttributeValue at h
  unfold Attribute.gist
  dsimp only
  split
  · rfl
  · next hboolean =>
    rw [if_neg hboolean] at h
    split
    · next hclass =>
      rw [if_pos hclass, beq_iff_eq] at h
      rw [h]
    · next hclass =>
      rw [if_neg hclass, beq_iff_eq] at h
      rw [h]

theorem Tells.opensAttribute {c : Attribute} {side : Side} {key : String} {v w x : Value}
    {claim : Fields → Prop} (hslot : c.reference? = some (chain ++ [key]))
    (h : Opens chain side key v w s t) (hright : t.right = Assoc.set key x s.right)
    (hc : ∀ f : Fields, f.lookup key = some x → claim f) :
    Tells chain old (attributeSlots [c]) claim s t := by
  rw [attributeSlots_of_reference hslot]
  exact Tells.opens h hright hc

theorem Lonely.tells_left {a c : Attribute} (h : Lonely chain .left a s c t) :
    Tells chain (attributeSlots [a]) (attributeSlots [c]) (fun f => c.fill f = []) s t := by
  cases h with
  | fixed hopen =>
    exact Tells.opensAttribute rfl hopen hopen.other fun f hf => by simp [Attribute.fill, hf]
  | known hr hread =>
    rw [attributeSlots_of_reference hr, attributeSlots_of_reference rfl]
    exact Tells.reads rfl hread fun f hf => by simp [Attribute.fill, hf]

theorem Lonely.tells_right {b c : Attribute} (hb : b.reference? = none)
    (h : Lonely chain .right b s c t) :
    Tells chain old (attributeSlots [c]) (fun f => c.fill f = [b]) s t := by
  cases h with
  | fixed hopen =>
    exact Tells.opensAttribute rfl hopen hopen.own fun f hf => by simp [Attribute.fill, hf]
  | known hr _ => simp [hb] at hr

theorem Paired.tells {a b c : Attribute} (hb : b.reference? = none) (hname : b.name = a.name)
    (h : Paired chain a b s c t) :
    Tells chain (attributeSlots [a]) (attributeSlots [c])
      (fun f => (c.fill f).map Attribute.gist = [b.gist]) s t := by
  cases h with
  | known _ hr _ _ => exact absurd hb hr
  | readLeft hr _ => simp [hb] at hr
  | readRight hr hread =>
    rw [attributeSlots_of_reference hr]
    refine Tells.reads rfl hread fun f hf => ?_
    cases a <;> cases hr <;> cases hname <;> simp [Attribute.fill, hf]
  | same hsame =>
    cases hname
    exact Tells.quiet rfl (Quiet.refl _) fun f => by
      simp [Attribute.fill, gist_of_sameAttributeValue hsame]
  | differ _ hopen =>
    cases hname
    exact Tells.opensAttribute rfl hopen hopen.other fun f hf => by simp [Attribute.fill, hf]

theorem Matched.tells {other : Tag} {a c : Attribute}
    (hother : other.attrs.filterMap Attribute.reference? = []) (h : Matched chain other a s c t) :
    Tells chain (attributeSlots [a]) (attributeSlots [c])
      (fun f => (c.fill f).map Attribute.gist = ((other.attr? a.name).map Attribute.gist).toList)
      s t := by
  cases h with
  | lonely hb h =>
    refine h.tells_left.mono fun f hf => ?_
    rw [hf, hb]
    rfl
  | paired hb h =>
    obtain ⟨hmem, hname⟩ := attr?_eq_some hb
    refine (h.tells (List.filterMap_eq_nil_iff.mp hother _ hmem) hname).mono fun f hf => ?_
    rw [hf, hb]
    rfl

theorem Each.tells {step : Attribute → MergeState → Attribute → MergeState → Prop}
    {found : Attribute → List Attribute} {as cs : List Attribute} (h : Each step as s cs t)
    (hstep : ∀ a ∈ as, ∀ s c t, step a s c t → Tells chain (attributeSlots [a]) (attributeSlots [c])
      (fun f => (c.fill f).map Attribute.gist = found a) s t) :
    Tells chain (attributeSlots as) (attributeSlots cs)
      (fun f => (cs.flatMap (Attribute.fill f)).map Attribute.gist = as.flatMap found) s t := by
  induction h with
  | nil => exact Tells.quiet rfl (Quiet.refl _) fun _ => rfl
  | @cons a c as cs _ _ _ ha _ ih =>
    rw [attributeSlots_cons a as, attributeSlots_cons c cs]
    refine ((hstep _ (by simp) _ _ _ ha).append (ih fun a hm => hstep a (by simp [hm]))).mono ?_
    rintro f ⟨hhere, hthere⟩
    rw [List.flatMap_cons, List.map_append, hhere, hthere, List.flatMap_cons]

theorem perm_of_missingIn {owner other : Tag} (howner : (owner.attrs.map Attribute.name).Nodup)
    (hother : (other.attrs.map Attribute.name).Nodup) :
    (owner.attrs.filterMap (fun a => other.attr? a.name) ++ missingIn owner other.attrs).Perm
      other.attrs := by
  have hshared : (owner.attrs.filterMap fun a => other.attr? a.name).Nodup := by
    refine (List.pairwise_map.mp howner).filterMap _ fun a a' hne b hb b' hb' he => hne ?_
    rw [← (attr?_eq_some hb).2, ← (attr?_eq_some hb').2, he]
  have hmissing : (missingIn owner other.attrs).Nodup := (List.Nodup.of_map _ hother).filter _
  refine (List.perm_ext_iff_of_nodup (hshared.append hmissing fun b hb hm => ?_)
    (List.Nodup.of_map _ hother)).mpr fun b => ?_
  · obtain ⟨a, ha, hb⟩ := List.mem_filterMap.mp hb
    exact (mem_missingIn hm).2 (List.mem_map.mpr ⟨a, ha, (attr?_eq_some hb).2.symm⟩)
  · rw [List.mem_append]
    constructor
    · rintro (hb | hb)
      · obtain ⟨a, -, hb⟩ := List.mem_filterMap.mp hb
        exact (attr?_eq_some hb).1
      · exact (mem_missingIn hb).1
    · intro hb
      cases ha : owner.attr? b.name with
      | none => exact .inr (List.mem_filter.mpr ⟨hb, by simp [ha]⟩)
      | some a =>
        obtain ⟨hmem, hname⟩ := attr?_eq_some ha
        exact .inl (List.mem_filterMap.mpr ⟨a, hmem, by rw [hname, Tag.attr?_of_mem hother hb]⟩)

theorem Returns.mergeAttributes_tells {owner other : Tag} {cs : List Attribute}
    (howner : (owner.attrs.map Attribute.name).Nodup) (hother : (other.attrs.map Attribute.name).Nodup)
    (hfixed : other.attrs.filterMap Attribute.reference? = [])
    (h : Returns (Merge.mergeAttributes chain owner other) s cs t) :
    Tells chain (attributeSlots owner.attrs) (attributeSlots cs)
      (fun f => ((cs.flatMap (Attribute.fill f)).map Attribute.gist).Perm
        (other.attrs.map Attribute.gist)) s t := by
  obtain ⟨left, right, u, rfl, hleft, hright⟩ := Returns.mergeAttributes h
  have hno : ∀ b ∈ missingIn owner other.attrs, b.reference? = none := fun b hb =>
    List.filterMap_eq_nil_iff.mp hfixed b (mem_missingIn hb).1
  have hl : Tells chain (attributeSlots owner.attrs) (attributeSlots left)
      (fun f => (left.flatMap (Attribute.fill f)).map Attribute.gist =
        owner.attrs.flatMap fun a => ((other.attr? a.name).map Attribute.gist).toList) s u := by
    apply hleft.tells
    intro a _ s c t hm
    exact hm.tells hfixed
  have hr : Tells chain (attributeSlots (missingIn owner other.attrs)) (attributeSlots right)
      (fun f => (right.flatMap (Attribute.fill f)).map Attribute.gist =
        (missingIn owner other.attrs).flatMap fun b => [b.gist]) u t := by
    apply hright.tells
    intro b hb s c t hm
    apply (hm.tells_right (hno b hb)).mono
    intro f hf
    rw [hf, List.map_singleton]
  have h := hl.append hr
  rw [attributeSlots_missingIn hfixed, List.append_nil, ← attributeSlots_append] at h
  refine h.mono ?_
  rintro f ⟨hshared, hmissing⟩
  rw [List.flatMap_append, List.map_append, hshared, hmissing, ← List.filterMap_eq_flatMap_toList,
    ← List.map_filterMap, ← List.map_eq_flatMap, ← List.map_append]
  exact (perm_of_missingIn howner hother).map _

end Stencil.Merge
