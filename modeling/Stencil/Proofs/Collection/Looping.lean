import Stencil.Proofs.Collection.Listing

namespace Stencil.Collection

open Node Grade Merge

variable {α : Type} [Grade α] [Counting α] [Positive α] {xs ys : List String}

theorem lt_score_lists (hxs : Listed xs) (hys : Listed ys) (hfits : Counting.Fits α (max xs.length ys.length)) :
    zero < (Score.score false (.element ⟨"ul", []⟩ (items xs)) (.element ⟨"ul", []⟩ (items ys)) : α) := by
  rw [← length_items xs, ← length_items ys] at hfits
  refine Score.lt_score_elements hfits fun a ha b hb => Positive.nonneg_of_lt ?_
  obtain ⟨x, hx, rfl⟩ := List.mem_map.mp ha
  obtain ⟨y, hy, rfl⟩ := List.mem_map.mp hb
  exact lt_score_items (.text (hxs.trimmed x hx)) (.text (hys.trimmed y hy))

structure Itemized (template : Node) (record : String → Fields) (xs ys : List String) (ns : List Node)
    (t : MergeState) : Prop where
  layout : ns = listOf [.block .loop ["ul_items"] template]
  left : t.left = [("ul_items", .list (xs.map fun x => .map (record x)))]
  right : t.right = [("ul_items", .list (ys.map fun y => .map (record y)))]

theorem returns_lists_items (hxs : Listed xs) (hys : Listed ys) (hdiffer : xs ≠ ys)
    (hlong : 2 ≤ xs.length ∨ 2 ≤ ys.length) (hfits : Counting.Fits α (max xs.length ys.length)) :
    ∃ v ∈ xs, ∃ ns t, Returns (lists α [] {} (listOf (items xs)) (listOf (items ys))) {} ns t ∧
      Itemized (common ["ul_items"] v (xs ++ ys)) (itemRecord v (xs ++ ys)) xs ys ns t := by
  have hpos := lt_score_lists hxs hys hfits
  obtain ⟨v, as, rfl⟩ := List.exists_cons_of_ne_nil hxs.nonempty
  obtain ⟨u, bs, rfl⟩ := List.exists_cons_of_ne_nil hys.nonempty
  have hrun : ¬ (as = [] ∧ bs = []) := by
    rintro ⟨rfl, rfl⟩
    simp at hlong
  let all := v :: as ++ u :: bs
  let P (t : MergeState) : Prop :=
    t.left = [("ul_items", .list ((v :: as).map fun w => .map (itemRecord v all w)))] ∧
      t.right = [("ul_items", .list ((u :: bs).map fun w => .map (itemRecord v all w)))]
  have hmerge (fuel : Nat) : ∃ t, Returns (mergeSiblings α (mergeNode α (fuel + 2)) [] (inside "ul")
      (items (v :: as)) (items (u :: bs))) {} [.block .loop ["ul_items"] (common ["ul_items"] v all)] t ∧ P t := by
    obtain ⟨t, ht, -, hfields⟩ := returns_lists_loop (α := α) (s := {}) hxs.trimmed hys.trimmed hrun hdiffer rfl rfl
      List.not_mem_nil List.not_mem_nil
    exact ⟨t, ht, hfields⟩
  obtain ⟨t, ht, hleft, hright⟩ := returns_lists_listOf P (anyForeign_items _) hpos hmerge
  exact ⟨v, List.mem_cons_self, _, t, ht, rfl, hleft, hright⟩

/-- Unless they are the same, two lists of items become one loop over all of them. Its template keeps the text that all
items share, or else has a slot for it; then the record of each item holds its text. -/
theorem lists_become_loop (hxs : Listed xs) (hys : Listed ys) (hdiffer : xs ≠ ys)
    (hlong : 2 ≤ xs.length ∨ 2 ≤ ys.length) (hfits : Counting.Fits α (max xs.length ys.length)) :
    ∃ ns t, Returns (lists α [] {} (listOf (items xs)) (listOf (items ys))) {} ns t ∧
      (∀ v, (∀ w ∈ xs ++ ys, w = v) → Itemized (item (.text v)) (fun _ => []) xs ys ns t) ∧
      ((¬ ∃ v, ∀ w ∈ xs ++ ys, w = v) →
        Itemized (item (.slot .plain ["ul_items", "li"])) (fun x => [("li", .text x)]) xs ys ns t) := by
  obtain ⟨v, hv, ns, t, ht, hitems⟩ := returns_lists_items hxs hys hdiffer hlong hfits
  refine ⟨ns, t, ht, fun w hall => ?_, fun hmixed => ?_⟩
  · obtain rfl : v = w := hall v (List.mem_append_left _ hv)
    have hrecord : itemRecord v (xs ++ ys) = fun _ => [] := funext fun _ => if_pos hall
    rwa [common, if_pos hall, hrecord] at hitems
  · have hnot : ¬ ∀ w ∈ xs ++ ys, w = v := fun hall => hmixed ⟨v, hall⟩
    have hrecord : itemRecord v (xs ++ ys) = fun x => [("li", .text x)] := funext fun _ => if_neg hnot
    rwa [common, if_neg hnot, hrecord] at hitems

theorem lists_become_loop_texts :
    ∃ ns t, Returns (lists Float [] {} (listOf (items ["a", "a"])) (listOf (items ["b"]))) {} ns t ∧
      Itemized (item (.slot .plain ["ul_items", "li"])) (fun x => [("li", .text x)]) ["a", "a"] ["b"] ns t := by
  have htrimmed : ∀ t ∈ ["a", "b"], Trimmed t := by
    intro t ht
    simp only [List.mem_cons, List.not_mem_nil, or_false] at ht
    rcases ht with rfl | rfl <;> exact ⟨by decide +kernel, by decide +kernel⟩
  have hxs : Listed ["a", "a"] := ⟨List.cons_ne_nil _ _, fun t ht => htrimmed t (by simp_all)⟩
  have hys : Listed ["b"] := ⟨List.cons_ne_nil _ _, fun t ht => htrimmed t (by simp_all)⟩
  have hmixed : ¬ ∃ v, ∀ w ∈ ["a", "a"] ++ ["b"], w = v := by
    rintro ⟨v, hv⟩
    exact absurd ((hv "a" (by simp)).trans (hv "b" (by simp)).symm) (by decide)
  obtain ⟨ns, t, ht, -, hslot⟩ := lists_become_loop (α := Float) hxs hys (by decide) (.inl (by decide))
    (Counting.fits_mono (by decide) Counting.fits_three)
  exact ⟨ns, t, ht, hslot hmixed⟩

end Stencil.Collection
