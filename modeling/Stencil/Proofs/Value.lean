import Stencil.Proofs.Assoc
import Stencil.Record

namespace Stencil

namespace Value

def under? : Value → List String → Option Value
  | v, [] => some v
  | map fields, k :: path => (fields.lookup k).bind fun v => under? v path
  | _, _ :: _ => none

def Misses (v : Value) (path : List String) : Prop :=
  ∃ front k rest fields, path = front ++ k :: rest ∧ v.under? front = some (map fields) ∧ fields.lookup k = none

def Blocks (v : Value) (path : List String) : Prop :=
  (∃ front leaf, front <+: path ∧ v.under? front = some leaf ∧ leaf.isMap = false) ∨
    ∃ fields, v.under? path = some (map fields)

mutual
def Distinct : Value → Prop
  | map fields => (Assoc.keys fields).Nodup ∧ DistinctFields fields
  | _ => True

def DistinctFields : List (String × Value) → Prop
  | [] => True
  | (_, v) :: rest => Distinct v ∧ DistinctFields rest
end

variable {u v leaf : Value} {x y fields : Fields} {k : String} {front path : List String}

@[simp]
theorem under?_nil (v : Value) : v.under? [] = some v := by
  cases v <;> rfl

theorem under?_map (fields : Fields) (k : String) (path : List String) :
    (map fields).under? (k :: path) = (fields.lookup k).bind fun v => v.under? path := rfl

theorem DistinctFields.of_mem {e : String × Value} (h : DistinctFields fields) (he : e ∈ fields) : e.2.Distinct := by
  induction fields with
  | nil => cases he
  | cons f fields ih =>
    rcases List.mem_cons.mp he with rfl | he
    · exact h.1
    · exact ih h.2 he

theorem Distinct.of_lookup (h : (map fields).Distinct) (hk : fields.lookup k = some v) : v.Distinct :=
  h.2.of_mem (Assoc.mem_of_lookup hk)

@[simp]
theorem overlay_of_leaf (h : v.isMap = false) (u : Value) : overlay u v = u := by
  cases v with
  | map fields => cases h
  | _ => rfl

@[simp]
theorem overlay_leaf (h : u.isMap = false) (v : Value) : overlay u v = u := by
  cases u with
  | map fields => cases h
  | _ => cases v <;> rfl

def united : Option Value → Option Value → Option Value
  | some u, some v => some (overlay u v)
  | some u, none => some u
  | none, other => other

theorem lookup_union (hy : (Assoc.keys y).Nodup) (k : String) :
    (mergeFields x y).lookup k = united (x.lookup k) (y.lookup k) := by
  induction y generalizing x with
  | nil => cases hx : x.lookup k <;> simp [mergeFields, united, hx]
  | cons e y ih =>
    obtain ⟨j, v⟩ := e
    rw [Assoc.keys_cons, List.nodup_cons] at hy
    rw [mergeFields, ih hy.2]
    by_cases hk : k = j
    · subst hk
      rw [Assoc.lookup_eq_none_iff.mpr hy.1, List.lookup_cons_self]
      cases x.lookup k <;> rw [Assoc.lookup_set_self] <;> rfl
    · rw [Assoc.lookup_cons_of_ne hk]
      cases x.lookup j <;> rw [Assoc.lookup_set_of_ne hk]

section Absorbing

theorem mergeFields_of_held (h : ∀ e ∈ y, ∃ u, x.lookup e.1 = some u ∧ overlay u e.2 = u) : mergeFields x y = x := by
  induction y with
  | nil => rw [mergeFields]
  | cons e y ih =>
    obtain ⟨k, v⟩ := e
    rw [List.forall_mem_cons] at h
    obtain ⟨⟨u, hu, hstays⟩, h⟩ := h
    rw [mergeFields, hu]
    dsimp only at hstays ⊢
    rw [hstays, Assoc.set_of_lookup hu]
    exact ih h

theorem mergeFields_self_of_fields (hnodup : (Assoc.keys x).Nodup) (h : ∀ e ∈ x, overlay e.2 e.2 = e.2) :
    mergeFields x x = x :=
  mergeFields_of_held fun e he => ⟨e.2, Assoc.lookup_of_mem hnodup he, h e he⟩

mutual
theorem overlay_self : (v : Value) → v.Distinct → overlay v v = v
  | .map fields, h => congrArg map (mergeFields_self_of_fields h.1 (overlay_self_fields fields h.2))
  | .null, _ | .bool _, _ | .int _, _ | .text _, _ | .list _, _ => rfl

theorem overlay_self_fields : (fields : Fields) → DistinctFields fields → ∀ e ∈ fields, overlay e.2 e.2 = e.2
  | [], _ => by simp
  | (_, v) :: fields, h => by
    rw [List.forall_mem_cons]
    exact ⟨overlay_self v h.1, overlay_self_fields fields h.2⟩
end

theorem mergeFields_again_of_fields (hnodup : (Assoc.keys y).Nodup)
    (h : ∀ e ∈ y, ∀ u, overlay (overlay u e.2) e.2 = overlay u e.2) (hself : ∀ e ∈ y, overlay e.2 e.2 = e.2) :
    mergeFields (mergeFields x y) y = mergeFields x y := by
  apply mergeFields_of_held
  intro e he
  rw [lookup_union hnodup, Assoc.lookup_of_mem hnodup he]
  cases x.lookup e.1 with
  | none => exact ⟨e.2, rfl, hself e he⟩
  | some u => exact ⟨overlay u e.2, rfl, h e he u⟩

mutual
theorem overlay_again : (v : Value) → v.Distinct → ∀ u, overlay (overlay u v) v = overlay u v
  | .map fields, h, .map _ => congrArg map (mergeFields_again_of_fields h.1 (overlay_again_fields fields h.2)
      (overlay_self_fields fields h.2))
  | .map _, _, .null | .map _, _, .bool _ | .map _, _, .int _ | .map _, _, .text _ | .map _, _, .list _ => rfl
  | .null, _, _ | .bool _, _, _ | .int _, _, _ | .text _, _, _ | .list _, _, _ => rfl

theorem overlay_again_fields : (fields : Fields) → DistinctFields fields →
    ∀ e ∈ fields, ∀ u, overlay (overlay u e.2) e.2 = overlay u e.2
  | [], _ => by simp
  | (_, v) :: fields, h => by
    rw [List.forall_mem_cons]
    exact ⟨overlay_again v h.1, overlay_again_fields fields h.2⟩
end

end Absorbing

section Paths

theorem under?_overlay_of_leaf (hv : v.Distinct) (hfront : front <+: path) (hleaf : u.under? front = some leaf)
    (h : leaf.isMap = false) : (overlay u v).under? path = u.under? path := by
  induction front generalizing u v path with
  | nil =>
    rw [under?_nil] at hleaf
    cases hleaf
    rw [overlay_leaf h]
  | cons k front ih =>
    obtain ⟨rest, rfl⟩ := hfront
    cases u with
    | map x =>
      rw [under?_map, Option.bind_eq_some_iff] at hleaf
      obtain ⟨w, hw, hleaf⟩ := hleaf
      cases v with
      | map y =>
        change (map (mergeFields x y)).under? (k :: (front ++ rest)) = (map x).under? (k :: (front ++ rest))
        rw [under?_map, under?_map, lookup_union hv.1, hw]
        cases hk : y.lookup k with
        | none => rfl
        | some w' => exact ih (hv.of_lookup hk) ⟨rest, rfl⟩ hleaf
      | _ => rfl
    | _ => cases hleaf

theorem under?_overlay_of_misses (hv : v.Distinct) (h : u.Misses path) :
    (overlay u v).under? path = v.under? path := by
  obtain ⟨front, k, rest, fields, rfl, hfields, hk⟩ := h
  induction front generalizing u v with
  | nil =>
    rw [under?_nil] at hfields
    cases hfields
    rw [List.nil_append]
    cases v with
    | map y =>
      change (map (mergeFields fields y)).under? (k :: rest) = _
      rw [under?_map, under?_map, lookup_union hv.1, hk]
      rfl
    | _ =>
      change (fields.lookup k).bind _ = none
      rw [hk, Option.bind_none]
  | cons j front ih =>
    cases u with
    | map x =>
      rw [under?_map, Option.bind_eq_some_iff] at hfields
      obtain ⟨w, hw, hfields⟩ := hfields
      -- a path that the right does not share ends with the left's missing key
      have hnone : w.under? (front ++ k :: rest) = none := by
        have hnull := ih (v := .null) trivial hfields
        rw [overlay_of_leaf rfl] at hnull
        rw [hnull]
        cases front <;> rfl
      cases v with
      | map y =>
        change (map (mergeFields x y)).under? (j :: (front ++ k :: rest)) = (map y).under? (j :: (front ++ k :: rest))
        rw [under?_map, under?_map, lookup_union hv.1, hw]
        cases hj : y.lookup j with
        | none => exact hnone
        | some w' => exact ih (hv.of_lookup hj) hfields
      | _ =>
        change (x.lookup j).bind _ = none
        rw [hw]
        exact hnone
    | _ => cases hfields

theorem under?_overlay_of_map (hv : v.Distinct) (h : u.under? path = some (map fields)) :
    (overlay u v).under? path = some (overlay (map fields) ((v.under? path).getD .null)) := by
  induction path generalizing u v with
  | nil =>
    rw [under?_nil] at h
    cases h
    simp
  | cons k path ih =>
    cases u with
    | map x =>
      rw [under?_map, Option.bind_eq_some_iff] at h
      obtain ⟨w, hw, h⟩ := h
      cases v with
      | map y =>
        change (map (mergeFields x y)).under? (k :: path) = _
        rw [under?_map, under?_map, lookup_union hv.1, hw]
        cases hk : y.lookup k with
        | none => exact h
        | some w' => exact ih (hv.of_lookup hk) h
      | _ =>
        change (x.lookup k).bind _ = _
        rw [hw]
        exact h
    | _ => cases h

theorem blocks_or_misses (v : Value) (path : List String) : v.Blocks path ∨ v.Misses path := by
  induction path generalizing v with
  | nil =>
    cases hmap : v.isMap with
    | false => exact .inl (.inl ⟨[], v, List.nil_prefix, under?_nil v, hmap⟩)
    | true =>
      cases v with
      | map fields => exact .inl (.inr ⟨fields, rfl⟩)
      | _ => cases hmap
  | cons k path ih =>
    cases v with
    | map fields =>
      cases hk : fields.lookup k with
      | none => exact .inr ⟨[], k, path, fields, rfl, rfl, hk⟩
      | some w =>
        have hstep (rest : List String) : (map fields).under? (k :: rest) = w.under? rest := by
          rw [under?_map, hk, Option.bind_some]
        rcases ih w with (⟨front, leaf, hfront, hleaf, h⟩ | ⟨inner, hinner⟩) | ⟨front, j, rest, inner, rfl, hinner, hj⟩
        · exact .inl (.inl ⟨k :: front, leaf, (List.prefix_cons_inj k).mpr hfront, (hstep front).trans hleaf, h⟩)
        · exact .inl (.inr ⟨inner, (hstep path).trans hinner⟩)
        · exact .inr ⟨k :: front, j, rest, inner, rfl, (hstep front).trans hinner, hj⟩
    | _ => exact .inl (.inl ⟨[], _, List.nil_prefix, rfl, rfl⟩)

end Paths

/-- The union of two maps holds at every path what the left one holds there, and only where that lacks a key on the
way what the right one holds. -/
theorem union_left_biased (hx : (map x).Distinct) (hy : (map y).Distinct) :
    (∀ path front leaf, front <+: path → (map x).under? front = some leaf → leaf.isMap = false →
      (map (mergeFields x y)).under? path = (map x).under? path) ∧
    (∀ path, (map x).Misses path → (map (mergeFields x y)).under? path = (map y).under? path) ∧
    (∀ path u, (map x).under? path = some (map u) →
      (map (mergeFields x y)).under? path = some (match (map y).under? path with
        | some (map w) => map (mergeFields u w)
        | _ => map u)) ∧
    mergeFields x x = x ∧ mergeFields (mergeFields x y) y = mergeFields x y ∧
    ∀ chain chain', let merged := Record.merge ⟨chain, x⟩ ⟨chain', y⟩
      merged.chain = chain ∧
      (∀ path leaf, (map x).under? path = some leaf → leaf.isMap = false →
        (map merged.fields).under? path = some leaf) ∧
      ∀ path leaf, (map y).under? path = some leaf → leaf.isMap = false →
        (map merged.fields).under? path = some leaf ∨ (map x).Blocks path := by
  have hleaf {path front : List String} {leaf : Value} (hfront : front <+: path)
      (hheld : (map x).under? front = some leaf) (h : leaf.isMap = false) :
      (map (mergeFields x y)).under? path = (map x).under? path :=
    under?_overlay_of_leaf (v := map y) hy hfront hheld h
  have hgap {path : List String} (h : (map x).Misses path) :
      (map (mergeFields x y)).under? path = (map y).under? path :=
    under?_overlay_of_misses (v := map y) hy h
  refine ⟨fun _ _ _ hfront => hleaf hfront, fun _ => hgap, fun path u hu => ?_, ?_, ?_, fun _ _ => ⟨rfl, ?_, ?_⟩⟩
  · have hmap := under?_overlay_of_map (v := map y) hy hu
    change (map (mergeFields x y)).under? path = _ at hmap
    rw [hmap]
    rcases (map y).under? path with _ | _ | _ | _ | _ | _ | w <;> rfl
  · exact mergeFields_self_of_fields hx.1 (overlay_self_fields x hx.2)
  · exact mergeFields_again_of_fields hy.1 (overlay_again_fields y hy.2) (overlay_self_fields y hy.2)
  · intro path leaf hheld h
    exact (hleaf (List.prefix_refl path) hheld h).trans hheld
  · intro path leaf hheld _
    rcases blocks_or_misses (map x) path with hblocks | hmisses
    · exact .inr hblocks
    · exact .inl ((hgap hmisses).trans hheld)

theorem union_left_biased_page :
    let x := [("title", .text "Home"), ("meta", .map [("a", .int 1)])]
    let y := [("title", .text "About"), ("extra", .list [.int 1, .int 2]),
      ("meta", .map [("a", .int 9), ("b", .int 2)])]
    (map x).Distinct ∧ (map y).Distinct ∧ (map x).Misses ["meta", "b"] ∧
      (map (mergeFields x y)).under? ["meta", "b"] = some (.int 2) ∧
      mergeFields x y = [("title", .text "Home"), ("meta", .map [("a", .int 1), ("b", .int 2)]),
        ("extra", .list [.int 1, .int 2])] := by
  intro x y
  have hx : (map x).Distinct := by simp [x, Distinct, DistinctFields]
  have hy : (map y).Distinct := by simp [y, Distinct, DistinctFields]
  have hmisses : (map x).Misses ["meta", "b"] := ⟨["meta"], "b", [], [("a", .int 1)], rfl, rfl, rfl⟩
  exact ⟨hx, hy, hmisses, (union_left_biased hx hy).2.1 _ hmisses, rfl⟩

end Value

end Stencil
