import Mathlib.Data.List.Basic
import Stencil.Text.EditDistance

namespace Stencil.Text

def rowTail (c : Char) : List Char → Nat → List Nat → Nat → List Nat
  | b :: bs, diag, up :: ups, left =>
    let best := min (min (up + 1) (left + 1)) (if c == b then diag else diag + 1)
    best :: rowTail c bs up ups best
  | _, _, _, _ => []

theorem extendRow_eq (c : Char) (bs : List Char) (diag : Nat) (ups : List Nat) (left : Nat) (acc : List Nat) :
    extendRow c bs diag ups left acc = (rowTail c bs diag ups left).reverse ++ acc := by
  induction bs generalizing diag ups left acc with
  | nil => rfl
  | cons b bs ih =>
    cases ups with
    | nil => rfl
    | cons up ups =>
      rw [extendRow, rowTail, ih, List.reverse_cons, List.append_assoc]
      rfl

theorem nextRow_cons (bs : List Char) (diag : Nat) (ups : List Nat) (c : Char) :
    nextRow bs (diag :: ups) c = (diag + 1) :: rowTail c bs diag ups (diag + 1) := by
  rw [nextRow, extendRow_eq, List.reverse_append, List.reverse_reverse]
  rfl

def distance : List Char → List Char → Nat
  | [], bs => bs.length
  | a :: as, [] => (a :: as).length
  | a :: as, b :: bs =>
    min (min (distance as (b :: bs) + 1) (distance (a :: as) bs + 1))
      (if a == b then distance as bs else distance as bs + 1)

theorem distance_nil (as : List Char) : distance as [] = as.length := by
  cases as <;> rw [distance]

theorem distance_comm (as bs : List Char) : distance as bs = distance bs as := by
  induction as, bs using distance.induct with
  | case1 bs => rw [distance, distance_nil]
  | case2 a as => rw [distance, distance]
  | case3 a as b bs ihUp ihLeft ihDiag =>
    rw [distance, distance, ihUp, ihLeft, ihDiag, Nat.min_comm (distance (b :: bs) as + 1), Bool.beq_comm]

theorem eq_of_distance {as bs : List Char} (h : distance as bs = 0) : as = bs := by
  induction as, bs using distance.induct with
  | case1 bs =>
    rw [distance] at h
    exact (List.length_eq_zero_iff.mp h).symm
  | case2 a as =>
    rw [distance] at h
    exact List.length_eq_zero_iff.mp h
  | case3 a as b bs _ _ ih =>
    -- only the third way to get here costs nothing, and only where the two letters agree
    rw [distance] at h
    by_cases hab : a = b
    · rw [if_pos (by simpa using hab)] at h
      rw [hab, ih (by omega)]
    · rw [if_neg (by simpa using hab)] at h
      omega

def distanceRow (p : List Char) : List Char → List Char → List Nat
  | q, [] => [distance p q]
  | q, b :: bs => distance p q :: distanceRow p (b :: q) bs

theorem distanceRow_eq_cons (p q bs : List Char) :
    distanceRow p q bs = distance p q :: (distanceRow p q bs).tail := by
  cases bs <;> rfl

theorem distanceRow_nil (q bs : List Char) : distanceRow [] q bs = List.range' q.length (bs.length + 1) := by
  induction bs generalizing q with
  | nil =>
    rw [distanceRow, distance]
    rfl
  | cons b bs ih =>
    rw [distanceRow, ih, distance]
    rfl

theorem rowTail_distanceRow (c : Char) (p q bs : List Char) :
    rowTail c bs (distance p q) (distanceRow p q bs).tail (distance (c :: p) q) =
      (distanceRow (c :: p) q bs).tail := by
  induction bs generalizing q with
  | nil => rfl
  | cons b bs ih =>
    have hrest := ih (b :: q)
    rw [distanceRow, distanceRow, List.tail_cons, List.tail_cons, distanceRow_eq_cons, rowTail]
    rw [distanceRow_eq_cons (c :: p), ← hrest, distance]

theorem nextRow_distanceRow (c : Char) (p bs : List Char) :
    nextRow bs (distanceRow p [] bs) c = distanceRow (c :: p) [] bs := by
  have hfirst : distance p [] + 1 = distance (c :: p) [] := by
    rw [distance_nil, distance_nil, List.length_cons]
  rw [distanceRow_eq_cons, nextRow_cons, hfirst, rowTail_distanceRow, ← distanceRow_eq_cons]

theorem foldl_nextRow (as p bs : List Char) :
    as.foldl (nextRow bs) (distanceRow p [] bs) = distanceRow (as.reverse ++ p) [] bs := by
  induction as generalizing p with
  | nil => rfl
  | cons a as ih =>
    rw [List.foldl_cons, nextRow_distanceRow, ih, List.reverse_cons, List.append_assoc]
    rfl

theorem getLastD_distanceRow (p q bs : List Char) : (distanceRow p q bs).getLastD 0 = distance p (bs.reverse ++ q) := by
  induction bs generalizing q with
  | nil => rfl
  | cons b bs ih =>
    have hrest := ih (b :: q)
    rw [distanceRow_eq_cons] at hrest
    rw [distanceRow, distanceRow_eq_cons, List.reverse_cons, List.append_assoc]
    exact hrest

theorem editDistanceChars_eq (as bs : List Char) : editDistanceChars as bs = distance as.reverse bs.reverse := by
  have hfirst : List.range (bs.length + 1) = distanceRow [] [] bs := by
    rw [distanceRow_nil, List.range_eq_range']
    rfl
  rw [editDistanceChars, hfirst, foldl_nextRow, getLastD_distanceRow, List.append_nil, List.append_nil]

theorem editDistance_comm (a b : String) : editDistance a b = editDistance b a := by
  rw [editDistance, editDistance, editDistanceChars_eq, editDistanceChars_eq, distance_comm, Bool.beq_comm]

theorem editDistance_eq_zero_iff {a b : String} : editDistance a b = 0 ↔ a = b := by
  constructor
  · intro h
    by_cases hab : a = b
    · exact hab
    · rw [editDistance, if_neg (by simpa using hab), editDistanceChars_eq] at h
      exact String.toList_inj.mp (List.reverse_injective (eq_of_distance h))
  · rintro rfl
    simp [editDistance]

end Stencil.Text
