import Stencil.Pathname
import Stencil.Proofs.Text

namespace Stencil.Pathname

def IsPart (s : String) : Prop :=
  s ≠ "" ∧ s ≠ "." ∧ '/' ∉ s.toList

instance (s : String) : Decidable (IsPart s) :=
  inferInstanceAs (Decidable (_ ∧ _))

theorem parts_append (a b : String) : (ofText (a ++ "/" ++ b)).parts = (ofText a).parts ++ (ofText b).parts := by
  have hsplit : Text.splitWhere (· == '/') (a ++ "/" ++ b).toList =
      Text.splitWhere (· == '/') a.toList ++ Text.splitWhere (· == '/') b.toList := by
    rw [String.toList_append, String.toList_append, List.append_assoc]
    exact Text.splitWhere_append rfl
  simp only [ofText, hsplit, List.map_append, List.filter_append]

theorem parts_of_isPart {s : String} (h : IsPart s) : (ofText s).parts = [s] := by
  have hsplit : Text.splitWhere (· == '/') s.toList = [s.toList] := by
    apply Text.splitWhere_of_forall
    intro c hc
    exact beq_eq_false_iff_ne.mpr fun he => h.2.2 (he ▸ hc)
  simp [ofText, hsplit, h.1, h.2.1]

theorem parts_empty : (ofText "").parts = [] := by
  simp [ofText, Text.splitWhere]

theorem parts_dot : (ofText ".").parts = [] := by
  simp [ofText, Text.splitWhere]

theorem parts_slash (s : String) : (ofText ("/" ++ s)).parts = (ofText s).parts := by
  have h := parts_append "" s
  rwa [String.empty_append, parts_empty, List.nil_append] at h

theorem parts_intercalate {names : List String} (h : ∀ n ∈ names, IsPart n) :
    (ofText ("/".intercalate names)).parts = names := by
  induction names with
  | nil => exact parts_empty
  | cons n names ih =>
    have hn : (ofText n).parts = [n] := parts_of_isPart (h n List.mem_cons_self)
    cases names with
    | nil => simpa using hn
    | cons m names =>
      rw [String.intercalate_cons_cons, parts_append, hn, ih fun k hk => h k (List.mem_cons_of_mem _ hk),
        List.singleton_append]

theorem root_ofText (s : String) : (ofText s).root ∈ ["", "/", "//"] := by
  simp only [ofText, rootOf]
  split <;> decide

theorem parts_text {p : Pathname} (hroot : p.root ∈ ["", "/", "//"]) (hparts : ∀ part ∈ p.parts, IsPart part) :
    (ofText p.text).parts = p.parts := by
  have hnames : (ofText ("/".intercalate p.parts)).parts = p.parts := parts_intercalate hparts
  unfold text
  split
  · next hempty =>
    rw [Bool.and_eq_true, List.isEmpty_iff] at hempty
    rw [parts_dot, hempty.2]
  · simp only [List.mem_cons, List.not_mem_nil, or_false] at hroot
    rcases hroot with hroot | hroot | hroot
    · rw [hroot, String.empty_append, hnames]
    · rw [hroot, parts_slash, hnames]
    · rw [hroot, show ("//" : String) = "/" ++ "/" from rfl, String.append_assoc, parts_slash, parts_slash, hnames]

theorem stem_append_suffix (p : Pathname) : p.stem ++ p.suffix = p.name := by
  unfold stem suffix
  generalize p.name = name
  unfold splitSuffix
  dsimp only
  set tail := (name.toList.reverse.takeWhile (· != '.')).reverse with htail
  set rest := (name.toList.reverse.dropWhile (· != '.')).reverse with hrest
  have hname : name.toList = rest ++ tail := by
    rw [htail, hrest, ← List.reverse_append, List.takeWhile_append_dropWhile, List.reverse_reverse]
  have hstem : name.toList.take (name.toList.length - tail.length - 1) = rest.dropLast := by
    rw [hname, List.length_append, Nat.add_sub_cancel, List.take_append_of_le_length (Nat.sub_le ..),
      List.dropLast_eq_take]
  rw [hstem]
  split
  · exact String.append_empty
  · next hne =>
    rw [Bool.or_eq_true, not_or, List.isEmpty_iff, List.isEmpty_iff] at hne
    have hdot : rest = rest.dropLast ++ ['.'] := by
      have hsome : rest ≠ [] := fun h => hne.2 (by rw [h, List.dropLast_nil])
      have hlast : rest.getLast hsome = '.' := by
        have hhead := List.head?_dropWhile_not (· != '.') name.toList.reverse
        rw [← List.getLast?_reverse, ← hrest, List.getLast?_eq_some_getLast hsome] at hhead
        simpa using hhead
      rw [← hlast, List.dropLast_concat_getLast]
    apply String.toList_inj.mp
    rw [String.toList_append, String.toList_ofList, String.toList_ofList, hname]
    conv_rhs => rw [hdot, List.append_assoc, List.singleton_append]

end Stencil.Pathname
