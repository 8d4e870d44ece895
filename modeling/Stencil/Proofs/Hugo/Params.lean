import Mathlib.Data.List.Basic
import Stencil.Hugo.Template
import Stencil.Proofs.Registry.Coverage
import Stencil.Proofs.Text

namespace Stencil

namespace Text

theorem inRanges_filter {ranges : List (Nat × Nat)} {b n : Nat} (h : n < b) :
    inRanges (ranges.filter fun r => r.1 < b) n = inRanges ranges n := by
  unfold inRanges
  rw [List.any_filter]
  congr 1
  funext r
  by_cases hr : r.1 < b
  · simp [hr]
  · have hn : ¬r.1 ≤ n := by omega
    simp [hr, hn]

theorem isCaseIgnorable_ascii {c : Char} (h : c.toNat < 128) :
    isCaseIgnorable c = inRanges [(39, 39), (46, 46), (58, 58), (94, 94), (96, 96)] c.toNat := by
  have hranges : (caseIgnorableRanges.filter fun r => r.1 < 128) =
      [(39, 39), (46, 46), (58, 58), (94, 94), (96, 96)] := by
    decide +kernel
  rw [isCaseIgnorable, ← inRanges_filter h, hranges]

theorem isCased_ascii {c : Char} (h : c.toNat < 128) :
    isCased c = inRanges [(65, 90), (97, 122)] c.toNat := by
  have hranges : (casedRanges.filter fun r => r.1 < 128) = [(65, 90), (97, 122)] := by
    decide +kernel
  rw [isCased, ← inRanges_filter h, hranges]

def lowered (before : List Char) (c : Char) (behind : List Char) : List Char :=
  if c == 'İ' then ['i', '\u0307']
  else if c == 'Σ' then [if meetsCased before && !meetsCased behind then 'ς' else 'σ']
  else [lowerChar c]

def lowerWithin (before behind : List Char) : List Char → List Char
  | [] => []
  | c :: rest => lowered before c (rest ++ behind) ++ lowerWithin (c :: before) behind rest

theorem lowerFrom_eq (before acc xs : List Char) :
    lowerFrom before acc xs = acc.reverse ++ lowerWithin before [] xs := by
  induction xs generalizing before acc with
  | nil => simp [lowerFrom, lowerWithin]
  | cons x xs ih =>
    have hlow : (if x == 'İ' then ['\u0307', 'i']
        else if x == 'Σ' then [if meetsCased before && !meetsCased xs then 'ς' else 'σ']
        else [lowerChar x]) = (lowered before x xs).reverse := by
      unfold lowered
      split
      · rfl
      · split <;> rfl
    rw [lowerFrom, hlow, ih, lowerWithin]
    simp

theorem toList_lower (s : String) : (lower s).toList = lowerWithin [] [] s.toList := by
  rw [lower, String.toList_ofList, lowerFrom_eq]
  rfl

theorem lowerWithin_append (before behind xs ys : List Char) :
    lowerWithin before behind (xs ++ ys) =
      lowerWithin before (ys ++ behind) xs ++ lowerWithin (xs.reverse ++ before) behind ys := by
  induction xs generalizing before with
  | nil => rfl
  | cons x xs ih =>
    rw [List.cons_append, lowerWithin, lowerWithin, ih]
    simp

theorem meetsCased_append {ys zs : List Char} (xs : List Char) (h : meetsCased ys = meetsCased zs) :
    meetsCased (xs ++ ys) = meetsCased (xs ++ zs) := by
  induction xs with
  | nil => exact h
  | cons x xs ih =>
    by_cases hx : isCaseIgnorable x = true
    · simpa [meetsCased, hx] using ih
    · simp [meetsCased, hx]

theorem lowerWithin_congr {ys zs : List Char} (h : meetsCased ys = meetsCased zs) (before xs : List Char) :
    lowerWithin before ys xs = lowerWithin before zs xs := by
  induction xs generalizing before with
  | nil => rfl
  | cons x xs ih =>
    rw [lowerWithin, lowerWithin, ih, lowered, lowered, meetsCased_append xs h]

end Text

namespace Key

theorem isSafe_ascii {c : Char} (h : isSafe c = true) : c.toNat < 128 := by
  have hu : c = '_' ∨ c.isAlphanum = true := by
    simpa [isSafe, or_comm] using h
  rcases hu with rfl | hu
  · decide
  · exact Text.ascii_of_isAlphanum hu

theorem lower_of_isSafe {c : Char} (h : isSafe c = true) :
    c ≠ 'İ' ∧ c ≠ 'Σ' ∧ Text.lowerChar c = c.toLower ∧ Hugo.isParamBreak c.toLower = false ∧
      c.toLower ≠ '.' := by
  have hc := isSafe_ascii h
  revert h
  exact Text.forall_ascii (P := fun c => isSafe c = true → c ≠ 'İ' ∧ c ≠ 'Σ' ∧
    Text.lowerChar c = c.toLower ∧ Hugo.isParamBreak c.toLower = false ∧ c.toLower ≠ '.')
    (by decide +kernel) hc

theorem isCased_of_isSafe {c : Char} (h : isSafe c = true) :
    Text.isCaseIgnorable c = false ∧ Text.isCased c = c.toLower.isLower := by
  have hc := isSafe_ascii h
  rw [Text.isCaseIgnorable_ascii hc, Text.isCased_ascii hc]
  revert h
  exact Text.forall_ascii (P := fun c => isSafe c = true →
    Text.inRanges [(39, 39), (46, 46), (58, 58), (94, 94), (96, 96)] c.toNat = false ∧
      Text.inRanges [(65, 90), (97, 122)] c.toNat = c.toLower.isLower) (by decide +kernel) hc

end Key

namespace Text

variable {cs : List Char} (h : ∀ c ∈ cs, Key.isSafe c = true)

include h

theorem meetsCased_of_isSafe : meetsCased cs = (cs.map Char.toLower).head?.any Char.isLower := by
  cases cs with
  | nil => rfl
  | cons c cs =>
    obtain ⟨hignorable, hcased⟩ := Key.isCased_of_isSafe (h c List.mem_cons_self)
    simp [meetsCased, hignorable, hcased]

theorem lowerWithin_of_isSafe (before behind : List Char) :
    lowerWithin before behind cs = cs.map Char.toLower := by
  induction cs generalizing before with
  | nil => rfl
  | cons c cs ih =>
    obtain ⟨hdotted, hsigma, hlow, -⟩ := Key.lower_of_isSafe (h c List.mem_cons_self)
    rw [lowerWithin, ih fun d hd => h d (List.mem_cons_of_mem _ hd), lowered]
    simp [hdotted, hsigma, hlow]

end Text

namespace Hugo

private def joinBreak (acc : List Char × Bool) (c : Char) : List Char × Bool :=
  if !isParamBreak c then (c :: acc.1, false)
  else if acc.2 then acc else ('_' :: acc.1, true)

theorem joinBreaks_append {xs ys : List Char} (h : ∀ c ∈ ys, isParamBreak c = false) :
    joinBreaks (xs ++ ys) = joinBreaks xs ++ ys := by
  have hrest (acc : List Char × Bool) : (ys.foldl joinBreak acc).1 = ys.reverse ++ acc.1 := by
    induction ys generalizing acc with
    | nil => rfl
    | cons y ys ih =>
      rw [List.foldl_cons, ih fun c hc => h c (List.mem_cons_of_mem _ hc), joinBreak,
        h y List.mem_cons_self]
      simp
  change ((xs ++ ys).foldl joinBreak ([], false)).1.reverse = (xs.foldl joinBreak ([], false)).1.reverse ++ ys
  rw [List.foldl_append, hrest]
  simp

def leading (path : List String) : List Char :=
  path.flatMap fun part => part.toList ++ ['.']

theorem toList_intercalate_concat (path : List String) (name : String) :
    (".".intercalate (path ++ [name])).toList = leading path ++ name.toList := by
  induction path with
  | nil => simp [leading]
  | cons part path ih =>
    have hne : path ++ [name] ≠ [] := by simp
    rw [List.cons_append, String.intercalate_cons_of_ne_nil hne, String.toList_append, String.toList_append, ih]
    simp [leading]

def leadingParam (path : List String) (next : List Char) : List Char :=
  joinBreaks (Text.lowerWithin [] next (leading path))

theorem toList_formatParam (path : List String) {name : String}
    (hname : ∀ c ∈ name.toList, Key.isSafe c = true) :
    (formatParam (path ++ [name])).toList =
      leadingParam path name.toList ++ name.toList.map Char.toLower := by
  have hbreaks : ∀ c ∈ name.toList.map Char.toLower, isParamBreak c = false := by
    intro c hc
    obtain ⟨d, hd, rfl⟩ := List.mem_map.mp hc
    exact (Key.lower_of_isSafe (hname d hd)).2.2.2.1
  rw [formatParam, String.toList_ofList, Text.toList_lower, toList_intercalate_concat,
    Text.lowerWithin_append, Text.lowerWithin_of_isSafe hname, joinBreaks_append hbreaks, List.append_nil]
  rfl

theorem leadingParam_congr (path : List String) {xs ys : List Char}
    (h : Text.meetsCased xs = Text.meetsCased ys) : leadingParam path xs = leadingParam path ys := by
  rw [leadingParam, leadingParam, Text.lowerWithin_congr h]

theorem leadingParam_ends (path : List String) (next : List Char) :
    (leadingParam path next).reverse.takeWhile (· ≠ '.') = [] := by
  rcases List.eq_nil_or_concat path with rfl | ⟨path, part, rfl⟩
  · rfl
  · have hdot : ∀ before : List Char, Text.lowerWithin before next ['.'] = ['.'] := by
      intro before
      rw [Text.lowerWithin, Text.lowerWithin, Text.lowered]
      rfl
    have hbreak : ∀ c ∈ ['.'], isParamBreak c = false := by
      simp [isParamBreak, Text.isBlank]
    have hend : leading (path.concat part) = (leading path ++ part.toList) ++ ['.'] := by
      simp [leading]
    rw [leadingParam, hend, Text.lowerWithin_append, hdot, joinBreaks_append hbreak]
    simp

theorem formatParam_eq_iff (path : List String) {name other : String}
    (hname : ∀ c ∈ name.toList, Key.isSafe c = true) (hother : ∀ c ∈ other.toList, Key.isSafe c = true) :
    formatParam (path ++ [name]) = formatParam (path ++ [other]) ↔
      Text.lowerBasic name = Text.lowerBasic other := by
  rw [← String.toList_inj, toList_formatParam path hname, toList_formatParam path hother]
  constructor
  · intro h
    -- both sides are cut at their last dot, as no name has one
    have hlast {n : String} (hn : ∀ c ∈ n.toList, Key.isSafe c = true) :
        ((leadingParam path n.toList ++ n.toList.map Char.toLower).reverse.takeWhile (· ≠ '.')).reverse =
          n.toList.map Char.toLower := by
      have hdots : ∀ c ∈ (n.toList.map Char.toLower).reverse, decide (c ≠ '.') = true := by
        intro c hc
        obtain ⟨d, hd, rfl⟩ := List.mem_map.mp (List.mem_reverse.mp hc)
        simpa using (Key.lower_of_isSafe (hn d hd)).2.2.2.2
      rw [List.reverse_append, List.takeWhile_append_of_pos hdots, leadingParam_ends, List.append_nil,
        List.reverse_reverse]
    have hcut := congrArg (fun cs : List Char => (cs.reverse.takeWhile (· ≠ '.')).reverse) h
    rw [hlast hname, hlast hother] at hcut
    rw [Text.lowerBasic, Text.lowerBasic, hcut]
  · intro h
    have hlow : name.toList.map Char.toLower = other.toList.map Char.toLower := String.ofList_injective h
    have hcased : Text.meetsCased name.toList = Text.meetsCased other.toList := by
      rw [Text.meetsCased_of_isSafe hname, Text.meetsCased_of_isSafe hother, hlow]
    rw [leadingParam_congr path hcased, hlow]

end Hugo

namespace NameMap

variable (names : NameMap)

theorem renamePath_concat (scope : Scope) (path : List String) (key : String) :
    names.renamePath scope (path ++ [key]) =
      names.renamePath scope path ++ [names.nameOf (scope ++ path) key] := by
  induction path generalizing scope with
  | nil => simp [renamePath]
  | cons k path ih =>
    rw [List.cons_append, renamePath, renamePath, ih]
    simp

theorem length_renamePath (scope : Scope) (path : List String) :
    (names.renamePath scope path).length = path.length := by
  induction path generalizing scope with
  | nil => rfl
  | cons k path ih => rw [renamePath, List.length_cons, List.length_cons, ih]

end NameMap

namespace Registry

variable {g : Registry} {wanted : Scope → String → Bool} {scope : Scope}

theorem chooseName_safe {taken : List String} {above : Option String} {e : Entry} {candidates : List String}
    (hkey : ∀ c ∈ e.key.toList, Key.isSafe c = true) :
    ∀ c ∈ (chooseName taken above e candidates).toList, Key.isSafe c = true := by
  have hnormal (s : String) : ∀ c ∈ (Key.normalize s).toList, Key.isSafe c = true :=
    (Key.clean_normalize s).1
  unfold chooseName
  dsimp only
  split
  · next name hname =>
    obtain ⟨candidate, -, rfl⟩ := List.mem_map.mp (List.mem_of_find?_eq_some hname)
    exact hnormal candidate
  · apply Key.isSafe_numbered
    intro c hc
    split at hc
    · exact hkey c hc
    · exact hnormal _ c hc

theorem safe_of_name? {key name : String} (hkey : ∀ c ∈ key.toList, Key.isSafe c = true)
    (h : (g.displayNames wanted).name? scope key = some name) :
    ∀ c ∈ name.toList, Key.isSafe c = true := by
  obtain ⟨e, -, rfl, taken, above, rfl⟩ := displayNames_chosen h
  exact chooseName_safe hkey

end Registry

namespace Hugo

theorem params_eq_iff (g : Registry) (wanted : Scope → String → Bool) (scope : Scope)
    {key other name otherName : String}
    (hkey : ∀ c ∈ key.toList, Key.isSafe c = true) (hother : ∀ c ∈ other.toList, Key.isSafe c = true)
    (hne : key ≠ other) (hname : (g.displayNames wanted).name? scope key = some name)
    (hotherName : (g.displayNames wanted).name? scope other = some otherName) :
    name ≠ otherName ∧
      (formatParam ((g.displayNames wanted).renameReference (scope ++ [key])) =
          formatParam ((g.displayNames wanted).renameReference (scope ++ [other])) ↔
        Text.lowerBasic name = Text.lowerBasic otherName) ∧
      ∀ depth ≤ scope.length,
        param depth ((g.displayNames wanted).renameReference (scope ++ [key])) =
            param depth ((g.displayNames wanted).renameReference (scope ++ [other])) ↔
          Text.lowerBasic name = Text.lowerBasic otherName := by
  have hsafe := Registry.safe_of_name? hkey hname
  have hotherSafe := Registry.safe_of_name? hother hotherName
  have hpath {k n : String} (hn : (g.displayNames wanted).name? scope k = some n) :
      (g.displayNames wanted).renameReference (scope ++ [k]) =
        (g.displayNames wanted).renamePath [] scope ++ [n] := by
    rw [NameMap.renameReference, NameMap.renamePath_concat, List.nil_append, NameMap.nameOf_of_name? hn]
  have hformat (path : List String) := formatParam_eq_iff path hsafe hotherSafe
  rw [hpath hname, hpath hotherName]
  refine ⟨?_, hformat _, ?_⟩
  · rintro rfl
    apply hne
    apply Registry.displayNames_oneToOne.nameOf_inj (by rw [hname]; rfl) (by rw [hotherName]; rfl)
    rw [NameMap.nameOf_of_name? hname, NameMap.nameOf_of_name? hotherName]
  · intro depth hdepth
    unfold param
    split
    · rw [String.append_right_inj, hformat]
    · have hdrop : depth ≤ ((g.displayNames wanted).renamePath [] scope).length := by
        rwa [NameMap.length_renamePath]
      rw [List.drop_append_of_le_length hdrop, List.drop_append_of_le_length hdrop, String.append_right_inj,
        hformat]

def badges : Registry :=
  (({} : Registry).record [] "p_Badge" .text (some ⟨"p", [.fixed "class" "Badge"]⟩) none).record []
    "span_badge" .text (some ⟨"span", [.fixed "class" "badge"]⟩) none

theorem badges_names :
    (badges.displayNames fun _ _ => true) = [([], [("p_Badge", "Badge"), ("span_badge", "badge")])] := by
  cbv

theorem badges_params :
    "Badge" ≠ "badge" ∧
      (formatParam ((badges.displayNames fun _ _ => true).renameReference ["p_Badge"]) =
          formatParam ((badges.displayNames fun _ _ => true).renameReference ["span_badge"]) ↔
        Text.lowerBasic "Badge" = Text.lowerBasic "badge") ∧
      ∀ depth ≤ 0,
        param depth ((badges.displayNames fun _ _ => true).renameReference ["p_Badge"]) =
            param depth ((badges.displayNames fun _ _ => true).renameReference ["span_badge"]) ↔
          Text.lowerBasic "Badge" = Text.lowerBasic "badge" :=
  params_eq_iff badges (fun _ _ => true) [] (by simp [Key.isSafe]) (by simp [Key.isSafe])
    (by decide) (by rw [badges_names]; rfl) (by rw [badges_names]; rfl)

theorem badges_share_param :
    "p_Badge" ≠ "span_badge" ∧
      ((badges.displayNames fun _ _ => true).name? [] "p_Badge").isSome ∧
      ((badges.displayNames fun _ _ => true).name? [] "span_badge").isSome ∧
      formatParam ((badges.displayNames fun _ _ => true).renameReference ["p_Badge"]) = "badge" ∧
      formatParam ((badges.displayNames fun _ _ => true).renameReference ["span_badge"]) = "badge" := by
  rw [badges_names]
  decide +kernel

end Hugo

end Stencil
