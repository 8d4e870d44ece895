import Stencil.Json.Reader
import Stencil.Proofs.Assoc

namespace Stencil

namespace Json

open Text

def Unbroken (cs : List Char) : Prop :=
  ∀ a b c d rest, cs = '\\' :: 'u' :: a :: b :: c :: d :: rest → (hexUnit? a b c d).isSome = true

section Strings

variable {acc cs rest : List Char} {c : Char}

theorem unicodeEscape_control : ∀ n : Fin 32,
    unicodeEscape n = ['\\', 'u', '0', '0', hexDigit (n / 16), hexDigit (n % 16)] ∧
      hexUnit? '0' '0' (hexDigit (n / 16)) (hexDigit (n % 16)) = some n.val := by
  decide

theorem stringBody_short {e : List Char} (h : shortEscape? c = some e) :
    stringBody acc (e ++ rest) = stringBody (c :: acc) rest := by
  unfold shortEscape? at h
  split at h <;> cases h <;> simp [stringBody, plainEscape?]

theorem stringBody_unicode (n : Fin 32) (hrest : Unbroken rest) :
    stringBody acc (unicodeEscape n ++ rest) = stringBody (Char.ofNat n :: acc) rest := by
  obtain ⟨hspelled, hunit⟩ := unicodeEscape_control n
  rw [hspelled]
  simp only [List.cons_append, List.nil_append]
  by_cases hescape : ∃ a b c d tail, rest = '\\' :: 'u' :: a :: b :: c :: d :: tail
  · obtain ⟨a, b, c, d, tail, rfl⟩ := hescape
    obtain ⟨m, hm⟩ := Option.isSome_iff_exists.mp (hrest a b c d tail rfl)
    have hlow : isHighUnit n = false := by
      have hn := n.isLt
      simp [isHighUnit]
      omega
    rw [stringBody.eq_4 _ _ _ _ _ _ _ _ _ _ _ hunit, hm]
    simp [hlow]
  · rw [stringBody.eq_5 _ _ _ _ _ _ _ hunit]
    rintro a b c d tail rfl
    exact hescape ⟨a, b, c, d, tail, rfl⟩

theorem unbroken_of_head (h : c ≠ '\\') : Unbroken (c :: cs) := by
  rintro _ _ _ _ _ heq
  cases heq
  exact absurd rfl h

theorem escapeChar_cases (c : Char) :
    shortEscape? c = some (escapeChar false c) ∨
      (∃ n : Fin 32, escapeChar false c = unicodeEscape n ∧ Char.ofNat n = c) ∨
        escapeChar false c = [c] ∧ c ≠ '"' ∧ c ≠ '\\' ∧ ¬c.toNat < 32 := by
  cases hshort : shortEscape? c with
  | some e =>
    left
    simp only [escapeChar, hshort]
  | none =>
    right
    by_cases hcontrol : c.toNat < 32
    · left
      refine ⟨⟨c.toNat, hcontrol⟩, ?_, Char.ofNat_toNat c⟩
      simp only [escapeChar, hshort, hcontrol, if_true]
    · right
      refine ⟨?_, ?_, ?_, hcontrol⟩
      · simp [escapeChar, hshort, hcontrol]
      · rintro rfl
        cases hshort
      · rintro rfl
        cases hshort

theorem unbroken_escapeChar (c : Char) (rest : List Char) : Unbroken (escapeChar false c ++ rest) := by
  rcases escapeChar_cases c with hshort | ⟨n, hn, -⟩ | ⟨hplain, -, hback, -⟩
  · generalize escapeChar false c = e at hshort
    rintro _ _ _ _ _ heq
    unfold shortEscape? at hshort
    split at hshort <;> cases hshort <;> cases heq
  · rw [hn]
    obtain ⟨hspelled, hunit⟩ := unicodeEscape_control n
    rintro _ _ _ _ _ heq
    rw [hspelled] at heq
    cases heq
    rw [hunit]
    rfl
  · rw [hplain]
    exact unbroken_of_head hback

theorem stringBody_escapeChar (hrest : Unbroken rest) :
    stringBody acc (escapeChar false c ++ rest) = stringBody (c :: acc) rest := by
  rcases escapeChar_cases c with hshort | ⟨n, hn, hc⟩ | ⟨hplain, hquote, hback, hcontrol⟩
  · exact stringBody_short hshort
  · rw [hn, stringBody_unicode n hrest, hc]
  · rw [hplain, List.singleton_append, stringBody.eq_7 _ _ _ hquote, if_neg hcontrol]
    · exact fun _ _ _ _ _ h => absurd h hback
    · exact fun _ _ h => absurd h hback

theorem stringBody_escaped :
    stringBody acc (cs.flatMap (escapeChar false) ++ '"' :: rest) = some (String.ofList (acc.reverse ++ cs), rest) := by
  induction cs generalizing acc with
  | nil => simp [stringBody]
  | cons c cs ih =>
    have hunbroken : Unbroken (cs.flatMap (escapeChar false) ++ '"' :: rest) := by
      cases cs with
      | nil => exact unbroken_of_head (by decide)
      | cons d cs =>
        rw [List.flatMap_cons, List.append_assoc]
        exact unbroken_escapeChar d _
    rw [List.flatMap_cons, List.append_assoc, stringBody_escapeChar hunbroken, ih, List.reverse_cons,
      List.append_assoc, List.singleton_append]

end Strings

mutual
def Worded : Json → Prop
  | number _ => False
  | array items => WordedItems items
  | object entries => (Assoc.keys entries).Nodup ∧ WordedEntries entries
  | _ => True

def WordedItems : List Json → Prop
  | [] => True
  | item :: rest => Worded item ∧ WordedItems rest

def WordedEntries : List (String × Json) → Prop
  | [] => True
  | (_, item) :: rest => Worded item ∧ WordedEntries rest
end

section Letters

theorem toList_literal (s : String) (rest : List Char) : (literal false s).toList ++ rest =
    '"' :: (s.toList.flatMap (escapeChar false) ++ '"' :: rest) := by
  simp [literal]

theorem toList_indent (depth : Nat) : (indent depth).toList = '\n' :: List.replicate (2 * depth) ' ' := by
  simp [indent]

theorem skipBlanks_indent (depth : Nat) (cs : List Char) :
    skipBlanks ((indent depth).toList ++ cs) = skipBlanks cs := by
  have hblanks (n : Nat) : skipBlanks (List.replicate n ' ' ++ cs) = skipBlanks cs := by
    induction n with
    | zero => rfl
    | succ n ih => simpa [List.replicate_succ, skipBlanks] using ih
  rw [toList_indent]
  simpa [skipBlanks] using hblanks (2 * depth)

def itemLetters (depth : Nat) (items : List Json) : List Char :=
  (",".intercalate (prettyItems depth items)).toList

def entryLetters (depth : Nat) (entries : List (String × Json)) : List Char :=
  (",".intercalate (prettyEntries depth entries)).toList

variable {depth : Nat} {item next : Json} {items : List Json} {key : String} {entry : String × Json}
  {entries : List (String × Json)}

theorem itemLetters_single : itemLetters depth [item] = (indent depth).toList ++ (pretty depth item).toList := by
  simp [itemLetters, prettyItems]

theorem itemLetters_cons : itemLetters depth (item :: next :: items) =
    (indent depth).toList ++ ((pretty depth item).toList ++ ',' :: itemLetters depth (next :: items)) := by
  simp [itemLetters, prettyItems, String.intercalate_cons_cons]

theorem entryLetters_single : entryLetters depth [(key, item)] =
    (indent depth).toList ++ ((literal false key).toList ++ ':' :: ' ' :: (pretty depth item).toList) := by
  simp [entryLetters, prettyEntries]

theorem entryLetters_cons : entryLetters depth ((key, item) :: entry :: entries) =
    (indent depth).toList ++ ((literal false key).toList ++ ':' :: ' ' :: ((pretty depth item).toList ++
      ',' :: entryLetters depth (entry :: entries))) := by
  simp [entryLetters, prettyEntries, String.intercalate_cons_cons]

theorem toList_pretty_array : (pretty depth (array (item :: items))).toList =
    '[' :: (itemLetters (depth + 1) (item :: items) ++ ((indent depth).toList ++ [']'])) := by
  simp [pretty, itemLetters]

theorem toList_pretty_object : (pretty depth (object (entry :: entries))).toList =
    '\x7b' :: (entryLetters (depth + 1) (entry :: entries) ++ ((indent depth).toList ++ ['\x7d'])) := by
  simp [pretty, entryLetters]

def starts : List Char :=
  ['n', 't', 'f', '"', '[', '\x7b']

theorem pretty_head (h : item.Worded) (depth : Nat) : ∃ c cs, (pretty depth item).toList = c :: cs ∧ c ∈ starts := by
  cases item with
  | null => exact ⟨'n', ['u', 'l', 'l'], by simp [pretty], by decide⟩
  | bool b =>
    cases b with
    | false => exact ⟨'f', ['a', 'l', 's', 'e'], by simp [pretty], by decide⟩
    | true => exact ⟨'t', ['r', 'u', 'e'], by simp [pretty], by decide⟩
  | number => cases h
  | string s => exact ⟨'"', _, by rw [← List.append_nil (pretty _ _).toList, pretty, toList_literal], by decide⟩
  | array items =>
    cases items with
    | nil => exact ⟨'[', [']'], by simp [pretty], by decide⟩
    | cons => exact ⟨_, _, toList_pretty_array, by decide⟩
  | object entries =>
    cases entries with
    | nil => exact ⟨'\x7b', ['\x7d'], by simp [pretty], by decide⟩
    | cons => exact ⟨_, _, toList_pretty_object, by decide⟩

theorem skipBlanks_pretty (h : item.Worded) (depth : Nat) (rest : List Char) :
    skipBlanks ((pretty depth item).toList ++ rest) = (pretty depth item).toList ++ rest := by
  obtain ⟨c, cs, hhead, hc⟩ := pretty_head h depth
  have hsolid : ∀ c ∈ starts, (c == ' ' || c == '\t' || c == '\n' || c == '\r') = false := by simp [starts]
  rw [hhead, List.cons_append, skipBlanks, hsolid c hc]
  rfl

theorem skipBlanks_quote (cs : List Char) : skipBlanks ('"' :: cs) = '"' :: cs := rfl

theorem skipBlanks_comma (cs : List Char) : skipBlanks (',' :: cs) = ',' :: cs := rfl

theorem skipBlanks_colon (cs : List Char) : skipBlanks (':' :: cs) = ':' :: cs := rfl

theorem skipBlanks_blank (cs : List Char) : skipBlanks (' ' :: cs) = skipBlanks cs := rfl

theorem itemLetters_head (h : WordedItems (item :: items)) (depth : Nat) (rest : List Char) :
    ∃ c cs, skipBlanks (itemLetters depth (item :: items) ++ rest) = c :: cs ∧ c ∈ starts := by
  obtain ⟨c, cs, hhead, hc⟩ := pretty_head h.1 depth
  cases items with
  | nil =>
    refine ⟨c, cs ++ rest, ?_, hc⟩
    rw [itemLetters_single, List.append_assoc, skipBlanks_indent, skipBlanks_pretty h.1, hhead]
    rfl
  | cons next items =>
    refine ⟨c, cs ++ ',' :: itemLetters depth (next :: items) ++ rest, ?_, hc⟩
    rw [itemLetters_cons, List.append_assoc, skipBlanks_indent, List.append_assoc, skipBlanks_pretty h.1, hhead]
    simp

theorem entryLetters_head (entry : String × Json) (entries : List (String × Json)) (depth : Nat) (rest : List Char) :
    ∃ cs, skipBlanks (entryLetters depth (entry :: entries) ++ rest) = '"' :: cs := by
  obtain ⟨key, item⟩ := entry
  cases entries with
  | nil =>
    rw [entryLetters_single, List.append_assoc, skipBlanks_indent, List.append_assoc, toList_literal]
    exact ⟨_, rfl⟩
  | cons next entries =>
    rw [entryLetters_cons, List.append_assoc, skipBlanks_indent, List.append_assoc, toList_literal]
    exact ⟨_, rfl⟩

end Letters

mutual
-- Whatever follows stays as the rest, and the length of what is written bounds the nesting of the calls.
theorem value?_pretty : (j : Json) → j.Worded → ∀ (depth fuel : Nat) (rest : List Char),
    (pretty depth j).toList.length ≤ fuel → value? fuel ((pretty depth j).toList ++ rest) = some (j, rest)
  | j, h, depth, 0, rest => by
    intro hfuel
    obtain ⟨c, cs, hhead, -⟩ := pretty_head h depth
    rw [hhead] at hfuel
    cases hfuel
  | null, _, depth, fuel + 1, rest => by
    intro _
    simp [pretty, value?, word?]
    rfl
  | bool true, _, depth, fuel + 1, rest => by
    intro _
    simp [pretty, value?, word?]
    rfl
  | bool false, _, depth, fuel + 1, rest => by
    intro _
    simp [pretty, value?, word?]
    rfl
  | string s, _, depth, fuel + 1, rest => by
    intro _
    rw [pretty, toList_literal, value?, stringBody_escaped]
    simp
  | array [], _, depth, fuel + 1, rest => by
    intro _
    simp [pretty, value?, skipBlanks]
  | array (item :: items), h, depth, fuel + 1, rest => by
    intro hfuel
    rw [toList_pretty_array] at hfuel ⊢
    have hitems := items?_pretty (item :: items) (List.cons_ne_nil _ _) h (depth + 1) depth fuel [] rest (by
      simp only [List.length_cons, List.length_append] at hfuel
      omega)
    obtain ⟨c, cs, hhead, hc⟩ := itemLetters_head h (depth + 1) ((indent depth).toList ++ ']' :: rest)
    simp only [List.cons_append, List.append_assoc, List.nil_append, value?]
    rw [hhead] at hitems ⊢
    split
    · next heq =>
      cases heq
      exact absurd hc (by decide)
    · exact hitems
  | object [], _, depth, fuel + 1, rest => by
    intro _
    simp [pretty, value?, skipBlanks]
  | object (entry :: entries), h, depth, fuel + 1, rest => by
    intro hfuel
    rw [toList_pretty_object] at hfuel ⊢
    have hentries := entries?_pretty (entry :: entries) (List.cons_ne_nil _ _) h.2 (depth + 1) depth fuel [] rest (by
      simp only [List.length_cons, List.length_append] at hfuel
      omega)
    obtain ⟨cs, hhead⟩ := entryLetters_head entry entries (depth + 1) ((indent depth).toList ++ '\x7d' :: rest)
    simp only [List.cons_append, List.append_assoc, List.nil_append, value?]
    rw [hhead] at hentries ⊢
    rw [List.reverse_nil, List.nil_append, Assoc.ofList_of_nodup h.1] at hentries
    split
    · next heq => cases heq
    · exact hentries

theorem items?_pretty : (items : List Json) → items ≠ [] → WordedItems items →
    ∀ (depth outer fuel : Nat) (acc : List Json) (rest : List Char), (itemLetters depth items).length ≤ fuel →
      items? fuel acc (skipBlanks (itemLetters depth items ++ ((indent outer).toList ++ ']' :: rest))) =
        some (array (acc.reverse ++ items), rest)
  | [], hne, _, _, _, _, _, _, _ => absurd rfl hne
  | [item], _, h, depth, outer, fuel, acc, rest, hfuel => by
    rw [itemLetters_single] at hfuel ⊢
    rw [toList_indent, List.length_append, List.length_cons] at hfuel
    obtain ⟨fuel, rfl⟩ : ∃ n, fuel = n + 1 := ⟨fuel - 1, by omega⟩
    have hvalue := value?_pretty item h.1 depth fuel ((indent outer).toList ++ ']' :: rest) (by omega)
    rw [List.append_assoc, skipBlanks_indent, skipBlanks_pretty h.1, items?, hvalue]
    simp only [skipBlanks_indent]
    simp [skipBlanks]
  | item :: next :: items, _, h, depth, outer, fuel, acc, rest, hfuel => by
    rw [itemLetters_cons] at hfuel ⊢
    rw [toList_indent] at hfuel
    simp only [List.length_append, List.length_cons] at hfuel
    obtain ⟨fuel, rfl⟩ : ∃ n, fuel = n + 1 := ⟨fuel - 1, by omega⟩
    have hrest := items?_pretty (next :: items) (List.cons_ne_nil _ _) h.2 depth outer fuel (item :: acc) rest
      (by omega)
    have hvalue := value?_pretty item h.1 depth fuel
      (',' :: (itemLetters depth (next :: items) ++ ((indent outer).toList ++ ']' :: rest))) (by omega)
    simp only [List.append_assoc, List.cons_append]
    rw [skipBlanks_indent, skipBlanks_pretty h.1, items?, hvalue]
    simp only [skipBlanks_comma, hrest, List.reverse_cons, List.append_assoc, List.singleton_append]

theorem entries?_pretty : (entries : List (String × Json)) → entries ≠ [] → WordedEntries entries →
    ∀ (depth outer fuel : Nat) (acc : List (String × Json)) (rest : List Char),
      (entryLetters depth entries).length ≤ fuel →
        entries? fuel acc (skipBlanks (entryLetters depth entries ++ ((indent outer).toList ++ '\x7d' :: rest))) =
          some (object (Assoc.ofList (acc.reverse ++ entries)), rest)
  | [], hne, _, _, _, _, _, _, _ => absurd rfl hne
  | [(key, item)], _, h, depth, outer, fuel, acc, rest, hfuel => by
    rw [entryLetters_single] at hfuel ⊢
    rw [toList_indent] at hfuel
    simp only [List.length_append, List.length_cons] at hfuel
    obtain ⟨fuel, rfl⟩ : ∃ n, fuel = n + 1 := ⟨fuel - 1, by omega⟩
    have hvalue := value?_pretty item h.1 depth fuel ((indent outer).toList ++ '\x7d' :: rest) (by omega)
    simp only [List.append_assoc, List.cons_append]
    rw [skipBlanks_indent, toList_literal, skipBlanks_quote, entries?, stringBody_escaped]
    simp only [skipBlanks_colon, skipBlanks_blank, skipBlanks_pretty h.1, hvalue, skipBlanks_indent]
    simp [skipBlanks]
  | (key, item) :: next :: entries, _, h, depth, outer, fuel, acc, rest, hfuel => by
    rw [entryLetters_cons] at hfuel ⊢
    rw [toList_indent] at hfuel
    simp only [List.length_append, List.length_cons] at hfuel
    obtain ⟨fuel, rfl⟩ : ∃ n, fuel = n + 1 := ⟨fuel - 1, by omega⟩
    have hrest := entries?_pretty (next :: entries) (List.cons_ne_nil _ _) h.2 depth outer fuel
      ((key, item) :: acc) rest (by omega)
    have hvalue := value?_pretty item h.1 depth fuel
      (',' :: (entryLetters depth (next :: entries) ++ ((indent outer).toList ++ '\x7d' :: rest))) (by omega)
    simp only [List.append_assoc, List.cons_append]
    rw [skipBlanks_indent, toList_literal, skipBlanks_quote, entries?, stringBody_escaped]
    simp only [skipBlanks_colon, skipBlanks_blank, skipBlanks_pretty h.1, hvalue, skipBlanks_comma, hrest,
      List.reverse_cons, List.reverse_nil, List.nil_append, List.append_assoc, List.singleton_append,
      String.ofList_toList]
end

theorem ofText?_text {j : Json} (h : j.Worded) {after : String} (hafter : skipBlanks after.toList = []) :
    ofText? (j.text ++ after) = some j := by
  have hletters : (j.text ++ after).toList = (pretty 0 j).toList ++ after.toList := by
    rw [text, String.toList_append]
  have hvalue := value?_pretty j h 0 (2 * (j.text ++ after).toList.length + 2) after.toList (by
    rw [hletters, List.length_append]
    omega)
  rw [ofText?, hletters]
  rw [hletters] at hvalue
  simp only [skipBlanks_pretty h, hvalue, hafter]
  rfl

end Json

end Stencil
