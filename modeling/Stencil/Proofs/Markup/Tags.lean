import Stencil.Proofs.Markup.Passing
import Stencil.Proofs.Text

namespace Stencil.Markup

open Text

def isLowChar (c : Char) : Bool := c.isLower || c.isDigit || c == '-'

def isLowName (s : String) : Bool :=
  s.toList.head?.any Char.isLower && s.toList.all isLowChar

theorem isAlpha_of_isLower {c : Char} (h : c.isLower = true) : c.isAlpha = true :=
  Bool.or_eq_true_iff.mpr (.inr h)

theorem isLowChar_ascii {c : Char} (h : isLowChar c = true) : c.toNat < 128 := by
  rw [isLowChar, Bool.or_eq_true, Bool.or_eq_true] at h
  obtain (h | h) | h := h
  · exact ascii_of_isAlphanum (Bool.or_eq_true_iff.mpr (.inl (isAlpha_of_isLower h)))
  · exact ascii_of_isAlphanum (Bool.or_eq_true_iff.mpr (.inr h))
  · obtain rfl := beq_iff_eq.mp h
    decide

theorem names_of_isLowChar {c : Char} (h : isLowChar c = true) :
    isTagNameChar c = true ∧ isEndNameChar c = true ∧ isBlank c = false ∧ c ≠ '/' ∧ c ≠ '=' ∧ c ≠ '>' := by
  have hc := isLowChar_ascii h
  revert h
  exact forall_ascii (P := fun c => isLowChar c = true →
    isTagNameChar c = true ∧ isEndNameChar c = true ∧ isBlank c = false ∧ c ≠ '/' ∧ c ≠ '=' ∧ c ≠ '>')
    (by decide +kernel) hc

theorem lower_of_isLowChar {c : Char} (h : isLowChar c = true) : c ≠ 'İ' ∧ c ≠ 'Σ' ∧ lowerChar c = c := by
  have hc := isLowChar_ascii h
  revert h
  exact forall_ascii (P := fun c => isLowChar c = true → c ≠ 'İ' ∧ c ≠ 'Σ' ∧ lowerChar c = c) (by decide +kernel) hc

theorem lowerFrom_of_isLowChar {cs : List Char} (h : ∀ c ∈ cs, isLowChar c = true) (before acc : List Char) :
    lowerFrom before acc cs = acc.reverse ++ cs := by
  induction cs generalizing before acc with
  | nil => rw [lowerFrom, List.append_nil]
  | cons c cs ih =>
    obtain ⟨hc, hcs⟩ := List.forall_mem_cons.mp h
    obtain ⟨hdotted, hsigma, hlow⟩ := lower_of_isLowChar hc
    rw [lowerFrom, ih hcs]
    simp [hdotted, hsigma, hlow]

variable {s : String}

theorem exists_of_isLowName (h : isLowName s = true) :
    ∃ first more, s.toList = first :: more ∧ first.isLower = true ∧ ∀ c ∈ first :: more, isLowChar c = true := by
  obtain ⟨hfirst, hall⟩ := Bool.and_eq_true_iff.mp h
  cases hs : s.toList with
  | nil => rw [hs] at hfirst; cases hfirst
  | cons first more =>
    rw [hs] at hfirst hall
    exact ⟨first, more, rfl, hfirst, List.all_eq_true.mp hall⟩

theorem lower_of_isLowName (h : isLowName s = true) : lower s = s := by
  obtain ⟨first, more, hs, -, hall⟩ := exists_of_isLowName h
  rw [lower, hs, lowerFrom_of_isLowChar hall, List.reverse_nil, List.nil_append, ← hs, String.ofList_toList]

def endLetters (name : String) : List Char := '<' :: '/' :: (name.toList ++ ['>'])

theorem properEndName?_low (h : isLowName s = true) (rest : List Char) :
    properEndName? ('<' :: '/' :: (s.toList ++ '>' :: rest)) = some s.toList := by
  obtain ⟨first, more, hs, hfirst, hall⟩ := exists_of_isLowName h
  have hrun : ∀ c ∈ s.toList, isEndNameChar c = true := fun c hc => (names_of_isLowChar (hall c (hs ▸ hc))).2.1
  have hstart : (s.toList ++ '>' :: rest).dropWhile isBlank = s.toList ++ '>' :: rest := by
    refine dropWhile_stops fun c hc => ?_
    rw [hs] at hc
    obtain rfl := Option.some.inj hc
    exact (names_of_isLowChar (hall _ List.mem_cons_self)).2.2.1
  have hname : (s.toList ++ '>' :: rest).takeWhile isEndNameChar = s.toList :=
    takeWhile_stops hrun fun c hc => by obtain rfl := Option.some.inj hc; rfl
  have hclose : (List.dropWhile isBlank ('>' :: rest)).head? = some '>' := rfl
  simp only [properEndName?, List.drop_succ_cons, List.drop_zero, hstart, hname, List.drop_left, hclose]
  simp only [hs, isAlpha_of_isLower hfirst, Bool.true_and, BEq.rfl, if_true]

theorem passes_end_tag (h : isLowName s = true) (rest : List Char) :
    Passes rest (endLetters s ++ rest) [.closing s] := by
  obtain ⟨first, more, hs, hfirst, hall⟩ := exists_of_isLowName h
  have hclose : untilClose? ('/' :: (s.toList ++ '>' :: rest)) = some ('/' :: s.toList) := by
    rw [← List.cons_append]
    apply untilClose?_of_not_mem
    rw [List.mem_cons, hs]
    rintro (heq | hmem)
    · cases heq
    · exact (names_of_isLowChar (hall _ hmem)).2.2.2.2.2 rfl
  have hfound : endTag? ('<' :: '/' :: (s.toList ++ '>' :: rest)) = some (.closing s, s.toList.length + 1 + 2) := by
    rw [endTag?]
    dsimp only [List.drop]
    rw [hclose, properEndName?_low h]
    dsimp only
    rw [String.ofList_toList, lower_of_isLowName h]
    rfl
  refine .tag (n := s.toList.length + 1 + 2) (by simp [endLetters]) (by omega) ?_ nofun
  rw [← hfound]
  simp [endLetters, step]

section Values

theorem decodeFrom_escaped (acc : List Char) (c : Char) (rest : List Char) :
    decodeFrom acc 0 ((escapeValueChar c).toList ++ rest) = decodeFrom (c :: acc) 0 rest := by
  unfold escapeValueChar
  split
  next => rfl
  next => rfl
  next =>
    unfold escapeTextChar
    split
    next => rfl
    next => rfl
    next => rfl
    next hamp _ _ =>
      rw [String.toList_singleton, List.singleton_append, decodeFrom, beq_false_of_ne hamp, if_neg Bool.false_ne_true]

theorem decodeFrom_flatMap (acc cs : List Char) :
    decodeFrom acc 0 (cs.flatMap fun c => (escapeValueChar c).toList) = acc.reverse ++ cs := by
  induction cs generalizing acc with
  | nil => rw [List.flatMap_nil, decodeFrom, List.append_nil]
  | cons c cs ih =>
    rw [List.flatMap_cons, decodeFrom_escaped, ih, List.reverse_cons, List.append_assoc, List.singleton_append]

theorem decodeValue_escapeValue (v : String) : decodeValue (escapeValue v).toList = v := by
  rw [decodeValue, escapeValue, String.toList_join, List.flatMap_map, decodeFrom_flatMap, List.reverse_nil,
    List.nil_append, String.ofList_toList]

theorem quote_not_mem_escapeValue (v : String) : '"' ∉ (escapeValue v).toList := by
  rw [escapeValue, String.toList_join, List.flatMap_map, List.mem_flatMap]
  rintro ⟨c, -, hc⟩
  unfold escapeValueChar at hc
  split at hc
  next => revert hc; decide
  next => revert hc; decide
  next hquote _ =>
    unfold escapeTextChar at hc
    split at hc
    next => revert hc; decide
    next => revert hc; decide
    next => revert hc; decide
    next =>
      rw [String.toList_singleton, List.mem_singleton] at hc
      exact hquote hc.symm

end Values

namespace Cursor

def In (cs : List Char) (c : Cursor) : Prop := c.rest = cs.drop c.position

variable {c : Cursor} {cs rest : List Char}

theorem In.pass (h : c.In cs) (run : List Char) : (c.pass run).In cs := by
  rw [In, Cursor.pass, h, List.drop_drop]

theorem pass_nil (c : Cursor) : c.pass [] = c := by
  rw [Cursor.pass, List.getLastD_nil, List.length_nil, List.drop_zero, Nat.add_zero]

theorem pass_rest {run : List Char} (h : c.rest = run ++ rest) : (c.pass run).rest = rest := by
  rw [Cursor.pass, h, List.drop_left]

theorem passWhile_of_stops {p : Char → Bool} (h : ∀ d ∈ c.rest.head?, p d = false) : c.passWhile p = c := by
  have hrun : c.rest.takeWhile p = [] := @takeWhile_stops p [] c.rest nofun h
  rw [passWhile, hrun, pass_nil]

end Cursor

def attributeLetters (attrs : List (String × String)) : List Char :=
  attrs.flatMap fun (n, v) => ' ' :: (n.toList ++ '=' :: '"' :: ((escapeValue v).toList ++ ['"']))

variable {c : Cursor} {cs rest : List Char}

theorem attributeValue?_quoted {value : List Char} (hvalue : '"' ∉ value)
    (hc : c.rest = '=' :: '"' :: (value ++ '"' :: rest)) :
    ∃ d, attributeValue? c = some (value, d) ∧ d.rest = rest ∧ ∀ cs, c.In cs → d.In cs := by
  have hstart : c.passWhile isBlank = c := Cursor.passWhile_of_stops fun d hd => by
    rw [hc] at hd
    obtain rfl := Option.some.inj hd
    rfl
  have hsigns : c.rest.takeWhile (· == '=') = ['='] := by rw [hc]; rfl
  have hafter : (c.pass ['=']).rest = '"' :: (value ++ '"' :: rest) := Cursor.pass_rest hc
  have hquote : (c.pass ['=']).passWhile isBlank = c.pass ['='] := Cursor.passWhile_of_stops fun d hd => by
    rw [hafter] at hd
    obtain rfl := Option.some.inj hd
    rfl
  have hcontent : (value ++ '"' :: rest).takeWhile (· != '"') = value :=
    takeWhile_stops (fun d hd => bne_iff_ne.mpr fun heq => hvalue (heq ▸ hd)) fun d hd => by
      obtain rfl := Option.some.inj hd
      rfl
  refine ⟨(c.pass ['=']).pass ('"' :: value ++ ['"']), ?_, Cursor.pass_rest (by rw [hafter]; simp), fun cs h =>
    (h.pass _).pass _⟩
  simp only [attributeValue?, hstart, hsigns, hquote, hafter, hcontent]
  simp [isQuote]

theorem breaks_of_neither {d : Char} (acc : List Char) (hblank : isBlank d = false) (hslash : d ≠ '/') :
    breaks acc (d :: rest) = acc.reverse := by
  unfold breaks
  split
  next heq => exact absurd (List.cons.inj heq).1 hslash
  next heq =>
    cases heq
    simp [hblank, hslash]
  next heq => cases heq

theorem breaks_of_blank {d : Char} (hblank : isBlank d = false) (hslash : d ≠ '/') :
    breaks [] (' ' :: d :: rest) = [' '] := by
  unfold breaks
  split
  next heq => cases heq
  next heq =>
    cases heq
    exact breaks_of_neither [' '] hblank hslash
  next heq => cases heq

theorem attribute?_written {name value : String} (hname : isLowName name = true) (hbefore : c.before = ' ')
    (hc : c.rest = name.toList ++ '=' :: '"' :: ((escapeValue value).toList ++ '"' :: rest)) :
    ∃ d : Cursor, attribute? c = some (name.toList, (escapeValue value).toList, d.pass (breaks [] d.rest)) ∧
      d.rest = rest ∧ ∀ cs, c.In cs → d.In cs := by
  obtain ⟨first, more, hs, -, hall⟩ := exists_of_isLowName hname
  have hrun : ∀ e ∈ more, (!(isBlank e || e == '/' || e == '=' || e == '>')) = true := by
    intro e he
    obtain ⟨-, -, hblank, hslash, hsign, hclose⟩ := names_of_isLowChar (hall e (List.mem_cons_of_mem _ he))
    simp [hblank, hslash, hsign, hclose]
  obtain ⟨-, -, hblank, hslash, -, hclose⟩ := names_of_isLowChar (hall first List.mem_cons_self)
  obtain ⟨d, hvalue, hrest, hin⟩ := attributeValue?_quoted (quote_not_mem_escapeValue value) (Cursor.pass_rest hc)
  refine ⟨d, ?_, hrest, fun cs h => hin cs (h.pass _)⟩
  rw [hs, List.cons_append] at hc
  rw [hs] at hvalue
  rw [attribute?, hc]
  dsimp only
  rw [takeWhile_stops hrun fun e he => by obtain rfl := Option.some.inj he; rfl, valueAfter, hvalue, ← hs]
  have hspace : isBlank ' ' = true := rfl
  simp [hbefore, hspace, hblank, hslash, hclose]

theorem attribute?_of_close (h : c.rest = '>' :: rest) : attribute? c = none := by
  simp [attribute?, h]

theorem attributes_of_close (h : c.rest = '>' :: rest) (acc : List (String × String)) :
    attributes c acc = (acc.reverse, c) := by
  rw [attributes]
  split
  next heq => rw [attribute?_of_close h] at heq; cases heq
  next => rfl

theorem attributes_of_attribute {name value : List Char} {d : Cursor} (h : attribute? c = some (name, value, d))
    (acc : List (String × String)) :
    attributes c acc = attributes d ((lower (String.ofList name), decodeValue value) :: acc) := by
  rw [attributes]
  split
  next heq => rw [h] at heq; cases heq; rfl
  next heq => rw [h] at heq; cases heq

theorem attributes_written (attrs : List (String × String)) (hattrs : ∀ a ∈ attrs, isLowName a.1 = true)
    (acc : List (String × String)) (hc : c.rest = attributeLetters attrs ++ '>' :: rest) (hin : c.In cs) :
    ∃ d, attributes (c.pass (breaks [] c.rest)) acc = (acc.reverse ++ attrs, d) ∧ d.rest = '>' :: rest ∧ d.In cs := by
  induction attrs generalizing c acc with
  | nil =>
    have hbreaks : breaks [] c.rest = [] := by rw [hc]; rfl
    rw [hbreaks, Cursor.pass_nil, attributes_of_close hc, List.append_nil]
    exact ⟨c, rfl, hc, hin⟩
  | cons a attrs ih =>
    obtain ⟨name, value⟩ := a
    obtain ⟨hname, hattrs⟩ := List.forall_mem_cons.mp hattrs
    obtain ⟨first, more, hs, -, hall⟩ := exists_of_isLowName hname
    obtain ⟨-, -, hblank, hslash, -, -⟩ := names_of_isLowChar (hall first List.mem_cons_self)
    have hletters : c.rest = [' '] ++ (name.toList ++ '=' :: '"' :: ((escapeValue value).toList ++ '"' ::
        (attributeLetters attrs ++ '>' :: rest))) := by
      rw [hc, attributeLetters, List.flatMap_cons]
      simp [attributeLetters]
    have hbreaks : breaks [] c.rest = [' '] := by
      rw [hletters, hs]
      exact breaks_of_blank hblank hslash
    have hpass := Cursor.pass_rest hletters
    have hbefore : (c.pass [' ']).before = ' ' := rfl
    rw [hbreaks]
    obtain ⟨d, hattribute, hd, hdin⟩ := attribute?_written hname hbefore hpass
    rw [attributes_of_attribute hattribute, String.ofList_toList, lower_of_isLowName hname, decodeValue_escapeValue]
    obtain ⟨e, hrest, he, hein⟩ := ih hattrs ((name, value) :: acc) hd (hdin _ (hin.pass _))
    refine ⟨e, ?_, he, hein⟩
    rw [hrest, List.reverse_cons, List.append_assoc, List.singleton_append]

def startLetters (name : String) (attrs : List (String × String)) : List Char :=
  '<' :: (name.toList ++ (attributeLetters attrs ++ ['>']))

theorem head?_attributeLetters (attrs : List (String × String)) (rest : List Char) :
    ∀ d ∈ (attributeLetters attrs ++ '>' :: rest).head?, isTagNameChar d = false := by
  intro d hd
  cases attrs with
  | nil => obtain rfl := Option.some.inj hd; rfl
  | cons a attrs => obtain rfl := Option.some.inj hd; rfl

theorem startTag?_written {name : String} {attrs : List (String × String)} (hname : isLowName name = true)
    (hattrs : ∀ a ∈ attrs, isLowName a.1 = true) (rest : List Char) :
    startTag? (startLetters name attrs ++ rest) =
      some (.opening name attrs false, (startLetters name attrs).length) := by
  obtain ⟨first, more, hs, -, hall⟩ := exists_of_isLowName hname
  have hrun : ∀ c ∈ name.toList, isTagNameChar c = true := fun c hc => (names_of_isLowChar (hall c (hs ▸ hc))).1
  obtain ⟨start, hdef⟩ : ∃ start, start = (Cursor.mk ' ' 0 (startLetters name attrs ++ rest)).pass ['<'] := ⟨_, rfl⟩
  have hstart : start.rest = name.toList ++ (attributeLetters attrs ++ '>' :: rest) := by
    rw [hdef]
    simp [Cursor.pass, startLetters]
  have hin : start.In (startLetters name attrs ++ rest) := by
    rw [hdef]
    exact Cursor.In.pass (c := ⟨' ', 0, startLetters name attrs ++ rest⟩) rfl _
  have htake : start.rest.takeWhile isTagNameChar = name.toList := by
    rw [hstart, takeWhile_stops hrun (head?_attributeLetters attrs rest)]
  obtain ⟨d, hread, hd, hdin⟩ := attributes_written attrs hattrs [] (Cursor.pass_rest hstart) (hin.pass name.toList)
  have hposition : d.position + 1 = (startLetters name attrs).length := by
    have hlength := congrArg List.length (hd.symm.trans hdin)
    simp only [List.length_cons, List.length_drop, List.length_append] at hlength
    omega
  simp only [startTag?, ← hdef, htake, hread, hd]
  rw [String.ofList_toList, lower_of_isLowName hname, hposition]
  rfl

theorem step_of_letter {first : Char} (hfirst : first.isLower = true) (more : List Char) :
    step false ('<' :: first :: more) = tagStep false ('<' :: first :: more) (startTag? ('<' :: first :: more)) := by
  have hmark (mark : Char) (hmark : mark.isLower = false) : first ≠ mark := by
    rintro rfl
    exact Bool.false_ne_true (hmark.symm.trans hfirst)
  have hslash := hmark '/' rfl
  have hquestion := hmark '?' rfl
  have hbang := hmark '!' rfl
  simp only [step]
  rw [if_pos (isAlpha_of_isLower hfirst)]

theorem passes_start_tag {name : String} {attrs : List (String × String)} (hname : isLowName name = true)
    (hattrs : ∀ a ∈ attrs, isLowName a.1 = true) (hscript : name ≠ "script") (hstyle : name ≠ "style")
    (rest : List Char) : Passes rest (startLetters name attrs ++ rest) [.opening name attrs false] := by
  obtain ⟨first, more, hs, hfirst, -⟩ := exists_of_isLowName hname
  refine .tag rfl (by simp [startLetters]) ?_ ?_
  · rw [← startTag?_written hname hattrs rest, startLetters, hs]
    exact step_of_letter hfirst _
  · rintro _ _ ⟨⟩
    exact ⟨hscript, hstyle⟩

end Stencil.Markup
