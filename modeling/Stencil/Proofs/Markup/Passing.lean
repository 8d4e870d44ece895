import Stencil.Markup.Render
import Stencil.Markup.Token.Scan

namespace Stencil.Markup

open Text

theorem takeWhile_stops {p : Char → Bool} {run rest : List Char} (hrun : ∀ c ∈ run, p c = true)
    (hrest : ∀ c ∈ rest.head?, p c = false) : (run ++ rest).takeWhile p = run := by
  rw [List.takeWhile_append_of_pos hrun]
  cases rest with
  | nil => rw [List.takeWhile_nil, List.append_nil]
  | cons c rest => rw [List.takeWhile_cons_of_neg (by rw [hrest c rfl]; exact Bool.false_ne_true), List.append_nil]

theorem dropWhile_stops {p : Char → Bool} {rest : List Char} (hrest : ∀ c ∈ rest.head?, p c = false) :
    rest.dropWhile p = rest := by
  cases rest with
  | nil => rfl
  | cons c rest => exact List.dropWhile_cons_of_neg (by rw [hrest c rfl]; exact Bool.false_ne_true)

theorem splitAtFirst?_stops {p : List Char → Bool} {body rest : List Char} (acc : List Char)
    (hbody : ∀ pre c post, body = pre ++ c :: post → p (c :: post ++ rest) = false) (hrest : p rest = true)
    (hne : rest ≠ []) : splitAtFirst? p acc (body ++ rest) = some (acc.reverse ++ body, rest) := by
  induction body generalizing acc with
  | nil =>
    obtain ⟨c, rest, rfl⟩ := List.exists_cons_of_ne_nil hne
    rw [List.nil_append, splitAtFirst?, if_pos hrest, List.append_nil]
  | cons c body ih =>
    have hc : p (c :: (body ++ rest)) = false := hbody [] c body rfl
    rw [List.cons_append, splitAtFirst?, hc, if_neg Bool.false_ne_true,
      ih (c :: acc) fun pre d post heq => hbody (c :: pre) d post (by rw [heq, List.cons_append])]
    simp

theorem untilClose?_of_not_mem {body rest : List Char} (h : '>' ∉ body) :
    untilClose? (body ++ '>' :: rest) = some body := by
  rw [untilClose?, splitAtFirst?_stops [] ?_ rfl (List.cons_ne_nil _ _)]
  · rfl
  · rintro pre c post rfl
    have hc : c ≠ '>' := fun hc => h (by simp [hc])
    simpa using hc

/-- Scanning goes from some text to `rest` and yields some tokens, outside of raw text all the way. -/
inductive Passes (rest : List Char) : List Char → List Token → Prop
  | done : Passes rest rest []
  | step {cs mid : List Char} {ts us : List Token} : step false cs = { tokens := ts, rest := mid, final := false } →
      mid.length < cs.length → Passes rest mid us → Passes rest cs (ts ++ us)

namespace Passes

variable {cs mid rest : List Char} {ts us : List Token}

theorem append (first : Passes mid cs ts) (last : Passes rest mid us) : Passes rest cs (ts ++ us) := by
  induction first with
  | done => exact last
  | step hstep hlt _ ih => rw [List.append_assoc]; exact .step hstep hlt ih

theorem single (hstep : Markup.step false cs = { tokens := ts, rest, final := false }) (hlt : rest.length < cs.length) :
    Passes rest cs ts := by
  rw [← List.append_nil ts]
  exact .step hstep hlt .done

theorem scan_eq (h : Passes [] cs ts) (acc : List Token) {fuel : Nat} (hfuel : cs.length ≤ fuel) :
    scan false none acc fuel cs = acc.reverse ++ ts := by
  induction h generalizing acc fuel with
  | done => rw [List.append_nil]; cases fuel <;> rfl
  | @step cs mid ts us hstep hlt _ ih =>
    cases fuel with
    | zero => omega
    | succ fuel =>
      cases cs with
      | nil => exact absurd hlt (Nat.not_lt_zero _)
      | cons c cs =>
        have hscan : scan false none acc (fuel + 1) (c :: cs) = scan false none (ts.reverse ++ acc) fuel mid := by
          change scan (Markup.step false (c :: cs)).final (Markup.step false (c :: cs)).rawText _ fuel _ = _
          rw [hstep]
        rw [hscan, ih _ (Nat.le_of_lt_succ (Nat.lt_of_lt_of_le hlt hfuel))]
        simp

theorem tag {front : List Char} {t : Token} {n : Nat} (hn : front.length = n) (hne : n ≠ 0)
    (hstep : Markup.step false (front ++ rest) = tagStep false (front ++ rest) (some (t, n)))
    (hraw : ∀ name attrs, t = .opening name attrs false → name ≠ "script" ∧ name ≠ "style") :
    Passes rest (front ++ rest) [t] := by
  have hrest : (front ++ rest).drop n = rest := by rw [← hn, List.drop_left]
  refine .single ?_ (by rw [List.length_append]; omega)
  rw [hstep]
  cases t with
  | opening name attrs selfClosing =>
    cases selfClosing with
    | true => simp [tagStep, hrest]
    | false =>
      obtain ⟨hscript, hstyle⟩ := hraw name attrs rfl
      simp [tagStep, hscript, hstyle, hrest]
  | _ => simp [tagStep, hrest]

theorem tokens_eq {s : String} (h : Passes [] s.toList ts) : tokens s = ts :=
  h.scan_eq [] (Nat.le_refl _)

end Passes

def Opens (rest : List Char) : Prop := ∀ c ∈ rest.head?, c = '<'

def isPlainChar (c : Char) : Bool := !(c == '<' || c == '>' || c == '&')

theorem step_of_plain {run rest : List Char} (hne : run ≠ []) (hrun : ∀ c ∈ run, isPlainChar c = true)
    (hrest : ∀ c ∈ rest.head?, c = '<' ∨ c = '&') :
    step false (run ++ rest) = { tokens := [.text run], rest, final := false } := by
  have hplain : ∀ c ∈ run, c ≠ '<' ∧ c ≠ '&' := by
    intro c hc
    have h := hrun c hc
    simp only [isPlainChar, Bool.not_eq_true', Bool.or_eq_false_iff, beq_eq_false_iff_ne] at h
    exact ⟨h.1.1, h.2⟩
  have htake : (run ++ rest).takeWhile (fun c => !(c == '<' || c == '&')) = run := by
    apply takeWhile_stops
    · intro c hc
      simpa using hplain c hc
    · intro c hc
      rcases hrest c hc with rfl | rfl <;> rfl
  obtain ⟨first, more, rfl⟩ := List.exists_cons_of_ne_nil hne
  obtain ⟨hlt, hamp⟩ := hplain first List.mem_cons_self
  rw [List.cons_append] at htake ⊢
  unfold step
  split
  next heq => exact absurd (List.cons.inj heq).1 hlt
  next heq => exact absurd (List.cons.inj heq).1 hamp
  next =>
    dsimp only
    rw [htake, ← List.cons_append, List.drop_left]

theorem step_of_escaped {c : Char} (hc : isPlainChar c = false) (rest : List Char) :
    step false ((escapeTextChar c).toList ++ rest) = { tokens := [.text [c]], rest, final := false } := by
  have hlt : textName ['l', 't'] = "<" := by decide +kernel
  have hgt : textName ['g', 't'] = ">" := by decide +kernel
  have hamp : textName ['a', 'm', 'p'] = "&" := by decide +kernel
  have hspecial : (c = '<' ∨ c = '>') ∨ c = '&' := by
    simpa only [isPlainChar, Bool.not_eq_false', Bool.or_eq_true, beq_iff_eq] using hc
  -- a name is looked up in a long table, so what it stands for is put in by rewriting
  obtain (rfl | rfl) | rfl := hspecial
  · have hstep : step false ((escapeTextChar '<').toList ++ rest) =
        { tokens := [.text (textName ['l', 't']).toList], rest, final := false } := rfl
    rw [hstep, hlt]
    rfl
  · have hstep : step false ((escapeTextChar '>').toList ++ rest) =
        { tokens := [.text (textName ['g', 't']).toList], rest, final := false } := rfl
    rw [hstep, hgt]
    rfl
  · have hstep : step false ((escapeTextChar '&').toList ++ rest) =
        { tokens := [.text (textName ['a', 'm', 'p']).toList], rest, final := false } := rfl
    rw [hstep, hamp]
    rfl

theorem toList_escapeTextChar {c : Char} (hc : isPlainChar c = false) :
    ∃ more, (escapeTextChar c).toList = '&' :: more := by
  have hspecial : (c = '<' ∨ c = '>') ∨ c = '&' := by
    simpa only [isPlainChar, Bool.not_eq_false', Bool.or_eq_true, beq_iff_eq] using hc
  obtain (rfl | rfl) | rfl := hspecial <;> exact ⟨_, rfl⟩

theorem toList_escapeTextChar_of_plain {c : Char} (hc : isPlainChar c = true) : (escapeTextChar c).toList = [c] := by
  simp only [isPlainChar, Bool.not_eq_true', Bool.or_eq_false_iff, beq_eq_false_iff_ne] at hc
  obtain ⟨⟨hlt, hgt⟩, hamp⟩ := hc
  unfold escapeTextChar
  split <;> first | contradiction | simp

def ReadAs (rest cs letters : List Char) : Prop :=
  ∃ pieces : List (List Char), pieces.flatten = cs ∧ (∀ p ∈ pieces, p ≠ []) ∧ Passes rest letters (pieces.map .text)

namespace ReadAs

variable {rest cs letters : List Char}

theorem cons_piece {piece front : List Char} (h : ReadAs rest cs letters) (hpiece : piece ≠ []) (hfront : front ≠ [])
    (hstep : step false (front ++ letters) = { tokens := [.text piece], rest := letters, final := false }) :
    ReadAs rest (piece ++ cs) (front ++ letters) := by
  obtain ⟨pieces, hflat, hpieces, hpasses⟩ := h
  refine ⟨piece :: pieces, by rw [List.flatten_cons, hflat], List.forall_mem_cons.mpr ⟨hpiece, hpieces⟩, ?_⟩
  refine .step hstep ?_ hpasses
  have hlength : 0 < front.length := List.length_pos_iff.mpr hfront
  rw [List.length_append]
  omega

theorem append_plain {run : List Char} (h : ReadAs rest cs letters) (hrun : ∀ c ∈ run, isPlainChar c = true)
    (hletters : ∀ c ∈ letters.head?, c = '<' ∨ c = '&') : ReadAs rest (run ++ cs) (run ++ letters) := by
  by_cases hne : run = []
  · subst hne
    exact h
  · exact h.cons_piece hne hne (step_of_plain hne hrun hletters)

theorem cons_escaped {c : Char} (h : ReadAs rest cs letters) (hc : isPlainChar c = false) :
    ReadAs rest (c :: cs) ((escapeTextChar c).toList ++ letters) := by
  obtain ⟨more, hmore⟩ := toList_escapeTextChar hc
  exact h.cons_piece (List.cons_ne_nil c []) (by rw [hmore]; exact List.cons_ne_nil _ _) (step_of_escaped hc letters)

end ReadAs

theorem readAs_escaped {rest : List Char} (hrest : Opens rest) (cs run : List Char)
    (hrun : ∀ c ∈ run, isPlainChar c = true) :
    ReadAs rest (run ++ cs) (run ++ (cs.flatMap (fun c => (escapeTextChar c).toList) ++ rest)) := by
  induction cs generalizing run with
  | nil =>
    refine ReadAs.append_plain ⟨[], rfl, nofun, .done⟩ hrun fun c hc => .inl (hrest c hc)
  | cons c cs ih =>
    rw [List.flatMap_cons, List.append_assoc]
    cases hc : isPlainChar c with
    | true =>
      have hlonger : ∀ d ∈ run ++ [c], isPlainChar d = true := by
        intro d hd
        rcases List.mem_append.mp hd with hd | hd
        · exact hrun d hd
        · rwa [List.mem_singleton.mp hd]
      have hread := ih (run ++ [c]) hlonger
      rw [List.append_assoc, List.append_assoc] at hread
      rw [toList_escapeTextChar_of_plain hc]
      exact hread
    | false =>
      obtain ⟨more, hmore⟩ := toList_escapeTextChar hc
      refine (ReadAs.cons_escaped (ih [] nofun) hc).append_plain hrun fun d hd => .inr ?_
      rw [hmore] at hd
      exact (Option.some.inj hd).symm

theorem readAs_escapeText {rest : List Char} (hrest : Opens rest) (s : String) :
    ReadAs rest s.toList ((escapeText s).toList ++ rest) := by
  rw [escapeText, String.toList_join, List.flatMap_map]
  exact readAs_escaped hrest s.toList [] nofun

theorem delimited?_comment {body rest : List Char} (h : '-' ∉ body) :
    delimited? commentClose? (body ++ '-' :: '-' :: '>' :: rest) = some (body, body.length + 3) := by
  rw [delimited?, splitAtFirst?_stops [] ?_ rfl (List.cons_ne_nil _ _)]
  · rfl
  · rintro pre c post rfl
    have hc : c ≠ '-' := fun hc => h (by simp [hc])
    rw [List.cons_append, commentClose?]
    · rfl
    · exact fun _ heq => hc (List.cons.inj heq).1

theorem passes_comment {s : String} (h : '-' ∉ s.toList) (rest : List Char) :
    Passes rest ((renderLiteral false .comment s).toList ++ rest) [.literal .comment s] := by
  have hletters : (renderLiteral false .comment s).toList =
      '<' :: '!' :: '-' :: '-' :: (s.toList ++ ['-', '-', '>']) := by
    simp [renderLiteral]
  have hfound : declaration? ('<' :: '!' :: '-' :: '-' :: (s.toList ++ ['-', '-', '>']) ++ rest) =
      some (.literal .comment s, s.toList.length + 3 + 4) := by
    change (delimited? commentClose? (s.toList ++ ['-', '-', '>'] ++ rest)).map _ = _
    rw [List.append_assoc]
    dsimp only [List.cons_append, List.nil_append]
    rw [delimited?_comment h, Option.map_some, String.ofList_toList]
  rw [hletters]
  refine .tag (n := s.toList.length + 3 + 4) (by simp) (by simp) ?_ nofun
  rw [← hfound]
  rfl

end Stencil.Markup
