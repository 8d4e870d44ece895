import Stencil.Markup.Reference
import Stencil.Markup.Token

namespace Stencil.Markup

open Text

structure Cursor where
  before : Char
  position : Nat
  rest : List Char

namespace Cursor

def pass (c : Cursor) (run : List Char) : Cursor :=
  ⟨run.getLastD c.before, c.position + run.length, c.rest.drop run.length⟩

def passWhile (c : Cursor) (p : Char → Bool) : Cursor :=
  c.pass (c.rest.takeWhile p)

theorem length_pass (c : Cursor) (run : List Char) :
    (c.pass run).rest.length = c.rest.length - run.length := by
  simp [pass]

theorem length_passWhile_le (c : Cursor) (p : Char → Bool) :
    (c.passWhile p).rest.length ≤ c.rest.length := by
  simp [passWhile, length_pass]

end Cursor

def isQuote (c : Char) : Bool := c == '"' || c == '\x27'

def isBareValueChar (c : Char) : Bool := !(isBlank c || c == '>')

def breaks (acc : List Char) : List Char → List Char
  | '/' :: '>' :: _ => acc.reverse
  | c :: rest => if isBlank c || c == '/' then breaks (c :: acc) rest else acc.reverse
  | [] => acc.reverse

def bareValue (c : Cursor) : List Char × Cursor :=
  let run := c.rest.takeWhile isBareValueChar
  (run, c.pass run)

def attributeValue? (c : Cursor) : Option (List Char × Cursor) :=
  let c := c.passWhile isBlank
  let signs := c.rest.takeWhile (· == '=')
  let afterSigns := c.pass signs
  let v := afterSigns.passWhile isBlank
  match signs, v.rest with
  | [], _ => none
  | _ :: more, q :: body =>
    if isQuote q then
      let content := body.takeWhile (· != q)
      if content.length < body.length then some (content, v.pass (q :: content ++ [q]))
      else if v.position != afterSigns.position then some ([], afterSigns)
      else if more.isEmpty then none
      else some (bareValue (c.pass more))
    else some (bareValue v)
  | _ :: _, [] => some ([], v)

theorem attributeValue?_length_le {c d : Cursor} {v : List Char}
    (h : attributeValue? c = some (v, d)) : d.rest.length ≤ c.rest.length := by
  have h₁ := c.length_passWhile_le isBlank
  unfold attributeValue? at h
  simp only at h
  split at h
  · simp at h
  · have h₂ := (((c.passWhile isBlank).pass
      ((c.passWhile isBlank).rest.takeWhile (· == '='))).length_passWhile_le isBlank)
    split at h
    · split at h
      · simp only [Option.some.injEq, Prod.mk.injEq] at h
        rw [← h.2, Cursor.length_pass]
        rw [Cursor.length_pass] at h₂
        omega
      · split at h
        · simp only [Option.some.injEq, Prod.mk.injEq] at h
          rw [← h.2, Cursor.length_pass]
          omega
        · split at h
          · simp at h
          · simp only [Option.some.injEq, bareValue, Prod.mk.injEq] at h
            rw [← h.2, Cursor.length_pass, Cursor.length_pass]
            omega
    · simp only [Option.some.injEq, bareValue, Prod.mk.injEq] at h
      rw [← h.2, Cursor.length_pass]
      rw [Cursor.length_pass] at h₂
      omega
  · simp only [Option.some.injEq, Prod.mk.injEq] at h
    have h₂ := (((c.passWhile isBlank).pass
      ((c.passWhile isBlank).rest.takeWhile (· == '='))).length_passWhile_le isBlank)
    rw [← h.2]
    rw [Cursor.length_pass] at h₂
    omega

def valueAfter (c : Cursor) : List Char × Cursor :=
  (attributeValue? c).getD ([], c)

theorem valueAfter_length_le (c : Cursor) : (valueAfter c).2.rest.length ≤ c.rest.length := by
  unfold valueAfter
  cases h : attributeValue? c with
  | none => simp
  | some r => exact attributeValue?_length_le h

def attribute? (c : Cursor) : Option (List Char × List Char × Cursor) :=
  match c.rest with
  | first :: more =>
    if (isQuote c.before || isBlank c.before || c.before == '/') &&
        !(isBlank first || first == '/' || first == '>') then
      let name := first :: more.takeWhile fun d => !(isBlank d || d == '/' || d == '=' || d == '>')
      let (value, after) := valueAfter (c.pass name)
      some (name, value, after.pass (breaks [] after.rest))
    else none
  | [] => none

theorem attribute?_length_lt {c d : Cursor} {n v : List Char} (h : attribute? c = some (n, v, d)) :
    d.rest.length < c.rest.length := by
  unfold attribute? at h
  split at h
  · rename_i first more hc
    split at h
    · simp only [Option.some.injEq, Prod.mk.injEq] at h
      obtain ⟨-, -, h⟩ := h
      have hv := valueAfter_length_le
        (c.pass (first :: more.takeWhile fun d => !(isBlank d || d == '/' || d == '=' || d == '>')))
      rw [← h, Cursor.length_pass]
      rw [Cursor.length_pass] at hv
      have : c.rest.length = more.length + 1 := by simp [hc]
      simp only [List.length_cons] at hv
      omega
    · simp at h
  · simp at h

def attributes (c : Cursor) (acc : List (String × String)) : List (String × String) × Cursor :=
  match h : attribute? c with
  | some (name, value, next) =>
    have := attribute?_length_lt h
    attributes next ((lower (String.ofList name), decodeValue value) :: acc)
  | none => (acc.reverse, c)
termination_by c.rest.length

def startTag? (cs : List Char) : Option (Token × Nat) :=
  let start : Cursor := (Cursor.mk ' ' 0 cs).pass ['<']
  let name := start.rest.takeWhile isTagNameChar
  let c := start.pass name
  let (attrs, c) := attributes (c.pass (breaks [] c.rest)) []
  match c.rest with
  | '>' :: _ => some (.opening (lower (String.ofList name)) attrs false, c.position + 1)
  | '/' :: '>' :: _ => some (.opening (lower (String.ofList name)) attrs true, c.position + 2)
  | d :: _ =>
    if d == '/' || d == '=' || d.isAlpha then none
    else some (.text (cs.take c.position), c.position)
  | [] => none

end Stencil.Markup
