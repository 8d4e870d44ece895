import Stencil.Selector.Spelling

namespace Stencil.Selector

open Text

def attribute? (cs : List Char) : Option (Selector × List Char) := do
  let (name, rest) ← qualified? (skipSpace cs)
  if name == "*" then none
  else match comparison? (skipSpace rest) with
    | none => (closed? ']' rest).map fun rest => (hasAttribute name, rest)
    | some (c, negated, rest) =>
      let (wanted, rest) ← attributeText? (skipSpace rest)
      let (flag, rest) := match skipSpace rest with
        | f :: more =>
          if f == 'i' || f == 'I' then (some true, more)
          else if f == 's' || f == 'S' then (some false, more)
          else (none, rest)
        | [] => (none, rest)
      let rest ← closed? ']' rest
      let ignoreCase := flag.getD (lowerBasic name == "type")
      let test := attributeIs name c ignoreCase wanted
      return (if negated then negate test else test, rest)

def plainPseudo? (name : String) : Option Selector :=
  match name with
  | "first-child" => some (nth 0 1 false fun _ _ => true)
  | "last-child" => some (nth 0 1 true fun _ _ => true)
  | "only-child" => some (both (nth 0 1 false fun _ _ => true) (nth 0 1 true fun _ _ => true))
  | "first-of-type" => some (nth 0 1 false sameType)
  | "last-of-type" => some (nth 0 1 true sameType)
  | "only-of-type" => some (both (nth 0 1 false sameType) (nth 0 1 true sameType))
  | "empty" => some empty
  | "root" => some root
  | "scope" => some scope
  | _ =>
    if ["active", "autofill", "current", "focus", "focus-visible", "focus-within", "future", "host",
        "hover", "local-link", "past", "paused", "playing", "target", "target-within",
        "user-invalid", "visited"].contains name then some never else none

def combine? : Nat → List Char → Option (Option Combinator × List Char)
  | 0, _ => none
  | fuel + 1, cs =>
    match cs with
    | ',' :: rest => some (none, skipSpace rest)
    | '+' :: rest => some (some .next, skipSpace rest)
    | '>' :: rest => some (some .child, skipSpace rest)
    | '~' :: rest => some (some .later, skipSpace rest)
    | c :: rest =>
      if isSpace c then
        let rest := dropOneSpace cs
        if (rest.head?.map isCombinatorMark).getD false then combine? fuel rest
        else some (some .descendant, skipSpace rest)
      else match afterComment? (c :: rest) with
        | some rest => combine? fuel rest
        | none => none
    | [] => none

structure Reading where
  seen : Bool := false
  near : Selector := always
  left : Option (Selector × Combinator) := none
  complete : List Selector := []

def Reading.whole (r : Reading) : Selector :=
  match r.left with
  | some (far, c) => preceded far c r.near
  | none => r.near

structure RelativeReading where
  seen : Bool := false
  near : Selector := always
  combinator : Combinator := .descendant
  path : List (Combinator × Selector) := []
  complete : List Selector := []

def RelativeReading.whole (r : RelativeReading) : Selector :=
  r.path.foldl (fun (step : Selector) (c, s) => related c (both s step)) (related r.combinator r.near)

mutual
def part? : Nat → List Char → Option ((Bool × Selector) × List Char)
  | 0, _ => none
  | fuel + 1, cs =>
    match cs with
    | '#' :: rest => (name? rest).map fun (n, rest) => ((false, hasId n), rest)
    | '.' :: rest => (name? rest).map fun (n, rest) => ((false, hasClass n), rest)
    | '[' :: rest => (attribute? rest).map fun (s, rest) => ((false, s), rest)
    | '&' :: rest => some ((false, scope), rest)
    | ':' :: rest => (pseudo? fuel rest).map fun (s, rest) => ((false, s), rest)
    | _ => (qualified? cs).map fun (n, rest) => ((true, if n == "*" then always else named n), rest)

def pseudo? : Nat → List Char → Option (Selector × List Char)
  | 0, _ => none
  | fuel + 1, cs =>
    match name? cs with
    | none => none
    | some (name, rest) =>
      let name := lowerBasic name
      match rest with
      | '(' :: rest =>
        let rest := skipSpace rest
        if name == "not" then
          (list? fuel true false {} rest).map fun (ss, rest) => (negate (any ss), rest)
        else if name == "is" || name == "where" || name == "matches" then
          (list? fuel true (name != "matches") {} rest).map fun (ss, rest) => (any ss, rest)
        else if name == "has" then
          (relatives? fuel {} rest).map fun (ss, rest) => (any ss, rest)
        else if name == "nth-child" || name == "nth-last-child" then
          match formula? rest with
          | none => none
          | some ((step, offset), rest) =>
            let fromEnd := name == "nth-last-child"
            match closed? ')' rest with
            | some rest => some (nth step offset fromEnd fun _ _ => true, rest)
            | none =>
              match afterOf? rest with
              | none => none
              | some rest => (list? fuel true false {} rest).map fun (ss, rest) =>
                (nth step offset fromEnd fun _ m => any ss m, rest)
        else if name == "nth-of-type" || name == "nth-last-of-type" then
          match formula? rest with
          | none => none
          | some ((step, offset), rest) =>
            (closed? ')' rest).map fun rest =>
              (nth step offset (name == "nth-last-of-type") sameType, rest)
        else none
      | _ => (plainPseudo? name).map fun s => (s, rest)

def list? : Nat → (nested lenient : Bool) → Reading → List Char →
    Option (List Selector × List Char)
  | 0, _, _, _, _ => none
  | fuel + 1, nested, lenient, r, cs =>
    let finish (rest : List Char) : Option (List Selector × List Char) :=
      if r.seen then some ((r.whole :: r.complete).reverse, rest)
      else if lenient && (r.complete.isEmpty || r.left.isNone) then some (r.complete, rest)
      else none
    match closed? ')' cs with
    | some rest => if nested && (r.seen || lenient) then finish rest else none
    | none =>
      if cs.isEmpty then if nested then none else finish []
      else match part? fuel cs with
        | some ((isType, s), rest) =>
          if isType && r.seen then none
          else list? fuel nested lenient { r with seen := true, near := both r.near s } rest
        | none =>
          match combine? (cs.length + 1) cs with
          | none => none
          | some (none, rest) =>
            if r.seen then list? fuel nested lenient { complete := r.whole :: r.complete } rest
            else if lenient then list? fuel nested lenient { complete := r.complete } rest
            else none
          | some (some c, rest) =>
            if r.seen then
              list? fuel nested lenient { complete := r.complete, left := some (r.whole, c) } rest
            else none

def relatives? : Nat → RelativeReading → List Char → Option (List Selector × List Char)
  | 0, _, _ => none
  | fuel + 1, r, cs =>
    match closed? ')' cs with
    | some rest => if r.seen then some ((r.whole :: r.complete).reverse, rest) else none
    | none =>
      match part? fuel cs with
      | some ((isType, s), rest) =>
        if isType && r.seen then none
        else relatives? fuel { r with seen := true, near := both r.near s } rest
      | none =>
        match combine? (cs.length + 1) cs with
        | none => none
        | some (none, rest) =>
          if r.seen then relatives? fuel { complete := r.whole :: r.complete } rest else none
        | some (some c, rest) =>
          if r.seen then
            relatives? fuel
              { complete := r.complete, combinator := c, path := (r.combinator, r.near) :: r.path }
              rest
          else if r.combinator = .descendant then relatives? fuel { r with combinator := c } rest
          else none
end

def ofText? (s : String) : Option Selector :=
  let cs := trimEnd (skipSpace s.toList)
  (list? (2 * cs.length + 4) false false {} cs).map fun (ss, _) => any ss

end Stencil.Selector
