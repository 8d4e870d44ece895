import Stencil.Text.Quoted

namespace Stencil.Text.Utf8

inductive Fault
  | badStart | badContinuation | cutOff
  deriving DecidableEq

structure Problem where
  fault : Fault
  position : Nat
  length : Nat
  byte : UInt8
  deriving DecidableEq

namespace Problem

def reason : Fault → String
  | .badStart => "invalid start byte"
  | .badContinuation => "invalid continuation byte"
  | .cutOff => "unexpected end of data"

def message (p : Problem) : String :=
  let place :=
    if p.length = 1 then
      "byte 0x" ++ String.ofList (hexDigits 2 p.byte.toNat) ++ s!" in position {p.position}"
    else s!"bytes in position {p.position}-{p.position + p.length - 1}"
  "'utf-8' codec can't decode " ++ place ++ ": " ++ reason p.fault

end Problem

structure Pending where
  first : UInt8
  read : Nat := 1
  missing : Nat
  bits : Nat
  low : UInt8 := 0x80
  high : UInt8 := 0xBF

/-- What the first byte of a longer sequence announces. The bounds on the second byte leave out
sequences that are too long, surrogates, and code points past the last one. -/
def begin? (b : UInt8) : Option Pending :=
  let n := b.toNat
  if 0xC2 ≤ n && n ≤ 0xDF then some { first := b, missing := 1, bits := n % 32 }
  else if 0xE0 ≤ n && n ≤ 0xEF then
    some { first := b, missing := 2, bits := n % 16,
           low := if n = 0xE0 then 0xA0 else 0x80, high := if n = 0xED then 0x9F else 0xBF }
  else if 0xF0 ≤ n && n ≤ 0xF4 then
    some { first := b, missing := 3, bits := n % 8,
           low := if n = 0xF0 then 0x90 else 0x80, high := if n = 0xF4 then 0x8F else 0xBF }
  else none

def decodeFrom (acc : List Char) (position : Nat) :
    Option Pending → List UInt8 → Except Problem (List Char)
  | none, [] => .ok acc.reverse
  | some p, [] => .error ⟨.cutOff, position - p.read, p.read, p.first⟩
  | none, b :: rest =>
    if b < 0x80 then decodeFrom (Char.ofNat b.toNat :: acc) (position + 1) none rest
    else match begin? b with
      | some p => decodeFrom acc (position + 1) (some p) rest
      | none => .error ⟨.badStart, position, 1, b⟩
  | some p, b :: rest =>
    if p.low ≤ b && b ≤ p.high then
      let bits := p.bits * 64 + b.toNat % 64
      if p.missing = 1 then decodeFrom (Char.ofNat bits :: acc) (position + 1) none rest
      else decodeFrom acc (position + 1)
        (some { first := p.first, read := p.read + 1, missing := p.missing - 1, bits }) rest
    else .error ⟨.badContinuation, position - p.read, p.read, p.first⟩

def decode (bytes : List UInt8) : Except Problem (List Char) :=
  decodeFrom [] 0 none bytes

end Stencil.Text.Utf8
