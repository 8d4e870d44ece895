import Stencil.Assoc
import Stencil.Json.Basic
import Stencil.Text.Quoted

namespace Stencil

inductive Value
  | null
  | bool (b : Bool)
  | int (n : Int)
  | text (s : String)
  | list (items : List Value)
  | map (fields : List (String × Value))
  deriving Inhabited

abbrev Fields := List (String × Value)

namespace Value

def isMap : Value → Bool
  | map _ => true
  | _ => false

mutual
def same : Value → Value → Bool
  | null, null => true
  | bool a, bool b => a == b
  | int a, int b => a == b
  | text a, text b => a == b
  | list xs, list ys => sameItems xs ys
  | map xs, map ys => xs.length == ys.length && sameFields xs ys
  | _, _ => false

def sameItems : List Value → List Value → Bool
  | [], [] => true
  | x :: xs, y :: ys => same x y && sameItems xs ys
  | _, _ => false

def sameFields : List (String × Value) → List (String × Value) → Bool
  | [], _ => true
  | (k, x) :: xs, ys =>
    (match ys.lookup k with
      | some y => same x y
      | none => false) && sameFields xs ys
end

mutual
def toJson : Value → Json
  | null => .null
  | bool b => .bool b
  | int n => .number (toString n)
  | text s => .string s
  | list items => .array (itemsToJson items)
  | map fields => .object (fieldsToJson fields)

def itemsToJson : List Value → List Json
  | [] => []
  | v :: rest => toJson v :: itemsToJson rest

def fieldsToJson : List (String × Value) → List (String × Json)
  | [] => []
  | (k, v) :: rest => (k, toJson v) :: fieldsToJson rest
end

mutual
def describe : Value → String
  | null => "None"
  | bool true => "True"
  | bool false => "False"
  | int n => toString n
  | text s => Text.quoted s
  | list items => "[" ++ ", ".intercalate (describeItems items) ++ "]"
  | map fields => "\x7b" ++ ", ".intercalate (describeFields fields) ++ "\x7d"

def describeItems : List Value → List String
  | [] => []
  | v :: rest => describe v :: describeItems rest

def describeFields : List (String × Value) → List String
  | [] => []
  | (k, v) :: rest => (Text.quoted k ++ ": " ++ describe v) :: describeFields rest
end

mutual
def overlay (left : Value) : Value → Value
  | map other =>
    match left with
    | map base => map (mergeFields base other)
    | _ => left
  | _ => left

def mergeFields (base : Fields) : Fields → Fields
  | [] => base
  | (k, v) :: rest =>
    let entered := match base.lookup k with
      | some old => Assoc.set k (overlay old v) base
      | none => Assoc.set k v base
    mergeFields entered rest
end

end Value

export Value (mergeFields)

end Stencil
