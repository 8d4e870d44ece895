namespace Stencil.Assoc

variable {κ β : Type} [BEq κ]

def set (k : κ) (v : β) : List (κ × β) → List (κ × β)
  | [] => [(k, v)]
  | (k', v') :: rest => if k == k' then (k', v) :: rest else (k', v') :: set k v rest

def erase (k : κ) (entries : List (κ × β)) : List (κ × β) :=
  entries.filter fun e => !(k == e.1)

def has (k : κ) (entries : List (κ × β)) : Bool :=
  entries.any fun e => k == e.1

def keys (entries : List (κ × β)) : List κ :=
  entries.map Prod.fst

def ofList (pairs : List (κ × β)) : List (κ × β) :=
  pairs.foldl (fun acc e => set e.1 e.2 acc) []

def update (k : κ) (f : Option β → β) (entries : List (κ × β)) : List (κ × β) :=
  set k (f (entries.lookup k)) entries

end Stencil.Assoc
