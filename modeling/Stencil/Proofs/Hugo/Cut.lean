import Stencil.Proofs.Hugo.Clean
import Stencil.Proofs.Hugo.Run

/-!
A template as its reader finds it, cut where an action opens and where it closes. A row of pieces in which
nothing else opens an action is cut into the same row, but that what stands between two actions is one page.
-/

namespace Stencil.Hugo

mutual
def cutPage (page : List Char) : List Char → Option (List Piece)
  | '\x7b' :: '\x7b' :: cs => (cutAction [] cs).map (.page (String.ofList page) :: ·)
  | c :: cs => cutPage (page ++ [c]) cs
  | [] => some [.page (String.ofList page)]

def cutAction (body : List Char) : List Char → Option (List Piece)
  | '\x7d' :: '\x7d' :: cs => (cutPage [] cs).map (.action (String.ofList body) :: ·)
  | c :: cs => cutAction (body ++ [c]) cs
  | [] => none
end

def Item.ofText (s : String) : Option (List Item) :=
  (cutPage [] s.toList).bind Item.ofPieces

def joined (page : String) : List Piece → List Piece
  | [] => [.page page]
  | .page s :: ps => joined (page ++ s) ps
  | .action body :: ps => .page page :: .action (" " ++ body ++ " ") :: joined "" ps

section Cut

variable {page body xs ys : List Char} {ps : List Piece}

theorem cutPage_delimiter : cutPage page (delimiter ++ ys) =
    (cutAction [] ys).map (.page (String.ofList page) :: ·) := by
  rw [delimiter, brace]
  rfl

theorem cutPage_cons {c : Char} (h : ¬(c = brace ∧ xs.head? = some brace)) :
    cutPage page (c :: xs) = cutPage (page ++ [c]) xs := by
  rw [cutPage]
  intro cs hc hxs
  exact h ⟨hc, hxs ▸ rfl⟩

theorem cutPage_append (hnone : openings xs = []) (hmeet : ¬Meet xs ys) :
    cutPage page (xs ++ ys) = cutPage (page ++ xs) ys := by
  induction xs generalizing page with
  | nil => rw [List.nil_append, List.append_nil]
  | cons c xs ih =>
    rw [openings_cons, List.append_eq_nil_iff, List.map_eq_nil_iff] at hnone
    obtain ⟨hfirst, hrest⟩ := hnone
    have hpair : ¬(c = brace ∧ (xs ++ ys).head? = some brace) := by
      rintro ⟨rfl, hhead⟩
      cases xs with
      | nil => exact hmeet ⟨rfl, hhead⟩
      | cons x xs =>
        rw [if_pos ⟨rfl, hhead⟩] at hfirst
        cases hfirst
    have hmeet' : ¬Meet xs ys := by
      rintro ⟨hlast, hhead⟩
      exact hmeet ⟨by rw [List.getLast?_cons, hlast, Option.getD_some], hhead⟩
    rw [List.cons_append, cutPage_cons hpair, ih hrest hmeet', List.append_assoc, List.singleton_append]

theorem cutAction_append (h : '\x7d' ∉ xs) :
    cutAction body (xs ++ '\x7d' :: '\x7d' :: ys) =
      (cutPage [] ys).map (.action (String.ofList (body ++ xs)) :: ·) := by
  induction xs generalizing body with
  | nil =>
    rw [List.append_nil]
    rfl
  | cons c xs ih =>
    obtain ⟨hc, hxs⟩ := not_or.mp (mt List.mem_cons.mpr h)
    have hskip : cutAction body (c :: (xs ++ '\x7d' :: '\x7d' :: ys)) =
        cutAction (body ++ [c]) (xs ++ '\x7d' :: '\x7d' :: ys) := by
      rw [cutAction]
      exact fun _ heq => absurd heq (Ne.symm hc)
    rw [List.cons_append, hskip, ih hxs, List.append_assoc, List.singleton_append]

theorem cutPage_action {b : String} (h : '\x7d' ∉ b.toList) :
    cutPage page ((action b).toList ++ ys) =
      (cutPage [] ys).map fun qs => .page (String.ofList page) :: .action (" " ++ b ++ " ") :: qs := by
  have hletters : (action b).toList ++ ys = delimiter ++ ((" " ++ b ++ " ").toList ++ '\x7d' :: '\x7d' :: ys) := by
    simp [toList_action]
  have hclosed : '\x7d' ∉ (" " ++ b ++ " ").toList := by
    simpa using h
  rw [hletters, cutPage_delimiter, cutAction_append hclosed, List.nil_append, String.ofList_toList, Option.map_map]
  rfl

theorem cutPage_letters {ps : List Piece} {page : List Char} (h : Tight ps)
    (hclosed : ∀ b ∈ ps.filterMap Piece.body?, '\x7d' ∉ b.toList) :
    cutPage page (letters ps) = some (joined (String.ofList page) ps) := by
  induction ps generalizing page with
  | nil => rfl
  | cons p ps ih =>
    obtain ⟨hp, hmeet, hps⟩ := h
    rw [letters_cons]
    cases p with
    | page s =>
      have hnone : openings s.toList = [] := openings_eq_nil_iff.mpr hp
      rw [Piece.letters, cutPage_append hnone hmeet, ih hps hclosed, joined, String.ofList_append,
        String.ofList_toList]
    | action b =>
      obtain ⟨hb, hrest⟩ := List.forall_mem_cons.mp hclosed
      rw [Piece.letters, cutPage_action hb, ih hps hrest]
      rfl

end Cut

def Event.Same (es fs : List Event) : Prop :=
  readings es = readings fs ∧ writtenText es = writtenText fs

theorem Event.Same.append {es fs es' fs' : List Event} (h : Event.Same es fs) (h' : Event.Same es' fs') :
    Event.Same (es ++ es') (fs ++ fs') := by
  rw [Event.Same, readings_append, readings_append, writtenText_append, writtenText_append, h.1, h.2, h'.1, h'.2]
  exact ⟨rfl, rfl⟩

theorem Event.Same.cons (e : Event) {es fs : List Event} (h : Event.Same es fs) : Event.Same (e :: es) (e :: fs) := by
  have hfirst : Event.Same [e] [e] := ⟨rfl, rfl⟩
  exact hfirst.append h

theorem Event.Same.flatMap {is : List Nat} {f g : Nat → List Event} (h : ∀ i, Event.Same (f i) (g i)) :
    Event.Same (is.flatMap f) (is.flatMap g) := by
  induction is with
  | nil => exact ⟨rfl, rfl⟩
  | cons i is ih =>
    rw [List.flatMap_cons, List.flatMap_cons]
    exact (h i).append ih

def Alike (items others : List Item) : Prop :=
  ∀ record passes dot, Event.Same (runList record passes dot items) (runList record passes dot others)

namespace Alike

variable {items others more : List Item}

theorem refl (items : List Item) : Alike items items :=
  fun _ _ _ => ⟨rfl, rfl⟩

theorem trans (h : Alike items others) (h' : Alike others more) : Alike items more := by
  intro record passes dot
  obtain ⟨hreads, hwrites⟩ := h record passes dot
  obtain ⟨hreads', hwrites'⟩ := h' record passes dot
  exact ⟨hreads.trans hreads', hwrites.trans hwrites'⟩

theorem append {items' others' : List Item} (h : Alike items others) (h' : Alike items' others') :
    Alike (items ++ items') (others ++ others') := by
  intro record passes dot
  rw [runList_append, runList_append]
  exact (h record passes dot).append (h' record passes dot)

theorem pages (s t : String) : Alike [.page s, .page t] [.page (s ++ t)] := by
  intro record passes dot
  refine ⟨rfl, ?_⟩
  simp [run, runList, writtenText, Event.written]

theorem blank : Alike [] [.page ""] :=
  fun _ _ _ => ⟨rfl, rfl⟩

theorem block {k : BlockKind} {x : Operand} (h : Alike items others) :
    Alike [.block k x items] [.block k x others] := by
  intro record passes dot
  rw [runList_singleton, runList_singleton]
  cases k with
  | conditional =>
    rw [run, run]
    by_cases htruthy : isTruthy (x.value? record dot) = true
    · rw [if_pos htruthy, if_pos htruthy]
      exact .cons _ (h _ _ _)
    · rw [if_neg htruthy, if_neg htruthy]
      exact ⟨rfl, rfl⟩
  | loop =>
    rw [run, run]
    exact .cons _ (.flatMap fun i => h _ _ _)

theorem cons (i : Item) (h : Alike items others) : Alike (i :: items) (i :: others) :=
  append (refl [i]) h

end Alike

section Rows

variable {ps : List Piece} {rows rows' out : List (List Item)}

theorem nest_around (body : String) (rows : List (List Item)) :
    nest (.action (" " ++ body ++ " ")) rows = nest (.action body) rows := by
  rw [nest, nest, Command.ofText_around]

theorem enter_alike {c : Command} (h : c.enter rows = some out) (hrows : List.Forall₂ Alike rows rows') :
    ∃ out', c.enter rows' = some out' ∧ List.Forall₂ Alike out out' := by
  cases c with
  | close =>
    cases h
    exact ⟨_, rfl, .cons (.refl _) hrows⟩
  | value x =>
    cases hrows with
    | nil => cases h
    | cons hrow hrest =>
      cases h
      exact ⟨_, rfl, .cons (hrow.cons _) hrest⟩
  | content =>
    cases hrows with
    | nil => cases h
    | cons hrow hrest =>
      cases h
      exact ⟨_, rfl, .cons (hrow.cons _) hrest⟩
  | block k x =>
    rcases hrows with _ | ⟨hinner, _ | ⟨hrow, hrest⟩⟩
    · cases h
    · cases h
    · cases h
      exact ⟨_, rfl, .cons (hinner.block.append hrow) hrest⟩

theorem enter_ne_nil {c : Command} (h : c.enter rows = some out) : out ≠ [] := by
  unfold Command.enter at h
  split at h <;> cases h <;> exact List.cons_ne_nil _ _

theorem joined_alike (page : String) (h : ps.foldrM nest [[]] = some out) :
    ∃ row rest out', out = row :: rest ∧ (joined page ps).foldrM nest [[]] = some out' ∧
      List.Forall₂ Alike ((.page page :: row) :: rest) out' := by
  induction ps generalizing page out with
  | nil =>
    cases h
    exact ⟨[], [], _, rfl, rfl, .cons (.refl _) .nil⟩
  | cons p ps ih =>
    rw [List.foldrM_cons] at h
    obtain ⟨inner, hinner, hp⟩ := Option.bind_eq_some_iff.mp h
    cases p with
    | page s =>
      obtain ⟨row, rest, out', rfl, hout, hrows⟩ := ih (page ++ s) hinner
      cases hp
      cases hrows with
      | cons hrow hrest =>
        have hpages : Alike (.page page :: .page s :: row) (.page (page ++ s) :: row) :=
          (Alike.pages page s).append (.refl row)
        exact ⟨_, rest, _, rfl, hout, .cons (hpages.trans hrow) hrest⟩
    | action body =>
      obtain ⟨row, rest, out', rfl, hout, hrows⟩ := ih "" hinner
      obtain ⟨c, hc, henter⟩ := Option.bind_eq_some_iff.mp hp
      obtain ⟨first, others, rfl⟩ := List.exists_cons_of_ne_nil (enter_ne_nil henter)
      have hbehind : List.Forall₂ Alike (row :: rest) out' := by
        cases hrows with
        | cons hrow hrest =>
          have hblank : Alike row (.page "" :: row) := Alike.blank.append (.refl row)
          exact .cons (hblank.trans hrow) hrest
      obtain ⟨out'', henter', hall⟩ := enter_alike henter hbehind
      cases hall with
      | @cons _ first' _ others' hfirst hothers =>
        refine ⟨first, others, (.page page :: first') :: others', rfl, ?_, .cons (hfirst.cons _) hothers⟩
        rw [joined, List.foldrM_cons, List.foldrM_cons, hout]
        simp only [bind, Option.bind_some, nest_around]
        rw [nest, hc, Option.bind_some, henter', Option.bind_some, nest]

end Rows

/-- A text in which nothing but the actions of its row opens one is read as the row. -/
theorem Forms.ofText {ps : List Piece} {items : List Item} {text : String} (h : Forms ps items)
    (htext : letters ps = text.toList) (htight : Tight ps) :
    ∃ others, Item.ofText text = some others ∧ Alike items others := by
  have hcut : cutPage [] text.toList = some (joined "" ps) := by
    rw [← htext]
    exact cutPage_letters htight h.closed
  obtain ⟨row, rest, out, hrow, hout, hall⟩ := joined_alike "" (h.nests [] [])
  rw [List.append_nil] at hrow
  cases hrow
  cases hall with
  | cons hfirst hrest =>
    cases hrest
    have hblank : Alike items (.page "" :: items) := Alike.blank.append (.refl items)
    refine ⟨_, ?_, hblank.trans hfirst⟩
    rw [Item.ofText, hcut, Option.bind_some, Item.ofPieces, hout]

end Stencil.Hugo
