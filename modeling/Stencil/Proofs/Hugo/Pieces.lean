import Stencil.Proofs.Hugo.Delimiter

namespace Stencil.Hugo

inductive Piece
  | page (s : String)
  | action (body : String)

namespace Piece

def letters : Piece → List Char
  | page s => s.toList
  | action body => (Hugo.action body).toList

def starts : Piece → List Nat
  | page _ => []
  | action _ => [0]

def body? : Piece → Option String
  | page _ => none
  | action body => some body

def inner : Piece → String
  | page s => s
  | action body => body

end Piece

def letters (ps : List Piece) : List Char :=
  ps.flatMap Piece.letters

def starts : List Piece → List Nat
  | [] => []
  | p :: ps => p.starts ++ (starts ps).map (· + p.letters.length)

/-- No piece, and no two pieces together, open an action that is not one of the row. -/
def Tight : List Piece → Prop
  | [] => True
  | p :: ps => ¬Delimited p.inner ∧ ¬Meet p.letters (letters ps) ∧ Tight ps

variable {p : Piece} {ps qs : List Piece} {s t body : String}

theorem letters_append : letters (ps ++ qs) = letters ps ++ letters qs :=
  List.flatMap_append

theorem letters_singleton : letters [p] = p.letters :=
  List.flatMap_singleton ..

theorem letters_cons : letters (p :: ps) = p.letters ++ letters ps :=
  List.flatMap_cons

theorem getLast?_letters_concat {c : Char} (h : p.letters.getLast? = some c) :
    (letters (ps ++ [p])).getLast? = some c := by
  rw [letters_append, letters_singleton, List.getLast?_append, h, Option.some_or]

theorem toList_action :
    (action body).toList = (delimiter ++ ' ' :: body.toList) ++ [' ', '\x7d', '\x7d'] := by
  simp [action, delimiter, brace]

theorem getLast?_action : (Piece.action body).letters.getLast? = some '\x7d' := by
  rw [Piece.letters, toList_action, List.getLast?_append]
  rfl

theorem getLast?_page {c : Char} (h : t.toList.getLast? = some c) :
    (Piece.page (s ++ t)).letters.getLast? = some c := by
  rw [Piece.letters, String.toList_append, List.getLast?_append, h, Option.some_or]

theorem head?_letters_page {c : Char} (h : s.toList.head? = some c) :
    (letters (.page (s ++ t) :: ps)).head? = some c := by
  rw [letters_cons, Piece.letters, String.toList_append, List.append_assoc, List.head?_append, h, Option.some_or]

theorem head?_letters_action (body : String) (ps : List Piece) :
    (letters (.action body :: ps)).head? = some brace := by
  rw [letters_cons, Piece.letters, toList_action]
  rfl

theorem openings_action : openings (action body).toList = 0 :: (openings body.toList).map (· + 3) := by
  have hclose : openings [' ', '\x7d', '\x7d'] = [] := rfl
  have hmeet : ¬Meet (delimiter ++ ' ' :: body.toList) [' ', '\x7d', '\x7d'] :=
    not_meet_of_head (by decide)
  rw [toList_action, openings_append, hclose, if_neg hmeet, delimiter, List.cons_append, List.cons_append,
    List.nil_append, openings_cons, openings_cons, openings_cons]
  simp [brace, Function.comp_def]

theorem openings_letters (p : Piece) :
    ∃ leaks, openings p.letters = p.starts ++ leaks ∧ (leaks = [] ↔ ¬Delimited p.inner) := by
  cases p with
  | page s => exact ⟨openings s.toList, rfl, openings_eq_nil_iff⟩
  | action body =>
    refine ⟨(openings body.toList).map (· + 3), openings_action, ?_⟩
    rw [List.map_eq_nil_iff]
    exact openings_eq_nil_iff

theorem starts_sublist (ps : List Piece) : List.Sublist (starts ps) (openings (letters ps)) := by
  induction ps with
  | nil => exact List.Sublist.refl _
  | cons p ps ih =>
    obtain ⟨leaks, hp, -⟩ := openings_letters p
    rw [letters_cons, openings_append, hp, starts, List.append_assoc, List.append_assoc]
    apply (List.Sublist.refl p.starts).append
    apply (ih.map _).trans
    rw [← List.append_assoc]
    exact List.sublist_append_right ..

theorem openings_eq_starts_iff : openings (letters ps) = starts ps ↔ Tight ps := by
  induction ps with
  | nil => simp [letters, starts, Tight]
  | cons p ps ih =>
    obtain ⟨leaks, hp, hleaks⟩ := openings_letters p
    rw [letters_cons, openings_append, hp, starts, Tight, ← hleaks, ← ih]
    constructor
    · intro h
      -- no row has fewer openings than actions, so each part has as many as its actions
      have hlength := congrArg List.length h
      have hle := (starts_sublist ps).length_le
      simp only [List.length_append, List.length_map] at hlength
      have hnil : leaks = [] := List.eq_nil_of_length_eq_zero (by omega)
      have hmeet : ¬Meet p.letters (letters ps) := by
        intro hmeet
        rw [if_pos hmeet, List.length_singleton] at hlength
        omega
      rw [hnil, if_neg hmeet, List.append_nil, List.append_nil] at h
      have hrest := List.append_cancel_left h
      exact ⟨hnil, hmeet, (List.map_inj_right fun _ _ => Nat.add_right_cancel).mp hrest⟩
    · rintro ⟨hnil, hmeet, hrest⟩
      rw [hnil, hrest, if_neg hmeet, List.append_nil, List.append_nil]

theorem tight_singleton : Tight [p] ↔ ¬Delimited p.inner := by
  simp [Tight, letters, Meet]

theorem tight_append : Tight (ps ++ qs) ↔ Tight ps ∧ Tight qs ∧ ¬Meet (letters ps) (letters qs) := by
  induction ps with
  | nil => simp [Tight, letters, Meet]
  | cons p ps ih =>
    have hassoc : ¬Meet p.letters (letters ps ++ letters qs) ∧ ¬Meet (letters ps) (letters qs) ↔
        ¬Meet p.letters (letters ps) ∧ ¬Meet (p.letters ++ letters ps) (letters qs) := by
      rw [← not_or, ← not_or, meet_assoc]
    rw [List.cons_append, Tight, Tight, letters_append, letters_cons, ih]
    constructor
    · rintro ⟨hp, hmeet, hps, hqs, hmeet'⟩
      obtain ⟨hfirst, hlast⟩ := hassoc.mp ⟨hmeet, hmeet'⟩
      exact ⟨⟨hp, hfirst, hps⟩, hqs, hlast⟩
    · rintro ⟨⟨hp, hfirst, hps⟩, hqs, hlast⟩
      obtain ⟨hmeet, hmeet'⟩ := hassoc.mpr ⟨hfirst, hlast⟩
      exact ⟨hp, hmeet, hps, hqs, hmeet'⟩

theorem tight_append_of_head (h : (letters qs).head? ≠ some brace) :
    Tight (ps ++ qs) ↔ Tight ps ∧ Tight qs := by
  rw [tight_append, and_iff_left (not_meet_of_head h)]

theorem tight_cons_of_last (h : p.letters.getLast? ≠ some brace) :
    Tight (p :: ps) ↔ ¬Delimited p.inner ∧ Tight ps := by
  rw [Tight, and_iff_right (not_meet_of_last h)]

theorem tight_action : Tight (.action body :: ps) ↔ ¬Delimited body ∧ Tight ps := by
  apply tight_cons_of_last
  rw [getLast?_action]
  decide

theorem tight_closed (h : brace ∉ t.toList) (hne : t.toList ≠ []) :
    Tight (.page (s ++ t) :: ps) ↔ ¬Delimited s ∧ Tight ps := by
  rw [tight_cons_of_last, Piece.inner, delimited_before h]
  rw [Piece.letters, String.toList_append, List.getLast?_append_of_ne_nil _ hne]
  exact fun hlast => h (List.mem_of_getLast? hlast)

theorem tight_constant (h : brace ∉ s.toList) : Tight (.page s :: ps) ↔ Tight ps := by
  have hlast : (Piece.page s).letters.getLast? ≠ some brace := fun hlast => h (List.mem_of_getLast? hlast)
  rw [tight_cons_of_last hlast, Piece.inner, and_iff_right (not_delimited h)]

end Stencil.Hugo
