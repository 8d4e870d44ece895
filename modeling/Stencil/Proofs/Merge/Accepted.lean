import Stencil.Proofs.Merge.Framed
import Stencil.Proofs.Merge.Termination

namespace Stencil.Merge

open Node Grade

variable {drawings : Bool}

inductive Tolerated (drawings : Bool) : Failure → Prop
  | other {f : Failure} : f.family ≠ .mismatch → Tolerated drawings f
  | doctypes {v w : String} : Text.lower (Text.strip v) ≠ Text.lower (Text.strip w) →
    Tolerated drawings (.doctypesDiffer v w)
  | slotLoop {r q : Reference} : drawings = true →
    Tolerated drawings (.cannotMerge ("html-variable: " ++ r.dotted) ("loop: " ++ q.dotted))
  | loopSlot {r q : Reference} : drawings = true →
    Tolerated drawings (.cannotMerge ("loop: " ++ q.dotted) ("html-variable: " ++ r.dotted))

instance : Failure.Lenient (Tolerated drawings) where
  holds h := .other fun hfamily => h (.inl hfamily)

instance : Frame (Framed drawings) where
  slot h _ := absurd ‹_› h
  block := Iff.rfl
  children h := framedList_iff.mp h.2
  element h hcs := ⟨fun hsvg => absurd hsvg h, framedList_iff.mpr hcs⟩
  drawing h hsvg _ := h.1 hsvg
  insertKey depth key h := Framed.insertKey depth key _ h

instance : Tolerates (Tolerated drawings) (Framed drawings) where
  doctypes h := .doctypes h
  slotLoop h := .slotLoop (h rfl)
  loopSlot h := .loopSlot (h rfl)
  drawing _ _ := Markup.errsIn_render _
  unknown _ := holds_noMergeRule _
  limit := .other (by decide)

variable {α : Type} [Grade α] [Counting α] [Positive α] [Ordered α] [Selective α] {chain : Scope} {around : Around}
  {s t : MergeState} {a b : Node}

/-- A merge of two nodes with a score above zero does not fail because they do not match, or what is paired below them:
only two doctypes can differ, and where there are drawings, the slot of one can meet a loop over others. -/
theorem accepted_pair_merges {structural : Bool} (ha : a.Framed drawings) (hb : b.Framed drawings)
    (hscore : zero < (Score.score structural a b : α)) {f : Failure}
    (h : (nodes α chain around a b).run s = (.error f, t)) :
    f.family ≠ .limit ∧ (f.family = .mismatch →
      (∃ v w, f = .doctypesDiffer v w ∧ Text.lower (Text.strip v) ≠ Text.lower (Text.strip w)) ∨
        drawings = true ∧ ∃ r q : Reference,
          f = .cannotMerge ("loop: " ++ r.dotted) ("html-variable: " ++ q.dotted) ∨
            f = .cannotMerge ("html-variable: " ++ q.dotted) ("loop: " ++ r.dotted)) := by
  have hrun : ((nodes α chain around a b).run s).1 = .error f := congrArg Prod.fst h
  have hsome : (Score.score structural a b : α) ≠ zero := by
    intro hzero
    rw [hzero] at hscore
    exact Positive.lt_irrefl _ hscore
  have hakin : Akin a.core b.core := Score.akin_of_score hsome
  have haccepts : Accepts (Framed drawings) (Tolerated drawings) (mergeNode α (nesting [a] [b])) := accepts_mergeNode _
  have hfails : Tolerated drawings f := haccepts.fails ha hb hakin f hrun
  constructor
  · intro hlimit
    rw [Failure.eq_outOfFuel hlimit] at hrun
    exact finishes_nodes chain around a b s hrun
  · intro hmismatch
    cases hfails with
    | other hother => exact absurd hmismatch hother
    | doctypes hdiffer => exact .inl ⟨_, _, rfl, hdiffer⟩
    | slotLoop hdrawings => exact .inr ⟨hdrawings, _, _, .inr rfl⟩
    | loopSlot hdrawings => exact .inr ⟨hdrawings, _, _, .inl rfl⟩

theorem accepted_pair_merges_doctypes :
    let a := literal .doctype "html"
    let b := literal .doctype "html PUBLIC"
    a.Framed false ∧ b.Framed false ∧ (zero : Rat) < Score.score false a b ∧
      ∃ f t, (nodes Rat [] {} a b).run {} = (.error f, t) ∧ f.family = .mismatch ∧
        ∃ v w, f = .doctypesDiffer v w ∧ Text.lower (Text.strip v) ≠ Text.lower (Text.strip w) := by
  intro a b
  have ha : a.Framed false := trivial
  have hb : b.Framed false := trivial
  have hscore : (zero : Rat) < Score.score false a b := by decide +kernel
  have hrun : (nodes Rat [] {} a b).run {} = (.error (.doctypesDiffer "html" "html PUBLIC"), {}) := by rfl
  have h := accepted_pair_merges ha hb hscore hrun
  refine ⟨ha, hb, hscore, _, _, hrun, rfl, ?_⟩
  rcases h.2 rfl with hdoctypes | ⟨hdrawings, -⟩
  · exact hdoctypes
  · cases hdrawings

theorem accepted_loop_refuses_drawing :
    let a := block .loop ["icons"] (.element ⟨"svg", []⟩ [])
    let b := slot .html ["icon"]
    a.Framed true ∧ b.Framed true ∧ (zero : Rat) < Score.score false a b ∧
      (nodes Rat [] {} a b).run {} = (.error (.cannotMerge "loop: icons" "html-variable: icon"), {}) ∧
      (Failure.cannotMerge "loop: icons" "html-variable: icon").family = .mismatch := by
  refine ⟨⟨⟨"svg", rfl⟩, ⟨fun _ => rfl, trivial⟩⟩, fun _ => rfl, by decide +kernel, ?_, rfl⟩
  rfl

end Stencil.Merge
