import Stencil.Merge.Basic
import Stencil.Proofs.Merge.Returns

namespace Stencil.Merge

variable {β γ : Type} {α : Type} [Grade α] {merge : NodeMerger} {chain : Scope} {around : Around} {side : Side}

inductive Plain : {β : Type} → Merge β → Prop
  | pure {β : Type} (x : β) : Plain (pure x)
  | throw {β : Type} (f : Failure) : Plain (throw f : Merge β)
  | ofExcept {β : Type} (r : Except Failure β) : Plain (ofExcept r)
  | get : Plain get
  | put (side : Side) (key : String) (v : Value) : Plain (put side key v)
  | find? (side : Side) (key : String) : Plain (find? side key)
  | remove (side : Side) (key : String) : Plain (remove side key)
  | reshape : Plain reshape
  | emit (e : Event) : Plain (emit e)
  | complain (complaints : List String) : Plain (complain complaints)
  | copyEntry (scope : Scope) (key : String) (target : Scope) :
      Plain (modify fun s => { s with registry := s.registry.copyEntry scope key target })

class inductive Built : {β : Type} → Merge β → Prop
  | plain {β : Type} {m : Merge β} (h : Plain m) : Built m
  | newKey (chain : Scope) (enclosing : Option Tag) (suffix : String) (kind : Variation) (source : Option Tag)
      (attr : Option String) : Built (newKey chain enclosing suffix kind source attr)
  | bind {β γ : Type} {m : Merge β} {f : β → Merge γ} (h : Built m) (hf : ∀ x, Built (f x)) : Built (m >>= f)
  | inScope {β : Type} {m : Merge β} (h : Built m) : Built (inScope m)

attribute [instance] Built.newKey

instance built_pure (x : β) : Built (pure x) :=
  .plain (.pure x)

instance built_throw (f : Failure) : Built (throw f : Merge β) :=
  .plain (.throw f)

instance built_ofExcept (r : Except Failure β) : Built (ofExcept r) :=
  .plain (.ofExcept r)

instance built_get : Built get :=
  .plain .get

instance built_put (key : String) (v : Value) : Built (put side key v) :=
  .plain (.put side key v)

instance built_find? (key : String) : Built (find? side key) :=
  .plain (.find? side key)

instance built_remove (key : String) : Built (remove side key) :=
  .plain (.remove side key)

instance built_reshape : Built reshape :=
  .plain .reshape

instance built_debug (message : String) : Built (debug message) :=
  .plain (.emit _)

instance built_complain (complaints : List String) : Built (complain complaints) :=
  .plain (.complain complaints)

instance built_copyEntry (scope : Scope) (key : String) (target : Scope) :
    Built (modify fun s => { s with registry := s.registry.copyEntry scope key target }) :=
  .plain (.copyEntry scope key target)

instance built_bind {m : Merge β} {f : β → Merge γ} [h : Built m] [hf : ∀ x, Built (f x)] : Built (m >>= f) :=
  h.bind hf

instance built_ite {c : Prop} [Decidable c] {m m' : Merge β} [h : Built m] [h' : Built m'] :
    Built (if c then m else m') := by
  split
  · exact h
  · exact h'

instance built_inScope {m : Merge β} [h : Built m] : Built (inScope m) :=
  h.inScope

instance built_foldlM {f : β → γ → Merge β} [h : ∀ x y, Built (f x y)] (xs : List γ) (x : β) :
    Built (xs.foldlM f x) := by
  induction xs generalizing x with
  | nil => exact built_pure x
  | cons y xs ih =>
    rw [List.foldlM_cons]
    exact (h x y).bind ih

section Leaves

instance built_markup (n : Node) : Built (markup n) :=
  built_ofExcept _

instance built_markdown (ns : List Node) : Built (markdown ns) :=
  built_ofExcept _

instance built_mergeTexts (v w : String) : Built (mergeTexts chain around v w) := by
  unfold mergeTexts
  infer_instance

instance built_mergeDrawings (tag : Tag) (a b : Node) : Built (mergeDrawings chain tag a b) := by
  unfold mergeDrawings
  infer_instance

instance built_inlineValue (slot : Option Reference) (md key : String) : Built (inlineValue side slot md key) := by
  unfold inlineValue
  split <;> infer_instance

instance built_mergeInline (as bs : List Node) : Built (mergeInline? chain around as bs) := by
  unfold mergeInline?
  split
  · infer_instance
  · split
    · infer_instance
    · infer_instance
    · infer_instance
    · dsimp only
      split
      · infer_instance
      · split <;> infer_instance

instance built_mergeBlocks (as bs : List Node) : Built (mergeBlocks? chain around as bs) := by
  unfold mergeBlocks?
  dsimp only
  split
  · infer_instance
  · split <;> infer_instance

instance built_lonelyAttribute (owner : Tag) (a : Attribute) : Built (lonelyAttribute chain side owner a) := by
  unfold lonelyAttribute noRule
  split <;> infer_instance

instance built_pairAttribute (owner : Tag) (a b : Attribute) : Built (pairAttribute chain owner a b) := by
  unfold pairAttribute noRule
  split <;> infer_instance

instance built_leftAttributes (tag other : Tag) (attrs : List Attribute) :
    Built (leftAttributes chain tag other attrs) := by
  induction attrs with
  | nil => exact built_pure []
  | cons a attrs ih =>
    unfold leftAttributes
    split <;> infer_instance

instance built_rightAttributes (tag other : Tag) (attrs : List Attribute) :
    Built (rightAttributes chain tag other attrs) := by
  induction attrs with
  | nil => exact built_pure []
  | cons a attrs ih =>
    unfold rightAttributes
    infer_instance

instance built_mergeAttributes (tag other : Tag) : Built (mergeAttributes chain tag other) := by
  unfold mergeAttributes
  infer_instance

instance built_moveReference (depth : Nat) (key : String) (moved : Fields) (r : Reference) :
    Built (moveReference side depth key moved r) := by
  unfold moveReference
  refine Built.bind (built_copyEntry ..) fun _ => ?_
  split
  · infer_instance
  · have hfound (top : String) (v : Option Value) : Built (match v with
        | none => pure moved
        | some v => do
          remove side top
          return moved ++ [(top, v)]) := by
      cases v <;> infer_instance
    split
    · infer_instance
    · exact Built.bind (built_find? _) fun v => hfound _ v

instance built_moveInto (n : Node) (key : String) : Built (moveInto side chain n key) := by
  unfold moveInto
  infer_instance

instance built_moveAll (key : String) (ns : List Node) : Built (moveAll side chain key ns) := by
  induction ns with
  | nil => exact built_pure []
  | cons n ns ih =>
    unfold moveAll
    infer_instance

instance built_wrapElement (tag : Tag) (n : Node) : Built (wrapElement chain side tag n) := by
  unfold wrapElement
  infer_instance

instance built_unmatched (enclosing : Option Tag) (n : Node) (rest : List Node) :
    Built (unmatched chain side enclosing n rest) := by
  unfold unmatched
  split <;> infer_instance

instance built_mismatch (a b : Node) : Built (mismatch a b) := by
  unfold mismatch
  infer_instance

end Leaves

section Extract

variable {τ σ : Type} {same : τ → τ → Bool} {fit : τ → σ → Merge τ}

instance built_readSources [∀ template source, Built (fit template source)] (mayRestart : Bool)
    (template : τ) (records : List Fields) (sources : List σ) :
    Built (readSources same fit mayRestart template records sources) := by
  induction sources generalizing template records with
  | nil => exact built_pure _
  | cons source sources ih =>
    unfold readSources
    infer_instance

instance built_extract [∀ template source, Built (fit template source)] (template : τ) (sources : List σ) :
    Built (extract same fit template sources) := by
  unfold extract
  generalize sources.length + 1 = restarts
  induction restarts generalizing template with
  | zero =>
    unfold extractWithin
    infer_instance
  | succ restarts ih =>
    refine Built.bind (built_readSources ..) fun read => ?_
    obtain ⟨grown, _ | records⟩ := read
    · exact ih grown
    · exact built_pure _

end Extract

section Nested

variable [∀ chain around a b, Built (merge chain around a b)]

instance built_buildLoop (as bs : List Node) : Built (buildLoop merge chain around as bs) := by
  unfold buildLoop
  infer_instance

instance built_absorb (r : Reference) (template : Node) (elements : List Node) :
    Built (absorb merge around side r template elements) := by
  unfold absorb
  infer_instance

instance built_mergeConditional (r : Reference) (template other : Node) :
    Built (mergeConditional merge around side r template other) := by
  unfold mergeConditional
  cases side <;> infer_instance

instance built_mergeRuns (a b : Node) (restA restB : List Node) :
    Built (mergeRuns? α merge chain around a b restA restB) := by
  unfold mergeRuns?
  split <;> infer_instance

instance built_mergePair (a b : Node) (restA restB : List Node) :
    Built (mergePair α merge chain around a b restA restB) := by
  unfold mergePair
  split <;> infer_instance

instance built_mergeFronts (a b : Node) (restA restB : List Node) :
    Built (mergeFronts α merge chain around a b restA restB) := by
  unfold mergeFronts
  refine Built.bind (built_mergeBlocks ..) fun first => ?_
  cases first with
  | some taken => infer_instance
  | none =>
    refine Built.bind (built_mergeRuns ..) fun second => ?_
    cases second with
    | some taken => infer_instance
    | none =>
      dsimp only
      refine Built.bind (built_complain _) fun _ => ?_
      split
      · infer_instance
      · refine Built.bind (built_complain _) fun _ => ?_
        split <;> infer_instance

instance built_align (fuel : Nat) (as bs : List Node) : Built (align α merge chain around fuel as bs) := by
  induction fuel generalizing as bs with
  | zero => cases as <;> cases bs <;> (unfold align; infer_instance)
  | succ fuel ih => cases as <;> cases bs <;> (unfold align; infer_instance)

instance built_mergeSiblings (as bs : List Node) : Built (mergeSiblings α merge chain around as bs) := by
  unfold mergeSiblings
  refine Built.bind (built_mergeInline ..) fun found => ?_
  cases found <;> infer_instance

instance built_mergeElements (tag other : Tag) (as bs : List Node) :
    Built (mergeElements α merge chain tag other as bs) := by
  unfold mergeElements
  infer_instance

instance built_mergeStep (a b : Node) : Built (mergeStep α merge chain around a b) := by
  unfold mergeStep
  split <;> infer_instance

end Nested

instance built_mergeNode (fuel : Nat) (chain : Scope) (around : Around) (a b : Node) :
    Built (mergeNode α fuel chain around a b) := by
  induction fuel generalizing chain around a b with
  | zero => exact built_throw _
  | succ fuel ih => exact built_mergeStep a b

instance built_nodes (a b : Node) : Built (nodes α chain around a b) :=
  built_mergeNode ..

instance built_lists (as bs : List Node) : Built (lists α chain around as bs) :=
  built_mergeSiblings as bs

end Stencil.Merge
