import Stencil.Merge.Basic
import Stencil.Proofs.Merge.Returns
import Stencil.Proofs.Rendering

namespace Stencil

class Failure.Lenient (P : Failure → Prop) : Prop where
  holds {f : Failure} : ¬ (f.family = .mismatch ∨ f.family = .limit) → P f

class Failure.Mild (P : Failure → Prop) : Prop where
  holds {f : Failure} : ¬ (f.family = .mismatch ∨ f.family = .limit ∨ f.family = .pairing) → P f

variable {β γ : Type} {P : Failure → Prop}

instance [Failure.Lenient P] : Failure.Mild P where
  holds h := Failure.Lenient.holds fun hf => h (hf.imp_right .inl)

def ErrsIn (P : Failure → Prop) (r : Except Failure β) : Prop :=
  ∀ f, r = .error f → P f

@[simp]
theorem errsIn_ok (x : β) : ErrsIn P (.ok x) := by
  simp [ErrsIn]

@[simp]
theorem errsIn_pure (x : β) : ErrsIn P (pure x) :=
  errsIn_ok x

theorem errsIn_error {f : Failure} : ErrsIn P (.error f : Except Failure β) ↔ P f := by
  simp [ErrsIn]

@[simp]
theorem errsIn_bind {r : Except Failure β} {f : β → Except Failure γ} :
    ErrsIn P (r >>= f) ↔ ErrsIn P r ∧ ∀ x, r = .ok x → ErrsIn P (f x) := by
  cases r with
  | ok x =>
    change ErrsIn P (f x) ↔ _
    simp
  | error e =>
    change ErrsIn P (.error e) ↔ _
    simp [errsIn_error]

@[simp]
theorem errsIn_map {r : Except Failure β} {f : β → γ} : ErrsIn P (f <$> r) ↔ ErrsIn P r := by
  cases r with
  | ok x => exact iff_of_true (errsIn_ok _) (errsIn_ok _)
  | error e => exact errsIn_error.trans errsIn_error.symm

@[simp]
theorem errsIn_exceptMap {r : Except Failure β} {f : β → γ} : ErrsIn P (r.map f) ↔ ErrsIn P r :=
  errsIn_map

theorem errsIn_mapM {f : β → Except Failure γ} {xs : List β} (h : ∀ x ∈ xs, ErrsIn P (f x)) :
    ErrsIn P (xs.mapM f) := by
  induction xs with
  | nil => exact errsIn_ok _
  | cons x xs ih =>
    rw [List.forall_mem_cons] at h
    rw [List.mapM_cons]
    simp [h.1, ih h.2]

def Merge.FailsIn (P : Failure → Prop) (m : Merge β) (s : MergeState) : Prop :=
  ErrsIn P (m.run s).1

@[simp]
theorem errsIn_mild [Failure.Mild P] {f : Failure}
    (h : ¬ (f.family = .mismatch ∨ f.family = .limit ∨ f.family = .pairing)) :
    ErrsIn P (.error f : Except Failure β) :=
  errsIn_error.mpr (Failure.Mild.holds h)

@[simp]
theorem errsIn_lenient [Failure.Lenient P] {f : Failure} (h : ¬ (f.family = .mismatch ∨ f.family = .limit)) :
    ErrsIn P (.error f : Except Failure β) :=
  errsIn_error.mpr (Failure.Lenient.holds h)

theorem Record.errsIn_uniqueName [Failure.Mild P] (r : Record) (enclosing : Option Tag) (before after : String)
    (reserved : List String) : ErrsIn P (r.uniqueName enclosing before after reserved) := by
  unfold uniqueName
  dsimp only
  split <;> simp [Failure.family]

namespace Markup

theorem errsIn_renderAttribute (depth : Nat) (a : Attribute) :
    ErrsIn (·.family = .pairing) (renderAttribute plain depth a) := by
  cases a <;> simp [renderAttribute, plain, errsIn_error, Failure.family]

theorem errsIn_renderAttributes (depth : Nat) (attrs : List Attribute) :
    ErrsIn (·.family = .pairing) (renderAttributes plain depth attrs) := by
  simp only [renderAttributes, errsIn_bind, errsIn_pure, implies_true, and_true]
  exact errsIn_mapM fun a _ => errsIn_renderAttribute depth a

mutual
theorem errsIn_renderNode (depth : Nat) (rawText : Bool) :
    (n : Node) → ErrsIn (·.family = .pairing) (renderNode plain depth rawText n)
  | .literal .. | .slot .. | .block .. | .content | .foreign => by
    simp [renderNode, plain, errsIn_error, Failure.family]
  | .element t cs => by
    rw [renderNode, errsIn_bind]
    refine ⟨errsIn_renderAttributes depth t.attrs, fun attrs _ => ?_⟩
    dsimp only
    split
    · exact errsIn_pure _
    · simp [errsIn_renderNodes depth _ cs]

theorem errsIn_renderNodes (depth : Nat) (rawText : Bool) :
    (ns : List Node) → ErrsIn (·.family = .pairing) (renderNodes plain depth rawText ns)
  | [] => errsIn_ok _
  | n :: ns => by
    rw [renderNodes]
    simp [errsIn_renderNode depth rawText n, errsIn_renderNodes depth rawText ns]
end

theorem family_of_render {ns : List Node} {f : Failure} (h : render ns = .error f) : f.family = .pairing :=
  errsIn_renderNodes 0 false ns f h

theorem errsIn_render [Failure.Lenient P] (ns : List Node) : ErrsIn P (render ns) := by
  intro f h
  apply Failure.Lenient.holds
  rw [family_of_render h]
  decide

end Markup

theorem Markdown.errsIn_ofNodes {ns : List Node} (h : Node.StaticList ns) : ErrsIn P (ofNodes ns) := by
  obtain ⟨x, hx⟩ := ofNodes_ok h
  rw [hx]
  exact errsIn_ok x

theorem Attribute.errsIn_describe [Failure.Mild P] (a : Attribute) : ErrsIn P a.describe := by
  cases a <;> simp [describe, Failure.family]

mutual
theorem Node.errsIn_describe [Failure.Mild P] (depth : Nat) : (n : Node) → ErrsIn P (n.describe depth)
  | literal .. | slot .. | block .. | content | foreign => by simp [describe, Failure.family]
  | element t [] => by simp [describe, errsIn_mapM fun a _ => Attribute.errsIn_describe a]
  | element t (n :: ns) => by
    cases depth with
    | zero => simp [describe, errsIn_mapM fun a _ => Attribute.errsIn_describe a]
    | succ depth =>
      have hchildren := errsIn_describeList depth (n :: ns)
      simp [describe, errsIn_mapM fun a _ => Attribute.errsIn_describe a, hchildren]

theorem Node.errsIn_describeList [Failure.Mild P] (depth : Nat) :
    (ns : List Node) → ErrsIn P (describeList depth ns)
  | [] => errsIn_ok _
  | n :: ns => by
    rw [describeList]
    simp [errsIn_describe depth n, errsIn_describeList depth ns]
end

namespace Merge

variable {s : MergeState} {chain : Scope} {around : Around} {side : Side}

@[simp]
theorem failsIn_pure (x : β) : FailsIn P (pure x) s :=
  errsIn_ok x

theorem failsIn_throw {f : Failure} : FailsIn P (throw f : Merge β) s ↔ P f :=
  errsIn_error

@[simp]
theorem failsIn_bind {m : Merge β} {f : β → Merge γ} :
    FailsIn P (m >>= f) s ↔ FailsIn P m s ∧ ∀ x t, Returns m s x t → FailsIn P (f x) t := by
  change ErrsIn P (ExceptT.bind m f s).1 ↔ _
  unfold FailsIn Returns
  rcases hm : m.run s with ⟨r, u⟩
  have hr : m s = (r, u) := hm
  simp only [ExceptT.bind, ExceptT.mk, bind, StateT.bind, hr]
  cases r with
  | ok y =>
    constructor
    · intro h
      refine ⟨errsIn_ok y, fun x t he => ?_⟩
      cases he
      exact h
    · intro h
      exact h.2 y u rfl
  | error e =>
    change ErrsIn P (Except.error e : Except Failure γ) ↔ _
    constructor
    · intro h
      exact ⟨errsIn_error.mpr (errsIn_error.mp h), fun x t he => nomatch he⟩
    · intro h
      exact errsIn_error.mpr (errsIn_error.mp h.1)

@[simp]
theorem failsIn_map {m : Merge β} {f : β → γ} : FailsIn P (f <$> m) s ↔ FailsIn P m s := by
  rw [← bind_pure_comp, failsIn_bind]
  simp

@[simp]
theorem failsIn_ite {c : Prop} [Decidable c] {m m' : Merge β} :
    FailsIn P (if c then m else m') s ↔ (c → FailsIn P m s) ∧ (¬ c → FailsIn P m' s) := by
  split <;> simp [*]

@[simp]
theorem failsIn_get : FailsIn P get s :=
  errsIn_ok s

@[simp]
theorem failsIn_modify (f : MergeState → MergeState) : FailsIn P (modify f) s :=
  errsIn_ok ()

@[simp]
theorem failsIn_ofExcept {r : Except Failure β} : FailsIn P (ofExcept r) s ↔ ErrsIn P r :=
  Iff.rfl

@[simp]
theorem failsIn_put (key : String) (v : Value) : FailsIn P (put side key v) s :=
  failsIn_modify _

@[simp]
theorem failsIn_remove (key : String) : FailsIn P (remove side key) s :=
  failsIn_modify _

@[simp]
theorem failsIn_find? (key : String) : FailsIn P (find? side key) s :=
  errsIn_ok _

@[simp]
theorem failsIn_reshape : FailsIn P reshape s :=
  failsIn_modify _

@[simp]
theorem failsIn_debug (message : String) : FailsIn P (debug message) s :=
  failsIn_modify _

@[simp]
theorem failsIn_complain (complaints : List String) : FailsIn P (complain complaints) s :=
  failsIn_modify _

@[simp]
theorem failsIn_inScope {m : Merge β} :
    FailsIn P (inScope m) s ↔ FailsIn P m { s with left := [], right := [] } := by
  unfold FailsIn
  change ErrsIn P ((fun p : Except Failure β × MergeState => p.1.map fun z => (z, p.2.left, p.2.right))
    (m.run { s with left := [], right := [] })) ↔ _
  exact errsIn_exceptMap

theorem failsIn_foldlM {f : β → γ → Merge β} {xs : List γ} {x : β}
    (h : ∀ x y s, FailsIn P (f x y) s) : FailsIn P (xs.foldlM f x) s := by
  induction xs generalizing x s with
  | nil => exact failsIn_pure x
  | cons y xs ih =>
    rw [List.foldlM_cons, failsIn_bind]
    exact ⟨h x y s, fun x t _ => ih⟩

@[simp]
theorem failsIn_inlineValue (slot : Option Reference) (md key : String) :
    FailsIn P (inlineValue side slot md key) s := by
  cases slot <;> simp [inlineValue]

theorem failsIn_markdown {ns : List Node} (h : Node.StaticList ns) : FailsIn P (markdown ns) s :=
  Markdown.errsIn_ofNodes h

section Mild

variable [Failure.Mild P]

@[simp]
theorem failsIn_mild {f : Failure} (h : ¬ (f.family = .mismatch ∨ f.family = .limit ∨ f.family = .pairing)) :
    FailsIn P (throw f : Merge β) s :=
  errsIn_mild h

@[simp]
theorem failsIn_newKey {enclosing source : Option Tag} {suffix : String} {kind : Variation}
    {attr : Option String} : FailsIn P (newKey chain enclosing suffix kind source attr) s := by
  simp [newKey, Record.errsIn_uniqueName]

theorem failsIn_mergeTexts (v w : String) : FailsIn P (mergeTexts chain around v w) s := by
  simp [mergeTexts]

theorem failsIn_mergeInline (as bs : List Node) : FailsIn P (mergeInline? chain around as bs) s := by
  have hwritten (ns : List Node) (u : MergeState) (h : Markdown.isInlineTree ns = true) :
      FailsIn P (markdown ns) u :=
    failsIn_markdown (Markdown.static_of_isInlineTree ns h)
  unfold mergeInline?
  split
  · simp
  · split
    · simp
    · simp +contextual [hwritten]
    · simp +contextual [hwritten]
    · dsimp only
      split
      · simp
      next hno =>
        simp only [Bool.or_eq_true, not_or, Bool.and_eq_true, not_and, Bool.not_eq_true', Bool.not_eq_false,
          Option.isNone_iff_eq_none] at hno
        have hleft (ha : (singleSlot? .plain as).isSome = false) (u : MergeState) : FailsIn P (markdown as) u :=
          hwritten as u (hno.1.1.2 (by simpa using ha))
        have hright (hb : (singleSlot? .plain bs).isSome = false) (u : MergeState) : FailsIn P (markdown bs) u :=
          hwritten bs u (hno.1.2 (by simpa using hb))
        simp +contextual [hleft, hright]

theorem failsIn_mergeBlocks (as bs : List Node) : FailsIn P (mergeBlocks? chain around as bs) s := by
  have hwritten (ns : List Node) (u : MergeState) : FailsIn P (markdown (ns.take (Markdown.run ns))) u :=
    failsIn_markdown (Markdown.static_of_run ns)
  unfold mergeBlocks?
  dsimp only
  split
  · simp
  · split <;> simp [hwritten]

theorem failsIn_lonelyAttribute (owner : Tag) (a : Attribute) :
    FailsIn P (lonelyAttribute chain side owner a) s := by
  cases a <;> simp [lonelyAttribute, noRule, Failure.family]

theorem failsIn_pairAttribute (owner : Tag) (a b : Attribute) :
    FailsIn P (pairAttribute chain owner a b) s := by
  cases a <;> cases b <;> simp [pairAttribute, noRule, Failure.family]

theorem failsIn_leftAttributes (tag other : Tag) (attrs : List Attribute) :
    FailsIn P (leftAttributes chain tag other attrs) s := by
  induction attrs generalizing s with
  | nil => simp [leftAttributes]
  | cons a attrs ih =>
    rw [leftAttributes]
    split <;> simp [failsIn_lonelyAttribute, failsIn_pairAttribute, ih]

theorem failsIn_rightAttributes (tag other : Tag) (attrs : List Attribute) :
    FailsIn P (rightAttributes chain tag other attrs) s := by
  induction attrs generalizing s with
  | nil => simp [rightAttributes]
  | cons a attrs ih => simp [rightAttributes, failsIn_lonelyAttribute, ih]

theorem failsIn_mergeAttributes (tag other : Tag) : FailsIn P (mergeAttributes chain tag other) s := by
  simp [mergeAttributes, failsIn_leftAttributes, failsIn_rightAttributes]

theorem failsIn_moveReference (depth : Nat) (key : String) (moved : Fields) (r : Reference) :
    FailsIn P (moveReference side depth key moved r) s := by
  unfold moveReference
  simp only [failsIn_bind, failsIn_modify, true_and]
  intro _ t _
  split
  · simp [Failure.family]
  · simp only [failsIn_ite, failsIn_pure, failsIn_bind, failsIn_find?, implies_true, true_and]
    intro _ v u _
    split <;> simp

theorem failsIn_moveInto (n : Node) (key : String) : FailsIn P (moveInto side chain n key) s := by
  simp [moveInto, failsIn_foldlM fun moved r s => failsIn_moveReference _ key moved r]

theorem failsIn_moveAll (key : String) (ns : List Node) : FailsIn P (moveAll side chain key ns) s := by
  induction ns generalizing s with
  | nil => simp [moveAll]
  | cons n ns ih => simp [moveAll, failsIn_moveInto, ih]

theorem failsIn_wrapElement (tag : Tag) (n : Node) : FailsIn P (wrapElement chain side tag n) s := by
  simp [wrapElement, failsIn_moveInto, Node.errsIn_describe]

theorem failsIn_mergeDrawings_of (tag : Tag) {a b : Node} (ha : ErrsIn P (Markup.render [a]))
    (hb : ErrsIn P (Markup.render [b])) : FailsIn P (mergeDrawings chain tag a b) s := by
  simp [mergeDrawings, markup, ha, hb]

theorem failsIn_unmatched_of (enclosing : Option Tag) {n : Node} (rest : List Node)
    (h : n = .foreign → P (.noMergeRule Node.foreign.kindName)) :
    FailsIn P (unmatched chain side enclosing n rest) s := by
  have hwritten (ns : List Node) (u : MergeState) : FailsIn P (markdown (ns.take (Markdown.run ns))) u :=
    failsIn_markdown (Markdown.static_of_run ns)
  unfold unmatched
  split
  case h_8 => exact failsIn_throw.mpr (h rfl)
  all_goals simp [failsIn_wrapElement, hwritten]

end Mild

section Lenient

variable [Failure.Lenient P]

@[simp]
theorem failsIn_markup (n : Node) : FailsIn P (markup n) s :=
  Markup.errsIn_render [n]

theorem failsIn_mergeDrawings (tag : Tag) (a b : Node) : FailsIn P (mergeDrawings chain tag a b) s :=
  failsIn_mergeDrawings_of tag (Markup.errsIn_render [a]) (Markup.errsIn_render [b])

theorem holds_noMergeRule (kind : String) : P (.noMergeRule kind) :=
  Failure.Lenient.holds (by simp [Failure.family])

end Lenient

end Merge

end Stencil
