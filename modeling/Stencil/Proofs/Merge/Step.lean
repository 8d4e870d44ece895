import Stencil.Merge.Basic
import Stencil.Proofs.Merge.Attributes
import Stencil.Proofs.Merge.Front
import Stencil.Proofs.Merge.Literal
import Stencil.Proofs.Merge.Moving
import Stencil.Proofs.Score

namespace Stencil.Merge

variable {α : Type} [Grade α] {merge : NodeMerger} {chain : Scope} {around : Around} {side : Side}
  {s t : MergeState}

inductive Runs (α : Type) [Grade α] (merge : NodeMerger) (chain : Scope) (around : Around)
    (a b : Node) (restA restB : List Node) (s : MergeState) : Taken → MergeState → Prop
  | mk {n : Node} {runA runB : Nat} {u t : MergeState} : Quiet s u →
    Score.reachesThreshold (α := α) a b = true → a.isElement = true → b.isElement = true →
    runA = Score.repeats (α := α) a restA → runB = Score.repeats (α := α) b restB →
    (runA = 0 → runB ≠ 0) →
    Looped merge chain around (elementsIn (a :: restA.take runA)) (elementsIn (b :: restB.take runB))
      u n t →
    Runs α merge chain around a b restA restB s ⟨n, 1 + runA, 1 + runB⟩ t

theorem Returns.mergeRuns_buildLoop {a b : Node} {restA restB : List Node} {taken : Taken}
    (h : Returns (mergeRuns? α merge chain around a b restA restB) s (some taken) t) :
    a.isElement = true ∧ b.isElement = true ∧ Score.reachesThreshold (α := α) a b = true ∧
      (Score.repeats (α := α) a restA = 0 → Score.repeats (α := α) b restB ≠ 0) ∧
      ∃ n u, taken = ⟨n, 1 + Score.repeats (α := α) a restA, 1 + Score.repeats (α := α) b restB⟩ ∧ Quiet s u ∧
        Returns (Merge.buildLoop merge chain around
          (elementsIn (a :: restA.take (Score.repeats (α := α) a restA)))
          (elementsIn (b :: restB.take (Score.repeats (α := α) b restB)))) u n t := by
  unfold mergeRuns? at h
  split at h
  · split at h
    · simp at h
    · rw [returns_bind] at h
      obtain ⟨_, u, hu, h⟩ := h
      split at h
      · simp at h
      · next hlike =>
        simp only [returns_bind] at h
        obtain ⟨_, v, hv, _, w, hw, h⟩ := h
        have hsw := ((Returns.complain hu).trans (Returns.complain hv)).trans (Returns.complain hw)
        split at h
        · simp at h
        · next hruns =>
          split at h
          · simp at h
          · simp only [returns_bind, returns_pure] at h
            obtain ⟨n, _, hn, htaken, rfl⟩ := h
            cases htaken
            exact ⟨rfl, rfl, by simpa using hlike, by simpa using hruns, n, w, rfl, hsw, hn⟩
  · simp at h

theorem Returns.mergeRuns {a b : Node} {restA restB : List Node} {taken : Taken}
    (h : Returns (mergeRuns? α merge chain around a b restA restB) s (some taken) t) :
    Runs α merge chain around a b restA restB s taken t := by
  obtain ⟨hisA, hisB, hlike, hruns, n, u, rfl, hu, hn⟩ := Returns.mergeRuns_buildLoop h
  exact .mk hu hlike hisA hisB rfl rfl hruns (Returns.buildLoop hn)

theorem Runs.false_of_nodup [Grade.Selective α] {a b : Node} {restA restB : List Node} {taken : Taken}
    (ha : (Node.elementNames (a :: restA)).Nodup) (hb : (Node.elementNames (b :: restB)).Nodup)
    (h : Runs α merge chain around a b restA restB s taken t) : False := by
  cases h with
  | mk _ _ hisA hisB hrunA hrunB hruns _ =>
    cases a <;> cases hisA
    cases b <;> cases hisB
    exact hruns (hrunA.trans (Score.repeats_eq_zero ha)) (hrunB.trans (Score.repeats_eq_zero hb))

inductive Partners (α : Type) [Grade α] (merge : NodeMerger) (chain : Scope) (around : Around)
    (restA restB : List Node) (s : MergeState) : Node → Node → Taken → MergeState → Prop
  | absorbRight {r : Reference} {template b n : Node} {run : Nat} {t : MergeState} :
    b.isElement = true → run = Score.repeats (α := α) template restB →
    Absorbed merge around .right r template (elementsIn (b :: restB.take run)) s n t →
    Partners α merge chain around restA restB s (.block .loop r template) b ⟨n, 1, 1 + run⟩ t
  | absorbLeft {r : Reference} {a template n : Node} {run : Nat} {t : MergeState} :
    a.isElement = true → run = Score.repeats (α := α) template restA →
    Absorbed merge around .left r template (elementsIn (a :: restA.take run)) s n t →
    Partners α merge chain around restA restB s a (.block .loop r template) ⟨n, 1 + run, 1⟩ t
  | merged {a b n : Node} {t : MergeState} : Returns (merge chain around a b) s n t →
    Partners α merge chain around restA restB s a b ⟨n, 1, 1⟩ t

theorem Returns.mergePair {a b : Node} {restA restB : List Node} {taken : Taken}
    (h : Returns (mergePair α merge chain around a b restA restB) s taken t) :
    ∃ u, Quiet s u ∧ Partners α merge chain around restA restB u a b taken t := by
  unfold Merge.mergePair at h
  split at h
  · simp only [returns_bind, returns_pure] at h
    obtain ⟨_, u, hu, n, _, hn, rfl, rfl⟩ := h
    exact ⟨u, Returns.complain hu, .absorbRight rfl rfl (Returns.absorb hn)⟩
  · simp only [returns_bind, returns_pure] at h
    obtain ⟨_, u, hu, n, _, hn, rfl, rfl⟩ := h
    exact ⟨u, Returns.complain hu, .absorbLeft rfl rfl (Returns.absorb hn)⟩
  · simp only [returns_bind, returns_pure] at h
    obtain ⟨n, _, hn, rfl, rfl⟩ := h
    exact ⟨s, .refl s, .merged hn⟩

inductive Readable : SlotKind → Node → Value → Prop
  | text {k : SlotKind} {v : String} : Score.isTextLike k = true →
    Readable k (.literal .text v) (.text (Text.strip v))
  | markup {tag : Tag} {cs : List Node} {x : String} : (Node.element tag cs).references = [] →
    Readable .html (.element tag cs) (.text x)

inductive Kept : Node → Node → Prop
  | text {v w : String} : Text.strip v = Text.strip w → Kept (.literal .text v) (.literal .text w)
  | literal {k : LiteralKind} {v w : String} : k ≠ .text → Kept (.literal k v) (.literal k w)
  | slot {k : SlotKind} {r q : Reference} : Kept (.slot k r) (.slot k q)
  | content : Kept .content .content
  | drawing {tag tag' : Tag} {cs ds : List Node} {x : String} : tag.name = "svg" →
    tag'.name = "svg" → Markup.render [.element tag cs] = .ok x →
    Markup.render [.element tag' ds] = .ok x →
    Kept (.element tag cs) (.element tag' ds)

inductive Step (α : Type) [Grade α] (merge : NodeMerger) (chain : Scope) (around : Around)
    (s : MergeState) : Node → Node → Node → MergeState → Prop
  | conditionals {r q : Reference} {template other n : Node} {scopes : Fields × Fields}
    {t : MergeState} : Returns (inScope (merge r around template other)) s (n, scopes) t →
    Step α merge chain around s (.block .conditional r template) (.block .conditional q other)
      (.block .conditional r n) t
  | conditionalLeft {r : Reference} {template b n : Node} {own others : Fields}
    {u v t : MergeState} : Returns (inScope (merge r around template b)) s (n, own, others) u →
    Reads .right r.key (if others.isEmpty then .bool true else .map others) u v →
    (Quiet v t ∨ ∃ x, Reads .left r.key x v t) →
    Step α merge chain around s (.block .conditional r template) b (.block .conditional r n) t
  | conditionalRight {r : Reference} {a template n : Node} {own others : Fields}
    {u v t : MergeState} : Returns (inScope (merge r around a template)) s (n, others, own) u →
    Reads .left r.key (if others.isEmpty then .bool true else .map others) u v →
    (Quiet v t ∨ ∃ x, Reads .right r.key x v t) →
    Step α merge chain around s a (.block .conditional r template) (.block .conditional r n) t
  | loops {r q : Reference} {template other n : Node} {scopes : Fields × Fields}
    {u t : MergeState} : Returns (inScope (merge r around template other)) s (n, scopes) u →
    Quiet u t → Step α merge chain around s (.block .loop r template) (.block .loop q other)
      (.block .loop r n) t
  | absorbRight {r : Reference} {template b n : Node} {t : MergeState} : b.isElement = true →
    Absorbed merge around .right r template [b] s n t →
    Step α merge chain around s (.block .loop r template) b n t
  | absorbLeft {r : Reference} {a template n : Node} {t : MergeState} : a.isElement = true →
    Absorbed merge around .left r template [a] s n t →
    Step α merge chain around s a (.block .loop r template) n t
  | readRight {k : SlotKind} {r : Reference} {b : Node} {v : Value} {t : MergeState} :
    Readable k b v → Reads .right r.key v s t →
    Step α merge chain around s (.slot k r) b (.slot k r) t
  | readLeft {k : SlotKind} {r : Reference} {a : Node} {v : Value} {t : MergeState} :
    Readable k a v → Reads .left r.key v s t →
    Step α merge chain around s a (.slot k r) (.slot k r) t
  | elements {tag tag' : Tag} {cs ds ns : List Node} {attrs : List Attribute} {u t : MergeState} :
    tag.name = tag'.name → tag.name ≠ "svg" → Returns (mergeAttributes chain tag tag') s attrs u →
    Returns (mergeSiblings α merge chain ⟨some tag, some tag'⟩ cs ds) u ns t →
    Step α merge chain around s (.element tag cs) (.element tag' ds)
      (.element ⟨tag.name, attrs⟩ ns) t
  | drawings {tag tag' : Tag} {cs ds : List Node} {x y key : String} {t : MergeState} :
    tag.name = "svg" → tag'.name = "svg" → Markup.render [.element tag cs] = .ok x →
    Markup.render [.element tag' ds] = .ok y → x ≠ y → Opens chain .left key (.text x) (.text y) s t →
    Step α merge chain around s (.element tag cs) (.element tag' ds)
      (.slot .html (chain ++ [key])) t
  | texts {v w key : String} {t : MergeState} : Text.strip v ≠ Text.strip w →
    Opens chain .left key (.text (Text.strip v)) (.text (Text.strip w)) s t →
    Step α merge chain around s (.literal .text v) (.literal .text w)
      (.slot .plain (chain ++ [key])) t
  | kept {a b : Node} {t : MergeState} : Kept a b → Quiet s t → Step α merge chain around s a b a t

theorem Returns.mergeTexts {v w : String} {n : Node}
    (h : Returns (mergeTexts chain around v w) s n t) :
    Step α merge chain around s (.literal .text v) (.literal .text w) n t := by
  simp only [Merge.mergeTexts] at h
  split at h
  · next he =>
    rw [returns_pure] at h
    obtain ⟨rfl, rfl⟩ := h
    exact .kept (.text (by simpa using he)) (.refl _)
  · next he =>
    simp only [returns_bind, returns_put, returns_debug, returns_pure] at h
    obtain ⟨key, _, hkey, _, _, rfl, _, _, rfl, _, _, rfl, rfl, rfl⟩ := h
    have hkey := Returns.newKey hkey
    rw [hkey.reference]
    exact .texts (by simpa using he)
      ((hkey.opens (.put .left ..) (.put .right ..)).quiet (quiet_addLine ..))

theorem Returns.mergeElements {tag tag' : Tag} {cs ds : List Node} {n : Node}
    (h : Returns (mergeElements α merge chain tag tag' cs ds) s n t) :
    Step α merge chain around s (.element tag cs) (.element tag' ds) n t := by
  unfold Merge.mergeElements at h
  split at h
  · simp at h
  · next hname =>
    have hname : tag.name = tag'.name := by simpa using hname
    split at h
    · next hsvg =>
      have hsvg : tag.name = "svg" := by simpa using hsvg
      simp only [mergeDrawings, markup, returns_bind, returns_ofExcept] at h
      obtain ⟨x, _, ⟨hx, rfl⟩, y, _, ⟨hy, rfl⟩, h⟩ := h
      split at h
      · next hxy =>
        rw [returns_pure] at h
        obtain ⟨rfl, rfl⟩ := h
        rw [beq_iff_eq] at hxy
        exact .kept (.drawing hsvg (hname ▸ hsvg) hx (hxy ▸ hy)) (.refl _)
      · next hxy =>
        simp only [returns_bind, returns_put, returns_debug, returns_pure] at h
        obtain ⟨key, _, hkey, _, _, rfl, _, _, rfl, _, _, rfl, rfl, rfl⟩ := h
        have hkey := Returns.newKey hkey
        rw [hkey.reference]
        exact .drawings hsvg (hname ▸ hsvg) hx hy (by simpa using hxy)
          ((hkey.opens (.put .left ..) (.put .right ..)).quiet (quiet_addLine ..))
    · next hsvg =>
      simp only [returns_bind, returns_pure] at h
      obtain ⟨attrs, u, hattrs, ns, _, hns, rfl, rfl⟩ := h
      exact .elements hname (by simpa using hsvg) hattrs hns

theorem Returns.mergeConditional_left {r : Reference} {template b n : Node}
    (h : Returns (mergeConditional merge around .left r template b) s n t) :
    Step α merge chain around s (.block .conditional r template) b n t := by
  simp only [mergeConditional, returns_bind] at h
  obtain ⟨⟨m, left, right⟩, u, hm, _, v, hv, h⟩ := h
  dsimp only at hm hv h
  rw [returns_put] at hv
  subst hv
  split at h
  · simp only [returns_bind, returns_find?, returns_put, returns_pure] at h
    obtain ⟨_, _, ⟨-, rfl⟩, _, _, rfl, rfl, rfl⟩ := h
    exact .conditionalLeft hm (.put .right ..) (.inr ⟨_, .put ..⟩)
  · rw [returns_pure] at h
    obtain ⟨rfl, rfl⟩ := h
    exact .conditionalLeft hm (.put .right ..) (.inl (.refl _))

theorem Returns.mergeConditional_right {r : Reference} {template a n : Node}
    (h : Returns (mergeConditional merge around .right r template a) s n t) :
    Step α merge chain around s a (.block .conditional r template) n t := by
  simp only [mergeConditional, returns_bind] at h
  obtain ⟨⟨m, left, right⟩, u, hm, _, v, hv, h⟩ := h
  dsimp only at hm hv h
  rw [returns_put] at hv
  subst hv
  split at h
  · simp only [returns_bind, returns_find?, returns_put, returns_pure] at h
    obtain ⟨_, _, ⟨-, rfl⟩, _, _, rfl, rfl, rfl⟩ := h
    exact .conditionalRight hm (.put .left ..) (.inr ⟨_, .put ..⟩)
  · rw [returns_pure] at h
    obtain ⟨rfl, rfl⟩ := h
    exact .conditionalRight hm (.put .left ..) (.inl (.refl _))

theorem not_returns_mismatch {a b n : Node} : ¬ Returns (mismatch a b) s n t := by
  simp [mismatch]

theorem Returns.mergeStep {a b n : Node} (h : Returns (mergeStep α merge chain around a b) s n t) :
    Step α merge chain around s a b n t := by
  unfold Merge.mergeStep at h
  split at h
  · simp only [returns_bind, returns_pure] at h
    obtain ⟨⟨m, scopes⟩, _, hm, rfl, rfl⟩ := h
    exact .conditionals hm
  · exact Returns.mergeConditional_left h
  · exact Returns.mergeConditional_right h
  · rw [returns_bind] at h
    obtain ⟨⟨m, scopes⟩, u, hm, h⟩ := h
    dsimp only at h
    split at h
    · simp only [returns_bind, returns_reshape, returns_pure] at h
      obtain ⟨_, _, rfl, rfl, rfl⟩ := h
      exact .loops hm (quiet_reshape u)
    · rw [returns_pure] at h
      obtain ⟨rfl, rfl⟩ := h
      exact .loops hm (.refl _)
  · exact .absorbRight rfl (Returns.absorb h)
  · exact .absorbLeft rfl (Returns.absorb h)
  · simp only [markup, returns_bind, returns_ofExcept, returns_put, returns_pure] at h
    obtain ⟨x, _, ⟨hx, rfl⟩, _, _, rfl, rfl, rfl⟩ := h
    exact .readRight (.markup (Markup.references_of_render hx)) (.put ..)
  · simp only [markup, returns_bind, returns_ofExcept, returns_put, returns_pure] at h
    obtain ⟨x, _, ⟨hx, rfl⟩, _, _, rfl, rfl, rfl⟩ := h
    exact .readLeft (.markup (Markup.references_of_render hx)) (.put ..)
  · exact Returns.mergeElements h
  · exact Returns.mergeTexts h
  · split at h
    · next hk =>
      simp only [returns_bind, returns_put, returns_pure] at h
      obtain ⟨_, _, rfl, rfl, rfl⟩ := h
      exact .readLeft (.text hk) (.put ..)
    · exact absurd h not_returns_mismatch
  · split at h
    · next hk =>
      simp only [returns_bind, returns_put, returns_pure] at h
      obtain ⟨_, _, rfl, rfl, rfl⟩ := h
      exact .readRight (.text hk) (.put ..)
    · exact absurd h not_returns_mismatch
  · split at h
    · next hk =>
      rw [returns_pure] at h
      obtain ⟨rfl, rfl⟩ := h
      exact .kept (hk ▸ .slot) (.refl _)
    · exact absurd h not_returns_mismatch
  · rw [returns_pure] at h
    obtain ⟨rfl, rfl⟩ := h
    exact .kept .content (.refl _)
  · split at h
    · rw [returns_pure] at h
      obtain ⟨rfl, rfl⟩ := h
      exact .kept (.literal (by decide)) (.refl _)
    · simp at h
  · next htext _ =>
    split at h
    · next he =>
      rw [returns_pure] at h
      subst he
      obtain ⟨rfl, rfl⟩ := h
      exact .kept (.literal fun hk => htext hk hk) (.refl _)
    · exact absurd h not_returns_mismatch
  · exact absurd h not_returns_mismatch

end Stencil.Merge
