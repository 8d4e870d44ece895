import Stencil.Merge.Siblings
import Stencil.Proofs.Merge.Change

namespace Stencil.Merge

structure Unmarked (around : Around) : Prop where
  left : Markdown.allowsBlocks around.left = false
  right : Markdown.allowsBlocks around.right = false
  inline : Markdown.allowsInline around.left = false

theorem unmarked_root : Unmarked {} :=
  ⟨rfl, rfl, rfl⟩

theorem Returns.mergeBlocks_none {chain : Scope} {around : Around} {as bs : List Node}
    {s t : MergeState} (h : Returns (mergeBlocks? chain around as bs) s none t) : t = s := by
  unfold mergeBlocks? at h
  dsimp only at h
  split at h
  · simpa using h
  · split at h <;> split at h
    · simp at h
    · simpa using h
    · simp at h
    · simpa using h
    · simp only [markdown, returns_bind, returns_ofExcept] at h
      obtain ⟨x, _, ⟨-, rfl⟩, y, _, ⟨-, rfl⟩, h⟩ := h
      split at h
      · simpa using h
      · simp at h
    · simpa using h

theorem not_returns_mergeBlocks {chain : Scope} {around : Around} {as bs : List Node}
    {s t : MergeState} {taken : Taken} (hno : Markdown.allowsBlocks around.left = false) :
    ¬ Returns (mergeBlocks? chain around as bs) s (some taken) t := by
  simp [mergeBlocks?, hno]

theorem not_returns_mergeInline {chain : Scope} {around : Around} {as bs ns : List Node}
    {s t : MergeState} (hno : Markdown.allowsInline around.left = false) :
    ¬ Returns (mergeInline? chain around as bs) s (some ns) t := by
  simp [mergeInline?, hno]

theorem Returns.mergeInline_none {chain : Scope} {around : Around} {as bs : List Node}
    {s t : MergeState} (h : Returns (mergeInline? chain around as bs) s none t) : t = s := by
  unfold mergeInline? at h
  split at h
  · simpa using h
  · split at h
    · simpa using h
    · split at h
      · simp [markdown] at h
      · simpa using h
    · split at h
      · simp [markdown] at h
      · simpa using h
    · dsimp only at h
      split at h
      · simpa using h
      · -- the two texts are found without touching the state
        split at h <;> rw [returns_bind] at h <;> obtain ⟨x, _, hx, h⟩ := h <;> split at h <;>
          rw [returns_bind] at h <;> obtain ⟨y, _, hy, h⟩ := h <;>
          simp only [markdown, returns_pure, returns_ofExcept] at hx hy <;>
          obtain ⟨-, rfl⟩ := hx <;> obtain ⟨-, rfl⟩ := hy <;> split at h <;> simp at h
        all_goals exact h

variable {α : Type} [Grade α] {merge : NodeMerger} {chain : Scope} {around : Around}
  {s t : MergeState}

theorem Returns.mergeRuns_none {a b : Node} {restA restB : List Node}
    (h : Returns (mergeRuns? α merge chain around a b restA restB) s none t) : Quiet s t := by
  unfold mergeRuns? at h
  split at h
  · split at h
    · simp only [returns_pure] at h
      exact h.2 ▸ Quiet.refl s
    · rw [returns_bind] at h
      obtain ⟨_, u, hu, h⟩ := h
      have hsu := Returns.complain hu
      split at h
      · simp only [returns_pure] at h
        exact h.2 ▸ hsu
      · simp only [returns_bind] at h
        obtain ⟨_, v, hv, _, w, hw, h⟩ := h
        have hsw := (hsu.trans (Returns.complain hv)).trans (Returns.complain hw)
        split at h
        · simp only [returns_pure] at h
          exact h.2 ▸ hsw
        · split at h
          · simp only [returns_pure] at h
            exact h.2 ▸ hsw
          · simp at h
  · simp only [returns_pure] at h
    exact h.2 ▸ Quiet.refl s

variable (α merge chain around)

inductive Front (a b : Node) (restA restB : List Node) (s : MergeState) :
    Taken → MergeState → Prop
  | blocks {taken : Taken} {t : MergeState} :
    Returns (mergeBlocks? chain around (a :: restA) (b :: restB)) s (some taken) t →
      Front a b restA restB s taken t
  | runs {taken : Taken} {u t : MergeState} : Quiet s u →
    Returns (mergeRuns? α merge chain around a b restA restB) u (some taken) t →
      Front a b restA restB s taken t
  | pair {taken : Taken} {u t : MergeState} : Quiet s u →
    (Grade.isOne (Score.score false a b : α) = true ∨
      Score.isBestMatch a b (Score.score false a b : α) restA restB = true) →
    Returns (mergePair α merge chain around a b restA restB) u taken t →
      Front a b restA restB s taken t
  | left {n : Node} {count : Nat} {u t : MergeState} : Quiet s u →
    Grade.isOne (Score.score false a b : α) = false →
    Score.isBestMatch a b (Score.score false a b : α) restA restB = false →
    leftIsExtra α a b (Score.score false a b) restA restB = true →
    Returns (unmatched chain .left around.left a restA) u (n, count) t →
      Front a b restA restB s ⟨n, count, 0⟩ t
  | right {n : Node} {count : Nat} {u t : MergeState} : Quiet s u →
    Grade.isOne (Score.score false a b : α) = false →
    Score.isBestMatch a b (Score.score false a b : α) restA restB = false →
    leftIsExtra α a b (Score.score false a b) restA restB = false →
    Returns (unmatched chain .right around.right b restB) u (n, count) t →
      Front a b restA restB s ⟨n, 0, count⟩ t

inductive Walk : List Node → List Node → MergeState → List Node → MergeState → Prop
  | done {s : MergeState} : Walk [] [] s [] s
  | both {a b : Node} {restA restB ns : List Node} {taken : Taken} {s u t : MergeState} :
    Front α merge chain around a b restA restB s taken u →
    Walk ((a :: restA).drop taken.left) ((b :: restB).drop taken.right) u ns t →
      Walk (a :: restA) (b :: restB) s (taken.node :: ns) t
  | left {a n : Node} {restA ns : List Node} {count : Nat} {s u t : MergeState} :
    Returns (unmatched chain .left around.left a restA) s (n, count) u →
    Walk ((a :: restA).drop count) [] u ns t → Walk (a :: restA) [] s (n :: ns) t
  | right {b n : Node} {restB ns : List Node} {count : Nat} {s u t : MergeState} :
    Returns (unmatched chain .right around.right b restB) s (n, count) u →
    Walk [] ((b :: restB).drop count) u ns t → Walk [] (b :: restB) s (n :: ns) t

variable {α merge chain around}

theorem Returns.front {a b : Node} {restA restB : List Node} {taken : Taken}
    (h : Returns (mergeFronts α merge chain around a b restA restB) s taken t) :
    Front α merge chain around a b restA restB s taken t := by
  unfold mergeFronts at h
  rw [returns_bind] at h
  obtain ⟨first, u, hfirst, h⟩ := h
  cases first with
  | some taken' =>
    simp only [returns_pure] at h
    obtain ⟨rfl, rfl⟩ := h
    exact .blocks hfirst
  | none =>
    have he := Returns.mergeBlocks_none hfirst
    subst he
    rw [returns_bind] at h
    obtain ⟨second, v, hsecond, h⟩ := h
    cases second with
    | some taken' =>
      simp only [returns_pure] at h
      obtain ⟨rfl, rfl⟩ := h
      exact .runs (Quiet.refl u) hsecond
    | none =>
      -- up to the choice of a partner only the trace changes
      have hv := Returns.mergeRuns_none hsecond
      rw [returns_bind] at h
      obtain ⟨_, w, hw, h⟩ := h
      have hw := hv.trans (Returns.complain hw)
      dsimp only at h
      split at h
      · next hone => exact .pair hw (.inl hone) h
      · next hone =>
        rw [Bool.not_eq_true] at hone
        simp only [returns_bind] at h
        obtain ⟨_, x, hx, h⟩ := h
        have hx := hw.trans (Returns.complain hx)
        split at h
        · next hbest => exact .pair hx (.inr hbest) h
        · next hbest =>
          rw [Bool.not_eq_true] at hbest
          simp only [returns_bind] at h
          obtain ⟨_, y, hy, _, z, hz, h⟩ := h
          have hz := (hx.trans (Returns.complain hy)).trans (Returns.complain hz)
          split at h
          · next hextra =>
            simp only [returns_bind, returns_pure] at h
            obtain ⟨⟨n, count⟩, _, hn, rfl, rfl⟩ := h
            exact .left hz hone hbest hextra hn
          · next hextra =>
            rw [Bool.not_eq_true] at hextra
            simp only [returns_bind, returns_pure] at h
            obtain ⟨⟨n, count⟩, _, hn, rfl, rfl⟩ := h
            exact .right hz hone hbest hextra hn

theorem Returns.walk {fuel : Nat} {as bs ns : List Node}
    (h : Returns (align α merge chain around fuel as bs) s ns t) :
    Walk α merge chain around as bs s ns t := by
  induction fuel generalizing as bs s ns with
  | zero =>
    cases as <;> cases bs <;> simp [align] at h
    obtain ⟨rfl, rfl⟩ := h
    exact .done
  | succ fuel ih =>
    cases as with
    | nil =>
      cases bs with
      | nil =>
        simp only [align, returns_pure] at h
        obtain ⟨rfl, rfl⟩ := h
        exact .done
      | cons b restB =>
        simp only [align, returns_bind, returns_pure] at h
        obtain ⟨⟨n, count⟩, u, hn, others, v, hw, rfl, rfl⟩ := h
        exact .right hn (ih hw)
    | cons a restA =>
      cases bs with
      | nil =>
        simp only [align, returns_bind, returns_pure] at h
        obtain ⟨⟨n, count⟩, u, hn, others, v, hw, rfl, rfl⟩ := h
        exact .left hn (ih hw)
      | cons b restB =>
        simp only [align, returns_bind, returns_pure] at h
        obtain ⟨taken, u, hf, others, v, hw, rfl, rfl⟩ := h
        exact .both (Returns.front hf) (ih hw)

theorem Walk.forall_nodes {P : Node → Prop} {as bs ns : List Node}
    (hunmatched : ∀ {side enclosing n rest s m count t}, P n →
      Returns (unmatched chain side enclosing n rest) s (m, count) t → P m)
    (hfront : ∀ {a restA b restB s taken t}, (∀ n ∈ a :: restA, P n) → (∀ n ∈ b :: restB, P n) →
      Front α merge chain around a b restA restB s taken t → P taken.node)
    (has : ∀ a ∈ as, P a) (hbs : ∀ b ∈ bs, P b) (h : Walk α merge chain around as bs s ns t) : ∀ n ∈ ns, P n := by
  induction h with
  | done => simp
  | both hf _ ih =>
    rw [List.forall_mem_cons]
    refine ⟨hfront has hbs hf, ih (fun a ha => ?_) fun b hb => ?_⟩
    · exact has a (List.mem_of_mem_drop ha)
    · exact hbs b (List.mem_of_mem_drop hb)
  | left hn _ ih =>
    rw [List.forall_mem_cons]
    refine ⟨hunmatched (has _ List.mem_cons_self) hn, ih (fun a ha => ?_) hbs⟩
    exact has a (List.mem_of_mem_drop ha)
  | right hn _ ih =>
    rw [List.forall_mem_cons]
    refine ⟨hunmatched (hbs _ List.mem_cons_self) hn, ih has fun b hb => ?_⟩
    exact hbs b (List.mem_of_mem_drop hb)

theorem Returns.mergeSiblings {as bs ns : List Node}
    (h : Returns (mergeSiblings α merge chain around as bs) s ns t) :
    Returns (mergeInline? chain around as bs) s (some ns) t ∨
      ∃ u, Returns (mergeInline? chain around as bs) s none u ∧
        Walk α merge chain around as bs u ns t := by
  unfold Merge.mergeSiblings at h
  rw [returns_bind] at h
  obtain ⟨inline, u, hu, h⟩ := h
  cases inline with
  | some nodes =>
    simp only [returns_pure] at h
    obtain ⟨rfl, rfl⟩ := h
    exact .inl hu
  | none => exact .inr ⟨u, hu, Returns.walk h⟩

theorem Returns.mergeSiblings_walk {as bs ns : List Node} (hno : Markdown.allowsInline around.left = false)
    (h : Returns (Merge.mergeSiblings α merge chain around as bs) s ns t) :
    Walk α merge chain around as bs s ns t := by
  rcases Returns.mergeSiblings h with h | ⟨u, hu, h⟩
  · exact absurd h (not_returns_mergeInline hno)
  · exact Returns.mergeInline_none hu ▸ h

end Stencil.Merge
