import Stencil.Merge.Basic
import Stencil.Proofs.Merge.Cases
import Stencil.Proofs.Merge.Keeps
import Stencil.Proofs.Merge.Step

namespace Stencil.Merge

open Node

variable {α : Type} [Grade α] {merge : NodeMerger} {chain : Scope} {around : Around} {side : Side}
  {s t : MergeState}

def KeepsAll (merge : NodeMerger) : Prop :=
  ∀ chain around a b s n t, Returns (merge chain around a b) s n t → Keeps chain [a, b] [n]

theorem Returns.extract_inside (hm : KeepsAll merge) {c r : Scope} (hc : c <+: r)
    {elements : List Node} {template : Node} {x : Node × List Fields}
    (he : ∀ q ∈ referencesOfList elements, q.Inside c) (ht : ∀ q ∈ template.references, q.Inside c)
    (h : Returns (extract Node.same (fun t e => merge r around t e) template elements) s x t) :
    ∀ q ∈ x.1.references, q.Inside c := by
  apply Returns.extract_template (fun t => ∀ q ∈ t.references, Reference.Inside c q) _ ht h
  intro template source s merged t ht hmem hmerge q hq
  have hq : q ∈ referencesOfList [merged] := by simpa [referencesOfList] using hq
  apply (hm _ _ _ _ _ _ _ hmerge).inside c hc _ q hq
  intro p hp
  simp only [referencesOfList, List.append_nil, List.mem_append] at hp
  rcases hp with hp | hp
  · exact ht p hp
  · exact he p (mem_referencesOfList.mpr ⟨_, hmem, hp⟩)

theorem Returns.extract_proper (hm : KeepsAll merge) {r : Scope} {elements : List Node}
    {template : Node} {x : Node × List Fields} (he : ∀ e ∈ elements, e.Proper) (ht : template.Proper)
    (h : Returns (extract Node.same (fun t e => merge r around t e) template elements) s x t) :
    x.1.Proper := by
  apply Returns.extract_template Proper _ ht h
  intro template source s merged t ht hmem hmerge
  simpa using (hm _ _ _ _ _ _ _ hmerge).proper (by simp [ht, he _ hmem])

theorem mem_elementsIn {ns : List Node} {n : Node} (h : n ∈ elementsIn ns) : n ∈ ns :=
  List.mem_of_mem_filter h

theorem Absorbed.keeps (hm : KeepsAll merge) {r : Reference} {template n : Node}
    {elements ins : List Node} (hblock : .block .loop r template ∈ ins)
    (helements : ∀ e ∈ elements, e ∈ ins)
    (h : Absorbed merge around side r template elements s n t) : Keeps chain ins [n] := by
  cases h with
  | mk hextract _ =>
    refine Keeps.ofBlock (fun c hc hin => ?_) fun hin => ?_
    · have hown : ∀ q ∈ r :: template.references, q.Inside c := fun q hq =>
        hin q (mem_referencesOfList.mpr ⟨_, hblock, hq⟩)
      have hr := hown r (by simp)
      refine ⟨hr, Returns.extract_inside hm ?_ (fun q hq => ?_) (fun q hq => hown q (by simp [hq]))
        hextract⟩
      · obtain ⟨k, rest, rfl⟩ := hr
        exact ⟨k :: rest, rfl⟩
      · obtain ⟨e, he, hq⟩ := mem_referencesOfList.mp hq
        exact hin q (mem_referencesOfList.mpr ⟨e, helements e he, hq⟩)
    · exact Returns.extract_proper hm (fun e he => hin e (helements e he))
        (proper_of_block (hin _ hblock)) hextract

theorem forall_headD {P : Node → Prop} {ns : List Node} (h : ∀ n ∈ ns, P n) (hcontent : P .content) :
    P (ns.headD .content) := by
  cases ns with
  | nil => exact hcontent
  | cons n rest => exact h n List.mem_cons_self

theorem references_headD {ns : List Node} {r : Reference}
    (h : r ∈ (ns.headD .content).references) : r ∈ referencesOfList ns := by
  cases ns with
  | nil => simp [references] at h
  | cons n ns => exact List.mem_append_left _ h

theorem Looped.keeps (hm : KeepsAll merge) {as bs ins : List Node} {n : Node}
    (hins : ∀ e ∈ as ++ bs, e ∈ ins) (h : Looped merge chain around as bs s n t) :
    Keeps chain ins [n] := by
  cases h with
  | @mk key _ _ _ _ elements _ _ _ _ _ _ _ _ _ he hextract _ _ =>
    refine Keeps.ofBlock (fun c hc hin => ?_) fun hin => ?_
    · have hmoved : ∀ q ∈ referencesOfList elements, q.Inside c := by
        intro q hq
        rw [he, referencesOfList_insertKeys, List.mem_map] at hq
        obtain ⟨p, hp, rfl⟩ := hq
        obtain ⟨e, hmem, hp⟩ := mem_referencesOfList.mp hp
        exact Reference.Inside.insertKey key hc (hin p (mem_referencesOfList.mpr ⟨e, hins e hmem, hp⟩))
      have hinner : c <+: chain ++ [key] := hc.trans (List.prefix_append _ _)
      refine ⟨Reference.Inside.widen hc ⟨key, [], rfl⟩, ?_⟩
      exact Returns.extract_inside hm hinner hmoved (fun q hq => hmoved q (references_headD hq)) hextract
    · have hmoved : ∀ e ∈ elements, e.Proper := by
        rw [he]
        refine properList_iff.mp (properList_insertKeys _ _ _ (properList_iff.mpr ?_))
        exact fun e hmem => hin e (hins e hmem)
      exact Returns.extract_proper hm hmoved (forall_headD hmoved trivial) hextract

theorem Wrapped.keeps {n m : Node} (h : Wrapped chain side n s m t) : Keeps chain [n] [m] := by
  cases h with
  | @mk key _ _ _ _ _ _ _ _ _ _ =>
    refine Keeps.ofBlock (fun c hc hin => ⟨Reference.Inside.widen hc ⟨key, [], rfl⟩, ?_⟩)
      fun hin => proper_insertKey _ _ n (hin n (by simp))
    intro q hq
    rw [references_insertKey, List.mem_map] at hq
    obtain ⟨p, hp, rfl⟩ := hq
    exact Reference.Inside.insertKey key hc (hin p (by simpa [referencesOfList] using hp))

theorem Unmatched.keeps {enclosing : Option Tag} {n m : Node} {rest : List Node} {count : Nat}
    (h : Unmatched chain side enclosing n rest s m count t) :
    Keeps chain ((n :: rest).take count) [m] := by
  cases h with
  | text _ _ => exact Keeps.slot rfl ⟨_, rfl⟩
  | markdown _ _ => exact Keeps.slot (Markdown.references_of_run _) ⟨_, rfl⟩
  | wrapped _ h => exact (Returns.wrapElement h).keeps
  | _ => exact Keeps.refl ..

theorem singleSlot_mem {kind : SlotKind} {ns : List Node} {r : Reference}
    (h : singleSlot? kind ns = some r) :
    .slot kind r ∈ ns ∧ ∀ n ∈ ns, n ≠ .slot kind r → n.references = [] := by
  unfold singleSlot? at h
  split at h
  · next k q hns =>
    split at h
    · next hk =>
      cases h
      subst hk
      constructor
      · exact List.mem_of_mem_filter (hns ▸ List.mem_singleton_self _)
      · intro n hn hne
        by_cases hb : n.isBlankText = true
        · exact references_of_isBlankText hb
        · have hf : n ∈ ns.filter fun n => !n.isBlankText := by
            simp [hn, hb]
          rw [hns] at hf
          exact absurd (List.mem_singleton.mp hf) hne
    · cases h
  · cases h

theorem anyBlock_of_inlineContent {ns : List Node}
    (h : (singleSlot? .plain ns).isSome ∨ Markdown.isInlineTree ns = true) : anyBlock ns = false := by
  rcases h with h | h
  · obtain ⟨r, hr⟩ := Option.isSome_iff_exists.mp h
    rw [anyBlock_eq, List.any_eq_false]
    intro n hn
    by_cases he : n = .slot .plain r
    · simp [he, hasBlock]
    · simp [hasBlock_of_references_nil n ((singleSlot_mem hr).2 n hn he)]
  · exact anyBlock_of_references_nil _ (Markdown.references_of_isInlineTree _ h)

theorem Keeps.single {kind : SlotKind} {as bs : List Node} {r : Reference}
    (hr : singleSlot? kind as = some r) (hbs : referencesOfList bs = []) :
    Keeps chain (as ++ bs) [.slot kind r] := by
  obtain ⟨hmem, hothers⟩ := singleSlot_mem hr
  refine Keeps.member (List.mem_append_left _ hmem) fun m hm hne => ?_
  apply hasBlock_of_references_nil
  rcases List.mem_append.mp hm with hm | hm
  · exact hothers m hm hne
  · exact referencesOfList_eq_nil_iff.mp hbs m hm

theorem Inlined.keeps {as bs ns : List Node} (h : Inlined chain as bs s ns t) :
    Keeps chain (as ++ bs) ns := by
  cases h with
  | readRight hr hbs _ => exact Keeps.single hr (Markdown.references_of_isInlineTree _ hbs)
  | readLeft hr has _ =>
    exact (Keeps.single hr (Markdown.references_of_isInlineTree _ has)).perm List.perm_append_comm
  | fresh has hbs _ =>
    refine Keeps.leaf ?_ trivial fun r hr => .inr ⟨_, List.mem_singleton.mp hr⟩
    rw [anyBlock_append, anyBlock_of_inlineContent has, anyBlock_of_inlineContent hbs, Bool.or_self]

theorem Blocks.keeps {as bs : List Node} {taken : Taken} (h : Blocks chain as bs s taken t) :
    Keeps chain (as.take taken.left ++ bs.take taken.right) [taken.node] := by
  have beside {front : Node} {rest others : List Node} (hno : referencesOfList others = []) :
      Keeps chain ((front :: rest).take 1 ++ others) [front] := by
    refine Keeps.member (by simp) fun m hm hne => ?_
    simp only [List.take_succ_cons, List.take_zero, List.mem_append, List.mem_singleton] at hm
    exact hasBlock_of_references_nil m (referencesOfList_eq_nil_iff.mp hno m (hm.resolve_left hne))
  cases h with
  | readRight hr _ =>
    obtain ⟨rest, rfl⟩ := List.head?_eq_some_iff.mp hr
    exact beside (Markdown.references_of_run bs)
  | readLeft hr _ =>
    obtain ⟨rest, rfl⟩ := List.head?_eq_some_iff.mp hr
    exact (beside (Markdown.references_of_run as)).perm List.perm_append_comm
  | fresh _ =>
    refine Keeps.slot ?_ ⟨_, rfl⟩
    rw [referencesOfList_append, Markdown.references_of_run, Markdown.references_of_run]
    rfl

theorem mem_elementsIn_take {a n : Node} {rest : List Node} {k : Nat}
    (h : n ∈ elementsIn (a :: rest.take k)) : n ∈ (a :: rest).take (1 + k) := by
  rw [Nat.add_comm, List.take_succ_cons]
  exact mem_elementsIn h

theorem Runs.keeps (hm : KeepsAll merge) {a b : Node} {restA restB : List Node} {taken : Taken}
    (h : Runs α merge chain around a b restA restB s taken t) :
    Keeps chain ((a :: restA).take taken.left ++ (b :: restB).take taken.right) [taken.node] := by
  cases h with
  | mk _ _ _ _ _ _ _ h =>
    refine h.keeps hm fun e he => ?_
    rcases List.mem_append.mp he with he | he
    · exact List.mem_append_left _ (mem_elementsIn_take he)
    · exact List.mem_append_right _ (mem_elementsIn_take he)

theorem Partners.keeps (hm : KeepsAll merge) {a b : Node} {restA restB : List Node} {taken : Taken}
    (h : Partners α merge chain around restA restB s a b taken t) :
    Keeps chain ((a :: restA).take taken.left ++ (b :: restB).take taken.right) [taken.node] := by
  cases h with
  | absorbRight _ _ h =>
    exact h.keeps hm (by simp) fun e he => List.mem_append_right _ (mem_elementsIn_take he)
  | absorbLeft _ _ h =>
    exact h.keeps hm (by simp) fun e he => List.mem_append_left _ (mem_elementsIn_take he)
  | merged h => exact hm _ _ _ _ _ _ _ h

theorem Front.keeps (hm : KeepsAll merge) {a b : Node} {restA restB : List Node} {taken : Taken}
    (h : Front α merge chain around a b restA restB s taken t) :
    Keeps chain ((a :: restA).take taken.left ++ (b :: restB).take taken.right) [taken.node] := by
  cases h with
  | blocks h => exact (Returns.mergeBlocks h).keeps
  | runs _ h => exact (Returns.mergeRuns h).keeps hm
  | pair _ _ h =>
    obtain ⟨u, -, hp⟩ := Returns.mergePair h
    exact hp.keeps hm
  | left _ _ _ _ h => simpa using (Returns.unmatched h).keeps
  | right _ _ _ _ h => simpa using (Returns.unmatched h).keeps

theorem Walk.keeps (hm : KeepsAll merge) {as bs ns : List Node}
    (h : Walk α merge chain around as bs s ns t) : Keeps chain (as ++ bs) ns := by
  induction h with
  | done => exact Keeps.refl ..
  | @both a b restA restB ns taken _ _ _ hf _ ih =>
    refine ((hf.keeps hm).append ih).perm ?_
    -- what the front takes and what it leaves, in the order of the two lists
    calc _ = (a :: restA).take taken.left ++ ((b :: restB).take taken.right ++
          ((a :: restA).drop taken.left ++ (b :: restB).drop taken.right)) := List.append_assoc ..
      _ = (a :: restA).take taken.left ++ ((b :: restB).take taken.right ++
          (a :: restA).drop taken.left ++ (b :: restB).drop taken.right) := by
        rw [← List.append_assoc ((b :: restB).take taken.right)]
      List.Perm _ ((a :: restA).take taken.left ++ ((a :: restA).drop taken.left ++
          (b :: restB).take taken.right ++ (b :: restB).drop taken.right)) :=
        (List.perm_append_comm.append_right _).append_left _
      _ = (a :: restA) ++ (b :: restB) := by
        rw [List.append_assoc ((a :: restA).drop taken.left), List.take_append_drop,
          ← List.append_assoc, List.take_append_drop]
  | left hn _ ih =>
    have h := (Returns.unmatched hn).keeps.append ih
    rw [List.append_nil, List.take_append_drop] at h
    rwa [List.append_nil]
  | right hn _ ih =>
    have h := (Returns.unmatched hn).keeps.append ih
    rwa [List.nil_append, List.take_append_drop] at h

theorem Returns.mergeSiblings_keeps (hm : KeepsAll merge) {as bs ns : List Node}
    (h : Returns (Merge.mergeSiblings α merge chain around as bs) s ns t) :
    Keeps chain (as ++ bs) ns := by
  rcases Returns.mergeSiblings h with h | ⟨u, -, h⟩
  · exact (Returns.mergeInline h).keeps
  · exact h.keeps hm

theorem Readable.hasBlock {kind : SlotKind} {b : Node} {v : Value} (h : Readable kind b v) :
    b.hasBlock = false := by
  cases h with
  | text _ => rfl
  | markup hrefs => exact hasBlock_of_references_nil _ hrefs

theorem Kept.hasBlock {a b : Node} (h : Kept a b) : b.hasBlock = false := by
  cases h with
  | drawing _ _ _ hb => exact hasBlock_of_references_nil _ (Markup.references_of_render hb)
  | _ => rfl

theorem Step.keeps (hm : KeepsAll merge) {a b n : Node}
    (h : Step α merge chain around s a b n t) : Keeps chain [a, b] [n] := by
  cases h with
  | conditionals h =>
    obtain ⟨u, hu, -⟩ := returns_inScope.mp h
    exact Keeps.blocks (hm _ _ _ _ _ _ _ hu)
  | conditionalLeft h _ _ =>
    obtain ⟨u, hu, -⟩ := returns_inScope.mp h
    exact Keeps.intoBlock (hm _ _ _ _ _ _ _ hu)
  | conditionalRight h _ _ =>
    obtain ⟨u, hu, -⟩ := returns_inScope.mp h
    have hswapped := (hm _ _ _ _ _ _ _ hu).perm (List.Perm.swap ..)
    exact (Keeps.intoBlock hswapped).perm (List.Perm.swap ..)
  | loops h _ =>
    obtain ⟨u, hu, -⟩ := returns_inScope.mp h
    exact Keeps.blocks (hm _ _ _ _ _ _ _ hu)
  | absorbRight _ h => exact h.keeps hm (by simp) (by simp)
  | absorbLeft _ h => exact h.keeps hm (by simp) (by simp)
  | readRight hb _ => exact Keeps.first hb.hasBlock
  | readLeft ha _ => exact Keeps.second ha.hasBlock
  | elements _ _ hattrs hns =>
    exact Keeps.element (fun r hr => Returns.mergeAttributes_references hattrs hr)
      (fun h h' => Returns.mergeAttributes_nodup h h' hattrs)
      (Returns.mergeSiblings_keeps hm hns)
  | drawings _ _ ha hb _ _ =>
    refine Keeps.slot ?_ ⟨_, rfl⟩
    rw [referencesOfList, referencesOfList, Markup.references_of_render ha,
      Markup.references_of_render hb]
    rfl
  | texts _ _ => exact Keeps.slot rfl ⟨_, rfl⟩
  | kept h _ => exact Keeps.first h.hasBlock

theorem mergeNode_keeps (fuel : Nat) : KeepsAll (mergeNode α fuel) := by
  induction fuel with
  | zero =>
    intro chain around a b s n t h
    simp [mergeNode] at h
  | succ fuel ih =>
    intro chain around a b s n t h
    exact (Returns.mergeStep h).keeps ih

end Stencil.Merge
