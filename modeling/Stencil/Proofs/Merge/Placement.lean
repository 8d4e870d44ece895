import Stencil.Proofs.Merge.Growth
import Stencil.Proofs.Merge.Placed

namespace Stencil.Merge

open Node

variable {Q : BlockProperty} {α : Type} [Grade α] {merge : NodeMerger} {chain : Scope}
  {around : Around} {side : Side} {s t u : MergeState}

theorem Keeps.within {t e m : Node} (h : Keeps chain [t, e] [m]) (ht : t.Within chain)
    (he : e.Within chain) : m.Within chain := by
  refine ⟨fun r hr => ?_, fun hb r hr => ?_⟩
  · refine h.inside chain (List.prefix_refl _) (fun q hq => ?_) r (by simpa [referencesOfList] using hr)
    simp only [referencesOfList, List.append_nil, List.mem_append] at hq
    exact hq.elim (ht.inside q) (he.inside q)
  · have hno : anyBlock [t, e] = false := by
      rw [← Bool.not_eq_true]
      intro hyes
      have hyes := h.block hyes
      simp [anyBlock, hb] at hyes
    simp only [anyBlock, Bool.or_false, Bool.or_eq_false_iff] at hno
    refine h.flat (by simp [anyBlock, hb]) (fun q hq => ?_) r (by simpa [referencesOfList] using hr)
    simp only [referencesOfList, List.append_nil, List.mem_append] at hq
    exact hq.elim (ht.flat hno.1 q) (he.flat hno.2 q)

theorem Wrapped.settles_left (hq : Closed merge Q) {n m : Node}
    (h : Wrapped chain .left n s m t) : Settles Q chain [n] [m] s t := by
  intro hp
  cases h with
  | mk hkey hmoves _ hleft hright =>
    have htops : Writes (slots [n]) [] _ _ := Writes.movesLeft hmoves fun r hr =>
      (hp.top_mem_slots hq.inside (by simpa [referencesOfList] using hr)).2
    refine ⟨.block hkey.normal (hq.wrapped hp), ?_⟩
    rw [slots_block, Reference.key_append]
    simpa using ((Writes.ofFields hkey.fields).append htops).append
      (Writes.reads hkey.normal hleft hright)

theorem Wrapped.settles_right (hq : Closed merge Q) {n m : Node} (hn : n.references = [])
    (h : Wrapped chain .right n s m t) : Settles Q chain [] [m] s t := by
  intro _
  cases h with
  | mk hkey hmoves _ hright hleft =>
    rw [hn] at hmoves
    have hplaced : Placed Q chain [n] := .of_references_nil (by simp [referencesOfList, hn])
    refine ⟨.block hkey.normal (hq.wrapped hplaced), ?_⟩
    rw [slots_block, Reference.key_append]
    exact ((Writes.ofFields hkey.fields).append (Writes.movesRight hmoves)).append
      (Writes.reads hkey.normal hright hleft)

theorem Unmatched.settles_left (hq : Closed merge Q) {enclosing : Option Tag} {n m : Node}
    {rest : List Node} {count : Nat} (h : Unmatched chain .left enclosing n rest s m count t) :
    Settles Q chain ((n :: rest).take count) [m] s t := by
  cases h with
  | literal _ => exact Settles.quiet rfl (.refl _)
  | content => exact Settles.quiet rfl (.refl _)
  | text _ h => exact Settles.opens h
  | slot h => exact Settles.readSlot (by simp) h
  | @block kind r template _ _ _ h =>
    intro hp
    obtain ⟨⟨k, hk, rfl⟩, hb⟩ := Placed.of_block hp
    refine ⟨.block hk hb, ?_⟩
    rw [Reference.key_append] at h
    rw [List.take_succ_cons, List.take_zero, slots_block, Reference.key_append]
    exact Writes.readRight hk h
  | markdown _ h => exact Settles.opens h
  | wrapped _ h => exact (Returns.wrapElement h).settles_left hq

theorem Unmatched.settles_right (hq : Closed merge Q) {enclosing : Option Tag} {n m : Node}
    {rest : List Node} {count : Nat} (hn : n.references = [])
    (h : Unmatched chain .right enclosing n rest s m count t) : Settles Q chain [] [m] s t := by
  cases h with
  | literal _ => exact Settles.quiet rfl (.refl _)
  | content => exact Settles.quiet rfl (.refl _)
  | text _ h => exact Settles.opens h
  | slot h => simp [references] at hn
  | block h => simp [references] at hn
  | markdown _ h => exact Settles.opens h
  | wrapped _ h => exact (Returns.wrapElement h).settles_right hq hn

theorem Inlined.settles {as bs ns : List Node} (hbs : referencesOfList bs = [])
    (h : Inlined chain as bs s ns t) : Settles Q chain as ns s t := by
  cases h with
  | readRight hr _ h => exact Settles.readSlot (singleSlot_mem hr).1 h
  | readLeft hr _ _ =>
    have hno := referencesOfList_eq_nil_iff.mp hbs _ (singleSlot_mem hr).1
    simp [references] at hno
  | fresh _ _ h => exact Settles.opens h

theorem Blocks.settles {as bs : List Node} {taken : Taken} (hbs : referencesOfList bs = [])
    (h : Blocks chain as bs s taken t) :
    Settles Q chain (as.take taken.left) [taken.node] s t := by
  cases h with
  | readRight hr h =>
    obtain ⟨rest, rfl⟩ := List.head?_eq_some_iff.mp hr
    exact Settles.readSlot (by simp) h
  | readLeft hr _ =>
    obtain ⟨rest, rfl⟩ := List.head?_eq_some_iff.mp hr
    simp [referencesOfList, references] at hbs
  | fresh h => exact Settles.opens h

theorem Absorbed.settles (hq : Closed merge Q) {r : Reference} {template n : Node}
    {elements : List Node} (he : ∀ e ∈ elements, e.references = [])
    (h : Absorbed merge around .right r template elements s n t) :
    Settles Q chain [.block .loop r template] [n] s t := by
  intro hp
  obtain ⟨⟨k, hk, rfl⟩, hb⟩ := Placed.of_block hp
  cases h with
  | mk hextract hread =>
    have hgrown := Returns.extract_template (Q .loop (chain ++ [k]))
      (fun ht hmem hm => hq.merged ht (he _ hmem) hm) hb hextract
    refine ⟨.block hk hgrown, ?_⟩
    rw [Reference.key_append] at hread
    rw [slots_block, slots_block, Reference.key_append]
    simpa using (Writes.ofFields (Returns.extract_fields hextract)).append (Writes.readRight hk hread)

theorem Looped.settles (hq : Closed merge Q) (hm : KeepsAll merge) {as bs old : List Node} {n : Node}
    (has : ∀ a ∈ as, a ∈ old) (hbs : referencesOfList bs = [])
    (h : Looped merge chain around as bs s n t) : Settles Q chain old [n] s t := by
  intro hp
  have hp := hp.of_subset has
  cases h with
  | @mk key template _ _ _ elements _ _ _ _ _ _ hkey hmoves hmoves' he hextract hleft hright =>
    have helements : ∀ e ∈ elements, e.Within (chain ++ [key]) := by
      rw [he, forall_mem_insertKeys]
      intro m hmem
      rw [← List.append_nil (chain ++ [key])]
      refine Within.insertKey key ?_
      rw [List.append_nil]
      rcases List.mem_append.mp hmem with hmem | hmem
      · exact hp.within hq.inside hmem
      · exact .of_references_nil (referencesOfList_eq_nil_iff.mp hbs m hmem)
    -- the template grows out of the first element
    have hhead : (elements.headD .content).Within (chain ++ [key]) :=
      forall_headD helements (.of_references_nil rfl)
    have htemplate := Returns.extract_template (Within (chain ++ [key]))
      (fun ht hmem hmerge => (hm _ _ _ _ _ _ _ hmerge).within ht (helements _ hmem)) hhead hextract
    rw [hbs] at hmoves'
    have htops : Writes (slots as) [] _ _ := Writes.movesLeft hmoves fun r hr =>
      (hp.top_mem_slots hq.inside hr).2
    refine ⟨.block hkey.normal (hq.loop htemplate), ?_⟩
    rw [slots_block, Reference.key_append]
    have hw := ((((Writes.ofFields hkey.fields).append htops).append
      (Writes.movesRight hmoves')).append (Writes.ofFields (Returns.extract_fields hextract))).append
      (Writes.reads hkey.normal hleft hright)
    refine hw.of_subset fun k hk => ?_
    simp only [List.nil_append, List.append_nil] at hk
    obtain ⟨r, hr, rfl⟩ := List.mem_map.mp hk
    refine List.mem_map.mpr ⟨r, ?_, rfl⟩
    rw [ownReferencesOfList_eq, List.mem_flatMap] at hr ⊢
    obtain ⟨a, ha, hr⟩ := hr
    exact ⟨a, has a ha, hr⟩

def SettlesAll (merge : NodeMerger) (Q : BlockProperty) : Prop :=
  ∀ chain around a b s n t, b.references = [] → Returns (merge chain around a b) s n t →
    Settles Q chain [a] [n] s t

theorem referencesOfList_drop {ns : List Node} (h : referencesOfList ns = []) (k : Nat) :
    referencesOfList (ns.drop k) = [] :=
  referencesOfList_eq_nil_iff.mpr fun n hn => referencesOfList_eq_nil_iff.mp h n (List.mem_of_mem_drop hn)

theorem references_of_elementsIn {b : Node} {rest : List Node} (h : referencesOfList (b :: rest) = [])
    (k : Nat) : ∀ e ∈ elementsIn (b :: rest.take k), e.references = [] := fun _ he =>
  referencesOfList_eq_nil_iff.mp h _ (List.mem_of_mem_take (mem_elementsIn_take he))

theorem Runs.settles (hq : Closed merge Q) (hm : KeepsAll merge) {a b : Node}
    {restA restB : List Node} {taken : Taken} (hb : referencesOfList (b :: restB) = [])
    (h : Runs α merge chain around a b restA restB s taken t) :
    Settles Q chain ((a :: restA).take taken.left) [taken.node] s t := by
  cases h with
  | mk hquiet _ _ _ _ _ _ h =>
    refine (h.settles hq hm (fun _ => mem_elementsIn_take) ?_).before hquiet
    exact referencesOfList_eq_nil_iff.mpr (references_of_elementsIn hb _)

theorem Partners.settles (hq : Closed merge Q) (hall : SettlesAll merge Q) {a b : Node}
    {restA restB : List Node} {taken : Taken} (hb : referencesOfList (b :: restB) = [])
    (h : Partners α merge chain around restA restB s a b taken t) :
    Settles Q chain ((a :: restA).take taken.left) [taken.node] s t := by
  have hhead : b.references = [] := (List.append_eq_nil_iff.mp hb).1
  cases h with
  | absorbRight _ _ h => exact h.settles hq (references_of_elementsIn hb _)
  | absorbLeft _ _ _ => simp [references] at hhead
  | merged h => exact hall _ _ _ _ _ _ _ hhead h

theorem Front.settles (hq : Closed merge Q) (hm : KeepsAll merge) (hall : SettlesAll merge Q)
    {a b : Node} {restA restB : List Node} {taken : Taken}
    (hb : referencesOfList (b :: restB) = [])
    (h : Front α merge chain around a b restA restB s taken t) :
    Settles Q chain ((a :: restA).take taken.left) [taken.node] s t := by
  cases h with
  | blocks h => exact (Returns.mergeBlocks h).settles hb
  | runs hquiet h => exact ((Returns.mergeRuns h).settles hq hm hb).before hquiet
  | pair hquiet _ h =>
    obtain ⟨u, hu, hp⟩ := Returns.mergePair h
    exact (hp.settles hq hall hb).before (hquiet.trans hu)
  | left hquiet _ _ _ h => exact ((Returns.unmatched h).settles_left hq).before hquiet
  | right hquiet _ _ _ h =>
    exact ((Returns.unmatched h).settles_right hq (List.append_eq_nil_iff.mp hb).1).before hquiet

theorem Walk.settles (hq : Closed merge Q) (hm : KeepsAll merge) (hall : SettlesAll merge Q)
    {as bs ns : List Node} (hbs : referencesOfList bs = [])
    (h : Walk α merge chain around as bs s ns t) : Settles Q chain as ns s t := by
  induction h with
  | done => exact Settles.quiet rfl (.refl _)
  | @both a b restA restB ns taken _ _ _ hf _ ih =>
    have h := (hf.settles hq hm hall hbs).append (ih (referencesOfList_drop hbs _))
    rwa [List.take_append_drop] at h
  | left hn _ ih =>
    have h := ((Returns.unmatched hn).settles_left hq).append (ih rfl)
    rwa [List.take_append_drop] at h
  | right hn _ ih =>
    have hhead := (List.append_eq_nil_iff.mp hbs).1
    exact ((Returns.unmatched hn).settles_right hq hhead).append (ih (referencesOfList_drop hbs _))

theorem Returns.mergeSiblings_settles (hq : Closed merge Q) (hm : KeepsAll merge)
    (hall : SettlesAll merge Q) {as bs ns : List Node} (hbs : referencesOfList bs = [])
    (h : Returns (Merge.mergeSiblings α merge chain around as bs) s ns t) :
    Settles Q chain as ns s t := by
  rcases Returns.mergeSiblings h with h | ⟨u, hu, h⟩
  · exact (Returns.mergeInline h).settles hbs
  · exact (h.settles hq hm hall hbs).before (Returns.mergeInline_none hu ▸ .refl _)

theorem Lonely.settles_left {a c : Attribute} (h : Lonely chain .left a s c t) :
    Settles Q chain (attributeSlots [a]) (attributeSlots [c]) s t := by
  cases h with
  | fixed h => exact Settles.opens h
  | known hr h =>
    rw [attributeSlots_of_reference hr]
    exact Settles.readSlot (by simp) h

theorem Lonely.settles_right {old : List Node} {a c : Attribute} (ha : a.reference? = none)
    (h : Lonely chain .right a s c t) : Settles Q chain old (attributeSlots [c]) s t := by
  cases h with
  | fixed h => exact Settles.opens h
  | known hr _ => simp [ha] at hr

theorem Matched.settles {other : Tag} {a c : Attribute}
    (hother : other.attrs.filterMap Attribute.reference? = []) (h : Matched chain other a s c t) :
    Settles Q chain (attributeSlots [a]) (attributeSlots [c]) s t := by
  cases h with
  | lonely _ h => exact h.settles_left
  | paired hb h =>
    have hno := List.filterMap_eq_nil_iff.mp hother _ (List.mem_of_find?_eq_some hb)
    cases h with
    | known _ hr _ => exact absurd hno hr
    | readRight hr h =>
      rw [attributeSlots_of_reference hr]
      exact Settles.readSlot (by simp) h
    | readLeft hr _ => simp [hno] at hr
    | same _ => exact Settles.quiet rfl (.refl _)
    | differ _ h => exact Settles.opens h

theorem Each.settles {step : Attribute → MergeState → Attribute → MergeState → Prop}
    {as cs : List Attribute} (hstep : ∀ a ∈ as, ∀ s c t, step a s c t →
      Settles Q chain (attributeSlots [a]) (attributeSlots [c]) s t)
    (h : Each step as s cs t) : Settles Q chain (attributeSlots as) (attributeSlots cs) s t := by
  induction h with
  | nil => exact Settles.quiet rfl (.refl _)
  | @cons a c as cs _ _ _ ha _ ih =>
    rw [attributeSlots_cons a as, attributeSlots_cons c cs]
    exact (hstep _ (by simp) _ _ _ ha).append (ih fun a hm => hstep a (by simp [hm]))

theorem attributeSlots_missingIn {owner other : Tag}
    (hother : other.attrs.filterMap Attribute.reference? = []) :
    attributeSlots (missingIn owner other.attrs) = [] := by
  have hrefs : (missingIn owner other.attrs).filterMap Attribute.reference? = [] := by
    rw [List.filterMap_eq_nil_iff]
    intro b hb
    exact List.filterMap_eq_nil_iff.mp hother b (mem_missingIn hb).1
  rw [attributeSlots, hrefs, List.map_nil]

theorem Returns.mergeAttributes_settles {owner other : Tag} {cs : List Attribute}
    (hother : other.attrs.filterMap Attribute.reference? = [])
    (h : Returns (Merge.mergeAttributes chain owner other) s cs t) :
    Settles Q chain (attributeSlots owner.attrs) (attributeSlots cs) s t := by
  obtain ⟨left, right, u, rfl, hleft, hright⟩ := Returns.mergeAttributes h
  have hl : Settles Q chain (attributeSlots owner.attrs) (attributeSlots left) s u := by
    apply hleft.settles
    intro a _ s c t hm
    exact hm.settles hother
  have hr : Settles Q chain (attributeSlots (missingIn owner other.attrs)) (attributeSlots right) u t := by
    apply hright.settles
    intro b hb s c t hm
    exact hm.settles_right (List.filterMap_eq_nil_iff.mp hother b (mem_missingIn hb).1)
  have h := hl.append hr
  rw [attributeSlots_missingIn hother, List.append_nil] at h
  rwa [attributeSlots_append]

theorem Step.settles (hq : Closed merge Q) (hm : KeepsAll merge) (hall : SettlesAll merge Q)
    {a b n : Node} (hb : b.references = []) (h : Step α merge chain around s a b n t) :
    Settles Q chain [a] [n] s t := by
  cases h with
  | conditionals h => simp [references] at hb
  | @conditionalLeft r template _ m own others u v _ h hread hadjust =>
    intro hp
    obtain ⟨⟨k, hk, rfl⟩, hblock⟩ := Placed.of_block hp
    obtain ⟨w, hw, -, rfl⟩ := returns_inScope.mp h
    refine ⟨.block hk (hq.merged hblock hb hw), ?_⟩
    rw [Reference.key_append] at hread hadjust
    rw [slots_block, slots_block, Reference.key_append]
    have hscope : ∀ side, ({ w with left := s.left, right := s.right } : MergeState).fields side =
        s.fields side := fun side => by cases side <;> rfl
    have hwrite : Writes [k] [k] s v := (Writes.ofFields hscope).append (Writes.readRight hk hread)
    rcases hadjust with hquiet | ⟨x, hleft⟩
    · exact hwrite.after hquiet
    · exact hwrite.thenReadLeft hk hleft
  | conditionalRight h _ _ => simp [references] at hb
  | loops h _ => simp [references] at hb
  | absorbRight _ h => exact h.settles hq (by simpa using hb)
  | absorbLeft _ h => simp [references] at hb
  | readRight _ h => exact Settles.readSlot (by simp) h
  | readLeft _ h => simp [references] at hb
  | @elements tag tag' cs ds ns attrs u _ _ _ hattrs hns =>
    obtain ⟨hother, hds⟩ := List.append_eq_nil_iff.mp hb
    have h := (Returns.mergeAttributes_settles (Q := Q) hother hattrs).append
      (Returns.mergeSiblings_settles hq hm hall hds hns)
    intro hp
    obtain ⟨hnew, hwrite⟩ := h (Placed.element_iff.mp hp)
    refine ⟨Placed.element_iff.mpr hnew, ?_⟩
    unfold slots
    rw [(own_element tag cs).1, (own_element ⟨tag.name, attrs⟩ ns).1]
    exact hwrite
  | drawings _ _ _ _ _ h => exact Settles.opens h
  | texts _ h => exact Settles.opens h
  | kept h hquiet =>
    cases h with
    | slot => simp [references] at hb
    | drawing _ _ ha _ =>
      exact Settles.quiet (by rw [referencesOfList, Markup.references_of_render ha]; rfl) hquiet
    | _ => exact Settles.quiet rfl hquiet

end Stencil.Merge
