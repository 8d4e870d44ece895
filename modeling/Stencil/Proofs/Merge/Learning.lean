import Stencil.Proofs.Merge.Growth
import Stencil.Proofs.Registry.Learning

namespace Stencil.Merge

open Node Registry

variable {α : Type} [Grade α] {merge : NodeMerger} {chain : Scope} {around : Around} {side : Side}
  {key : String} {v w : Value} {s t u : MergeState}

theorem Reserves.learns (h : Reserves chain key s t) :
    Learns [] [chain ++ [key]] s.registry t.registry := by
  obtain ⟨kind, source, attr, hregistry⟩ := h.registry
  rw [hregistry]
  exact learns_record _ _ _ _ _ _

theorem Opens.learns (h : Opens chain side key v w s t) :
    Learns [] [chain ++ [key]] s.registry t.registry := by
  obtain ⟨kind, source, attr, hregistry⟩ := h.registry
  rw [hregistry]
  exact learns_record _ _ _ _ _ _

theorem learns_of_registry {ins outs : List Reference} (h : t.registry = s.registry)
    (hrefs : ∀ r ∈ outs, r ∈ ins) : Learns ins outs s.registry t.registry := by
  rw [h]
  exact (Learns.refl [] _).mono (by simp) fun r hr => .inr (hrefs r hr)

theorem Moves.learns {depth : Nat} {refs : List Reference} (h : Moves side depth key refs s t) :
    Learns refs (refs.map (Reference.insertKey depth key)) s.registry t.registry where
  grows := h.known
  knows hk r hr := by
    obtain ⟨q, hq, rfl⟩ := List.mem_map.mp hr
    have hlong := h.long q hq
    obtain ⟨scope, last, rfl⟩ : ∃ scope last, q = scope ++ [last] := by
      rcases List.eq_nil_or_concat q with rfl | ⟨scope, last, rfl⟩
      · simp at hlong
      · exact ⟨scope, last, List.concat_eq_append⟩
    have hdepth : depth ≤ scope.length := by
      rw [List.length_append, List.length_singleton] at hlong
      omega
    have hmoved := h.moved _ hq
    rw [Reference.key_append, List.dropLast_concat] at hmoved
    rw [Reference.insertKey_concat key last hdepth, knows_concat]
    exact hmoved (knows_concat.mp (hk _ hq))

def LearnsAll (merge : NodeMerger) : Prop :=
  ∀ chain around a b s n t, Returns (merge chain around a b) s n t →
    Learns (a.references ++ b.references) n.references s.registry t.registry

theorem Returns.extract_learns (hm : LearnsAll merge) {c : Scope} {template : Node}
    {elements : List Node} {x : Node × List Fields}
    (h : Returns (extract Node.same (fun t e => merge c around t e) template elements) s x t) :
    Learns (template.references ++ referencesOfList elements) x.1.references
      s.registry t.registry := by
  let P (g : Registry) (n : Node) : Prop :=
    Learns (template.references ++ referencesOfList elements) n.references s.registry g
  refine Returns.extract_registry P (fun {grown source s' merged t'} hp hmem hmerge => ?_) ?_ h
  · have hstep := hm _ _ _ _ _ _ _ hmerge
    have hsource : ∀ r ∈ source.references, r ∈ referencesOfList elements := fun r hr =>
      mem_referencesOfList.mpr ⟨source, hmem, hr⟩
    refine ⟨⟨hp.grows.trans hstep.grows, fun hk => hstep.knows ?_⟩,
      ⟨hp.grows.trans hstep.grows, fun hk r hr => hstep.grows.knows (hp.knows hk r hr)⟩⟩
    intro r hr
    rcases List.mem_append.mp hr with hr | hr
    · exact hp.knows hk r hr
    · exact hp.grows.knows (hk r (List.mem_append_right _ (hsource r hr)))
  · exact (Learns.refl _ _).mono (fun r hr => List.mem_append_left _ hr) fun r hr => .inl hr

theorem Absorbed.learns (hm : LearnsAll merge) {r : Reference} {template n : Node}
    {elements : List Node} (h : Absorbed merge around side r template elements s n t) :
    Learns (r :: (template.references ++ referencesOfList elements)) n.references
      s.registry t.registry := by
  cases h with
  | mk hextract hread =>
    rw [hread.registry, references]
    refine (Returns.extract_learns hm hextract).mono (fun q hq => List.mem_cons_of_mem _ hq) ?_
    intro q hq
    rcases List.mem_cons.mp hq with rfl | hq
    · exact .inr List.mem_cons_self
    · exact .inl hq

theorem Looped.learns (hm : LearnsAll merge) {as bs : List Node} {n : Node}
    (h : Looped merge chain around as bs s n t) :
    Learns (referencesOfList as ++ referencesOfList bs) n.references s.registry t.registry := by
  cases h with
  | @mk key template _ _ _ elements _ _ _ _ _ _ hkey hmoves hmoves' he hextract hleft hright =>
    have hmoved := (hkey.learns.append hmoves.learns).append hmoves'.learns
    have htemplate := Returns.extract_learns hm hextract
    rw [hright.registry, hleft.registry, references]
    have helements : referencesOfList elements =
        (referencesOfList as).map (Reference.insertKey chain.length key) ++
          (referencesOfList bs).map (Reference.insertKey chain.length key) := by
      rw [he, referencesOfList_insertKeys, referencesOfList_append, List.map_append]
    have hhead : ∀ r ∈ (elements.headD .content).references ++ referencesOfList elements,
        r ∈ referencesOfList elements := by
      intro r hr
      rcases List.mem_append.mp hr with hr | hr
      · exact references_headD hr
      · exact hr
    have htemplate := htemplate.mono hhead fun r hr => .inl hr
    rw [helements] at htemplate
    -- the new key is known before the elements move, and stays so
    refine ⟨hmoved.grows.trans htemplate.grows, fun hk r hr => ?_⟩
    have hall := hmoved.knows (by simpa using hk)
    rcases List.mem_cons.mp hr with rfl | hr
    · exact htemplate.grows.knows (hall _ (by simp))
    · exact htemplate.knows (fun q hq => hall q (by simpa using .inr (by simpa using hq))) r hr

theorem Wrapped.learns {n m : Node} (h : Wrapped chain side n s m t) :
    Learns n.references m.references s.registry t.registry := by
  cases h with
  | mk hkey hmoves _ hown hother =>
    rw [hother.registry, hown.registry, references, references_insertKey]
    exact hkey.learns.append hmoves.learns

theorem Unmatched.learns {enclosing : Option Tag} {n m : Node} {rest : List Node} {count : Nat}
    (h : Unmatched chain side enclosing n rest s m count t) :
    Learns n.references m.references s.registry t.registry := by
  cases h with
  | literal _ => exact .refl _ _
  | content => exact .refl _ _
  | text _ h => exact h.learns
  | slot h => exact learns_of_registry h.registry fun _ hr => hr
  | block h => exact learns_of_registry h.registry fun _ hr => hr
  | markdown _ h => exact h.learns.mono (by simp) fun r hr => .inl hr
  | wrapped _ h => exact (Returns.wrapElement h).learns

theorem references_of_singleSlot {kind : SlotKind} {ns : List Node} {r : Reference}
    (h : singleSlot? kind ns = some r) : r ∈ referencesOfList ns :=
  mem_referencesOfList.mpr ⟨_, (singleSlot_mem h).1, List.mem_singleton_self r⟩

theorem Inlined.learns {as bs ns : List Node} (h : Inlined chain as bs s ns t) :
    Learns (referencesOfList as ++ referencesOfList bs) (referencesOfList ns)
      s.registry t.registry := by
  cases h with
  | readRight hr _ h =>
    refine learns_of_registry h.registry fun q hq => List.mem_append_left _ ?_
    rw [List.mem_singleton.mp hq]
    exact references_of_singleSlot hr
  | readLeft hr _ h =>
    refine learns_of_registry h.registry fun q hq => List.mem_append_right _ ?_
    rw [List.mem_singleton.mp hq]
    exact references_of_singleSlot hr
  | fresh _ _ h => exact h.learns.mono (by simp) fun r hr => .inl hr

theorem Blocks.learns {as bs : List Node} {taken : Taken} (h : Blocks chain as bs s taken t) :
    Learns (referencesOfList as ++ referencesOfList bs) taken.node.references
      s.registry t.registry := by
  cases h with
  | readRight hr h =>
    refine learns_of_registry h.registry fun q hq => List.mem_append_left _ ?_
    exact mem_referencesOfList.mpr ⟨_, List.mem_of_head? hr, hq⟩
  | readLeft hr h =>
    refine learns_of_registry h.registry fun q hq => List.mem_append_right _ ?_
    exact mem_referencesOfList.mpr ⟨_, List.mem_of_head? hr, hq⟩
  | fresh h => exact h.learns.mono (by simp) fun r hr => .inl hr

theorem references_elementsIn {a : Node} {rest : List Node} {k : Nat} {r : Reference}
    (h : r ∈ referencesOfList (elementsIn (a :: rest.take k))) : r ∈ referencesOfList (a :: rest) := by
  obtain ⟨n, hn, hr⟩ := mem_referencesOfList.mp h
  exact mem_referencesOfList.mpr ⟨n, List.mem_of_mem_take (mem_elementsIn_take hn), hr⟩

theorem Runs.learns (hm : LearnsAll merge) {a b : Node} {restA restB : List Node} {taken : Taken}
    (h : Runs α merge chain around a b restA restB s taken t) :
    Learns (referencesOfList (a :: restA) ++ referencesOfList (b :: restB)) taken.node.references
      s.registry t.registry := by
  cases h with
  | mk hquiet _ _ _ _ _ _ h =>
    rw [← hquiet.registry]
    refine (h.learns hm).mono (fun r hr => ?_) fun r hr => .inl hr
    exact List.mem_append.mpr ((List.mem_append.mp hr).imp references_elementsIn references_elementsIn)

theorem Partners.learns (hm : LearnsAll merge) {a b : Node} {restA restB : List Node} {taken : Taken}
    (h : Partners α merge chain around restA restB s a b taken t) :
    Learns (referencesOfList (a :: restA) ++ referencesOfList (b :: restB)) taken.node.references
      s.registry t.registry := by
  have hfirst {n : Node} {ns : List Node} {r : Reference} (h : r ∈ n.references) :
      r ∈ referencesOfList (n :: ns) := List.mem_append_left _ h
  cases h with
  | absorbRight _ _ h =>
    refine (h.learns hm).mono (fun r hr => ?_) fun r hr => .inl hr
    rw [← List.cons_append, List.mem_append] at hr
    exact List.mem_append.mpr (hr.imp hfirst references_elementsIn)
  | absorbLeft _ _ h =>
    refine (h.learns hm).mono (fun r hr => ?_) fun r hr => .inl hr
    rw [← List.cons_append, List.mem_append] at hr
    exact List.mem_append.mpr (hr.symm.imp references_elementsIn hfirst)
  | merged h =>
    refine (hm _ _ _ _ _ _ _ h).mono (fun r hr => ?_) fun r hr => .inl hr
    exact List.mem_append.mpr ((List.mem_append.mp hr).imp hfirst hfirst)

theorem Front.learns (hm : LearnsAll merge) {a b : Node} {restA restB : List Node} {taken : Taken}
    (h : Front α merge chain around a b restA restB s taken t) :
    Learns (referencesOfList (a :: restA) ++ referencesOfList (b :: restB)) taken.node.references
      s.registry t.registry := by
  cases h with
  | blocks h => exact (Returns.mergeBlocks h).learns
  | runs hquiet h =>
    rw [← hquiet.registry]
    exact (Returns.mergeRuns h).learns hm
  | pair hquiet _ h =>
    obtain ⟨u, hu, hp⟩ := Returns.mergePair h
    rw [← (hquiet.trans hu).registry]
    exact hp.learns hm
  | left hquiet _ _ _ h =>
    rw [← hquiet.registry]
    refine (Returns.unmatched h).learns.mono (fun r hr => ?_) fun r hr => .inl hr
    exact List.mem_append_left _ (List.mem_append_left _ hr)
  | right hquiet _ _ _ h =>
    rw [← hquiet.registry]
    refine (Returns.unmatched h).learns.mono (fun r hr => ?_) fun r hr => .inl hr
    exact List.mem_append_right _ (List.mem_append_left _ hr)

theorem mem_references_drop {ns : List Node} {k : Nat} {r : Reference}
    (h : r ∈ referencesOfList (ns.drop k)) : r ∈ referencesOfList ns := by
  obtain ⟨n, hn, hr⟩ := mem_referencesOfList.mp h
  exact mem_referencesOfList.mpr ⟨n, List.mem_of_mem_drop hn, hr⟩

theorem Walk.learns (hm : LearnsAll merge) {as bs ns : List Node}
    (h : Walk α merge chain around as bs s ns t) :
    Learns (referencesOfList as ++ referencesOfList bs) (referencesOfList ns)
      s.registry t.registry := by
  induction h with
  | done => exact .refl _ _
  | both hf _ ih =>
    refine ((hf.learns hm).append ih).mono (fun r hr => ?_) fun r hr => .inl hr
    rcases List.mem_append.mp hr with hr | hr
    · exact hr
    · exact List.mem_append.mpr ((List.mem_append.mp hr).imp mem_references_drop mem_references_drop)
  | left hn _ ih =>
    refine ((Returns.unmatched hn).learns.append ih).mono (fun r hr => ?_) fun r hr => .inl hr
    simp only [referencesOfList, List.append_nil, List.mem_append] at hr ⊢
    rcases hr with hr | hr
    · exact .inl hr
    · exact List.mem_append.mp (mem_references_drop hr)
  | right hn _ ih =>
    refine ((Returns.unmatched hn).learns.append ih).mono (fun r hr => ?_) fun r hr => .inl hr
    simp only [referencesOfList, List.nil_append, List.mem_append] at hr ⊢
    rcases hr with hr | hr
    · exact .inl hr
    · exact List.mem_append.mp (mem_references_drop hr)

theorem Returns.mergeSiblings_learns (hm : LearnsAll merge) {as bs ns : List Node}
    (h : Returns (Merge.mergeSiblings α merge chain around as bs) s ns t) :
    Learns (referencesOfList as ++ referencesOfList bs) (referencesOfList ns)
      s.registry t.registry := by
  rcases Returns.mergeSiblings h with h | ⟨u, hu, h⟩
  · exact (Returns.mergeInline h).learns
  · rw [← Returns.mergeInline_none hu]
    exact h.learns hm

abbrev attributeReferences (attrs : List Attribute) : List Reference :=
  attrs.filterMap Attribute.reference?

theorem mem_attributeReferences {attrs : List Attribute} {a : Attribute} {r : Reference}
    (ha : a ∈ attrs) (hr : a.reference? = some r) : r ∈ attributeReferences attrs :=
  List.mem_filterMap.mpr ⟨a, ha, hr⟩

theorem Lonely.learns {a c : Attribute} (h : Lonely chain side a s c t) :
    Learns a.reference?.toList c.reference?.toList s.registry t.registry := by
  cases h with
  | fixed h => exact h.learns
  | known hr h =>
    rw [hr]
    exact learns_of_registry h.registry fun _ hr => hr

theorem Matched.learns {other : Tag} {a c : Attribute} (h : Matched chain other a s c t) :
    Learns (a.reference?.toList ++ attributeReferences other.attrs) c.reference?.toList
      s.registry t.registry := by
  cases h with
  | lonely _ h => exact h.learns.mono (fun r hr => List.mem_append_left _ hr) fun r hr => .inl hr
  | paired hb h =>
    cases h with
    | known hr _ hc _ => exact learns_of_registry rfl (by simp [hr, hc])
    | readRight _ h => exact learns_of_registry h.registry fun r hr => List.mem_append_left _ hr
    | readLeft hr h =>
      refine learns_of_registry h.registry fun q hq => List.mem_append_right _ ?_
      exact mem_attributeReferences (attr?_eq_some hb).1 (Option.mem_toList.mp hq)
    | same _ => exact learns_of_registry rfl (by simp [Attribute.reference?])
    | differ _ h => exact h.learns.mono (by simp) fun r hr => .inl hr

theorem Each.learns {step : Attribute → MergeState → Attribute → MergeState → Prop}
    {as cs : List Attribute} {ins : List Reference}
    (hstep : ∀ a ∈ as, ∀ s c t, step a s c t → Learns ins c.reference?.toList s.registry t.registry)
    (h : Each step as s cs t) : Learns ins (attributeReferences cs) s.registry t.registry := by
  induction h with
  | nil => exact (Learns.refl [] _).mono (by simp) (by simp)
  | @cons a c as cs _ _ _ ha _ ih =>
    have hall := (hstep a (by simp) _ _ _ ha).append (ih fun b hb => hstep b (by simp [hb]))
    refine hall.mono (by simp) fun r hr => .inl ?_
    rw [← List.singleton_append, attributeReferences, List.filterMap_append, List.mem_append] at hr
    refine List.mem_append.mpr (hr.imp_left fun hr => ?_)
    obtain ⟨b, hb, hr⟩ := List.mem_filterMap.mp hr
    rw [List.mem_singleton.mp hb] at hr
    exact Option.mem_toList.mpr hr

theorem Returns.mergeAttributes_learns {owner other : Tag} {cs : List Attribute}
    (h : Returns (Merge.mergeAttributes chain owner other) s cs t) :
    Learns (attributeReferences owner.attrs ++ attributeReferences other.attrs)
      (attributeReferences cs) s.registry t.registry := by
  obtain ⟨left, right, u, rfl, hleft, hright⟩ := Returns.mergeAttributes h
  have hl : Learns (attributeReferences owner.attrs ++ attributeReferences other.attrs)
      (attributeReferences left) s.registry u.registry := by
    apply hleft.learns
    intro a ha s c t hm
    refine hm.learns.mono (fun r hr => ?_) fun r hr => .inl hr
    refine List.mem_append.mpr ((List.mem_append.mp hr).imp_left fun hr => ?_)
    exact mem_attributeReferences ha (Option.mem_toList.mp hr)
  have hr : Learns (attributeReferences other.attrs) (attributeReferences right)
      u.registry t.registry := by
    apply hright.learns
    intro b hb s c t hm
    refine hm.learns.mono (fun r hr => ?_) fun r hr => .inl hr
    exact mem_attributeReferences (mem_missingIn hb).1 (Option.mem_toList.mp hr)
  refine (hl.append hr).mono (fun r hr => ?_) fun r hr => .inl ?_
  · exact (List.mem_append.mp hr).elim id fun hr => List.mem_append_right _ hr
  · rwa [attributeReferences, List.filterMap_append] at hr

theorem Returns.inBlock_learns (hm : LearnsAll merge) {r : Reference} {a b n : Node}
    {kind : BlockKind} {scopes : Fields × Fields} {ins : List Reference} (hr : r ∈ ins)
    (ha : ∀ q ∈ a.references, q ∈ ins) (hb : ∀ q ∈ b.references, q ∈ ins)
    (h : Returns (inScope (merge r around a b)) s (n, scopes) t) :
    Learns ins (Node.block kind r n).references s.registry t.registry := by
  obtain ⟨u, hu, -, rfl⟩ := returns_inScope.mp h
  refine (hm _ _ _ _ _ _ _ hu).mono (fun q hq => ?_) fun q hq => ?_
  · exact (List.mem_append.mp hq).elim (ha q) (hb q)
  · rcases List.mem_cons.mp hq with rfl | hq
    · exact .inr hr
    · exact .inl hq

theorem Step.learns (hm : LearnsAll merge) {a b n : Node}
    (h : Step α merge chain around s a b n t) :
    Learns (a.references ++ b.references) n.references s.registry t.registry := by
  cases h with
  | conditionals h =>
    exact Returns.inBlock_learns hm (by simp [references]) (fun q hq => List.mem_append_left _ (List.mem_cons_of_mem _ hq))
      (fun q hq => List.mem_append_right _ (List.mem_cons_of_mem _ hq)) h
  | @conditionalLeft r template _ n _ _ _ _ _ h hother hown =>
    have hblock : Learns ((r :: template.references) ++ b.references)
        (Node.block .conditional r n).references _ _ :=
      Returns.inBlock_learns hm (by simp) (fun q hq => List.mem_append_left _ (List.mem_cons_of_mem _ hq))
        (fun q hq => List.mem_append_right _ hq) h
    rcases hown with hquiet | ⟨x, hown⟩
    · rwa [hquiet.registry, hother.registry]
    · rwa [hown.registry, hother.registry]
  | @conditionalRight r _ template n _ _ _ _ _ h hother hown =>
    have hblock : Learns (a.references ++ (r :: template.references))
        (Node.block .conditional r n).references _ _ :=
      Returns.inBlock_learns hm (by simp) (fun q hq => List.mem_append_left _ hq)
        (fun q hq => List.mem_append_right _ (List.mem_cons_of_mem _ hq)) h
    rcases hown with hquiet | ⟨x, hown⟩
    · rwa [hquiet.registry, hother.registry]
    · rwa [hown.registry, hother.registry]
  | loops h hquiet =>
    rw [hquiet.registry]
    exact Returns.inBlock_learns hm (by simp [references]) (fun q hq => List.mem_append_left _ (List.mem_cons_of_mem _ hq))
      (fun q hq => List.mem_append_right _ (List.mem_cons_of_mem _ hq)) h
  | absorbRight _ h => exact (h.learns hm).mono (by simp [referencesOfList, references]) fun r hr => .inl hr
  | absorbLeft _ h =>
    refine (h.learns hm).mono (fun q hq => ?_) fun r hr => .inl hr
    simpa [referencesOfList, references, or_comm, or_assoc, or_left_comm] using hq
  | readRight _ h => exact learns_of_registry h.registry fun _ hr => List.mem_append_left _ hr
  | readLeft _ h => exact learns_of_registry h.registry fun _ hr => List.mem_append_right _ hr
  | elements _ _ hattrs hns =>
    have hall := (Returns.mergeAttributes_learns hattrs).append (Returns.mergeSiblings_learns hm hns)
    refine hall.mono (fun r hr => ?_) fun r hr => .inl hr
    simp only [references, List.mem_append] at hr ⊢
    tauto
  | drawings _ _ _ _ _ h => exact h.learns.mono (by simp) fun r hr => .inl hr
  | texts _ h => exact h.learns.mono (by simp) fun r hr => .inl hr
  | kept _ h => exact learns_of_registry h.registry fun _ hr => List.mem_append_left _ hr

theorem mergeNode_learns (fuel : Nat) : LearnsAll (mergeNode α fuel) := by
  induction fuel with
  | zero =>
    intro chain around a b s n t h
    simp [mergeNode] at h
  | succ fuel ih =>
    intro chain around a b s n t h
    exact (Returns.mergeStep h).learns ih

theorem Returns.lists_learns {as bs ns : List Node} (h : Returns (lists α chain around as bs) s ns t) :
    Learns (referencesOfList as ++ referencesOfList bs) (referencesOfList ns) s.registry t.registry :=
  Returns.mergeSiblings_learns (mergeNode_learns _) h

end Stencil.Merge
