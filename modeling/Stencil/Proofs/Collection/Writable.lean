import Stencil.Proofs.Collection.Fold
import Stencil.Proofs.Markup
import Stencil.Proofs.Merge.Framed
import Stencil.Proofs.Rendering

namespace Stencil

namespace Node

mutual
def Drawable : Node → Prop
  | element t cs => (t.name = "svg" → Static (element t cs)) ∧ DrawableList cs
  | block _ _ t => Drawable t
  | foreign => False
  | _ => True

def DrawableList : List Node → Prop
  | [] => True
  | n :: rest => Drawable n ∧ DrawableList rest
end

theorem drawableList_iff {ns : List Node} : DrawableList ns ↔ ∀ n ∈ ns, n.Drawable := by
  induction ns with
  | nil => simp [DrawableList]
  | cons n ns ih => rw [DrawableList, ih, List.forall_mem_cons]

mutual
theorem Drawable.insertKey (depth : Nat) (key : String) : (n : Node) → n.Drawable → (n.insertKey depth key).Drawable
  | element t cs, h => by
    refine ⟨fun hsvg => ?_, DrawableList.insertKeys depth key cs h.2⟩
    have hstatic := h.1 hsvg
    have hkept := insertKey_of_references_nil depth key _ (Static.references _ hstatic)
    rw [Node.insertKey] at hkept
    rw [hkept]
    exact hstatic
  | block _ _ t, h => Drawable.insertKey depth key t h
  | literal .., h => h
  | slot .., h => h
  | content, h => h
  | foreign, h => h

theorem DrawableList.insertKeys (depth : Nat) (key : String) : (ns : List Node) → DrawableList ns →
    DrawableList (insertKeys depth key ns)
  | [], h => h
  | n :: ns, h => ⟨Drawable.insertKey depth key n h.1, DrawableList.insertKeys depth key ns h.2⟩
end

def Drawn (n : Node) : Prop :=
  n.Framed true ∧ n.Drawable

mutual
theorem Static.drawn : (n : Node) → n.Static → n.Drawn
  | literal .., _ => ⟨trivial, trivial⟩
  | element _ cs, h => by
    have hchildren := StaticList.drawn cs h.2
    exact ⟨⟨fun _ => rfl, framedList_iff.mpr fun n hn => (hchildren n hn).1⟩, fun _ => h,
      drawableList_iff.mpr fun n hn => (hchildren n hn).2⟩

theorem StaticList.drawn : (ns : List Node) → StaticList ns → ∀ n ∈ ns, n.Drawn
  | [], _ => by simp
  | n :: ns, h => List.forall_mem_cons.mpr ⟨Static.drawn n h.1, StaticList.drawn ns h.2⟩
end

end Node

namespace Merge

open Node Grade

def Ruled (f : Failure) : Prop :=
  f.family ≠ .pairing

instance : Failure.Mild Ruled where
  holds h hpairing := h (.inr (.inr hpairing))

instance : Frame Drawn where
  slot _ := ⟨fun _ => rfl, trivial⟩
  block := and_assoc
  children h n hn := ⟨framedList_iff.mp h.1.2 n hn, drawableList_iff.mp h.2.2 n hn⟩
  element h hcs := ⟨⟨fun _ => rfl, framedList_iff.mpr fun n hn => (hcs n hn).1⟩, fun hsvg => absurd hsvg h,
    drawableList_iff.mpr fun n hn => (hcs n hn).2⟩
  drawing _ _ := ⟨fun _ => rfl, trivial⟩
  insertKey depth key h := ⟨Framed.insertKey depth key _ h.1, Drawable.insertKey depth key _ h.2⟩

instance : Tolerates Ruled Drawn where
  doctypes _ := by simp [Ruled, Failure.family]
  slotLoop _ := by simp [Ruled, Failure.family]
  loopSlot _ := by simp [Ruled, Failure.family]
  drawing h hsvg := by
    have hstatic : StaticList [_] := ⟨h.2.1 hsvg, trivial⟩
    obtain ⟨x, hx⟩ := Markup.render_ok hstatic
    rw [hx]
    exact errsIn_ok x
  unknown h := h.2.elim
  limit := by simp [Ruled, Failure.family]

variable {α : Type} [Grade α] [Counting α] [Positive α] [Ordered α] [Selective α] {chain : Scope} {around : Around}
  {s t : MergeState} {layout page ns : List Node}

theorem ruled_lists (hlayout : ∀ n ∈ layout, n.Drawn) (hpage : ∀ n ∈ page, n.Drawn) :
    FailsIn Ruled (lists α chain around layout page) s :=
  accepted_mergeSiblings (accepts_mergeNode _) hlayout hpage

theorem Returns.drawn (hlayout : ∀ n ∈ layout, n.Drawn) (hpage : ∀ n ∈ page, n.Drawn)
    (h : Returns (lists α chain around layout page) s ns t) : ∀ n ∈ ns, n.Drawn :=
  Returns.mergeSiblings_framed (P := Ruled) (accepts_mergeNode _) hlayout hpage h

end Merge

section Json

variable {P : Failure → Prop}

theorem Attribute.errsIn_toJson [Failure.Mild P] (a : Attribute) : ErrsIn P a.toJson := by
  cases a <;> simp [toJson, Failure.family]

mutual
theorem Node.errsIn_toJson [Failure.Mild P] : (n : Node) → ErrsIn P n.toJson
  | literal .. | slot .. | content | foreign => by simp [toJson, Failure.family]
  | block _ _ t => by simp [toJson, errsIn_toJson t]
  | element t cs => by
    have hattrs : ErrsIn P (t.attrs.mapM fun a => Prod.mk a.name <$> a.toJson) :=
      errsIn_mapM fun a _ => by simp [Attribute.errsIn_toJson]
    simp [toJson, hattrs, errsIn_listToJson cs]

theorem Node.errsIn_listToJson [Failure.Mild P] : (ns : List Node) → ErrsIn P (listToJson ns)
  | [] => errsIn_ok _
  | n :: ns => by simp [listToJson, errsIn_toJson n, errsIn_listToJson ns]
end

theorem Node.errsIn_treeToJson [Failure.Mild P] (ns : List Node) : ErrsIn P (treeToJson ns) := by
  simp [treeToJson, errsIn_listToJson]

theorem PageRecord.errsIn_toJson [Failure.Mild P] (p : PageRecord) : ErrsIn P p.toJson := by
  simp [toJson, Node.errsIn_treeToJson]

theorem Collection.errsIn_toJson [Failure.Mild P] (c : Collection) : ErrsIn P c.toJson := by
  have hpages : ErrsIn P (c.pages.mapM PageRecord.toJson) := errsIn_mapM fun p _ => p.errsIn_toJson
  simp [toJson, Node.errsIn_treeToJson, hpages]

end Json

namespace Collection

open Merge Node Grade

variable {α : Type} [Grade α] [Counting α] [Positive α] [Ordered α] [Selective α] {s t : MergeState}
  {layout merged : List Node} {documents : List Document} {name : String} {progress : Bool}

theorem ruled_mergeLayout {page : List Node} (hlayout : ∀ n ∈ layout, n.Drawn) (hpage : ∀ n ∈ page, n.Drawn) :
    FailsIn Ruled (mergeLayout α layout page) s := by
  simp [mergeLayout, ruled_lists hlayout hpage]

theorem ruled_snapshot {file : String} {contents : Except Failure Json} (h : ErrsIn Ruled contents) :
    FailsIn Ruled (snapshot file contents) s := by
  simp [snapshot, emit, h]

theorem ruled_fold {total count : Nat} (hlayout : ∀ n ∈ layout, n.Drawn)
    (hpages : ∀ d ∈ documents, ∀ n ∈ d.layout, n.Drawn) :
    FailsIn Ruled (fold α name progress total count layout documents) s := by
  induction documents generalizing layout count s with
  | nil => simp [fold]
  | cons d documents ih =>
    rw [List.forall_mem_cons] at hpages
    simp only [fold, failsIn_bind, failsIn_debug, true_and]
    rintro _ u -
    refine ⟨ruled_mergeLayout hlayout hpages.1, fun next v hnext => ?_⟩
    have hdrawn : ∀ n ∈ next, n.Drawn := by
      obtain ⟨w, hmerge, -⟩ := Returns.mergeLayout hnext
      exact Merge.Returns.drawn hlayout hpages.1 hmerge
    have hrest (u : MergeState) : FailsIn Ruled (fold α name progress total (count + 1) next documents) u :=
      ih hdrawn hpages.2
    have hsnapshot (u : MergeState) : FailsIn Ruled (snapshot "layout.json" (treeToJson next)) u :=
      ruled_snapshot (errsIn_treeToJson next)
    split <;> simp [log, hsnapshot, hrest]

theorem Returns.fold_drawn {total count : Nat} (hlayout : ∀ n ∈ layout, n.Drawn)
    (hpages : ∀ d ∈ documents, ∀ n ∈ d.layout, n.Drawn)
    (h : Returns (fold α name progress total count layout documents) s merged t) : ∀ n ∈ merged, n.Drawn := by
  have hkept : KeptBy α (fun _ ns => ∀ n ∈ ns, n.Drawn) (documents.map Document.layout) := by
    intro layout page merged s t hlayout hpage _ _ h
    obtain ⟨d, hd, rfl⟩ := List.mem_map.mp hpage
    exact Merge.Returns.drawn hlayout (hpages d hd) h
  exact hkept.fold hlayout h

theorem ruled_extract (hlayout : ∀ n ∈ layout, n.Drawn) (hpages : ∀ d ∈ documents, ∀ n ∈ d.layout, n.Drawn) :
    FailsIn Ruled (extract α layout documents) s := by
  have hsources : ∀ page ∈ documents.map Document.layout, ∀ n ∈ page, n.Drawn := List.forall_mem_map.mpr hpages
  exact failsIn_extract (fun ns => ∀ n ∈ ns, n.Drawn) (fun ht hpage => ruled_lists ht (hsources _ hpage))
    (fun ht hpage h => Merge.Returns.drawn ht (hsources _ hpage) h) hlayout

theorem ruled_mergeDocuments {first : Document} (hfirst : ∀ n ∈ first.layout, n.Drawn)
    (hpages : ∀ d ∈ documents, ∀ n ∈ d.layout, n.Drawn) :
    FailsIn Ruled (mergeDocuments α name progress first documents) s := by
  have hall : ∀ d ∈ first :: documents, ∀ n ∈ d.layout, n.Drawn := List.forall_mem_cons.mpr ⟨hfirst, hpages⟩
  simp only [mergeDocuments, failsIn_bind]
  refine ⟨ruled_fold hfirst hpages, fun layout u hfold => ?_⟩
  refine ⟨ruled_extract (Returns.fold_drawn hfirst hpages hfold) hall, ?_⟩
  rintro ⟨grown, records⟩ v -
  have hsnapshot (c : Collection) (u : MergeState) : FailsIn Ruled (snapshot "result.json" c.toJson) u :=
    ruled_snapshot c.errsIn_toJson
  simp [names, log, hsnapshot]

theorem ruled_ofDocuments (hpages : ∀ d ∈ documents, ∀ n ∈ d.layout, n.Drawn) :
    FailsIn Ruled (ofDocuments α name progress documents) s := by
  unfold ofDocuments
  split
  · rw [List.forall_mem_cons] at hpages
    split
    · exact failsIn_throw.mpr (by simp [Ruled, Failure.family])
    · simp [emit, ruled_mergeDocuments hpages.1 hpages.2]
  · exact failsIn_throw.mpr (by simp [Ruled, Failure.family])

end Collection

open Merge Node Grade

/-- Markup is written of static trees and of no others, and whatever is taken for Markdown is static. So no way to keep
something as Markdown ever meets a node or an attribute that there is no rule for, whatever is merged. Where the drawings
of a layout and a page can be written too and no node is unknown, as in every page that is read, their merge meets none
either and leaves such a layout, and nor does the merge of all the pages of a collection. -/
theorem markdown_never_refused (α : Type) [Grade α] [Counting α] [Positive α] [Ordered α] [Selective α] :
    (∀ ns, ((∃ x, Markup.render ns = .ok x) ↔ StaticList ns) ∧
      ∀ f, Markup.render ns = .error f → f.family = .pairing) ∧
    (∀ ns, Markdown.isInlineTree ns = true → ∃ x, Markup.render ns = .ok x) ∧
    (∀ ns : List Node, ∃ x, Markup.render (ns.take (Markdown.run ns)) = .ok x) ∧
    (∀ chain around as bs s, FailsIn Ruled (mergeInline? chain around as bs) s ∧
      FailsIn Ruled (mergeBlocks? chain around as bs) s) ∧
    (∀ chain side enclosing n rest s, n ≠ .foreign → FailsIn Ruled (unmatched chain side enclosing n rest) s) ∧
    (∀ chain around layout page s, (∀ n ∈ layout, n.Drawn) → (∀ n ∈ page, n.Drawn) →
      FailsIn Ruled (lists α chain around layout page) s ∧
        ∀ ns t, Returns (lists α chain around layout page) s ns t → ∀ n ∈ ns, n.Drawn) ∧
    (∀ text, ∀ n ∈ Markup.parse text, n.Drawn) ∧
    ∀ name progress documents s, (∀ d ∈ documents, ∀ n ∈ d.layout, n.Drawn) →
      FailsIn Ruled (Collection.ofDocuments α name progress documents) s := by
  refine ⟨fun ns => ⟨Markup.render_ok_iff, fun f => Markup.family_of_render⟩, ?_, ?_, ?_, ?_, ?_, ?_, ?_⟩
  · exact fun ns h => Markup.render_ok (Markdown.static_of_isInlineTree ns h)
  · exact fun ns => Markup.render_ok (Markdown.static_of_run ns)
  · exact fun chain around as bs s => ⟨failsIn_mergeInline as bs, failsIn_mergeBlocks as bs⟩
  · exact fun chain side enclosing n rest s h => failsIn_unmatched_of enclosing rest fun hn => absurd hn h
  · exact fun chain around layout page s hlayout hpage =>
      ⟨ruled_lists hlayout hpage, fun ns t h => h.drawn hlayout hpage⟩
  · exact fun text => StaticList.drawn _ (LiteralList.static _ (Markup.parse_literal text))
  · exact fun name progress documents s h => Collection.ruled_ofDocuments h

theorem markdown_never_refused_paragraph :
    let inner : List Node := [.text "a", .element ⟨"em", []⟩ [.text "b"]]
    let page : List Node := [.element ⟨"p", []⟩ inner, .element ⟨"svg", [.fixed "width" "8"]⟩ []]
    let layout : List Node := [.element ⟨"p", []⟩ [.slot .inlineMarkdown ["p"]], .slot .html ["svg"],
      .block .conditional ["note"] (.element ⟨"div", [.slot "class" ["note", "class"]]⟩ [.content])]
    Markdown.isInlineTree inner = true ∧ (∃ x, Markup.render inner = .ok x) ∧
      Markdown.run page = 1 ∧ (∃ x, Markup.render (page.take 1) = .ok x) ∧
      (∀ n ∈ layout, n.Drawn) ∧ (∀ n ∈ page, n.Drawn) ∧ FailsIn Ruled (lists Rat [] {} layout page) {} ∧
      FailsIn Ruled (Collection.ofDocuments Rat "notes" false [⟨"a.html", page, []⟩, ⟨"b.html", page, []⟩]) {} := by
  intro inner page layout
  have hinline : Markdown.isInlineTree inner = true := by decide
  have hrun : Markdown.run page = 1 := by decide
  have hpage : ∀ n ∈ page, n.Drawn :=
    StaticList.drawn page (by simp [page, inner, StaticList, Static, Attribute.isFixed])
  have hlayout : ∀ n ∈ layout, n.Drawn := by
    simp [layout, Drawn, Framed, FramedList, Drawable, DrawableList, Node.kind, Node.core]
  obtain ⟨-, htree, hblocks, -, -, hmerge, -, hcollection⟩ := markdown_never_refused Rat
  have hwritten := hblocks page
  rw [hrun] at hwritten
  exact ⟨hinline, htree inner hinline, hrun, hwritten, hlayout, hpage, (hmerge [] {} layout page {} hlayout hpage).1,
    hcollection _ _ _ _ (List.forall_mem_cons.mpr ⟨hpage, List.forall_mem_singleton.mpr hpage⟩)⟩

end Stencil
