import Stencil.Markup.Tree
import Stencil.Proofs.Node.Kind

namespace Stencil

open Node

namespace Tag

theorem mem_setAttr {a b : Attribute} {attrs : List Attribute} (h : b ∈ setAttr a attrs) : b = a ∨ b ∈ attrs := by
  induction attrs with
  | nil => exact .inl (List.mem_singleton.mp h)
  | cons c attrs ih =>
    rw [setAttr] at h
    split at h
    · exact (List.mem_cons.mp h).imp_right (List.mem_cons_of_mem c)
    · rcases List.mem_cons.mp h with rfl | h
      · exact .inr List.mem_cons_self
      · exact (ih h).imp_right (List.mem_cons_of_mem c)

theorem nodup_setAttr {a : Attribute} {attrs : List Attribute} (h : (attrs.map Attribute.name).Nodup) :
    ((setAttr a attrs).map Attribute.name).Nodup := by
  induction attrs with
  | nil => exact List.nodup_cons.mpr ⟨List.not_mem_nil, List.nodup_nil⟩
  | cons c attrs ih =>
    obtain ⟨hc, hattrs⟩ := List.nodup_cons.mp h
    rw [setAttr]
    split
    next hname =>
      rw [List.map_cons, beq_iff_eq.mp hname]
      exact h
    next hname =>
      refine List.nodup_cons.mpr ⟨fun hmem => ?_, ih hattrs⟩
      obtain ⟨b, hb, hbc⟩ := List.mem_map.mp hmem
      rcases mem_setAttr hb with rfl | hb
      · exact hname (beq_iff_eq.mpr hbc)
      · exact hc (List.mem_map.mpr ⟨b, hb, hbc⟩)

theorem attrs_foldl_setAttr {attrs acc : List Attribute} (hnames : (acc.map Attribute.name).Nodup)
    (hfixed : ∀ a ∈ acc, a.isFixed = true) (hattrs : ∀ a ∈ attrs, a.isFixed = true) :
    ((attrs.foldl (fun acc a => setAttr a acc) acc).map Attribute.name).Nodup ∧
      ∀ a ∈ attrs.foldl (fun acc a => setAttr a acc) acc, a.isFixed = true := by
  induction attrs generalizing acc with
  | nil => exact ⟨hnames, hfixed⟩
  | cons a attrs ih =>
    obtain ⟨ha, hattrs⟩ := List.forall_mem_cons.mp hattrs
    refine ih (nodup_setAttr hnames) (fun b hb => ?_) hattrs
    rcases mem_setAttr hb with rfl | hb
    · exact ha
    · exact hfixed b hb

end Tag

namespace Markup.Builder

structure Plain (b : Builder) : Prop where
  tags : ∀ e ∈ b.open_, (e.tag.attrs.map Attribute.name).Nodup ∧ ∀ a ∈ e.tag.attrs, a.isFixed = true
  children : ∀ e ∈ b.open_, LiteralList e.children
  roots : LiteralList b.roots

variable {b : Builder}

theorem Plain.add {n : Node} (h : b.Plain) (hn : n.Literal) : (b.add n).Plain := by
  unfold Builder.add
  split
  next top below hopen =>
    have htags := h.tags
    have hchildren := h.children
    rw [hopen, List.forall_mem_cons] at htags hchildren
    exact ⟨List.forall_mem_cons.mpr ⟨htags.1, htags.2⟩,
      List.forall_mem_cons.mpr ⟨⟨hn, hchildren.1⟩, hchildren.2⟩, h.roots⟩
  next hopen => exact ⟨h.tags, h.children, hn, h.roots⟩

theorem Plain.flushText (h : b.Plain) : b.flushText.Plain := by
  unfold Builder.flushText
  split
  · exact h
  · exact Plain.add ⟨h.tags, h.children, h.roots⟩ trivial

theorem Plain.addLiteral {k : LiteralKind} {v : String} (h : b.Plain) : (b.addLiteral k v).Plain := by
  unfold Builder.addLiteral
  split <;> exact h.flushText.add trivial

theorem Plain.closeTop (h : b.Plain) : b.closeTop.Plain := by
  unfold Builder.closeTop
  split
  next top below hopen =>
    have htags := h.tags
    have hchildren := h.children
    rw [hopen, List.forall_mem_cons] at htags hchildren
    refine Plain.add ⟨htags.2, hchildren.2, h.roots⟩ ⟨htags.1.1, htags.1.2, ?_⟩
    exact literalList_iff.mpr fun n hn => literalList_iff.mp hchildren.1 n (List.mem_reverse.mp hn)
  next => exact h

theorem Plain.closeMany (n : Nat) (h : b.Plain) : (closeMany n b).Plain := by
  induction n generalizing b with
  | zero => exact h
  | succ n ih => exact ih h.closeTop

theorem Plain.closeUpTo {name : String} (h : b.Plain) : (b.closeUpTo name).Plain := by
  unfold Builder.closeUpTo
  dsimp only
  split
  · exact h.flushText.closeMany _
  · exact h.flushText

theorem Plain.endTag {name : String} (h : b.Plain) : (b.endTag name).Plain := by
  unfold Builder.endTag
  split
  · exact ⟨h.tags, h.children, h.roots⟩
  · exact h.closeUpTo

theorem Plain.opened (name : String) {attrs : List Attribute} (hattrs : ∀ a ∈ attrs, a.isFixed = true) (h : b.Plain) :
    Plain { b.flushText with open_ := ⟨Tag.ofList name attrs, []⟩ :: b.flushText.open_ } :=
  ⟨List.forall_mem_cons.mpr ⟨Tag.attrs_foldl_setAttr List.nodup_nil nofun hattrs, h.flushText.tags⟩,
    List.forall_mem_cons.mpr ⟨trivial, h.flushText.children⟩, h.flushText.roots⟩

theorem Plain.startTag {name : String} {attrs : List (String × String)} {selfClosing : Bool} (h : b.Plain) :
    (b.startTag name attrs selfClosing).Plain := by
  unfold Builder.startTag
  dsimp only
  generalize hmap : attrs.map _ = fixed
  have hfixed : ∀ a ∈ fixed, a.isFixed = true := by
    rw [← hmap, List.forall_mem_map]
    exact fun _ _ => rfl
  have hopened := Plain.opened name hfixed h
  split
  · exact hopened.endTag
  · split
    · exact ⟨hopened.closeUpTo.tags, hopened.closeUpTo.children, hopened.closeUpTo.roots⟩
    · exact hopened

theorem Plain.token {t : Token} (h : b.Plain) : (b.token t).Plain := by
  cases t with
  | text s =>
    unfold Builder.token
    dsimp only
    split
    · exact h
    · exact ⟨h.tags, h.children, h.roots⟩
  | opening name attrs selfClosing => exact h.startTag
  | closing name => exact h.endTag
  | literal kind value => exact h.addLiteral
  | skipped => exact h.flushText

theorem Plain.finish (h : b.Plain) : LiteralList b.finish :=
  literalList_iff.mpr fun n hn =>
    literalList_iff.mp (h.flushText.closeMany _).roots n (List.mem_reverse.mp hn)

end Markup.Builder

theorem Markup.parse_literal (s : String) : LiteralList (Markup.parse s) := by
  have hfold (ts : List Token) (b : Builder) (h : b.Plain) : (ts.foldl Builder.token b).Plain := by
    induction ts generalizing b with
    | nil => exact h
    | cons t ts ih => exact ih _ h.token
  have hempty : Markup.Builder.Plain {} := ⟨fun _ h => (List.not_mem_nil h).elim, fun _ h => (List.not_mem_nil h).elim, trivial⟩
  exact (hfold _ _ hempty).finish

end Stencil
