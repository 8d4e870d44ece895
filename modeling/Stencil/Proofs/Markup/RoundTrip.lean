import Stencil.Markup.Tree
import Stencil.Proofs.Markup.Tags
import Stencil.Proofs.Region.Restoring

/-!
Trees that come back when they are written and read again. The tokens of what is written build the nodes that were
written, whatever was built before.
-/

namespace Stencil

open Markup

namespace Tag

structure Spelled (t : Tag) : Prop where
  name : isLowName t.name = true
  notScript : t.name ≠ "script"
  notStyle : t.name ≠ "style"
  nodup : (t.attrs.map Attribute.name).Nodup
  fixed : ∀ a ∈ t.attrs, a.isFixed = true
  attrNames : ∀ a ∈ t.attrs, isLowName a.name = true

theorem setAttr_of_notMem {a : Attribute} {attrs : List Attribute} (h : a.name ∉ attrs.map Attribute.name) :
    setAttr a attrs = attrs ++ [a] := by
  induction attrs with
  | nil => rfl
  | cons b attrs ih =>
    rw [List.map_cons, List.mem_cons, not_or] at h
    rw [setAttr, beq_false_of_ne h.1, if_neg Bool.false_ne_true, ih h.2, List.cons_append]

theorem foldl_setAttr_of_nodup {attrs acc : List Attribute} (h : ((acc ++ attrs).map Attribute.name).Nodup) :
    attrs.foldl (fun acc a => setAttr a acc) acc = acc ++ attrs := by
  induction attrs generalizing acc with
  | nil => rw [List.append_nil]; rfl
  | cons a attrs ih =>
    have hnew : a.name ∉ acc.map Attribute.name := by
      rw [List.map_append, List.nodup_append] at h
      exact fun hmem => h.2.2 _ hmem _ List.mem_cons_self rfl
    rw [List.append_cons] at h ⊢
    rw [List.foldl_cons, setAttr_of_notMem hnew, ih h]

theorem ofList_of_nodup {t : Tag} (h : (t.attrs.map Attribute.name).Nodup) : Tag.ofList t.name t.attrs = t := by
  rw [Tag.ofList, foldl_setAttr_of_nodup (by rwa [List.nil_append]), List.nil_append]

end Tag

namespace Node

def isText : Node → Bool
  | literal .text _ => true
  | _ => false

mutual
/-- What is written in a way that is read as the same node. Blank texts and comments are not, nor are comments with a
hyphen in them. -/
def Spelled : Node → Prop
  | literal .text v => v.toList.all Text.isMarkupBlank = false
  | literal .comment v => v.toList.all Text.isMarkupBlank = false ∧ '-' ∉ v.toList
  | element t cs => t.Spelled ∧ (closedAtOnce.contains t.name = true → cs = []) ∧ SpelledList cs
  | _ => False

def SpelledList : List Node → Prop
  | [] => True
  | n :: rest => n.Spelled ∧ (n.isText = true → rest.head?.any isText = false) ∧ SpelledList rest
end

end Node

namespace Markup

open Node

namespace Builder

variable {b : Builder} {n : Node}

def settled (b : Builder) : Builder := { b with pending := [], closedVoids := [] }

def drawn (b : Builder) : Builder := b.flushText.settled

theorem settled_add (b : Builder) (n : Node) : (b.add n).settled = b.settled.add n := by
  obtain ⟨open_, roots, pending, closedVoids⟩ := b
  cases open_ <;> rfl

theorem pending_add (b : Builder) (n : Node) : (b.add n).pending = b.pending := by
  obtain ⟨open_, roots, pending, closedVoids⟩ := b
  cases open_ <;> rfl

theorem closedVoids_add (b : Builder) (n : Node) : (b.add n).closedVoids = b.closedVoids := by
  obtain ⟨open_, roots, pending, closedVoids⟩ := b
  cases open_ <;> rfl

theorem flushText_of_pending (h : b.pending = []) : b.flushText = b := by
  rw [flushText, h, List.isEmpty_nil, if_pos rfl]

theorem pending_flushText (b : Builder) : b.flushText.pending = [] := by
  unfold flushText
  split
  next h => exact List.isEmpty_iff.mp h
  next => exact pending_add _ _

theorem closedVoids_flushText (b : Builder) : b.flushText.closedVoids = b.closedVoids := by
  unfold flushText
  split
  next => rfl
  next => exact closedVoids_add _ _

theorem drawn_of_pending (h : b.pending = []) : b.drawn = b.settled := by
  rw [drawn, flushText_of_pending h]

theorem drawn_add_flushText (b : Builder) (n : Node) : (b.flushText.add n).drawn = b.drawn.add n := by
  rw [drawn_of_pending ((pending_add _ _).trans (pending_flushText b)), settled_add, drawn]

theorem collapse_of_shows {s : List Char} (b : Builder) (h : s.all Text.isMarkupBlank = false) :
    b.collapse s = String.ofList s := by
  rw [collapse, h, Bool.false_and, if_neg Bool.false_ne_true]

theorem foldl_add (ns : List Node) {top : OpenElement} {below : List OpenElement} (h : b.open_ = top :: below) :
    ns.foldl add b = { b with open_ := { top with children := ns.reverse ++ top.children } :: below } := by
  induction ns generalizing b top with
  | nil => rw [List.foldl_nil, List.reverse_nil, List.nil_append, ← h]
  | cons n ns ih =>
    have hadd : b.add n = { b with open_ := { top with children := n :: top.children } :: below } := by
      rw [add, h]
    rw [List.foldl_cons, hadd, ih rfl, List.reverse_cons, List.append_assoc]
    rfl

theorem foldl_add_roots (ns : List Node) (h : b.open_ = []) :
    ns.foldl add b = { b with roots := ns.reverse ++ b.roots } := by
  induction ns generalizing b with
  | nil => rfl
  | cons n ns ih =>
    have hadd : b.add n = { b with roots := n :: b.roots } := by
      rw [add, h]
    rw [List.foldl_cons, hadd, ih (b := { b with roots := n :: b.roots }) h, List.reverse_cons, List.append_assoc]
    rfl

theorem closeUpTo_top {top : OpenElement} {below : List OpenElement} (h : b.drawn.open_ = top :: below) :
    (b.closeUpTo top.tag.name).drawn =
      { b.drawn with open_ := below }.add (.element top.tag top.children.reverse) ∧
    (b.closeUpTo top.tag.name).pending = [] ∧ (b.closeUpTo top.tag.name).closedVoids = b.closedVoids := by
  have hopen : b.flushText.open_ = top :: below := h
  have hclosed : b.closeUpTo top.tag.name =
      { b.flushText with open_ := below }.add (.element top.tag top.children.reverse) := by
    rw [closeUpTo, hopen, List.takeWhile_cons_of_neg (by simp)]
    simp only [List.length_nil, List.length_cons, Nat.zero_lt_succ, if_pos, closeMany, closeTop, hopen]
  have hpending : (b.closeUpTo top.tag.name).pending = [] := by
    rw [hclosed, pending_add]
    exact pending_flushText b
  refine ⟨?_, hpending, ?_⟩
  · rw [drawn_of_pending hpending, hclosed, settled_add]
    rfl
  · rw [hclosed, closedVoids_add]
    exact closedVoids_flushText b

theorem finish_of_drawn (h : b.drawn.open_ = []) : b.finish = b.drawn.roots.reverse := by
  have hopen : b.flushText.open_ = [] := h
  rw [finish]
  simp only [hopen, List.length_nil, closeMany]
  rfl

def VoidsOnly (b : Builder) : Prop := ∀ name ∈ b.closedVoids, closedAtOnce.contains name = true

def Adds (ts : List Token) (n : Node) : Prop :=
  ∀ b : Builder, b.VoidsOnly → (n.isText = true → b.pending = []) →
    (ts.foldl token b).VoidsOnly ∧ (ts.foldl token b).drawn = b.drawn.add n ∧
      (n.isText = false → (ts.foldl token b).pending = [])

def AddsList (ts : List Token) (ns : List Node) : Prop :=
  ∀ b : Builder, b.VoidsOnly → (ns.head?.any isText = true → b.pending = []) →
    (ts.foldl token b).VoidsOnly ∧ (ts.foldl token b).drawn = ns.foldl add b.drawn

theorem foldl_texts {pieces : List (List Char)} (h : ∀ p ∈ pieces, p ≠ []) :
    (pieces.map Token.text).foldl token b = { b with pending := pieces.reverse ++ b.pending } := by
  induction pieces generalizing b with
  | nil => rfl
  | cons piece pieces ih =>
    obtain ⟨hpiece, hpieces⟩ := List.forall_mem_cons.mp h
    have htoken : b.token (.text piece) = { b with pending := piece :: b.pending } := by
      rw [token, if_neg (by rwa [List.isEmpty_iff])]
    rw [List.map_cons, List.foldl_cons, htoken, ih hpieces, List.reverse_cons, List.append_assoc]
    rfl

theorem adds_text {v : String} {pieces : List (List Char)} (hshows : v.toList.all Text.isMarkupBlank = false)
    (hflat : pieces.flatten = v.toList) (hpieces : ∀ p ∈ pieces, p ≠ []) :
    Adds (pieces.map Token.text) (.text v) := by
  intro b hvoids hpending
  have hnone : b.pending = [] := hpending rfl
  have hne : pieces ≠ [] := by
    rintro rfl
    rw [← hflat] at hshows
    cases hshows
  rw [foldl_texts hpieces, hnone, List.append_nil]
  refine ⟨hvoids, ?_, nofun⟩
  have hflush : flushText { b with pending := pieces.reverse } = { b with pending := [] }.add (.text v) := by
    rw [flushText, if_neg (by simpa using hne)]
    simp only [List.reverse_reverse, hflat]
    rw [collapse_of_shows _ hshows, String.ofList_toList]
  rw [drawn, hflush, settled_add, drawn_of_pending hnone]
  rfl

theorem adds_comment {v : String} (hshows : v.toList.all Text.isMarkupBlank = false) :
    Adds [.literal .comment v] (.literal .comment v) := by
  intro b hvoids _
  have htoken : b.token (.literal .comment v) = b.flushText.add (.literal .comment v) := by
    rw [token, addLiteral, collapse_of_shows _ hshows, String.ofList_toList]
    nofun
  rw [List.foldl_cons, List.foldl_nil, htoken]
  refine ⟨?_, drawn_add_flushText b _, fun _ => (pending_add _ _).trans (pending_flushText b)⟩
  rw [VoidsOnly, closedVoids_add, closedVoids_flushText]
  exact hvoids

def opened (b : Builder) (t : Tag) : Builder :=
  { b.flushText with open_ := ⟨t, []⟩ :: b.flushText.open_ }

theorem drawn_opened (b : Builder) (t : Tag) :
    (b.opened t).drawn = { b.drawn with open_ := ⟨t, []⟩ :: b.drawn.open_ } :=
  drawn_of_pending (pending_flushText b)

theorem drawn_of_closedVoids (h : b.pending = []) (voids : List String) :
    drawn { b with closedVoids := voids } = b.drawn := by
  rw [drawn_of_pending h, drawn_of_pending (b := { b with closedVoids := voids }) h]
  rfl

section Elements

variable {t : Tag} {attrs : List (String × String)} (ht : t.Spelled)
  (hattrs : t.attrs = attrs.map fun a => .fixed a.1 a.2)
include ht hattrs

theorem token_opening (b : Builder) (hvoid : closedAtOnce.contains t.name = false) :
    b.token (.opening t.name attrs false) = b.opened t := by
  have htag : Tag.ofList t.name (attrs.map fun a => .fixed a.1 a.2) = t := by
    rw [← hattrs, Tag.ofList_of_nodup ht.nodup]
  simp only [token, startTag, htag, hvoid, opened, Bool.false_eq_true, if_false]

theorem token_opening_void (b : Builder) (hvoid : closedAtOnce.contains t.name = true) :
    b.token (.opening t.name attrs false) =
      { (b.opened t).closeUpTo t.name with closedVoids := t.name :: ((b.opened t).closeUpTo t.name).closedVoids } := by
  have htag : Tag.ofList t.name (attrs.map fun a => .fixed a.1 a.2) = t := by
    rw [← hattrs, Tag.ofList_of_nodup ht.nodup]
  simp only [token, startTag, htag, hvoid, opened, Bool.false_eq_true, if_false, if_true]

theorem adds_element {cs : List Node} {ts : List Token} (hvoid : closedAtOnce.contains t.name = false)
    (hts : AddsList ts cs) : Adds (.opening t.name attrs false :: (ts ++ [.closing t.name])) (.element t cs) := by
  intro b hvoids _
  have hvoids' : (b.opened t).VoidsOnly := by
    rw [VoidsOnly, opened, closedVoids_flushText]
    exact hvoids
  obtain ⟨hinner, hdrawn⟩ := hts (b.opened t) hvoids' fun _ => pending_flushText b
  have hopen : (ts.foldl token (b.opened t)).drawn.open_ = ⟨t, cs.reverse⟩ :: b.drawn.open_ := by
    rw [hdrawn, drawn_opened, foldl_add cs rfl, List.append_nil]
  -- the end tag is not passed over, since the element is not void
  have hclosing : (ts.foldl token (b.opened t)).token (.closing t.name) =
      (ts.foldl token (b.opened t)).closeUpTo t.name := by
    rw [token, endTag, if_neg]
    intro hmem
    exact Bool.false_ne_true (hvoid.symm.trans (hinner _ (List.contains_iff_mem.mp hmem)))
  obtain ⟨hclosed, hpending, hkept⟩ := closeUpTo_top hopen
  rw [List.foldl_cons, token_opening ht hattrs b hvoid, List.foldl_append, List.foldl_cons, List.foldl_nil, hclosing]
  refine ⟨?_, ?_, fun _ => hpending⟩
  · rw [VoidsOnly, hkept]
    exact hinner
  · rw [hclosed, hdrawn, drawn_opened, foldl_add cs rfl, List.reverse_reverse]

theorem adds_void (hvoid : closedAtOnce.contains t.name = true) :
    Adds [.opening t.name attrs false] (.element t []) := by
  intro b hvoids _
  have hopen : (b.opened t).drawn.open_ = ⟨t, []⟩ :: b.drawn.open_ := by rw [drawn_opened]
  obtain ⟨hclosed, hpending, hkept⟩ := closeUpTo_top hopen
  rw [List.foldl_cons, List.foldl_nil, token_opening_void ht hattrs b hvoid]
  refine ⟨?_, ?_, fun _ => hpending⟩
  · refine List.forall_mem_cons.mpr ⟨hvoid, ?_⟩
    rw [hkept, opened, closedVoids_flushText]
    exact hvoids
  · rw [drawn_of_closedVoids hpending, hclosed, drawn_opened]
    rfl

theorem adds_void_closed (hvoid : closedAtOnce.contains t.name = true) :
    Adds [.opening t.name attrs false, .closing t.name] (.element t []) := by
  intro b hvoids hnone
  obtain ⟨hvoids', hdrawn, hpending⟩ := adds_void ht hattrs hvoid b hvoids hnone
  rw [List.foldl_cons, List.foldl_nil] at hvoids' hdrawn hpending
  have hpassed : (b.token (.opening t.name attrs false)).token (.closing t.name) =
      { b.token (.opening t.name attrs false) with
        closedVoids := (b.token (.opening t.name attrs false)).closedVoids.erase t.name } := by
    rw [token.eq_3, endTag, if_pos]
    rw [token_opening_void ht hattrs b hvoid]
    exact List.contains_iff_mem.mpr List.mem_cons_self
  rw [List.foldl_cons, List.foldl_cons, List.foldl_nil, hpassed]
  refine ⟨fun name hname => hvoids' name (List.mem_of_mem_erase hname), ?_, hpending⟩
  rw [drawn_of_closedVoids (hpending rfl), hdrawn]

end Elements

end Builder

theorem closedAtOnce_of_void {name : String} (h : voidElements.contains name = true) :
    closedAtOnce.contains name = true := by
  have hsubset : ∀ name ∈ voidElements, closedAtOnce.contains name = true := by decide +kernel
  exact hsubset name (List.contains_iff_mem.mp h)

theorem renderAttributes_fixed (attrs : List (String × String)) :
    ∃ text, renderAttributes plain 0 (attrs.map fun a => .fixed a.1 a.2) = .ok text ∧
      text.toList = attributeLetters attrs := by
  have hparts : (attrs.map fun a => Attribute.fixed a.1 a.2).mapM (renderAttribute plain 0) =
      .ok (attrs.map fun a => a.1 ++ "=\"" ++ escapeValue a.2 ++ "\"") := by
    induction attrs with
    | nil => rfl
    | cons a attrs ih =>
      rw [List.map_cons, List.mapM_cons, ih]
      rfl
  refine ⟨_, by rw [renderAttributes, hparts]; rfl, ?_⟩
  rw [String.toList_join, List.map_map, List.flatMap_map, attributeLetters]
  simp

theorem exists_fixed {attrs : List Attribute} (h : ∀ a ∈ attrs, a.isFixed = true) :
    ∃ pairs : List (String × String), attrs = pairs.map fun a => .fixed a.1 a.2 := by
  induction attrs with
  | nil => exact ⟨[], rfl⟩
  | cons a attrs ih =>
    obtain ⟨ha, hattrs⟩ := List.forall_mem_cons.mp h
    obtain ⟨pairs, rfl⟩ := ih hattrs
    cases a with
    | fixed name value => exact ⟨(name, value) :: pairs, rfl⟩
    | _ => cases ha

theorem renderNode_element {t : Tag} {cs : List Node} {attrs inner : String}
    (hattrs : renderAttributes plain 0 t.attrs = .ok attrs) (hraw : rawTextElements.contains t.name = false)
    (hinner : renderNodes plain 0 false cs = .ok inner) :
    renderNode plain 0 false (.element t cs) = .ok (if cs.isEmpty && voidElements.contains t.name
      then "<" ++ t.name ++ attrs ++ ">" else "<" ++ t.name ++ attrs ++ ">" ++ inner ++ "</" ++ t.name ++ ">") := by
  rw [renderNode, hattrs, hraw, hinner]
  dsimp only [bind, Except.bind, pure, Except.pure]
  split <;> rfl

def ReadsBack (text : String) (n : Node) : Prop :=
  (n.isText = false → text.toList.head? = some '<') ∧
  ∀ rest, (n.isText = true → Opens rest) → ∃ ts, Passes rest (text.toList ++ rest) ts ∧ Builder.Adds ts n

def ReadsBackList (text : String) (ns : List Node) : Prop :=
  (ns.head?.any isText = false → ∀ rest, Opens rest → Opens (text.toList ++ rest)) ∧
  ∀ rest, Opens rest → ∃ ts, Passes rest (text.toList ++ rest) ts ∧ Builder.AddsList ts ns

theorem readsBack_text {v : String} (hshows : v.toList.all Text.isMarkupBlank = false) :
    ReadsBack (escapeText v) (.text v) := by
  refine ⟨nofun, fun rest hrest => ?_⟩
  obtain ⟨pieces, hflat, hpieces, hpasses⟩ := readAs_escapeText (hrest rfl) v
  exact ⟨_, hpasses, Builder.adds_text hshows hflat hpieces⟩

theorem readsBack_comment {v : String} (hshows : v.toList.all Text.isMarkupBlank = false) (hhyphen : '-' ∉ v.toList) :
    ReadsBack (renderLiteral false .comment v) (.literal .comment v) :=
  ⟨fun _ => by simp [renderLiteral], fun rest _ => ⟨_, passes_comment hhyphen rest, Builder.adds_comment hshows⟩⟩

theorem readsBack_element {t : Tag} {cs : List Node} {pairs : List (String × String)} {attrs inner : String}
    (ht : t.Spelled) (hvoid : closedAtOnce.contains t.name = true → cs = [])
    (hpairs : t.attrs = pairs.map fun a => .fixed a.1 a.2) (hletters : attrs.toList = attributeLetters pairs)
    (hrender : renderNodes plain 0 false cs = .ok inner) (hinner : ReadsBackList inner cs) :
    ReadsBack (if cs.isEmpty && voidElements.contains t.name then "<" ++ t.name ++ attrs ++ ">"
      else "<" ++ t.name ++ attrs ++ ">" ++ inner ++ "</" ++ t.name ++ ">") (.element t cs) := by
  have hnames : ∀ a ∈ pairs, isLowName a.1 = true := by
    intro a ha
    exact ht.attrNames (.fixed a.1 a.2) (hpairs ▸ List.mem_map_of_mem ha)
  have hstart (rest : List Char) := passes_start_tag ht.name hnames ht.notScript ht.notStyle rest
  have hend (rest : List Char) := passes_end_tag ht.name rest
  split
  next hempty =>
    obtain ⟨hcs, hname⟩ := Bool.and_eq_true_iff.mp hempty
    obtain rfl := List.isEmpty_iff.mp hcs
    have hopening : ("<" ++ t.name ++ attrs ++ ">").toList = startLetters t.name pairs := by
      simp [startLetters, hletters]
    rw [ReadsBack, hopening]
    exact ⟨fun _ => rfl, fun rest _ => ⟨_, hstart rest, Builder.adds_void ht hpairs (closedAtOnce_of_void hname)⟩⟩
  next =>
    have hwhole : ("<" ++ t.name ++ attrs ++ ">" ++ inner ++ "</" ++ t.name ++ ">").toList =
        startLetters t.name pairs ++ (inner.toList ++ endLetters t.name) := by
      simp [startLetters, endLetters, hletters]
    rw [ReadsBack, hwhole]
    refine ⟨fun _ => rfl, fun rest _ => ?_⟩
    rw [List.append_assoc, List.append_assoc]
    cases hname : closedAtOnce.contains t.name with
    | false =>
      obtain ⟨ts, hpasses, hadds⟩ := hinner.2 (endLetters t.name ++ rest) fun c hc => (Option.some.inj hc).symm
      exact ⟨_, (hstart _).append (hpasses.append (hend rest)), Builder.adds_element ht hpairs hname hadds⟩
    | true =>
      obtain rfl := hvoid hname
      obtain rfl : inner = "" := (Except.ok.inj hrender).symm
      exact ⟨_, (hstart _).append (hend rest), Builder.adds_void_closed ht hpairs hname⟩

theorem readsBackList_nil : ReadsBackList "" [] :=
  ⟨fun _ _ hrest => hrest, fun _ _ => ⟨[], .done, fun _ hvoids _ => ⟨hvoids, rfl⟩⟩⟩

theorem readsBackList_cons {n : Node} {ns : List Node} {first others : String} (hn : ReadsBack first n)
    (hapart : n.isText = true → ns.head?.any isText = false) (hns : ReadsBackList others ns) :
    ReadsBackList (first ++ others) (n :: ns) := by
  rw [ReadsBackList, String.toList_append]
  refine ⟨fun hhead rest _ c hc => ?_, fun rest hrest => ?_⟩
  · rw [List.append_assoc, List.head?_append, hn.1 hhead] at hc
    exact (Option.some.inj hc).symm
  · obtain ⟨ts, hfirst, hadds⟩ := hn.2 (others.toList ++ rest) fun htext => hns.1 (hapart htext) rest hrest
    obtain ⟨us, hothers, hrests⟩ := hns.2 rest hrest
    rw [List.append_assoc]
    refine ⟨ts ++ us, hfirst.append hothers, fun b hvoids hpending => ?_⟩
    obtain ⟨hvoids', hdrawn, hpending'⟩ := hadds b hvoids hpending
    rw [List.foldl_append, List.foldl_cons, ← hdrawn]
    refine hrests _ hvoids' fun hnext => hpending' (Bool.eq_false_iff.mpr fun htext => ?_)
    exact Bool.false_ne_true ((hapart htext).symm.trans hnext)

mutual
theorem spelled_readsBack : (n : Node) → n.Spelled →
    ∃ text, renderNode plain 0 false n = .ok text ∧ ReadsBack text n
  | .literal .text v, h => ⟨_, by rw [renderNode, renderLiteral]; rfl, readsBack_text h⟩
  | .literal .comment v, h => ⟨_, by rw [renderNode], readsBack_comment h.1 h.2⟩
  | .element t cs, h => by
    obtain ⟨ht, hvoid, hcs⟩ := h
    obtain ⟨pairs, hpairs⟩ := exists_fixed ht.fixed
    obtain ⟨attrs, hattrs, hletters⟩ := renderAttributes_fixed pairs
    obtain ⟨inner, hrender, hinner⟩ := spelledList_readsBack cs hcs
    have hraw : rawTextElements.contains t.name = false := by
      simp [rawTextElements, ht.notScript, ht.notStyle]
    exact ⟨_, renderNode_element (hpairs ▸ hattrs) hraw hrender,
      readsBack_element ht hvoid hpairs hletters hrender hinner⟩

theorem spelledList_readsBack : (ns : List Node) → SpelledList ns →
    ∃ text, renderNodes plain 0 false ns = .ok text ∧ ReadsBackList text ns
  | [], _ => ⟨"", by rw [renderNodes], readsBackList_nil⟩
  | n :: ns, h => by
    obtain ⟨hn, hapart, hns⟩ := h
    obtain ⟨first, hfirst, hreads⟩ := spelled_readsBack n hn
    obtain ⟨others, hothers, hreads'⟩ := spelledList_readsBack ns hns
    refine ⟨first ++ others, ?_, readsBackList_cons hreads hapart hreads'⟩
    rw [renderNodes, hfirst, hothers]
    rfl
end

/-- Nodes that are spelled out come back when they are written and the result is read. -/
theorem render_read_back (ns : List Node) (h : SpelledList ns) :
    ∃ markup, render ns = .ok markup ∧ parse markup = ns ∧ Page.ofMarkup markup {} = .ok { layout := ns } := by
  obtain ⟨markup, hrender, hreads⟩ := spelledList_readsBack ns h
  obtain ⟨ts, hpasses, hadds⟩ := hreads.2 [] nofun
  rw [List.append_nil] at hpasses
  obtain ⟨-, hdrawn⟩ := hadds {} nofun fun _ => rfl
  have hparse : parse markup = ns := by
    have hbuilt : (ts.foldl Builder.token {}).drawn = { roots := ns.reverse ++ [] } :=
      hdrawn.trans (Builder.foldl_add_roots ns rfl)
    rw [parse, hpasses.tokens_eq, Builder.finish_of_drawn (by rw [hbuilt]), hbuilt, List.append_nil,
      List.reverse_reverse]
  exact ⟨markup, hrender, hparse, hparse ▸ Page.ofMarkup_of_no_selectors markup⟩

theorem render_read_back_quoted :
    let nodes : List Node := [.literal .comment " 1 > 0 ",
      .element ⟨"p", [.fixed "title" "\"<b>\" & 'c'", .fixed "data-x" ""]⟩
        [.text "&lt; is <", .element ⟨"br", []⟩ [], .text "\n>", .element ⟨"keygen", []⟩ []]]
    SpelledList nodes ∧ ∃ markup, render nodes = .ok markup ∧ parse markup = nodes ∧
      Page.ofMarkup markup {} = .ok { layout := nodes } := by
  intro nodes
  have hp : Tag.Spelled ⟨"p", [.fixed "title" "\"<b>\" & 'c'", .fixed "data-x" ""]⟩ :=
    ⟨by decide +kernel, by decide, by decide, by decide, by decide, by decide +kernel⟩
  have hbr : Tag.Spelled ⟨"br", []⟩ := ⟨by decide +kernel, by decide, by decide, .nil, nofun, nofun⟩
  have hkeygen : Tag.Spelled ⟨"keygen", []⟩ := ⟨by decide +kernel, by decide, by decide, .nil, nofun, nofun⟩
  have hspelled : SpelledList nodes :=
    ⟨⟨by decide, by decide⟩, nofun, ⟨hp, by decide +kernel, (by decide : _ = false), fun _ => rfl,
      ⟨hbr, fun _ => rfl, trivial⟩, nofun, (by decide : _ = false), fun _ => rfl,
      ⟨hkeygen, fun _ => rfl, trivial⟩, nofun, trivial⟩, nofun, trivial⟩
  exact ⟨hspelled, render_read_back nodes hspelled⟩

end Markup

end Stencil
