import Stencil.Proofs.Collection.Fold
import Stencil.Proofs.Merge.Identity
import Stencil.Proofs.Merge.Lists

namespace Stencil.Collection

open Node Grade Merge

def listOf (ns : List Node) : List Node := [.element ⟨"ul", []⟩ ns]

def foldLists (α : Type) [Grade α] : List (List String) → Merge (List Node)
  | [] => return []
  | first :: rest => (rest.map fun texts => listOf (items texts)).foldlM (mergeLayout α) (listOf (items first))

structure Listed (texts : List String) : Prop where
  nonempty : texts ≠ []
  trimmed : ∀ t ∈ texts, Trimmed t

def Diverse (pages : List (List String)) : Prop :=
  ∃ us ∈ pages, ∃ vs ∈ pages, us ≠ vs

inductive Listing (pages : List (List String)) (registry : Registry) : List Node → Prop
  | same {texts : List String} : (∀ us ∈ pages, us = texts) → "li" ∉ registry.keys [] →
    "ul_items" ∉ registry.keys [] → "li" ∉ registry.keys ["ul_items"] → Listing pages registry (items texts)
  | single : Diverse pages → (∀ us ∈ pages, us.length = 1) → "ul_items" ∉ registry.keys [] →
    Listing pages registry [item (.slot .plain ["li"])]
  | text {t : String} : Diverse pages → (∀ us ∈ pages, ∀ u ∈ us, u = t) → "li" ∉ registry.keys ["ul_items"] →
    Listing pages registry [.block .loop ["ul_items"] (item (.text t))]
  | slot : Diverse pages → (∃ us ∈ pages, us.length ≠ 1) → (∀ t, ∃ us ∈ pages, ∃ u ∈ us, u ≠ t) →
    Listing pages registry [.block .loop ["ul_items"] (item (.slot .plain ["ul_items", "li"]))]

theorem Diverse.cons {pages : List (List String)} (h : Diverse pages) (us : List String) : Diverse (us :: pages) := by
  obtain ⟨vs, hvs, ws, hws, hne⟩ := h
  exact ⟨vs, List.mem_cons_of_mem _ hvs, ws, List.mem_cons_of_mem _ hws, hne⟩

theorem exists_other {pages : List (List String)} {us vs : List String} {a b : String} (hus : us ∈ pages)
    (hvs : vs ∈ pages) (ha : a ∈ us) (hb : b ∈ vs) (hne : a ≠ b) (t : String) : ∃ us ∈ pages, ∃ u ∈ us, u ≠ t := by
  by_cases hat : a = t
  · exact ⟨vs, hvs, b, hb, fun hbt => hne (hat.trans hbt.symm)⟩
  · exact ⟨us, hus, a, ha, hat⟩

theorem exists_nesting (as bs : List Node) : ∃ fuel, nesting as bs = fuel + 3 := by
  refine ⟨nesting as bs - 3, ?_⟩
  have hpos : 0 < (max (elementDepthOfList as) (elementDepthOfList bs) + 1) *
      (2 * ((max 1 (max (blockDepthOfList as) (blockDepthOfList bs)) + 1) *
        max 1 (max (blockDepthOfList as) (blockDepthOfList bs)) +
          max 1 (max (blockDepthOfList as) (blockDepthOfList bs))) + 2) := Nat.mul_pos (by omega) (by omega)
  unfold nesting
  dsimp only
  omega

variable {α : Type} [Grade α] [Counting α] {s t : MergeState}

variable (α) in
abbrev Counted (texts : List String) : Prop :=
  Counting.Fits α (sizeOfList (items texts))

variable [Positive α]

theorem literal_items (texts : List String) : LiteralList (items texts) := by
  rw [literalList_iff]
  intro n hn
  obtain ⟨t, -, rfl⟩ := List.mem_map.mp hn
  exact ⟨List.nodup_nil, fun _ ha => absurd ha List.not_mem_nil, trivial, trivial⟩

theorem staticDrawings_items (texts : List String) : StaticDrawingsList (items texts) := by
  induction texts with
  | nil => trivial
  | cons t texts ih =>
    have hfirst : (item (.text t)).StaticDrawings := ⟨fun hsvg => by simp at hsvg, trivial, trivial⟩
    exact ⟨hfirst, ih⟩

theorem depth_items (texts : List String) :
    elementDepthOfList (items texts) ≤ 1 ∧ blockDepthOfList (items texts) = 0 := by
  induction texts with
  | nil => exact ⟨Nat.zero_le _, rfl⟩
  | cons t texts ih =>
    have hfirst : (item (.text t)).elementDepth = 1 ∧ (item (.text t)).blockDepth = 0 := ⟨rfl, rfl⟩
    change max (item (.text t)).elementDepth (elementDepthOfList (items texts)) ≤ 1 ∧
      max (item (.text t)).blockDepth (blockDepthOfList (items texts)) = 0
    omega

omit [Counting α] [Positive α] in
theorem returns_lists_listOf (P : MergeState → Prop) {ns ms : List Node} {texts : List String}
    (hknown : anyForeign ns = false)
    (hpos : zero < (Score.score false (.element ⟨"ul", []⟩ ns) (.element ⟨"ul", []⟩ (items texts)) : α))
    (h : ∀ fuel, ∃ t, Returns (mergeSiblings α (mergeNode α (fuel + 2)) [] (inside "ul") ns (items texts)) s ms t ∧ P t) :
    ∃ t, Returns (lists α [] {} (listOf ns) (listOf (items texts))) s (listOf ms) t ∧ P t := by
  obtain ⟨fuel, hfuel⟩ := exists_nesting (listOf ns) (listOf (items texts))
  obtain ⟨t, ht, hp⟩ := h fuel
  have hmerge : Returns (mergeNode α (fuel + 3) [] {} (.element ⟨"ul", []⟩ ns) (.element ⟨"ul", []⟩ (items texts)))
      s (.element ⟨"ul", []⟩ ms) t := returns_mergeElements rfl ht
  have hnoloop (cs : List Node) : ∀ r u, Node.element ⟨"ul", []⟩ cs ≠ .block .loop r u := fun _ _ he => by cases he
  have hfront : Returns (mergeFronts α (mergeNode α (fuel + 3)) [] {} (.element ⟨"ul", []⟩ ns)
      (.element ⟨"ul", []⟩ (items texts)) [] []) s ⟨.element ⟨"ul", []⟩ ms, 1, 1⟩ t :=
    returns_mergeFronts_alone rfl (hnoloop ns) (hnoloop (items texts)) hpos hknown (anyForeign_items texts) hmerge
  have hinline : Returns (mergeInline? [] {} (listOf ns) (listOf (items texts))) s none s :=
    returns_pure.mpr ⟨rfl, rfl⟩
  refine ⟨t, ?_, hp⟩
  rw [lists, hfuel]
  exact returns_mergeSiblings_front hinline hfront

omit [Counting α] [Positive α] in
theorem returns_mergeLayout (P : Registry → Prop) {ns ms : List Node} {texts : List String}
    (hknown : anyForeign ns = false)
    (hpos : zero < (Score.score false (.element ⟨"ul", []⟩ ns) (.element ⟨"ul", []⟩ (items texts)) : α))
    (h : ∀ fuel, ∃ t, Returns (mergeSiblings α (mergeNode α (fuel + 2)) [] (inside "ul") ns (items texts))
      { s with left := [], right := [] } ms t ∧ P t.registry) :
    ∃ t, Returns (mergeLayout α (listOf ns) (listOf (items texts))) s (listOf ms) t ∧ P t.registry := by
  obtain ⟨t, hlists, hp⟩ := returns_lists_listOf (fun t => P t.registry) hknown hpos h
  refine ⟨{ t with left := s.left, right := s.right }, ?_, hp⟩
  rw [mergeLayout, returns_bind]
  exact ⟨(listOf ms, t.left, t.right), _, returns_inScope.mpr ⟨t, hlists, rfl, rfl⟩, returns_pure.mpr ⟨rfl, rfl⟩⟩

variable {pages : List (List String)} {u : String} {bs : List String}

variable (α) in
def Continues (pages : List (List String)) (us : List String) (ns : List Node) (s : MergeState) : Prop :=
  ∃ ms, ∀ fuel, ∃ t, Returns (mergeSiblings α (mergeNode α (fuel + 2)) [] (inside "ul") ns (items us)) s ms t ∧
    Listing (us :: pages) t.registry ms

omit [Positive α] in
theorem returns_items_same {texts : List String} {fuel : Nat} (hfits : Counted α texts)
    (s : MergeState) :
    Returns (mergeSiblings α (mergeNode α (fuel + 2)) [] (inside "ul") (items texts) (items texts)) s
      (items texts) s := by
  have hliteral := literal_items texts
  have hproper : ProperList (items texts) := LiteralList.proper _ hliteral
  have hdrawings := staticDrawings_items texts
  have hdepth : elementDepthOfList (items texts) + blockDepthOfList (items texts) < fuel + 2 := by
    obtain ⟨helements, hblocks⟩ := depth_items texts
    omega
  have halike : AlikeList (items texts) (items texts) := alikeList_refl _ hproper (anyForeign_items texts)
  rw [mergeSiblings, returns_bind]
  refine ⟨none, s, returns_mergeInline_list, ?_⟩
  exact returns_align _ _ halike (settledList_self _ hproper hdrawings) hproper hfits (fuel + 2) hdepth _
    (Nat.le_add_right _ _) [] (inside "ul") rfl s

theorem continues_same {v : String} {as : List String} (hpage : v :: as ∈ pages) (hall : ∀ vs ∈ pages, vs = v :: as)
    (hfits : Counted α (v :: as)) (has : ∀ t ∈ v :: as, Trimmed t)
    (hbs : ∀ t ∈ u :: bs, Trimmed t) (hleft : s.left = []) (hright : s.right = [])
    (hli : "li" ∉ s.registry.keys []) (hloop : "ul_items" ∉ s.registry.keys [])
    (hitem : "li" ∉ s.registry.keys ["ul_items"]) : Continues α pages (u :: bs) (items (v :: as)) s := by
  by_cases hsame : u :: bs = v :: as
  · rw [hsame]
    exact ⟨_, fun fuel => ⟨s, returns_items_same hfits s, .same (List.forall_mem_cons.mpr ⟨rfl, hall⟩) hli hloop hitem⟩⟩
  have hdiverse : Diverse ((u :: bs) :: pages) :=
    ⟨u :: bs, List.mem_cons_self, v :: as, List.mem_cons_of_mem _ hpage, hsame⟩
  -- two single items make one item with a slot, and everything else makes a loop
  by_cases hrun : as = [] ∧ bs = []
  · obtain ⟨rfl, rfl⟩ := hrun
    have hne : v ≠ u := fun he => hsame (he ▸ rfl)
    have hone : ∀ vs ∈ [u] :: pages, vs.length = 1 := by
      intro vs hvs
      rcases List.mem_cons.mp hvs with rfl | hvs
      · rfl
      · rw [hall vs hvs]
        rfl
    refine ⟨[item (.slot .plain ["li"])], fun fuel => ?_⟩
    have hgrows : ∃ t, Returns (mergeNode α (fuel + 2) [] (inside "ul") (item (.text v)) (item (.text u))) s
        (item (.slot .plain ([] ++ ["li"]))) t ∧ Opens [] .left "li" (.text v) (.text u) s t ∧
          t.reshaped = s.reshaped :=
      returns_mergeItems_fresh (has v List.mem_cons_self) (hbs u List.mem_cons_self) hne hleft hright hli
    obtain ⟨t, ht, hopens, -⟩ := hgrows
    refine ⟨t, returns_mergeSiblings_single (.text (has v List.mem_cons_self)) (hbs u List.mem_cons_self) ht, .single hdiverse hone ?_⟩
    obtain ⟨kind, source, attr, hregistry⟩ := hopens.registry
    rw [hregistry, Registry.mem_keys_record, not_or]
    exact ⟨fun hkey => absurd hkey.2 (by decide), hloop⟩
  · refine ⟨[.block .loop ["ul_items"] (common ["ul_items"] v (v :: as ++ u :: bs))], fun fuel => ?_⟩
    obtain ⟨t, ht, hkept, -⟩ := returns_lists_loop (α := α) has hbs hrun (Ne.symm hsame) hleft hright hloop hitem
    refine ⟨t, ht, ?_⟩
    by_cases heq : ∀ w ∈ v :: as ++ u :: bs, w = v
    · rw [common, if_pos heq]
      refine .text hdiverse ?_ (hkept heq)
      intro vs hvs w hw
      rcases List.mem_cons.mp hvs with rfl | hvs
      · exact heq w (List.mem_append_right _ hw)
      · rw [hall vs hvs] at hw
        exact heq w (List.mem_append_left _ hw)
    · rw [common, if_neg heq]
      refine .slot hdiverse ?_ ?_
      · by_cases hlong : as = []
        · refine ⟨u :: bs, List.mem_cons_self, fun hlength => hrun ⟨hlong, ?_⟩⟩
          exact List.length_eq_zero_iff.mp (Nat.succ.inj hlength)
        · refine ⟨v :: as, List.mem_cons_of_mem _ hpage, fun hlength => hlong ?_⟩
          exact List.length_eq_zero_iff.mp (Nat.succ.inj hlength)
      · obtain ⟨w, hw, hwv⟩ := not_forall₂.mp heq
        have hpages : v :: as ∈ (u :: bs) :: pages := List.mem_cons_of_mem _ hpage
        rcases List.mem_append.mp hw with hw | hw
        · exact exists_other hpages hpages hw List.mem_cons_self hwv
        · exact exists_other List.mem_cons_self hpages hw List.mem_cons_self hwv

theorem continues_single (hdiverse : Diverse pages) (hone : ∀ vs ∈ pages, vs.length = 1)
    (hbs : ∀ t ∈ u :: bs, Trimmed t) (hleft : s.left = []) (hright : s.right = [])
    (hloop : "ul_items" ∉ s.registry.keys []) : Continues α pages (u :: bs) [item (.slot .plain ["li"])] s := by
  cases bs with
  | nil =>
    let read := s.setFields .right (Assoc.set (Key.normalize (Reference.key ["li"])) (.text u) s.right)
    refine ⟨[item (.slot .plain ["li"])], fun fuel => ⟨read, ?_, .single (hdiverse.cons _) ?_ ?_⟩⟩
    · have hu : Trimmed u := hbs u List.mem_cons_self
      exact returns_mergeSiblings_single (.slot ["li"]) hu (returns_mergeItems_read hu)
    · exact List.forall_mem_cons.mpr ⟨rfl, hone⟩
    · exact hloop
  | cons w bs =>
    refine ⟨[.block .loop ["ul_items"] (item (.slot .plain ["ul_items", "li"]))], fun fuel => ?_⟩
    obtain ⟨t, ht⟩ := returns_slot_loop (α := α) hbs hleft hright hloop
    refine ⟨t, ht, .slot (hdiverse.cons _) ⟨u :: w :: bs, List.mem_cons_self, by simp⟩ ?_⟩
    obtain ⟨us, hus, vs, hvs, hne⟩ := hdiverse
    obtain ⟨a, rfl⟩ := List.length_eq_one_iff.mp (hone us hus)
    obtain ⟨b, rfl⟩ := List.length_eq_one_iff.mp (hone vs hvs)
    have hab : a ≠ b := fun he => hne (he ▸ rfl)
    exact exists_other (List.mem_cons_of_mem _ hus) (List.mem_cons_of_mem _ hvs) List.mem_cons_self List.mem_cons_self hab

theorem continues_text {v : String} (hdiverse : Diverse pages) (hall : ∀ vs ∈ pages, ∀ w ∈ vs, w = v)
    (hpages : ∀ vs ∈ pages, Listed vs) (hbs : ∀ t ∈ u :: bs, Trimmed t) (hcalm : ¬ Distracts α v (u :: bs))
    (hitem : "li" ∉ s.registry.keys ["ul_items"]) :
    Continues α pages (u :: bs) [.block .loop ["ul_items"] (item (.text v))] s := by
  obtain ⟨page, hpage, other, hother, hne⟩ := hdiverse
  have hlong : ∃ vs ∈ pages, vs.length ≠ 1 := by
    by_contra! hno
    have hone : ∀ vs ∈ pages, vs = [v] := by
      intro vs hvs
      obtain ⟨a, rfl⟩ := List.length_eq_one_iff.mp (hno vs hvs)
      rw [hall [a] hvs a List.mem_cons_self]
    exact hne ((hone page hpage).trans (hone other hother).symm)
  obtain ⟨a, rest, rfl⟩ := List.exists_cons_of_ne_nil (hpages page hpage).nonempty
  have hfirst : a = v := hall _ hpage a List.mem_cons_self
  have hv : Trimmed v := hfirst ▸ (hpages _ hpage).trimmed a List.mem_cons_self
  have hmore : Diverse ((u :: bs) :: pages) := Diverse.cons ⟨_, hpage, other, hother, hne⟩ _
  refine ⟨[.block .loop ["ul_items"] (common ["ul_items"] v (u :: bs))], fun fuel => ?_⟩
  obtain ⟨t, ht, hkept⟩ := returns_loop_text (α := α) hv hbs hcalm hitem
  refine ⟨t, ht, ?_⟩
  by_cases heq : ∀ w ∈ u :: bs, w = v
  · rw [common, if_pos heq]
    exact .text hmore (List.forall_mem_cons.mpr ⟨heq, hall⟩) (hkept heq ▸ hitem)
  · rw [common, if_neg heq]
    refine .slot hmore (hlong.imp fun vs h => ⟨List.mem_cons_of_mem _ h.1, h.2⟩) ?_
    obtain ⟨w, hw, hwv⟩ := not_forall₂.mp heq
    exact exists_other List.mem_cons_self (List.mem_cons_of_mem _ hpage) hw List.mem_cons_self (hfirst ▸ hwv)

theorem continues_slot (hdiverse : Diverse pages) (hlong : ∃ vs ∈ pages, vs.length ≠ 1)
    (hmixed : ∀ x, ∃ vs ∈ pages, ∃ v ∈ vs, v ≠ x) (hbs : ∀ t ∈ u :: bs, Trimmed t) :
    Continues α pages (u :: bs) [.block .loop ["ul_items"] (item (.slot .plain ["ul_items", "li"]))] s := by
  refine ⟨[.block .loop ["ul_items"] (item (.slot .plain ["ul_items", "li"]))], fun fuel => ?_⟩
  obtain ⟨t, ht⟩ := returns_loop_slot (α := α) hbs
  refine ⟨t, ht, .slot (hdiverse.cons _) (hlong.imp fun vs h => ⟨List.mem_cons_of_mem _ h.1, h.2⟩) ?_⟩
  exact fun x => (hmixed x).imp fun vs h => ⟨List.mem_cons_of_mem _ h.1, h.2⟩

theorem Listing.known {registry : Registry} {ns : List Node} (h : Listing pages registry ns) : anyForeign ns = false := by
  cases h with
  | same => exact anyForeign_items _
  | _ => rfl

omit [Positive α] in
theorem fits_items {texts : List String} (h : Counted α texts) :
    Counting.Fits α (items texts).length :=
  Counting.fits_mono (length_le_sizeOfList _) h

theorem Listing.lt_score {registry : Registry} {ns : List Node} {us : List String} (h : Listing pages registry ns)
    (hsome : pages ≠ []) (hpages : ∀ vs ∈ pages, Listed vs)
    (hfits : ∀ vs ∈ pages, Counted α vs) (hus : Listed us)
    (hfit : Counted α us) :
    zero < (Score.score false (.element ⟨"ul", []⟩ ns) (.element ⟨"ul", []⟩ (items us)) : α) := by
  obtain ⟨page, hpage⟩ := List.exists_mem_of_ne_nil pages hsome
  have hone : Counting.Fits α 1 := Counting.fits_mono (by omega) Counting.fits_three
  have hlength : Counting.Fits α ns.length := by
    cases h with
    | same hall => exact fits_items (hall page hpage ▸ hfits page hpage)
    | _ => exact hone
  have hlonger : Counting.Fits α (max ns.length (items us).length) := by
    rcases max_choice ns.length (items us).length with hmax | hmax
    · rw [hmax]
      exact hlength
    · rw [hmax]
      exact fits_items hfit
  refine Score.lt_score_elements hlonger fun a ha b hb => Positive.nonneg_of_lt ?_
  obtain ⟨t, ht, rfl⟩ := List.mem_map.mp hb
  have hentry {n : Node} (hn : Wording n) : zero < (Score.score false (item n) (item (.text t)) : α) :=
    lt_score_items hn (.text (hus.trimmed t ht))
  cases h with
  | same hall =>
    obtain ⟨v, hv, rfl⟩ := List.mem_map.mp ha
    exact hentry (.text ((hpages page hpage).trimmed v (hall page hpage ▸ hv)))
  | single => exact List.mem_singleton.mp ha ▸ hentry (.slot _)
  | @text v _ hall =>
    obtain ⟨w, hw⟩ := List.exists_mem_of_ne_nil page (hpages page hpage).nonempty
    have hv : Trimmed v := hall page hpage w hw ▸ (hpages page hpage).trimmed w hw
    rw [List.mem_singleton.mp ha]
    exact hentry (.text hv)
  | slot =>
    rw [List.mem_singleton.mp ha]
    exact hentry (.slot _)

theorem Listing.step {ns : List Node} {us : List String} (h : Listing pages s.registry ns) (hsome : pages ≠ [])
    (hpages : ∀ vs ∈ pages, Listed vs) (hfits : ∀ vs ∈ pages, Counted α vs)
    (hus : Listed us) (hfit : Counted α us)
    (hcalm : ∀ v, Diverse pages → (∀ vs ∈ pages, ∀ w ∈ vs, w = v) → ¬ Distracts α v us) :
    ∃ ms t, Returns (mergeLayout α (listOf ns) (listOf (items us))) s (listOf ms) t ∧
      Listing (us :: pages) t.registry ms := by
  obtain ⟨u, bs, rfl⟩ := List.exists_cons_of_ne_nil hus.nonempty
  obtain ⟨page, hpage⟩ := List.exists_mem_of_ne_nil pages hsome
  have hknown := h.known
  have hpos := h.lt_score hsome hpages hfits hus hfit
  have hcontinues : Continues α pages (u :: bs) ns { s with left := [], right := [] } := by
    cases h with
    | @same texts hall hli hloop hitem =>
      have htexts : texts ∈ pages := hall page hpage ▸ hpage
      obtain ⟨v, as, rfl⟩ := List.exists_cons_of_ne_nil (hpages texts htexts).nonempty
      exact continues_same htexts hall (hfits _ htexts) (hpages _ htexts).trimmed hus.trimmed rfl rfl hli hloop hitem
    | single hdiverse hone hloop => exact continues_single hdiverse hone hus.trimmed rfl rfl hloop
    | text hdiverse hall hitem =>
      exact continues_text hdiverse hall hpages hus.trimmed (hcalm _ hdiverse hall) hitem
    | slot hdiverse hlong hmixed => exact continues_slot hdiverse hlong hmixed hus.trimmed
  obtain ⟨ms, hms⟩ := hcontinues
  exact ⟨ms, returns_mergeLayout (fun registry => Listing ((u :: bs) :: pages) registry ms) hknown hpos hms⟩

end Stencil.Collection
