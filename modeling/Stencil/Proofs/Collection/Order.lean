import Stencil.Proofs.Collection.Listing
import Stencil.Proofs.Merge.Conditionals

namespace Stencil.Collection

open Node Grade Merge

def Uneven (pages : List (List String)) (t : String) : Prop :=
  ∃ us ∈ pages, ∃ vs ∈ pages, us ≠ vs ∧ (∀ u ∈ us, u = t) ∧ ∀ v ∈ vs, v = t

section Listing

variable {pages docs : List (List String)} {registry other : Registry} {ns ms : List Node}

theorem Listing.congr (h : Listing pages registry ns) (hsame : ∀ us, us ∈ pages ↔ us ∈ docs) :
    Listing docs registry ns := by
  cases h with
  | same hall hli hloop hitem =>
    exact .same (fun us hus => hall us ((hsame us).mpr hus)) hli hloop hitem
  | single hdiverse hone hloop =>
    exact .single (by simpa only [Diverse, hsame] using hdiverse) (by simpa only [hsame] using hone) hloop
  | text hdiverse hall hitem =>
    exact .text (by simpa only [Diverse, hsame] using hdiverse) (by simpa only [hsame] using hall) hitem
  | slot hdiverse hlong hmixed =>
    exact .slot (by simpa only [Diverse, hsame] using hdiverse) (by simpa only [hsame] using hlong)
      (by simpa only [hsame] using hmixed)

theorem not_diverse_of_single {t : String} (hone : ∀ us ∈ pages, us.length = 1)
    (hall : ∀ us ∈ pages, ∀ u ∈ us, u = t) : ¬ Diverse pages := by
  have hsingle : ∀ us ∈ pages, us = [t] := by
    intro us hus
    obtain ⟨u, rfl⟩ := List.length_eq_one_iff.mp (hone us hus)
    rw [hall [u] hus u List.mem_cons_self]
  rintro ⟨us, hus, vs, hvs, hne⟩
  exact hne ((hsingle us hus).trans (hsingle vs hvs).symm)

theorem not_diverse_of_same {texts : List String} (hall : ∀ us ∈ pages, us = texts) : ¬ Diverse pages := by
  rintro ⟨us, hus, vs, hvs, hne⟩
  exact hne ((hall us hus).trans (hall vs hvs).symm)

theorem Listing.first (texts : List String) : Listing [texts] {} (items texts) :=
  .same (fun _ hus => List.mem_singleton.mp hus) List.not_mem_nil List.not_mem_nil List.not_mem_nil

theorem Listing.unique (hsome : pages ≠ []) (hpages : ∀ us ∈ pages, Listed us) (h : Listing pages registry ns)
    (g : Listing pages other ms) : ns = ms := by
  obtain ⟨page, hpage⟩ := List.exists_mem_of_ne_nil pages hsome
  cases h with
  | same hall =>
    cases g with
    | same hall' => rw [← hall page hpage, ← hall' page hpage]
    | single hdiverse | text hdiverse | slot hdiverse => exact absurd hdiverse (not_diverse_of_same hall)
  | single hdiverse hone =>
    cases g with
    | same hall => exact absurd hdiverse (not_diverse_of_same hall)
    | single => rfl
    | text _ hall => exact absurd hdiverse (not_diverse_of_single hone hall)
    | slot _ hlong =>
      obtain ⟨us, hus, hlength⟩ := hlong
      exact absurd (hone us hus) hlength
  | @text t hdiverse hall =>
    cases g with
    | same hall' => exact absurd hdiverse (not_diverse_of_same hall')
    | single _ hone => exact absurd hdiverse (not_diverse_of_single hone hall)
    | @text t' _ hall' =>
      obtain ⟨u, hu⟩ := List.exists_mem_of_ne_nil page (hpages page hpage).nonempty
      rw [← hall page hpage u hu, ← hall' page hpage u hu]
    | slot _ _ hmixed =>
      obtain ⟨us, hus, u, hu, hne⟩ := hmixed t
      exact absurd (hall us hus u hu) hne
  | slot hdiverse hlong hmixed =>
    cases g with
    | same hall => exact absurd hdiverse (not_diverse_of_same hall)
    | single _ hone =>
      obtain ⟨us, hus, hlength⟩ := hlong
      exact absurd (hone us hus) hlength
    | @text t _ hall =>
      obtain ⟨us, hus, u, hu, hne⟩ := hmixed t
      exact absurd (hall us hus u hu) hne
    | slot => rfl

theorem Listing.proper (h : Listing pages registry ns) : ProperList (listOf ns) := by
  have hchildren : ProperList ns := by
    cases h with
    | same => exact LiteralList.proper _ (literal_items _)
    | _ => exact ⟨⟨List.nodup_nil, trivial, trivial⟩, trivial⟩
  exact ⟨⟨List.nodup_nil, hchildren⟩, trivial⟩

theorem parted_listOf : parted (listOf ns) = true ↔ Conditioned ns := by
  rw [← conditioned_iff]
  simp [parted, listOf]

theorem Listing.whole (h : Listing pages registry ns) : parted (listOf ns) = false := by
  rw [← Bool.not_eq_true, parted_listOf]
  rintro ⟨r, template, hmem⟩
  cases h with
  | same =>
    obtain ⟨t, -, ht⟩ := List.mem_map.mp hmem
    cases ht
  | _ => cases List.mem_singleton.mp hmem

end Listing

variable {α : Type} [Grade α] {s t : MergeState}

theorem mergeSiblings_of_mergeNode {fuel : Nat} {chain : Scope} {around : Around} {name : String} {cs ds : List Node}
    {n : Node} (hsvg : name ≠ "svg")
    (h : Returns (mergeNode α (fuel + 1) chain around (.element ⟨name, []⟩ cs) (.element ⟨name, []⟩ ds)) s n t) :
    ∃ ns u, n = .element ⟨name, []⟩ ns ∧ Returns (mergeSiblings α (mergeNode α fuel) chain (inside name) cs ds) u ns t := by
  cases Returns.mergeStep h with
  | elements _ _ hattrs hns =>
    have hnone : Returns (mergeAttributes chain ⟨name, []⟩ ⟨name, []⟩) s [] s := by
      simp [mergeAttributes, leftAttributes, rightAttributes]
    obtain ⟨rfl, rfl⟩ := Returns.unique hattrs hnone
    exact ⟨_, _, rfl, hns⟩
  | drawings hname => exact absurd hname hsvg
  | kept hkept =>
    cases hkept with
    | drawing hname => exact absurd hname hsvg

theorem conditioned_or_mergeSiblings {ns : List Node} {texts : List String} {merged : List Node}
    (h : Returns (mergeLayout α (listOf ns) (listOf (items texts))) s merged t) :
    Conditioned merged ∨ ∃ fuel ms u v, merged = listOf ms ∧
      Returns (mergeSiblings α (mergeNode α fuel) [] (inside "ul") ns (items texts)) u ms v := by
  obtain ⟨v, h, -⟩ := Returns.mergeLayout h
  obtain ⟨fuel, hfuel⟩ := exists_nesting (listOf ns) (listOf (items texts))
  have haside {side : Side} {cs rest : List Node} {m : Node} {ms : List Node} {count : Nat} {u w : MergeState}
      (h : Returns (unmatched [] side none (.element ⟨"ul", []⟩ cs) rest) u (m, count) w) : Conditioned (m :: ms) := by
    obtain ⟨r, template, rfl⟩ := (Returns.unmatched h).of_element rfl
    exact ⟨r, template, List.mem_cons_self⟩
  rw [lists, hfuel, listOf, listOf] at h
  cases Returns.mergeSiblings_walk unmarked_root.inline h with
  | both hfront hrest =>
    cases hfront with
    | blocks hblocks => exact absurd hblocks (not_returns_mergeBlocks unmarked_root.left)
    | runs _ hruns =>
      obtain ⟨-, -, -, -, hrunA, hrunB, hrepeated, -⟩ := Returns.mergeRuns hruns
      exact absurd hrunB (hrepeated hrunA)
    | pair _ _ hpair =>
      obtain ⟨w, -, hpartners⟩ := Returns.mergePair hpair
      cases hpartners with
      | merged hmerge =>
        obtain ⟨ms, x, rfl, hms⟩ := mergeSiblings_of_mergeNode (by decide) hmerge
        cases hrest
        exact .inr ⟨_, ms, x, _, rfl, hms⟩
    -- a list that finds no partner is set aside as a whole
    | left _ _ _ _ h => exact .inl (haside h)
    | right _ _ _ _ h => exact .inl (haside h)

inductive Parted : List Node → Prop
  | outside {ns : List Node} : Conditioned ns → Parted ns
  | within {ns : List Node} : Conditioned ns → Parted (listOf ns)

theorem Parted.parted {ns : List Node} (h : Parted ns) : parted ns = true := by
  cases h with
  | outside h => exact h.parted
  | within h => exact parted_listOf.mpr h

theorem Parted.step {layout merged : List Node} {texts : List String} (hparted : Parted layout)
    (h : Returns (mergeLayout α layout (listOf (items texts))) s merged t) : Parted merged := by
  cases hparted with
  | outside hlayout =>
    obtain ⟨u, hlists, -⟩ := Returns.mergeLayout h
    have hpage : LiteralList (listOf (items texts)) :=
      ⟨⟨List.nodup_nil, fun _ ha => absurd ha List.not_mem_nil, literal_items texts⟩, trivial⟩
    have hwalk := Returns.mergeSiblings_walk unmarked_root.inline hlists
    exact .outside (hwalk.conditioned unmarked_root.left hpage hlayout)
  | within hns =>
    rcases conditioned_or_mergeSiblings h with haside | ⟨fuel, ms, u, v, rfl, hms⟩
    · exact .outside haside
    · have hblocks : Markdown.allowsBlocks (inside "ul").left = false := by decide
      have hinline : Markdown.allowsInline (inside "ul").left = false := by decide
      have hwalk := Returns.mergeSiblings_walk hinline hms
      exact .within (hwalk.conditioned hblocks (literal_items texts) hns)

theorem Parted.fold {rest : List (List String)} {layout merged : List Node} (hparted : Parted layout)
    (h : Returns ((rest.map fun texts => listOf (items texts)).foldlM (mergeLayout α) layout) s merged t) :
    Parted merged := by
  induction rest generalizing layout s with
  | nil =>
    rw [List.map_nil, List.foldlM_nil, returns_pure] at h
    rw [h.1]
    exact hparted
  | cons texts rest ih =>
    rw [List.map_cons, List.foldlM_cons, returns_bind] at h
    obtain ⟨next, u, hnext, hrest⟩ := h
    exact ih (hparted.step hnext) hrest

theorem not_partners_of_distracts {r : Reference} {text u : String} {us : List String}
    (h : Distracts α text (u :: us)) :
    let current : α := Score.score false (.block .loop r (item (.text text))) (item (.text u))
    Score.isBestMatch (.block .loop r (item (.text text))) (item (.text u)) current [] (items us) = false ∧
      leftIsExtra α (.block .loop r (item (.text text))) (item (.text u)) current [] (items us) = false := by
  intro current
  have hwaits : Score.hasBetterPartner true (.block .loop r (item (.text text))) current (items us) = true := h.2
  constructor
  · rw [Score.isBestMatch, hwaits, Bool.not_true, Bool.and_false, Bool.false_and]
  · rw [leftIsExtra, hwaits]
    rfl

theorem conditioned_of_distracts {fuel : Nat} {r : Reference} {text : String} {us : List String} {ms : List Node}
    (hdistracts : Distracts α text us)
    (h : Returns (mergeSiblings α (mergeNode α fuel) [] (inside "ul") [.block .loop r (item (.text text))] (items us)) s
      ms t) : Conditioned ms := by
  cases us with
  | nil => exact hdistracts.elim
  | cons u us =>
    have hone := hdistracts.1
    obtain ⟨hbest, hextra⟩ := not_partners_of_distracts (r := r) hdistracts
    have hblocks : Markdown.allowsBlocks (some ⟨"ul", []⟩) = false := by decide
    have hinline : Markdown.allowsInline (inside "ul").left = false := by decide
    rcases Returns.mergeSiblings h with hinlined | ⟨v, -, hwalk⟩
    · exact absurd hinlined (not_returns_mergeInline hinline)
    · cases hwalk with
      | both hfront hrest =>
        cases hfront with
        | blocks hno => exact absurd hno (not_returns_mergeBlocks hblocks)
        | runs _ hruns =>
          obtain ⟨-, -, helement⟩ := Returns.mergeRuns hruns
          cases helement
        | pair _ hpartners =>
          rcases hpartners with hyes | hyes
          · exact absurd (hone.symm.trans hyes) Bool.false_ne_true
          · exact absurd (hbest.symm.trans hyes) Bool.false_ne_true
        | left _ _ _ hyes => exact absurd (hextra.symm.trans hyes) Bool.false_ne_true
        | right _ _ _ _ hunmatched =>
          obtain ⟨q, template, rfl⟩ := (Returns.unmatched hunmatched).of_element hblocks
          exact ⟨q, template, List.mem_cons_self⟩

variable [Counting α] [Positive α]

theorem Listing.fold {pages seen rest : List (List String)} {ns : List Node} (hsome : seen ≠ [])
    (hpages : ∀ us ∈ pages, Listed us) (hcounted : ∀ us ∈ pages, Counted α us) (hseen : seen ⊆ pages)
    (hrest : rest ⊆ pages)
    (hcalm : ∀ us ∈ rest, ∀ x, Distracts α x us → Uneven pages x → ∃ vs ∈ seen, ∃ v ∈ vs, v ≠ x)
    (h : Listing seen s.registry ns) :
    ∃ ms t, Returns ((rest.map fun texts => listOf (items texts)).foldlM (mergeLayout α) (listOf ns)) s (listOf ms) t ∧
      Listing (rest.reverse ++ seen) t.registry ms := by
  induction rest generalizing seen ns s with
  | nil => exact ⟨ns, s, returns_pure.mpr ⟨rfl, rfl⟩, h⟩
  | cons us rest ih =>
    have hus : us ∈ pages := hrest List.mem_cons_self
    -- a list could only come apart at a text that all lists before it have
    have hstep : ∀ x, Diverse seen → (∀ vs ∈ seen, ∀ v ∈ vs, v = x) → ¬ Distracts α x us := by
      intro x hdiverse hall hdistracts
      obtain ⟨as, has, bs, hbs, hne⟩ := hdiverse
      have huneven : Uneven pages x := ⟨as, hseen has, bs, hseen hbs, hne, hall as has, hall bs hbs⟩
      obtain ⟨vs, hvs, v, hv, hvx⟩ := hcalm us List.mem_cons_self x hdistracts huneven
      exact hvx (hall vs hvs v hv)
    obtain ⟨ms, u, hmerge, hlisting⟩ := h.step hsome (fun vs hvs => hpages vs (hseen hvs))
      (fun vs hvs => hcounted vs (hseen hvs)) (hpages us hus) (hcounted us hus) hstep
    have hmore : us :: seen ⊆ pages := List.cons_subset.mpr ⟨hus, hseen⟩
    have hkept : ∀ vs ∈ rest, ∀ x, Distracts α x vs → Uneven pages x → ∃ ws ∈ us :: seen, ∃ w ∈ ws, w ≠ x := by
      intro vs hvs x hdistracts huneven
      obtain ⟨ws, hws, hw⟩ := hcalm vs (List.mem_cons_of_mem _ hvs) x hdistracts huneven
      exact ⟨ws, List.mem_cons_of_mem _ hws, hw⟩
    obtain ⟨ls, t, hfold, hlast⟩ := ih (List.cons_ne_nil _ _) hmore (List.cons_subset.mp hrest).2 hkept hlisting
    refine ⟨ls, t, ?_, ?_⟩
    · rw [List.map_cons, List.foldlM_cons, returns_bind]
      exact ⟨_, u, hmerge, hfold⟩
    · rw [List.reverse_cons, List.append_assoc]
      exact hlast

theorem Listing.of_fold {first : List String} {rest docs : List (List String)} (hdocs : ∀ us ∈ docs, Listed us)
    (hcounted : ∀ us ∈ docs, Counted α us) (hperm : (first :: rest).Perm docs)
    (hcalm : ∀ us ∈ rest, ∀ x, Distracts α x us → Uneven docs x → ∃ v ∈ first, v ≠ x) :
    ∃ ms t, Returns (foldLists α (first :: rest)) {} (listOf ms) t ∧ Listing docs t.registry ms := by
  obtain ⟨hfirst, hrest⟩ := List.cons_subset.mp hperm.subset
  have hseen : [first] ⊆ docs := List.cons_subset.mpr ⟨hfirst, List.nil_subset _⟩
  have hkept : ∀ us ∈ rest, ∀ x, Distracts α x us → Uneven docs x → ∃ vs ∈ [first], ∃ v ∈ vs, v ≠ x :=
    fun us hus x hd hu => ⟨first, List.mem_cons_self, hcalm us hus x hd hu⟩
  obtain ⟨ms, t, hfold, hlisting⟩ :=
    (Listing.first first).fold (s := {}) (α := α) (List.cons_ne_nil _ _) hdocs hcounted hseen hrest hkept
  refine ⟨ms, t, hfold, hlisting.congr fun us => ?_⟩
  rw [← hperm.mem_iff, List.mem_append, List.mem_reverse, List.mem_singleton, List.mem_cons, or_comm]

theorem parted_fold {as bs us : List String} {others : List (List String)} {text : String} {merged : List Node}
    (hlisted : ∀ vs ∈ [bs, as], Listed vs) (hcounted : ∀ vs ∈ [bs, as], Counted α vs) (hne : as ≠ bs)
    (hall : ∀ vs ∈ [bs, as], ∀ v ∈ vs, v = text) (hdistracts : Distracts α text us)
    (h : Returns (foldLists α (as :: bs :: us :: others)) {} merged t) : Parted merged := by
  rw [foldLists, List.map_cons, List.foldlM_cons, returns_bind] at h
  obtain ⟨layout, u, hmerge, h⟩ := h
  rw [List.map_cons, List.foldlM_cons, returns_bind] at h
  obtain ⟨next, v, hnext, hrest⟩ := h
  have hdiverse : Diverse [bs, as] := ⟨as, by simp, bs, by simp, hne⟩
  have hone : ¬ Diverse [as] := not_diverse_of_same fun us hus => List.mem_singleton.mp hus
  have hfirst {vs : List String} (hvs : vs ∈ [as]) : vs ∈ [bs, as] := List.mem_cons_of_mem _ hvs
  obtain ⟨ms, x, hstep, hlisting⟩ := (Listing.first as).step (s := {}) (α := α) (List.cons_ne_nil _ _)
    (fun vs hvs => hlisted vs (hfirst hvs)) (fun vs hvs => hcounted vs (hfirst hvs))
    (hlisted bs List.mem_cons_self) (hcounted bs List.mem_cons_self) fun _ hd => absurd hd hone
  obtain ⟨rfl, rfl⟩ := Returns.unique hmerge hstep
  -- the first two lists make a loop whose template holds the text
  have htext : Listing [bs, as] {} [.block .loop ["ul_items"] (item (.text text))] :=
    .text hdiverse hall List.not_mem_nil
  obtain rfl := Listing.unique (List.cons_ne_nil _ _) hlisted hlisting htext
  have hparted : Parted next := by
    rcases conditioned_or_mergeSiblings hnext with haside | ⟨fuel, ls, y, z, rfl, hls⟩
    · exact .outside haside
    · exact .within (conditioned_of_distracts hdistracts hls)
  exact hparted.fold hrest

theorem exists_orders {docs : List (List String)} {as bs us : List String} (has : as ∈ docs) (hbs : bs ∈ docs)
    (hus : us ∈ docs) (hne : as ≠ bs) (hneA : us ≠ as) (hneB : us ≠ bs) :
    ∃ others, (as :: bs :: us :: others).Perm docs ∧ (us :: as :: bs :: others).Perm docs := by
  have hsecond : bs ∈ docs.erase as := (List.mem_erase_of_ne hne.symm).mpr hbs
  have hthird : us ∈ (docs.erase as).erase bs := (List.mem_erase_of_ne hneB).mpr ((List.mem_erase_of_ne hneA).mpr hus)
  have hlate : docs.Perm (as :: bs :: us :: ((docs.erase as).erase bs).erase us) :=
    (List.perm_cons_erase has).trans
      (((List.perm_cons_erase hsecond).trans ((List.perm_cons_erase hthird).cons bs)).cons as)
  have hmoved : (us :: as :: bs :: ((docs.erase as).erase bs).erase us).Perm
      (as :: bs :: us :: ((docs.erase as).erase bs).erase us) :=
    (List.Perm.swap as us _).trans ((List.Perm.swap bs us _).cons as)
  exact ⟨_, hlate.symm, hmoved.trans hlate.symm⟩

/-- Lists fold into one layout in every order, unless two different lists have one text only and another list
distracts from it. -/
theorem order_independent_iff {docs : List (List String)} (hdocs : ∀ us ∈ docs, Listed us)
    (hcounted : ∀ us ∈ docs, Counted α us) :
    (∃ layout, ∀ order, order.Perm docs → ∃ merged t, Returns (foldLists α order) {} merged t ∧
        sameList merged layout = true) ↔
      ∀ text, Uneven docs text → ∀ us ∈ docs, ¬ Distracts α text us := by
  constructor
  · rintro ⟨layout, hlayout⟩ text ⟨as, has, bs, hbs, hne, hallA, hallB⟩ us hus hdistracts
    obtain ⟨w, hw, hmixed⟩ := hdistracts.mixed text
    have hneA : us ≠ as := fun he => hmixed (hallA w (he ▸ hw))
    have hneB : us ≠ bs := fun he => hmixed (hallB w (he ▸ hw))
    -- read after `as` and `bs` the list `us` comes apart at their loop, read before them it meets none
    obtain ⟨others, hlate, hearly⟩ := exists_orders has hbs hus hne hneA hneB
    obtain ⟨late, _, hlateFold, hlateSame⟩ := hlayout _ hlate
    obtain ⟨early, _, hearlyFold, hearlySame⟩ := hlayout _ hearly
    have hpair {P : List String → Prop} (hP : ∀ vs ∈ docs, P vs) : ∀ vs ∈ [bs, as], P vs := by
      simpa using ⟨hP bs hbs, hP as has⟩
    have hparted : parted late = true :=
      (parted_fold (hpair hdocs) (hpair hcounted) hne (by simpa using ⟨hallB, hallA⟩) hdistracts hlateFold).parted
    have hwhole : parted early = false := by
      obtain ⟨ms, t, hfold, hlisting⟩ :=
        Listing.of_fold hdocs hcounted hearly fun _ _ x _ _ => hdistracts.mixed x
      obtain ⟨rfl, -⟩ := Returns.unique hearlyFold hfold
      exact hlisting.whole
    rw [parted_of_sameList hlateSame, ← parted_of_sameList hearlySame, hwhole] at hparted
    exact absurd hparted Bool.false_ne_true
  · intro hcalm
    have hfolds : ∀ {first rest}, (first :: rest).Perm docs →
        ∃ ms t, Returns (foldLists α (first :: rest)) {} (listOf ms) t ∧ Listing docs t.registry ms := by
      intro first rest hperm
      refine Listing.of_fold hdocs hcounted hperm fun us hus x hd hu => absurd hd (hcalm x hu us ?_)
      exact hperm.subset (List.mem_cons_of_mem _ hus)
    cases docs with
    | nil =>
      refine ⟨[], fun order horder => ⟨[], {}, ?_, rfl⟩⟩
      rw [horder.eq_nil]
      exact returns_pure.mpr ⟨rfl, rfl⟩
    | cons first rest =>
      obtain ⟨ms, _, -, hlisting⟩ := hfolds (List.Perm.refl (first :: rest))
      refine ⟨listOf ms, fun order horder => ?_⟩
      cases order with
      | nil => exact absurd horder.symm.eq_nil (List.cons_ne_nil _ _)
      | cons u us =>
        obtain ⟨ls, t, hfold, hother⟩ := hfolds horder
        obtain rfl := Listing.unique (List.cons_ne_nil _ _) hdocs hother hlisting
        exact ⟨_, t, hfold, sameList_refl _ hlisting.proper⟩

instance (t : String) : Decidable (Trimmed t) :=
  decidable_of_iff (Text.strip t = t ∧ Text.allBlank t = false) ⟨fun h => ⟨h.1, h.2⟩, fun h => ⟨h.1, h.2⟩⟩

instance (texts : List String) : Decidable (Listed texts) :=
  decidable_of_iff (texts ≠ [] ∧ ∀ t ∈ texts, Trimmed t) ⟨fun h => ⟨h.1, h.2⟩, fun h => ⟨h.1, h.2⟩⟩

theorem order_independent_iff_texts :
    let mixed := [["One"], ["Two"], ["Three", "Four", "Five"]]
    let uneven := [["a"], ["a", "a"], ["x", "a"]]
    (∀ us ∈ mixed ++ uneven, Listed us) ∧ (∀ us ∈ mixed ++ uneven, Counted Float us) ∧
      (∃ layout, ∀ order, order.Perm mixed → ∃ merged t, Returns (foldLists Float order) {} merged t ∧
        sameList merged layout = true) ∧
      ¬ ∃ layout, ∀ order, order.Perm uneven → ∃ merged t, Returns (foldLists Float order) {} merged t ∧
        sameList merged layout = true := by
  intro mixed uneven
  have hlisted : ∀ us ∈ mixed ++ uneven, Listed us := by decide +kernel
  have hcounted : ∀ us ∈ mixed ++ uneven, Counted Float us := by
    change ∀ us ∈ mixed ++ uneven, sizeOfList (items us) < 2 ^ 53
    decide +kernel
  obtain ⟨hmixed, huneven⟩ := List.forall_mem_append.mp hlisted
  obtain ⟨hcountedM, hcountedU⟩ := List.forall_mem_append.mp hcounted
  refine ⟨hlisted, hcounted, (order_independent_iff hmixed hcountedM).mpr ?_, fun h => ?_⟩
  · rintro text ⟨us, hus, vs, hvs, hne, hallU, hallV⟩
    have hdiffer : ∀ us ∈ mixed, ∀ vs ∈ mixed, us ≠ vs → ∃ u ∈ us, ∃ v ∈ vs, u ≠ v := by decide
    obtain ⟨u, hu, v, hv, hother⟩ := hdiffer us hus vs hvs hne
    exact absurd ((hallU u hu).trans (hallV v hv).symm) hother
  · have hsame : Uneven uneven "a" := ⟨["a"], by simp [uneven], ["a", "a"], by simp [uneven], by simp⟩
    have hdistracts : Distracts Float "a" ["x", "a"] := ⟨by decide +kernel, by decide +kernel⟩
    exact (order_independent_iff huneven hcountedU).mp h "a" hsame ["x", "a"] (by simp [uneven]) hdistracts

theorem fold_depends_on_order :
    let docs := [["a"], ["a", "a"], ["x", "a"]]
    2 ≤ docs.length ∧ (∀ us ∈ docs, Listed us) ∧
      ¬ ∃ layout, ∀ order, order.Perm docs → ∃ merged t, Returns (foldLists Float order) {} merged t ∧
        sameList merged layout = true := by
  intro docs
  refine ⟨by decide, by decide +kernel, ?_⟩
  rintro ⟨layout, hlayout⟩
  have hparted : ∀ order, order.Perm docs → ∀ b,
      ((foldLists Float order).run {}).1.toOption.map parted = some b → parted layout = b := by
    intro order horder b hb
    obtain ⟨merged, t, hfold, hsame⟩ := hlayout order horder
    obtain ⟨found, u, hfound, rfl⟩ := exists_returns hb
    obtain ⟨rfl, -⟩ := Returns.unique hfold hfound
    exact (parted_of_sameList hsame).symm
  have hlate : parted layout = true := hparted [["a"], ["a", "a"], ["x", "a"]] (by decide) true (by decide +kernel)
  have hearly : parted layout = false := hparted [["x", "a"], ["a"], ["a", "a"]] (by decide) false (by decide +kernel)
  exact absurd (hlate.symm.trans hearly) (by decide)

end Stencil.Collection
