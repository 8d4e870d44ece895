import Stencil.Proofs.Merge.Settled
import Stencil.Proofs.Positive

namespace Stencil.Merge

open Node Grade

abbrev inside (name : String) : Around := ⟨some ⟨name, []⟩, some ⟨name, []⟩⟩

def item (n : Node) : Node := .element ⟨"li", []⟩ [n]

structure Trimmed (t : String) : Prop where
  strip : Text.strip t = t
  visible : Text.allBlank t = false

inductive Wording : Node → Prop
  | text {t : String} : Trimmed t → Wording (.text t)
  | slot (r : Reference) : Wording (.slot .plain r)

theorem signature_of_plain {name : String} (hmeta : (name == "meta") = false) (hlink : (name == "link") = false) :
    Tag.signature ⟨name, []⟩ = name := by
  have hwords : Text.words "" = [] := by rfl
  simp only [Tag.signature, hmeta, hlink, Bool.false_eq_true, if_false, Tag.trimmedValue?, Tag.fixedValue?, Tag.attr?,
    List.find?_nil, Tag.classes, classList, sortClasses, Option.getD_none, hwords, List.mergeSort_nil]
  rfl

theorem baseName_item : baseName (some ⟨"li", []⟩) "" "" = "li" := by
  have hsignature : Tag.signature ⟨"li", []⟩ = "li" := signature_of_plain rfl rfl
  rw [baseName, signatureKey, hsignature]
  decide

variable {chain : Scope} {around : Around} {s t : MergeState}

theorem singleSlot?_of_wording {n : Node} (h : Wording n) : singleSlot? .inlineMarkdown [n] = none := by
  cases h with
  | text ht => simp [singleSlot?, Node.isBlankText, ht.visible]
  | slot r => simp [singleSlot?, Node.isBlankText]

theorem returns_mergeInline_wording {a b : Node} (ha : Wording a) (hb : Wording b) :
    Returns (mergeInline? chain around [a] [b]) s none s := by
  have hno : Markdown.containsElement [a] = false ∧ Markdown.containsElement [b] = false := by
    cases ha <;> cases hb <;> exact ⟨rfl, rfl⟩
  unfold mergeInline?
  rw [singleSlot?_of_wording ha, singleSlot?_of_wording hb, hno.1, hno.2]
  simp

theorem returns_mergeTexts_fresh {v w : String} (hv : Trimmed v) (hw : Trimmed w) (hne : v ≠ w)
    (hleft : s.left = []) (hright : s.right = []) (hfree : "li" ∉ s.registry.keys chain) :
    ∃ t, Returns (mergeTexts chain (inside "li") v w) s (.slot .plain (chain ++ ["li"])) t ∧
      Opens chain .left "li" (.text v) (.text w) s t ∧ t.reshaped = s.reshaped := by
  have hkey : Returns (newKey chain (some ⟨"li", []⟩) "" .text (some ⟨"li", []⟩) none) s "li" _ :=
    returns_freshKey baseName_item (by rw [hleft]; exact List.not_mem_nil) (by rw [hright]; exact List.not_mem_nil) hfree
  have hreserves := Returns.newKey hkey
  let reserved : MergeState := { s with registry := s.registry.record chain "li" .text (some ⟨"li", []⟩) none }
  let opened := reserved.setFields .left (Assoc.set (Key.normalize "li") (.text v) reserved.left)
  let filled := opened.setFields .right (Assoc.set (Key.normalize "li") (.text w) opened.right)
  have hopens : Opens chain .left "li" (.text v) (.text w) s filled :=
    hreserves.opens (.put .left "li" (.text v) reserved) (.put .right "li" (.text w) opened)
  let message := "Text variable " ++ "li" ++ ": " ++ Text.quoted v ++ " / " ++ Text.quoted w
  refine ⟨filled.addLine .debug message, ?_, hopens.quiet (quiet_addLine filled .debug message), rfl⟩
  rw [mergeTexts, hv.strip, hw.strip]
  dsimp only
  rw [beq_eq_false_iff_ne.mpr hne]
  simp only [Bool.false_eq_true, if_false, returns_bind, returns_put, returns_debug, returns_pure]
  exact ⟨"li", reserved, hkey, (), opened, rfl, (), filled, rfl, (), _, rfl, by rw [hreserves.reference], rfl⟩

variable {α : Type} [Grade α]

theorem returns_mergeElements {name : String} {merge : NodeMerger} {cs ds ns : List Node}
    (hsvg : (name == "svg") = false)
    (h : Returns (mergeSiblings α merge chain (inside name) cs ds) s ns t) :
    Returns (mergeStep α merge chain around (.element ⟨name, []⟩ cs) (.element ⟨name, []⟩ ds)) s
      (.element ⟨name, []⟩ ns) t := by
  have hattrs : Returns (mergeAttributes chain ⟨name, []⟩ ⟨name, []⟩) s [] s := by
    simp [mergeAttributes, leftAttributes, rightAttributes]
  rw [mergeStep, mergeElements, bne_self_eq_false, hsvg]
  simp only [Bool.false_eq_true, if_false, returns_bind]
  exact ⟨[], s, hattrs, ns, t, h, returns_pure.mpr ⟨rfl, rfl⟩⟩

variable [Counting α] [Positive α] {fuel : Nat}

theorem lt_score_wording {a b : Node} (ha : Wording a) (hb : Wording b) :
    zero < (Score.score false a b : α) := by
  have hone : zero < (one : α) := Counting.zero_lt Score.counts_one
  cases ha with
  | @text v =>
    cases hb with
    | @text w => exact Score.lt_mean (Score.nonneg_textSimilarity v w)
    | slot => exact hone
  | slot r =>
    cases hb with
    | text => exact hone
    | slot q =>
      have hslots : (Score.score false (.slot .plain r) (.slot .plain q) : α) = if r == q then one else half := rfl
      rw [hslots]
      split
      · exact hone
      · exact Positive.lt_div (by omega) (by omega) Positive.large_one

theorem lt_score_items {a b : Node} (ha : Wording a) (hb : Wording b) :
    zero < (Score.score false (item a) (item b) : α) := by
  refine Score.lt_score_elements (Counting.fits_mono (by simp) Counting.fits_three) fun c hc d hd => ?_
  rw [List.mem_singleton.mp hc, List.mem_singleton.mp hd]
  exact Positive.nonneg_of_lt (lt_score_wording ha hb)

theorem Wording.ne_loop {n : Node} (h : Wording n) (r : Reference) (u : Node) : n ≠ .block .loop r u := by
  rintro rfl
  cases h

theorem Wording.known {n : Node} (h : Wording n) : n.hasForeign = false := by
  cases h <;> rfl

theorem returns_mergeItems {a b n : Node} (ha : Wording a) (hb : Wording b)
    (h : Returns (mergeNode α fuel chain (inside "li") a b) s n t) :
    Returns (mergeNode α (fuel + 1) chain around (item a) (item b)) s (item n) t := by
  have hblocks : Markdown.allowsBlocks (some ⟨"li", []⟩) = false := by decide
  have hfront : Returns (mergeFronts α (mergeNode α fuel) chain (inside "li") a b [] []) s ⟨n, 1, 1⟩ t :=
    returns_mergeFronts_alone hblocks ha.ne_loop hb.ne_loop (lt_score_wording ha hb) ha.known hb.known h
  exact returns_mergeElements rfl (returns_mergeSiblings_front (returns_mergeInline_wording ha hb) hfront)

theorem returns_mergeItems_read {r : Reference} {w : String} (hw : Trimmed w) :
    Returns (mergeNode α (fuel + 2) chain around (item (.slot .plain r)) (item (.text w))) s (item (.slot .plain r))
      (s.setFields .right (Assoc.set (Key.normalize r.key) (.text w) s.right)) := by
  apply returns_mergeItems (.slot r) (.text hw)
  rw [mergeNode, mergeStep]
  simp only [Score.isTextLike, if_true, returns_bind, returns_put, returns_pure, hw.strip]
  exact ⟨(), _, rfl, trivial, rfl⟩

theorem returns_mergeItems_fresh {v w : String} (hv : Trimmed v) (hw : Trimmed w) (hne : v ≠ w)
    (hleft : s.left = []) (hright : s.right = []) (hfree : "li" ∉ s.registry.keys chain) :
    ∃ t, Returns (mergeNode α (fuel + 2) chain around (item (.text v)) (item (.text w))) s
        (item (.slot .plain (chain ++ ["li"]))) t ∧
      Opens chain .left "li" (.text v) (.text w) s t ∧ t.reshaped = s.reshaped := by
  obtain ⟨t, h, hopens, hreshaped⟩ := returns_mergeTexts_fresh hv hw hne hleft hright hfree
  refine ⟨t, returns_mergeItems (.text hv) (.text hw) ?_, hopens, hreshaped⟩
  rw [mergeNode, mergeStep]
  exact h

theorem returns_mergeItems_self {n : Node} (h : Wording n) :
    Returns (mergeNode α (fuel + 2) chain around (item n) (item n)) s (item n) s := by
  apply returns_mergeItems h h
  cases h with
  | text => exact returns_mergeTexts_self _
  | slot => exact returns_pure.mpr ⟨rfl, rfl⟩

theorem returns_readSources_same {τ σ : Type} {same : τ → τ → Bool} {merge : τ → σ → Merge τ} {mayRestart : Bool}
    {template : τ} (hsame : same template template = true) {sources : List σ} {read : σ → Fields}
    (hmerge : ∀ source ∈ sources, ∀ s : MergeState, s.left = [] → s.right = [] →
      ∃ t, Returns (merge template source) s template t ∧ t.registry = s.registry ∧ t.right = read source)
    (records : List Fields) (s : MergeState) :
    ∃ t, Returns (readSources same merge mayRestart template records sources) s
        (template, some (records ++ sources.map read)) t ∧ t.registry = s.registry := by
  induction sources generalizing records s with
  | nil =>
    rw [List.map_nil, List.append_nil]
    exact ⟨s, returns_pure.mpr ⟨rfl, rfl⟩, rfl⟩
  | cons source sources ih =>
    obtain ⟨u, hu, hregistry, hright⟩ :=
      hmerge source List.mem_cons_self { s with left := [], right := [] } rfl rfl
    have hread : Returns (inScope (merge template source)) s (template, u.left, u.right)
        { u with left := s.left, right := s.right } := returns_inScope.mpr ⟨u, hu, rfl, rfl⟩
    obtain ⟨t, ht, hkept⟩ := ih (fun other ho => hmerge other (List.mem_cons_of_mem _ ho)) (records ++ [u.right])
      { u with left := s.left, right := s.right }
    refine ⟨t, ?_, hkept.trans hregistry⟩
    rw [hright, List.append_assoc, List.singleton_append] at ht
    rw [readSources, returns_bind]
    refine ⟨s, s, returns_get.mpr ⟨rfl, rfl⟩, ?_⟩
    rw [returns_bind]
    refine ⟨_, _, hread, ?_⟩
    dsimp only
    rw [if_pos hsame, hright, List.map_cons]
    exact ht

def items (texts : List String) : List Node := texts.map fun t => item (.text t)

def common (r : Reference) (v : String) (texts : List String) : Node :=
  if ∀ t ∈ texts, t = v then item (.text v) else item (.slot .plain (r ++ ["li"]))

def itemRecord (v : String) (texts : List String) (t : String) : Fields :=
  if ∀ t ∈ texts, t = v then [] else [("li", .text t)]

def readItem (q : Reference) : Node → Fields
  | .element _ [.literal _ t] => [(Key.normalize q.key, .text t)]
  | _ => []

theorem same_item (n : Node) (h : Wording n) : (item n).same (item n) = true := by
  apply same_refl
  cases h <;> exact ⟨List.nodup_nil, trivial, trivial⟩

variable {r : Reference}

theorem returns_readSources_slot {q : Reference} {mayRestart : Bool} {sources : List Node}
    (hsources : ∀ n ∈ sources, n = item (.slot .plain q) ∨ ∃ t, Trimmed t ∧ n = item (.text t))
    (records : List Fields) (s : MergeState) :
    ∃ t, Returns (readSources Node.same (fun n e => mergeNode α (fuel + 2) r around n e) mayRestart
      (item (.slot .plain q)) records sources) s
      (item (.slot .plain q), some (records ++ sources.map (readItem q))) t := by
  have hmerge : ∀ source ∈ sources, ∀ s : MergeState, s.left = [] → s.right = [] →
      ∃ t, Returns (mergeNode α (fuel + 2) r around (item (.slot .plain q)) source) s (item (.slot .plain q)) t ∧
        t.registry = s.registry ∧ t.right = readItem q source := by
    intro source hsource s _ hright
    rcases hsources source hsource with rfl | ⟨t, ht, rfl⟩
    · exact ⟨s, returns_mergeItems_self (.slot q), rfl, hright⟩
    · exact ⟨_, returns_mergeItems_read ht, MergeState.registry_setFields .., congrArg (Assoc.set _ _) hright⟩
  obtain ⟨t, h, -⟩ := returns_readSources_same (same_item _ (.slot q)) hmerge records s
  exact ⟨t, h⟩

theorem key_item (r : Reference) : Key.normalize (Reference.key (r ++ ["li"])) = "li" := by
  rw [Reference.key, List.getLastD_concat]
  decide

def itemRecords (v : String) (records : List Fields) (texts : List String) : List Fields :=
  (if ∀ t ∈ texts, t = v then records else records.map fun record => mergeFields record [("li", .text v)]) ++
    texts.map (itemRecord v texts)

theorem itemRecords_cons_self (v : String) (records : List Fields) (texts : List String) :
    itemRecords v records (v :: texts) = itemRecords v (records ++ [[]]) texts := by
  have hrecord : itemRecord v (v :: texts) = itemRecord v texts := by
    funext t
    simp only [itemRecord, List.forall_mem_cons, true_and]
  have hiff : (∀ t ∈ v :: texts, t = v) ↔ ∀ t ∈ texts, t = v := by
    simp only [List.forall_mem_cons, true_and]
  rw [itemRecords, itemRecords, List.map_cons, hrecord]
  by_cases hall : ∀ t ∈ texts, t = v
  · have hempty : itemRecord v texts v = [] := if_pos hall
    rw [if_pos (hiff.mpr hall), if_pos hall, hempty, List.append_assoc]
    rfl
  · have hfull : itemRecord v texts v = [("li", .text v)] := if_neg hall
    rw [if_neg fun h => hall (hiff.mp h), if_neg hall, hfull, List.map_append, List.append_assoc]
    rfl

theorem itemRecords_cons_of_ne {v w : String} (h : w ≠ v) (r : Reference) (records : List Fields) (texts : List String) :
    itemRecords v records (w :: texts) = (records.map fun record => mergeFields record [("li", .text v)]) ++
      [[("li", .text w)]] ++ (items texts).map (readItem (r ++ ["li"])) := by
  have hnot : ¬ ∀ t ∈ w :: texts, t = v := fun hall => h (hall w List.mem_cons_self)
  have hrecord : itemRecord v (w :: texts) = fun t => [("li", .text t)] := by
    funext t
    exact if_neg hnot
  have hread : (readItem (r ++ ["li"]) ∘ fun t => item (.text t)) = fun t => [("li", .text t)] := by
    funext t
    exact congrArg (fun key => [(key, Value.text t)]) (key_item r)
  rw [itemRecords, if_neg hnot, hrecord, List.map_cons, items, List.map_map, hread, List.append_assoc,
    List.singleton_append]

theorem returns_readSources_items {v : String} (hv : Trimmed v) {texts : List String}
    (htexts : ∀ t ∈ texts, Trimmed t) (records : List Fields) (s : MergeState)
    (hfree : "li" ∉ s.registry.keys r) :
    ∃ t, Returns (readSources Node.same (fun n e => mergeNode α (fuel + 2) r around n e) true (item (.text v))
        records (items texts)) s (common r v texts, some (itemRecords v records texts)) t ∧
      ((∀ t ∈ texts, t = v) → t.registry = s.registry) := by
  -- the template keeps its text up to the first item with another one; what is left is then read into a slot
  induction texts generalizing records s with
  | nil =>
    have hcommon : common r v [] = item (.text v) := if_pos fun _ h => absurd h List.not_mem_nil
    have hrecords : itemRecords v records [] = records := by simp [itemRecords]
    rw [hcommon, hrecords]
    exact ⟨s, returns_pure.mpr ⟨rfl, rfl⟩, fun _ => rfl⟩
  | cons w texts ih =>
    have hw : Trimmed w := htexts w List.mem_cons_self
    have hrest : ∀ t ∈ texts, Trimmed t := fun t ht => htexts t (List.mem_cons_of_mem _ ht)
    by_cases hwv : w = v
    · subst hwv
      have hcommon : common r w (w :: texts) = common r w texts := by
        simp only [common, List.forall_mem_cons, true_and]
      obtain ⟨t, ht, hkept⟩ := ih hrest (records ++ [[]]) s hfree
      refine ⟨t, ?_, fun hall => hkept fun u hu => hall u (List.mem_cons_of_mem _ hu)⟩
      have hread : Returns (inScope (mergeNode α (fuel + 2) r around (item (.text w)) (item (.text w)))) s
          (item (.text w), [], []) s := returns_inScope_self (returns_mergeItems_self (.text hw))
      rw [hcommon, itemRecords_cons_self, items, List.map_cons, readSources, returns_bind]
      refine ⟨s, s, returns_get.mpr ⟨rfl, rfl⟩, ?_⟩
      rw [returns_bind]
      refine ⟨_, s, hread, ?_⟩
      dsimp only
      rw [if_pos (same_item _ (.text hw))]
      exact ht
    · have hcommon : common r v (w :: texts) = item (.slot .plain (r ++ ["li"])) :=
        if_neg fun hall => hwv (hall w List.mem_cons_self)
      let fresh : MergeState := { s with left := [], right := [] }
      have hgrows : ∃ u, Returns (mergeNode α (fuel + 2) r around (item (.text v)) (item (.text w))) fresh
          (item (.slot .plain (r ++ ["li"]))) u ∧ Opens r .left "li" (.text v) (.text w) fresh u ∧
            u.reshaped = fresh.reshaped := returns_mergeItems_fresh hv hw (Ne.symm hwv) rfl rfl hfree
      obtain ⟨u, hu, hopens, hreshaped⟩ := hgrows
      have hleft : u.left = [("li", .text v)] := hopens.own
      have hright : u.right = [("li", .text w)] := hopens.other
      have hsources : ∀ n ∈ items texts, n = item (.slot .plain (r ++ ["li"])) ∨ ∃ t, Trimmed t ∧ n = item (.text t) := by
        intro n hn
        obtain ⟨t, ht, rfl⟩ := List.mem_map.mp hn
        exact .inr ⟨t, hrest t ht, rfl⟩
      -- the records of the items before get the text that they shared
      let later : MergeState := { u with left := s.left, right := s.right }
      let filled := records.map fun record => mergeFields record u.left
      have hlater : ∃ t, Returns (readSources Node.same (fun n e => mergeNode α (fuel + 2) r around n e) true
          (item (.slot .plain (r ++ ["li"]))) (filled ++ [u.right]) (items texts)) later (item (.slot .plain (r ++ ["li"])),
            some (filled ++ [u.right] ++ (items texts).map (readItem (r ++ ["li"])))) t :=
        returns_readSources_slot hsources (filled ++ [u.right]) later
      obtain ⟨t, ht⟩ := hlater
      refine ⟨t, ?_, fun hall => absurd (hall w List.mem_cons_self) hwv⟩
      have hread : Returns (inScope (mergeNode α (fuel + 2) r around (item (.text v)) (item (.text w)))) s
          (item (.slot .plain (r ++ ["li"])), u.left, u.right) later := returns_inScope.mpr ⟨u, hu, rfl, rfl⟩
      have hdiffers : (item (.slot .plain (r ++ ["li"]))).same (item (.text v)) = false := rfl
      have hstays : (later.reshaped != s.reshaped || u.left.any fun e => e.2.isMap) = false := by
        rw [hleft]
        simp [later, hreshaped, fresh, Value.isMap]
      rw [hcommon, itemRecords_cons_of_ne hwv r, ← hleft, ← hright, items, List.map_cons, readSources, returns_bind]
      refine ⟨s, s, returns_get.mpr ⟨rfl, rfl⟩, ?_⟩
      rw [returns_bind]
      refine ⟨_, later, hread, ?_⟩
      dsimp only
      rw [hdiffers]
      simp only [Bool.false_eq_true, if_false]
      rw [returns_bind]
      refine ⟨later, later, returns_get.mpr ⟨rfl, rfl⟩, ?_⟩
      rw [hstays]
      exact ht

end Stencil.Merge
