import Stencil.Proofs.Merge.Extract
import Stencil.Proofs.Merge.Items
import Stencil.Proofs.Registry
import Stencil.Proofs.UnitScore

namespace Stencil

open Node Grade Exact Merge

namespace Score

variable {α : Type} [Grade α]

theorem score_items {structural : Bool} (a b : Node) :
    (score structural (item a) (item b) : α) =
      (one + one + (zero + score structural a b) / ofNat 1) / ofNat 3 := by
  have hattrs : (attributeScore structural ⟨"li", []⟩ ⟨"li", []⟩ : α) = one := rfl
  have hchildren : (childrenScore structural [a] [b] : α) = (zero + score structural a b) / ofNat 1 := by
    rw [childrenScore, childrenSum, childrenSum.eq_def]
    rfl
  rw [item, item, score_elements rfl, hattrs, hchildren]

section Counting

variable [Counting α] {structural : Bool}

theorem counts_score_items {a b : Node} (h : (score structural a b : α) = one) :
    Counting.Counts (score structural (item a) (item b) : α) 1 := by
  have hthree : Counting.Fits α 3 := Counting.fits_three
  have hsum : Counting.Counts (zero + one : α) (0 + 1) :=
    Counting.counts_add (Counting.fits_mono (by omega) hthree) counts_zero counts_one
  have hchild : Counting.Counts ((zero + one) / ofNat 1 : α) 1 :=
    Counting.counts_div one_pos (Counting.fits_mono (by omega) hthree) hsum
  have htwo : Counting.Counts (one + one : α) (1 + 1) :=
    Counting.counts_add (Counting.fits_mono (by omega) hthree) counts_one counts_one
  rw [score_items, h]
  exact Counting.counts_div (by omega) hthree (Counting.counts_add hthree htwo hchild)

omit [Counting α] in
theorem score_wording {n : Node} (hn : Wording n) {t : String} (ht : Trimmed t) :
    (score true n (.text t) : α) = one := by
  cases hn with
  | @text v hv =>
    simp only [score, Node.core, leafScore, hv.visible, ht.visible]
    rfl
  | slot r => rfl

theorem reachesThreshold_items {n : Node} (hn : Wording n) {t : String} (ht : Trimmed t) :
    reachesThreshold (α := α) (item n) (item (.text t)) = true :=
  decide_eq_true (Counting.reaches (counts_score_items (score_wording hn ht)))

theorem repeats_items {n : Node} (hn : Wording n) {texts : List String}
    (htexts : ∀ t ∈ texts, Trimmed t) : repeats (α := α) (item n) (items texts) = texts.length := by
  have hfrom (position : Nat) : repeatsFrom (α := α) (item n) position position (items texts) =
      position + texts.length := by
    induction texts generalizing position with
    | nil => rfl
    | cons t texts ih =>
      have hreaches := reachesThreshold_items (α := α) hn (htexts t List.mem_cons_self)
      have hstep : repeatsFrom (α := α) (item n) position position (items (t :: texts)) =
          if reachesThreshold (α := α) (item n) (item (.text t)) = true
            then repeatsFrom (α := α) (item n) (position + 1) (position + 1) (items texts) else position := rfl
      rw [hstep, if_pos hreaches, ih (fun u hu => htexts u (List.mem_cons_of_mem _ hu)), List.length_cons]
      omega
  rw [repeats, hfrom, Nat.zero_add]

end Counting

section Exact

variable [Exact α]

theorem value_score_texts (t u : String) : Exact.value (score false (item (.text t)) (item (.text u)) : α) =
    (2 + (1 + Exact.value (textSimilarity t u : α)) / 2) / 3 := by
  have hleaf : (score false (.text t) (.text u) : α) = (one + textSimilarity t u) / ofNat 2 := rfl
  simp only [score_items, hleaf, Exact.value_div, Exact.value_add, Exact.value_ofNat, value_one, value_zero]
  norm_num

theorem score_texts_lt {t u w : String} :
    (score false (item (.text t)) (item (.text u)) : α) < score false (item (.text t)) (item (.text w)) ↔
      (textSimilarity t u : α) < textSimilarity t w := by
  have hsimilar := Exact.lt_iff (x := textSimilarity t u) (y := (textSimilarity t w : α))
  rw [Exact.lt_iff, value_score_texts, value_score_texts, hsimilar]
  constructor <;> intro h <;> linarith

end Exact

end Score

namespace Merge

theorem baseName_loop : baseName (some ⟨"ul", []⟩) "" "items" = "ul_items" := by
  have hsignature : Tag.signature ⟨"ul", []⟩ = "ul" := signature_of_plain rfl rfl
  rw [baseName, signatureKey, hsignature]
  decide

theorem same_items (t u : String) : (item (.text t)).same (item (.text u)) = true ↔ t = u := by
  simp [item, Node.same, sameList, Tag.same]

theorem sameList_items {as bs : List String} : sameList (items as) (items bs) = true ↔ as = bs := by
  induction as generalizing bs with
  | nil => cases bs <;> simp [items, sameList]
  | cons a as ih =>
    cases bs with
    | nil => simp [items, sameList]
    | cons b bs =>
      have hcons : sameList (items (a :: as)) (items (b :: bs)) =
          ((item (.text a)).same (item (.text b)) && sameList (items as) (items bs)) := rfl
      rw [hcons, Bool.and_eq_true, same_items, ih, List.cons.injEq]

theorem elementsIn_items (texts : List String) : elementsIn (items texts) = items texts := by
  rw [elementsIn, List.filter_eq_self]
  intro n hn
  obtain ⟨t, -, rfl⟩ := List.mem_map.mp hn
  rfl

theorem length_items (texts : List String) : (items texts).length = texts.length :=
  List.length_map _

theorem known_item {n : Node} (h : Wording n) : (item n).hasForeign = false := by
  cases h <;> rfl

theorem anyForeign_items (texts : List String) : anyForeign (items texts) = false := by
  induction texts with
  | nil => rfl
  | cons t texts ih => exact ih

variable {chain : Scope} {around : Around} {s t : MergeState} {side : Side}

theorem returns_moveAll_items (key : String) (texts : List String) :
    Returns (moveAll side chain key (items texts)) s ((items texts).map fun n => (n, [])) s := by
  induction texts with
  | nil => exact returns_pure.mpr ⟨rfl, rfl⟩
  | cons t texts ih =>
    have hfirst : Returns (moveInto side chain (item (.text t)) key) s (item (.text t), []) s :=
      returns_pure.mpr ⟨rfl, rfl⟩
    change Returns (moveAll side chain key (item (.text t) :: items texts)) s _ s
    rw [moveAll, returns_bind]
    refine ⟨_, s, hfirst, ?_⟩
    rw [returns_bind]
    exact ⟨_, s, ih, returns_pure.mpr ⟨rfl, rfl⟩⟩

theorem returns_buildLoop {merge : NodeMerger} {as bs : List Node} {key : String} {left right : List (Node × Fields)}
    {template : Node} {records : List Fields} {s₁ s₂ s₃ s₄ : MergeState}
    (hkey : Returns (newKey chain around.left "items" .items around.left none) s key s₁)
    (hleft : Returns (moveAll .left chain key as) s₁ left s₂) (hright : Returns (moveAll .right chain key bs) s₂ right s₃)
    (hextract : Returns (extract Node.same (fun n e => merge (chain ++ [key]) around n e)
      (((left ++ right).map Prod.fst).headD .content) ((left ++ right).map Prod.fst)) s₃ (template, records) s₄) :
    let found := (records.zip ((left ++ right).map Prod.snd)).map fun e => Value.map (mergeFields e.1 e.2)
    ∃ t, Returns (buildLoop merge chain around as bs) s (.block .loop (chain ++ [key]) template) t ∧
      t.registry = s₄.registry ∧
      t.left = Assoc.set (Key.normalize key) (.list (found.take as.length)) s₄.left ∧
      t.right = Assoc.set (Key.normalize key) (.list (found.drop as.length)) s₄.right := by
  intro found
  rw [← (Returns.newKey hkey).reference] at hextract ⊢
  let s₅ := s₄.setFields .left (Assoc.set (Key.normalize key) (.list (found.take as.length)) s₄.left)
  let s₆ := s₅.setFields .right (Assoc.set (Key.normalize key) (.list (found.drop as.length)) s₅.right)
  refine ⟨s₆.addLine .debug s!"Loop {key} built from {as.length} + {bs.length} element(s)", ?_, rfl, rfl, rfl⟩
  rw [buildLoop, returns_bind]
  refine ⟨key, s₁, hkey, ?_⟩
  rw [returns_bind]
  refine ⟨left, s₂, hleft, ?_⟩
  rw [returns_bind]
  refine ⟨right, s₃, hright, ?_⟩
  rw [returns_bind]
  refine ⟨(template, records), s₄, hextract, ?_⟩
  simp only [returns_bind, returns_put, returns_debug, returns_pure]
  exact ⟨(), s₅, rfl, (), s₆, rfl, (), _, rfl, trivial, rfl⟩

variable {α : Type} [Grade α] [Counting α] [Positive α] {fuel : Nat} {r : Reference}

theorem returns_extract_items {v : String} (hv : Trimmed v) {texts : List String} (htexts : ∀ t ∈ texts, Trimmed t)
    (s : MergeState) (hfree : "li" ∉ s.registry.keys r) :
    ∃ t, Returns (extract Node.same (fun n e => mergeNode α (fuel + 2) r around n e) (item (.text v))
        (items texts)) s (common r v texts, texts.map (itemRecord v texts)) t ∧
      ((∀ t ∈ texts, t = v) → t.registry = s.registry) := by
  have hrecords : itemRecords v [] texts = texts.map (itemRecord v texts) := by
    rw [itemRecords, List.map_nil, ite_self, List.nil_append]
  obtain ⟨t, ht, hkept⟩ := returns_readSources_items (α := α) hv htexts [] s hfree
  rw [hrecords] at ht
  refine ⟨t, ?_, hkept⟩
  rw [extract, extractWithin, returns_bind]
  exact ⟨_, t, ht, returns_pure.mpr ⟨rfl, rfl⟩⟩

theorem returns_extract_slot {q : Reference} {sources : List Node} (s : MergeState)
    (hsources : ∀ n ∈ sources, n = item (.slot .plain q) ∨ ∃ t, Trimmed t ∧ n = item (.text t)) :
    ∃ t, Returns (extract Node.same (fun n e => mergeNode α (fuel + 2) r around n e) (item (.slot .plain q))
      sources) s (item (.slot .plain q), sources.map (readItem q)) t := by
  obtain ⟨t, ht⟩ := returns_readSources_slot (α := α) (r := r) hsources [] s
  refine ⟨t, ?_⟩
  rw [extract, extractWithin, returns_bind]
  exact ⟨_, t, ht, returns_pure.mpr ⟨rfl, rfl⟩⟩

omit [Counting α] [Positive α] in
theorem returns_mergeInline_list {as bs : List Node} : Returns (mergeInline? chain (inside "ul") as bs) s none s := by
  have hinline : Markdown.allowsInline (inside "ul").left = false := by decide
  rw [mergeInline?, hinline]
  exact returns_pure.mpr ⟨rfl, rfl⟩

omit [Positive α] in
theorem returns_mergeSiblings_loop {merge : NodeMerger} {n template : Node} {u : String} {as bs : List String}
    (hn : Wording n) (hu : Trimmed u) (has : ∀ t ∈ as, Trimmed t) (hbs : ∀ t ∈ bs, Trimmed t)
    (hrun : ¬ (as = [] ∧ bs = [])) (hdiffer : sameList (item n :: items as) (items (u :: bs)) = false)
    (hloop : Returns (buildLoop merge chain (inside "ul") (item n :: items as) (items (u :: bs))) s template t) :
    Returns (mergeSiblings α merge chain (inside "ul") (item n :: items as) (items (u :: bs))) s [template] t := by
  have hknown : (item n).hasForeign = false := known_item hn
  have hisElement : elementsIn (item n :: items as) = item n :: items as := by
    rw [elementsIn, List.filter_cons_of_pos rfl]
    exact congrArg _ (elementsIn_items as)
  have hrunA := Score.repeats_items (α := α) hn has
  have hrunB := Score.repeats_items (α := α) (.text hu) hbs
  -- one of the lists has a second item, which is what makes a run of it
  have hrepeated : Score.repeats (α := α) (item n) (items as) ≠ 0 ∨
      Score.repeats (α := α) (item (.text u)) (items bs) ≠ 0 := by
    rw [hrunA, hrunB]
    by_cases hnone : as = []
    · exact .inr fun hzero => hrun ⟨hnone, List.length_eq_zero_iff.mp hzero⟩
    · exact .inl fun hzero => hnone (List.length_eq_zero_iff.mp hzero)
  have htakeA : elementsIn (item n :: (items as).take (Score.repeats (α := α) (item n) (items as))) =
      item n :: items as := by
    rw [hrunA, List.take_of_length_le (length_items as).le, hisElement]
  have htakeB : elementsIn (item (.text u) :: (items bs).take (Score.repeats (α := α) (item (.text u)) (items bs))) =
      items (u :: bs) := by
    rw [hrunB, List.take_of_length_le (length_items bs).le]
    exact elementsIn_items (u :: bs)
  have hincluded : loopExcluded.contains "li" = false := by decide
  have hblocks : Markdown.allowsBlocks (inside "ul").left = false := by decide
  have hknownA : anyForeign (item n :: items as) = false := by
    rw [anyForeign, hknown]
    exact anyForeign_items as
  have hknownB : anyForeign (item (.text u) :: items bs) = false := anyForeign_items (u :: bs)
  have hfront := returns_mergeFronts_runs hblocks (returns_mergeRuns_loop ⟨_, rfl, hincluded⟩ ⟨_, rfl, hincluded⟩
    hknownA hknownB (Score.reachesThreshold_items (α := α) hn hu) hrepeated htakeA htakeB hdiffer hloop)
  rw [hrunA, hrunB, ← length_items as, ← length_items bs] at hfront
  exact returns_mergeSiblings_front returns_mergeInline_list hfront

theorem take_itemValues {v : String} {as bs all : List String} :
    ((((as ++ bs).map (itemRecord v all)).zip ((as ++ bs).map fun _ => ([] : Fields))).map
        fun e => Value.map (mergeFields e.1 e.2)).take as.length = as.map fun t => .map (itemRecord v all t) := by
  rw [List.zip_map', List.map_map, List.map_append, List.take_left' (List.length_map _)]
  rfl

theorem drop_itemValues {v : String} {as bs all : List String} :
    ((((as ++ bs).map (itemRecord v all)).zip ((as ++ bs).map fun _ => ([] : Fields))).map
        fun e => Value.map (mergeFields e.1 e.2)).drop as.length = bs.map fun t => .map (itemRecord v all t) := by
  rw [List.zip_map', List.map_map, List.map_append, List.drop_left' (List.length_map _)]
  rfl

theorem moved_items (as bs : List String) :
    ((items as).map fun n => (n, ([] : Fields))) ++ (items bs).map (fun n => (n, ([] : Fields))) =
      (as ++ bs).map fun t => (item (.text t), []) := by
  simp [items, Function.comp_def]

theorem returns_lists_loop {v u : String} {as bs : List String} (has : ∀ t ∈ v :: as, Trimmed t)
    (hbs : ∀ t ∈ u :: bs, Trimmed t) (hrun : ¬ (as = [] ∧ bs = [])) (hdiffer : v :: as ≠ u :: bs)
    (hleft : s.left = []) (hright : s.right = []) (hloop : "ul_items" ∉ s.registry.keys [])
    (hitem : "li" ∉ s.registry.keys ["ul_items"]) :
    let all := v :: as ++ u :: bs
    ∃ t, Returns (mergeSiblings α (mergeNode α (fuel + 2)) [] (inside "ul") (items (v :: as)) (items (u :: bs))) s
        [.block .loop ["ul_items"] (common ["ul_items"] v all)] t ∧
      ((∀ w ∈ all, w = v) → "li" ∉ t.registry.keys ["ul_items"]) ∧
      t.left = [("ul_items", .list ((v :: as).map fun w => .map (itemRecord v all w)))] ∧
      t.right = [("ul_items", .list ((u :: bs).map fun w => .map (itemRecord v all w)))] := by
  intro all
  let reserved : MergeState :=
    { s with registry := s.registry.record [] "ul_items" .items (some ⟨"ul", []⟩) none }
  have hkey : Returns (newKey [] (some ⟨"ul", []⟩) "items" .items (some ⟨"ul", []⟩) none) s "ul_items" reserved :=
    returns_freshKey baseName_loop (by rw [hleft]; exact List.not_mem_nil) (by rw [hright]; exact List.not_mem_nil) hloop
  have hitem' : "li" ∉ reserved.registry.keys ["ul_items"] := by
    intro hmem
    rcases Registry.mem_keys_record.mp hmem with ⟨hscope, -⟩ | hmem
    · cases hscope
    · exact hitem hmem
  have hall : ∀ t ∈ all, Trimmed t := by
    intro t ht
    rcases List.mem_append.mp ht with ht | ht
    · exact has t ht
    · exact hbs t ht
  -- the items of both lists are read as one run, with records of their own
  have hreads : ∃ x, Returns (extract Node.same
      (fun n e => mergeNode α (fuel + 2) ["ul_items"] (inside "ul") n e) (item (.text v)) (items all))
        reserved (common ["ul_items"] v all, all.map (itemRecord v all)) x ∧
      ((∀ w ∈ all, w = v) → x.registry = reserved.registry) :=
    returns_extract_items (has v List.mem_cons_self) hall reserved hitem'
  obtain ⟨x, hextract, hkept⟩ := hreads
  have hleft' : x.left = [] := (hextract.extract_fields .left).trans hleft
  have hright' : x.right = [] := (hextract.extract_fields .right).trans hright
  have helements : (((items (v :: as)).map fun n => (n, ([] : Fields))) ++
      (items (u :: bs)).map fun n => (n, ([] : Fields))).map Prod.fst = items all := by
    rw [moved_items, List.map_map]
    rfl
  rw [← helements] at hextract
  obtain ⟨t, ht, hregistry, htl, htr⟩ : ∃ t, Returns (buildLoop (mergeNode α (fuel + 2)) [] (inside "ul")
      (items (v :: as)) (items (u :: bs))) s (.block .loop ([] ++ ["ul_items"]) (common ["ul_items"] v all)) t ∧
        t.registry = x.registry ∧ _ ∧ _ :=
    returns_buildLoop hkey (returns_moveAll_items "ul_items" (v :: as)) (returns_moveAll_items "ul_items" (u :: bs))
      hextract
  -- and the records are parted again where the second list begins
  have hsplit : (((items (v :: as)).map fun n => (n, ([] : Fields))) ++
      (items (u :: bs)).map fun n => (n, ([] : Fields))).map Prod.snd = all.map fun _ => ([] : Fields) := by
    rw [moved_items, List.map_map]
    rfl
  rw [hsplit, length_items, hleft'] at htl
  rw [hsplit, length_items, hright'] at htr
  refine ⟨t, ?_, fun heq => ?_, htl.trans ?_, htr.trans ?_⟩
  · apply returns_mergeSiblings_loop (.text (has v List.mem_cons_self)) (hbs u List.mem_cons_self)
      (fun w hw => has w (List.mem_cons_of_mem _ hw)) (fun w hw => hbs w (List.mem_cons_of_mem _ hw)) hrun
    · rw [← Bool.not_eq_true]
      exact fun hsame => hdiffer (sameList_items.mp hsame)
    · exact ht
  · rw [hregistry, hkept heq]
    exact hitem'
  · rw [take_itemValues]
    rfl
  · rw [drop_itemValues]
    rfl

theorem returns_moveInto_slot (hleft : s.left = []) :
    ∃ t, Returns (moveAll .left [] "ul_items" [item (.slot .plain ["li"])]) s
      [(item (.slot .plain ["ul_items", "li"]), [])] t := by
  let copied : MergeState := { s with registry := s.registry.copyEntry [] "li" ["ul_items"] }
  let moved : MergeState := { copied with reshaped := copied.reshaped + 1 }
  have hreference : Returns (moveReference .left 0 "ul_items" [] ["li"]) s [] copied := by
    rw [moveReference]
    simp only [returns_bind, returns_modify]
    refine ⟨(), copied, rfl, ?_⟩
    have hnone : Returns (find? .left "li") copied none copied := by
      rw [returns_find?]
      refine ⟨?_, rfl⟩
      change none = s.left.lookup _
      rw [hleft]
      rfl
    change Returns (if Assoc.has "li" ([] : Fields) = true then pure [] else _) copied [] copied
    rw [if_neg (by simp [Assoc.has]), returns_bind]
    exact ⟨none, copied, hnone, returns_pure.mpr ⟨rfl, rfl⟩⟩
  have hinto : Returns (moveInto .left [] (item (.slot .plain ["li"])) "ul_items") s
      (item (.slot .plain ["ul_items", "li"]), []) moved := by
    have hreferences : (item (.slot .plain ["li"])).references = [["li"]] := rfl
    have hhas : (item (.slot .plain ["li"])).hasReferences = true := rfl
    rw [moveInto, if_pos hhas]
    dsimp only
    rw [hreferences, returns_bind]
    refine ⟨[], copied, ?_, ?_⟩
    · rw [List.foldlM_cons, returns_bind]
      exact ⟨[], copied, hreference, returns_pure.mpr ⟨rfl, rfl⟩⟩
    · rw [returns_bind]
      exact ⟨(), moved, returns_reshape.mpr rfl, returns_pure.mpr ⟨rfl, rfl⟩⟩
  refine ⟨moved, ?_⟩
  rw [moveAll, returns_bind]
  refine ⟨_, moved, hinto, ?_⟩
  rw [returns_bind]
  exact ⟨[], moved, returns_pure.mpr ⟨rfl, rfl⟩, returns_pure.mpr ⟨rfl, rfl⟩⟩

theorem returns_slot_loop {u w : String} {bs : List String} (hbs : ∀ t ∈ u :: w :: bs, Trimmed t)
    (hleft : s.left = []) (hright : s.right = []) (hloop : "ul_items" ∉ s.registry.keys []) :
    ∃ t, Returns (mergeSiblings α (mergeNode α (fuel + 2)) [] (inside "ul") [item (.slot .plain ["li"])]
      (items (u :: w :: bs))) s [.block .loop ["ul_items"] (item (.slot .plain ["ul_items", "li"]))] t := by
  let reserved : MergeState :=
    { s with registry := s.registry.record [] "ul_items" .items (some ⟨"ul", []⟩) none }
  have hkey : Returns (newKey [] (some ⟨"ul", []⟩) "items" .items (some ⟨"ul", []⟩) none) s "ul_items" reserved :=
    returns_freshKey baseName_loop (by rw [hleft]; exact List.not_mem_nil) (by rw [hright]; exact List.not_mem_nil) hloop
  obtain ⟨moved, hmove⟩ := returns_moveInto_slot (s := reserved) hleft
  have helements : (((item (.slot .plain ["ul_items", "li"]), ([] : Fields)) ::
      (items (u :: w :: bs)).map fun n => (n, ([] : Fields))).map Prod.fst) =
        item (.slot .plain ["ul_items", "li"]) :: items (u :: w :: bs) := by
    simp [Function.comp_def]
  have hsources : ∀ n ∈ item (.slot .plain ["ul_items", "li"]) :: items (u :: w :: bs),
      n = item (.slot .plain ["ul_items", "li"]) ∨ ∃ t, Trimmed t ∧ n = item (.text t) := by
    intro n hn
    rcases List.mem_cons.mp hn with rfl | hn
    · exact .inl rfl
    · obtain ⟨t, ht, rfl⟩ := List.mem_map.mp hn
      exact .inr ⟨t, hbs t ht, rfl⟩
  have hreads : ∃ x, Returns (extract Node.same
      (fun n e => mergeNode α (fuel + 2) ["ul_items"] (inside "ul") n e) (item (.slot .plain ["ul_items", "li"]))
        (item (.slot .plain ["ul_items", "li"]) :: items (u :: w :: bs))) moved
      (item (.slot .plain ["ul_items", "li"]),
        (item (.slot .plain ["ul_items", "li"]) :: items (u :: w :: bs)).map (readItem ["ul_items", "li"])) x :=
    returns_extract_slot moved hsources
  obtain ⟨x, hextract⟩ := hreads
  rw [← helements] at hextract
  obtain ⟨t, ht, -⟩ : ∃ t, Returns (buildLoop (mergeNode α (fuel + 2)) [] (inside "ul") [item (.slot .plain ["li"])]
      (items (u :: w :: bs))) s (.block .loop ([] ++ ["ul_items"]) (item (.slot .plain ["ul_items", "li"]))) t ∧ _ :=
    returns_buildLoop hkey hmove (returns_moveAll_items "ul_items" (u :: w :: bs)) hextract
  refine ⟨t, ?_⟩
  have hnone : ∀ t ∈ ([] : List String), Trimmed t := fun t ht => absurd ht List.not_mem_nil
  have hrun : ¬ (([] : List String) = [] ∧ w :: bs = []) := fun hrun => absurd hrun.2 (List.cons_ne_nil _ _)
  have hdiffer : sameList (item (.slot .plain ["li"]) :: items []) (items (u :: w :: bs)) = false := rfl
  have hothers : ∀ t ∈ w :: bs, Trimmed t := fun t ht => hbs t (List.mem_cons_of_mem _ ht)
  have hsingle : item (.slot .plain ["li"]) :: items [] = [item (.slot .plain ["li"])] := rfl
  have hu : Trimmed u := hbs u List.mem_cons_self
  rw [← hsingle] at ht ⊢
  exact returns_mergeSiblings_loop (.slot ["li"]) hu hnone hothers hrun hdiffer ht

theorem returns_mergeSiblings_single {merge : NodeMerger} {n m : Node} {u : String} (hn : Wording n) (hu : Trimmed u)
    (h : Returns (merge [] (inside "ul") (item n) (item (.text u))) s m t) :
    Returns (mergeSiblings α merge [] (inside "ul") [item n] (items [u])) s [m] t := by
  have hblocks : Markdown.allowsBlocks (inside "ul").left = false := by decide
  have hnoloop (n : Node) : ∀ r u, item n ≠ .block .loop r u := fun _ _ he => by cases he
  exact returns_mergeSiblings_front returns_mergeInline_list
    (returns_mergeFronts_alone hblocks (hnoloop n) (hnoloop (.text u)) (lt_score_items hn (.text hu))
      (known_item hn) rfl h)

omit [Counting α] [Positive α] in
theorem returns_absorb (side : Side) {merge : NodeMerger} {template grown : Node} {elements : List Node} {records : List Fields}
    {u : MergeState} (h : Returns (extract Node.same (fun n e => merge r around n e) template elements) s
      (grown, records) u) :
    ∃ t, Returns (absorb merge around side r template elements) s (.block .loop r grown) t ∧
      t.registry = u.registry := by
  have hput (x : MergeState) : ∃ t, Returns (put side r.key (.list (records.map Value.map))) x () t ∧
      t.registry = x.registry :=
    ⟨_, returns_put.mpr rfl, by simp⟩
  rw [absorb]
  simp only [returns_bind]
  by_cases hsame : grown.same template = true
  · obtain ⟨t, ht, hregistry⟩ := hput u
    refine ⟨t, ⟨_, u, h, ?_⟩, hregistry⟩
    simp only [hsame, Bool.not_true, Bool.false_eq_true, if_false, returns_bind]
    exact ⟨(), t, ht, returns_pure.mpr ⟨rfl, rfl⟩⟩
  · rw [Bool.not_eq_true] at hsame
    obtain ⟨t, ht, hregistry⟩ := hput { u with reshaped := u.reshaped + 1 }
    refine ⟨t, ⟨_, u, h, ?_⟩, hregistry⟩
    simp only [hsame, Bool.not_false, if_true, returns_bind]
    exact ⟨(), _, returns_reshape.mpr rfl, (), t, ht, returns_pure.mpr ⟨rfl, rfl⟩⟩

omit [Positive α] in
theorem returns_mergeSiblings_absorb {merge : NodeMerger} {n loop : Node} {u : String} {bs : List String}
    (hn : Wording n) (hbs : ∀ t ∈ bs, Trimmed t)
    (hpartners : isOne (Score.score false (item n) (item (.text u)) : α) = true ∨
      Score.isBestMatch (.block .loop r (item n)) (item (.text u))
        (Score.score false (item n) (item (.text u)) : α) [] (items bs) = true)
    (h : Returns (absorb merge (inside "ul") .right r (item n) (items (u :: bs))) s loop t) :
    Returns (mergeSiblings α merge chain (inside "ul") [.block .loop r (item n)] (items (u :: bs))) s [loop] t := by
  have hblocks : Markdown.allowsBlocks (inside "ul").left = false := by decide
  have hknown : (item n).hasForeign = false := known_item hn
  have hknownA : anyForeign [.block .loop r (item n)] = false := by
    rw [anyForeign, Node.hasForeign, hknown]
    rfl
  have hknownB : anyForeign (item (.text u) :: items bs) = false := anyForeign_items (u :: bs)
  have hrun := Score.repeats_items (α := α) hn hbs
  have htake : elementsIn (item (.text u) :: (items bs).take bs.length) = items (u :: bs) := by
    rw [List.take_of_length_le (length_items bs).le]
    exact elementsIn_items (u :: bs)
  have hruns : Returns (mergeRuns? α merge chain (inside "ul") (.block .loop r (item n)) (item (.text u)) []
      (items bs)) s none s := returns_pure.mpr ⟨rfl, rfl⟩
  have hpair : Returns (mergePair α merge chain (inside "ul") (.block .loop r (item n)) (item (.text u)) []
      (items bs)) s ⟨loop, 1, 1 + bs.length⟩ t := by
    change Returns (complain (Score.repeatComplaints α (item n) (items bs)) >>= fun _ => do
      let loop ← absorb merge (inside "ul") .right r (item n)
        (elementsIn (item (.text u) :: (items bs).take (Score.repeats (α := α) (item n) (items bs))))
      return (⟨loop, 1, 1 + Score.repeats (α := α) (item n) (items bs)⟩ : Taken)) s _ t
    rw [hrun, htake]
    simp only [returns_bind]
    exact ⟨(), s, returns_repeatComplaints hknown (anyForeign_items bs), loop, t, h, returns_pure.mpr ⟨rfl, rfl⟩⟩
  rw [← length_items bs] at hpair
  exact returns_mergeSiblings_front returns_mergeInline_list
    (returns_mergeFronts_pair (returns_mergeBlocks_none hblocks) hruns hknownA hknownB hpartners hpair)

variable (α) in
/-- An item with the text is not like the first item, and a later one is a better partner for it. -/
def Distracts (t : String) : List String → Prop
  | [] => False
  | u :: rest => isOne (Score.score false (item (.text t)) (item (.text u)) : α) = false ∧
      Score.hasBetterPartner true (item (.text t)) (Score.score false (item (.text t)) (item (.text u)) : α)
        (items rest) = true

theorem Distracts.mixed {t : String} {us : List String} (h : Distracts α t us) (x : String) : ∃ u ∈ us, u ≠ x := by
  cases us with
  | nil => exact h.elim
  | cons u us =>
    obtain ⟨-, hbetter⟩ := h
    rw [Score.hasBetterPartner, List.any_eq_true] at hbetter
    obtain ⟨n, hn, hlt⟩ := hbetter
    obtain ⟨w, hw, rfl⟩ := List.mem_map.mp hn
    by_cases hx : u = x
    · subst hx
      refine ⟨w, List.mem_cons_of_mem _ hw, ?_⟩
      rintro rfl
      exact Positive.lt_irrefl _ (of_decide_eq_true hlt)
    · exact ⟨u, List.mem_cons_self, hx⟩

omit [Counting α] [Positive α] in
theorem distracts_iff [Exact α] {t u : String} {us : List String} :
    Distracts α t (u :: us) ↔ ∃ w ∈ us, (Score.textSimilarity t u : α) < Score.textSimilarity t w := by
  constructor
  · rintro ⟨-, hbetter⟩
    rw [Score.hasBetterPartner, List.any_eq_true] at hbetter
    obtain ⟨n, hn, hlt⟩ := hbetter
    obtain ⟨w, hw, rfl⟩ := List.mem_map.mp hn
    exact ⟨w, hw, Score.score_texts_lt.mp (of_decide_eq_true hlt)⟩
  · rintro ⟨w, hw, hlt⟩
    have hbelow : Exact.value (Score.textSimilarity t u : α) < 1 :=
      lt_of_lt_of_le (Exact.lt_iff.mp hlt) (Score.textSimilarity_le_one t w)
    constructor
    · rw [← Bool.not_eq_true, Exact.isOne_iff, Score.value_score_texts]
      intro hone
      linarith
    · rw [Score.hasBetterPartner, List.any_eq_true]
      exact ⟨item (.text w), List.mem_map_of_mem hw, decide_eq_true (Score.score_texts_lt.mpr hlt)⟩

theorem returns_loop_text {v u : String} {bs : List String} (hv : Trimmed v) (hbs : ∀ t ∈ u :: bs, Trimmed t)
    (hcalm : ¬ Distracts α v (u :: bs)) (hitem : "li" ∉ s.registry.keys ["ul_items"]) :
    ∃ t, Returns (mergeSiblings α (mergeNode α (fuel + 2)) [] (inside "ul")
        [.block .loop ["ul_items"] (item (.text v))] (items (u :: bs))) s
        [.block .loop ["ul_items"] (common ["ul_items"] v (u :: bs))] t ∧
      ((∀ w ∈ u :: bs, w = v) → t.registry = s.registry) := by
  have hreads : ∃ x, Returns (extract Node.same
      (fun n e => mergeNode α (fuel + 2) ["ul_items"] (inside "ul") n e) (item (.text v)) (items (u :: bs))) s
        (common ["ul_items"] v (u :: bs), (u :: bs).map (itemRecord v (u :: bs))) x ∧
      ((∀ w ∈ u :: bs, w = v) → x.registry = s.registry) := returns_extract_items hv hbs s hitem
  obtain ⟨x, hextract, hkept⟩ := hreads
  obtain ⟨t, ht, hregistry⟩ := returns_absorb .right hextract
  refine ⟨t, ?_, fun heq => hregistry.trans (hkept heq)⟩
  have hothers : ∀ w ∈ bs, Trimmed w := fun w hw => hbs w (List.mem_cons_of_mem _ hw)
  refine returns_mergeSiblings_absorb (.text hv) hothers ?_ ht
  have hpos : zero < (Score.score false (item (.text v)) (item (.text u)) : α) :=
    lt_score_items (.text hv) (.text (hbs u List.mem_cons_self))
  by_cases hone : isOne (Score.score false (item (.text v)) (item (.text u)) : α) = true
  · exact .inl hone
  · rw [Bool.not_eq_true] at hone
    have hbetter : Score.hasBetterPartner true (.block .loop ["ul_items"] (item (.text v)))
        (Score.score false (item (.text v)) (item (.text u)) : α) (items bs) = false := by
      rw [← Bool.not_eq_true]
      exact fun hyes => hcalm ⟨hone, hyes⟩
    right
    rw [Score.isBestMatch, hbetter, decide_eq_true hpos]
    rfl

theorem returns_loop_slot {u : String} {bs : List String} {q : Reference} (hbs : ∀ t ∈ u :: bs, Trimmed t) :
    ∃ t, Returns (mergeSiblings α (mergeNode α (fuel + 2)) chain (inside "ul")
      [.block .loop r (item (.slot .plain q))] (items (u :: bs))) s [.block .loop r (item (.slot .plain q))] t := by
  have hsources : ∀ n ∈ items (u :: bs), n = item (.slot .plain q) ∨ ∃ t, Trimmed t ∧ n = item (.text t) := by
    intro n hn
    obtain ⟨t, ht, rfl⟩ := List.mem_map.mp hn
    exact .inr ⟨t, hbs t ht, rfl⟩
  have hreads : ∃ x, Returns (extract Node.same
      (fun n e => mergeNode α (fuel + 2) r (inside "ul") n e) (item (.slot .plain q)) (items (u :: bs))) s
        (item (.slot .plain q), (items (u :: bs)).map (readItem q)) x := returns_extract_slot s hsources
  obtain ⟨x, hextract⟩ := hreads
  obtain ⟨t, ht, -⟩ := returns_absorb .right hextract
  have hone : isOne (Score.score false (item (.slot .plain q)) (item (.text u)) : α) = true :=
    Counting.isOne (Score.counts_score_items rfl)
  exact ⟨t, returns_mergeSiblings_absorb (.slot q) (fun w hw => hbs w (List.mem_cons_of_mem _ hw)) (.inl hone) ht⟩

end Merge

end Stencil
