import Stencil.Hugo.Export
import Stencil.Proofs.FileTree
import Stencil.Proofs.Pathname

namespace Stencil.Hugo

open Pathname

section Index

variable {p q : Pathname}

def Displaces (p q : Pathname) : Prop :=
  p.stem = "index" ∧ q.parts = p.parts.dropLast ++ ["_index" ++ p.suffix]

instance (p q : Pathname) : Decidable (Displaces p q) :=
  inferInstanceAs (Decidable (_ ∧ _))

theorem parts_indexName_of_index (h : p.stem = "index") :
    (indexName p).parts = p.parts.dropLast ++ ["_index" ++ p.suffix] := by
  rw [indexName, if_pos (beq_iff_eq.mpr h), withName]

theorem indexName_of_ne (h : p.stem ≠ "index") : indexName p = p := by
  rw [indexName, if_neg (mt beq_iff_eq.mp h)]

theorem parts_of_index (h : p.stem = "index") : p.parts = p.parts.dropLast ++ ["index" ++ p.suffix] := by
  have hname : p.name = "index" ++ p.suffix := by
    rw [← h, stem_append_suffix]
  have hsome : p.parts ≠ [] := by
    intro hnil
    simp [stem, name, hnil, splitSuffix] at h
  rw [name, List.getLastD_eq_getLast?, List.getLast?_eq_some_getLast hsome, Option.getD_some] at hname
  rw [← hname, List.dropLast_concat_getLast]

theorem Displaces.not_index (h : Displaces p q) : q.stem ≠ "index" := by
  intro hq
  have hlast : "index" ++ q.suffix = "_index" ++ p.suffix := by
    have hparts := (parts_of_index hq).symm.trans h.2
    exact (List.append_inj' hparts rfl).2 |> List.singleton_inj.mp
  have hchars := congrArg (fun s : String => s.toList.head?) hlast
  simp at hchars

theorem parts_indexName_eq_iff : (indexName p).parts = (indexName q).parts ↔
    p.parts = q.parts ∨ Displaces p q ∨ Displaces q p := by
  constructor
  · intro h
    by_cases hp : p.stem = "index" <;> by_cases hq : q.stem = "index"
    · rw [parts_indexName_of_index hp, parts_indexName_of_index hq] at h
      obtain ⟨hfolder, hlast⟩ := List.append_inj' h rfl
      have hsuffix : p.suffix = q.suffix := (String.append_right_inj _).mp (List.singleton_inj.mp hlast)
      left
      rw [parts_of_index hp, parts_of_index hq, hfolder, hsuffix]
    · rw [parts_indexName_of_index hp, indexName_of_ne hq] at h
      exact .inr (.inl ⟨hp, h.symm⟩)
    · rw [indexName_of_ne hp, parts_indexName_of_index hq] at h
      exact .inr (.inr ⟨hq, h⟩)
    · rw [indexName_of_ne hp, indexName_of_ne hq] at h
      exact .inl h
  · rintro (h | h | h)
    · have hname : p.name = q.name := congrArg (fun parts => parts.getLastD "") h
      have hstem : p.stem = q.stem := congrArg (fun name => (splitSuffix name).1) hname
      have hsuffix : p.suffix = q.suffix := congrArg (fun name => (splitSuffix name).2) hname
      by_cases hp : p.stem = "index"
      · rw [parts_indexName_of_index hp, parts_indexName_of_index (hstem ▸ hp), h, hsuffix]
      · rw [indexName_of_ne hp, indexName_of_ne (hstem ▸ hp), h]
    · rw [parts_indexName_of_index h.1, indexName_of_ne h.not_index, h.2]
    · rw [parts_indexName_of_index h.1, indexName_of_ne h.not_index, h.2]

theorem isName_indexName (h : ∀ n ∈ p.parts, FileTree.IsName n) :
    ∀ n ∈ (indexName p).parts, FileTree.IsName n := by
  by_cases hp : p.stem = "index"
  · rw [parts_indexName_of_index hp]
    intro n hn
    rcases List.mem_append.mp hn with hn | hn
    · exact h n ((List.dropLast_sublist _).subset hn)
    · have hlast : FileTree.IsName ("index" ++ p.suffix) := by
        apply h
        rw [parts_of_index hp]
        exact List.mem_append_right _ List.mem_cons_self
      have hslash : '/' ∉ p.suffix.toList := fun hc =>
        hlast.1.2.2 (by rw [String.toList_append]; exact List.mem_append_right _ hc)
      have hchars : ("_index" ++ p.suffix).toList = '_' :: ("index".toList ++ p.suffix.toList) :=
        String.toList_append
      rw [List.mem_singleton.mp hn]
      refine ⟨⟨?_, ?_, ?_⟩, ?_⟩
      · intro he
        simp [he] at hchars
      · intro he
        simp [he] at hchars
      · rw [hchars]
        simpa using hslash
      · intro he
        simp [he] at hchars
  · rw [indexName_of_ne hp]
    exact h

end Index

namespace Output

def path (o : Output) : List String :=
  (Pathname.ofText o.target).parts

end Output

section Paths

def contentFolder (collection : String) : List String :=
  if collection = rootCollection then [] else (Pathname.ofText collection).parts

def pagePath (collection pathname : String) : List String :=
  contentFolder collection ++ (indexName (Pathname.ofText pathname)).parts

theorem parts_under {folder : String} (h : IsPart folder) (s : String) :
    (Pathname.ofText (folder ++ "/" ++ s)).parts = folder :: (Pathname.ofText s).parts := by
  rw [parts_append, parts_of_isPart h, List.singleton_append]

theorem path_copy (pathname : String) : (Output.copy pathname).path = "static" :: (Pathname.ofText pathname).parts :=
  parts_under (by simp [staticFolder, IsPart]) pathname

theorem parts_layoutPath (collection : String) : (Pathname.ofText (layoutPath collection)).parts =
    "layouts" :: (Pathname.ofText collection).parts ++ ["list.html"] := by
  have hpath : layoutPath collection = "layouts" ++ "/" ++ (collection ++ "/" ++ "list.html") := by
    simp [layoutPath, String.append_assoc]
  rw [hpath, parts_under (by simp [IsPart]), parts_append, parts_of_isPart (s := "list.html") (by simp [IsPart]),
    List.cons_append]

theorem parts_contentPath (collection : String) {pathname : String}
    (h : ∀ n ∈ (Pathname.ofText pathname).parts, FileTree.IsName n) :
    (Pathname.ofText (contentPath collection pathname)).parts = "content" :: pagePath collection pathname := by
  have hroot : (indexName (Pathname.ofText pathname)).root ∈ ["", "/", "//"] := by
    have hsame : (indexName (Pathname.ofText pathname)).root = (Pathname.ofText pathname).root := by
      unfold indexName
      split <;> rfl
    rw [hsame]
    exact root_ofText pathname
  have hpage : (Pathname.ofText (indexName (Pathname.ofText pathname)).text).parts =
      (indexName (Pathname.ofText pathname)).parts :=
    parts_text hroot fun n hn => (isName_indexName h n hn).1
  have hunder (s : String) : (Pathname.ofText ("content" ++ "/" ++ s)).parts = "content" :: (Pathname.ofText s).parts :=
    parts_under (by simp [IsPart]) s
  unfold contentPath pagePath contentFolder
  dsimp only
  rw [show ("content/" : String) = "content" ++ "/" from rfl]
  split
  · next hcollection =>
    rw [if_pos (beq_iff_eq.mp hcollection), String.append_empty, hunder, hpage, List.nil_append]
  · next hcollection =>
    rw [if_neg (mt beq_iff_eq.mpr hcollection), String.append_assoc, hunder, parts_append, hpage]

end Paths

end Stencil.Hugo
