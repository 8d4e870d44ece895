import Mathlib.Data.List.Nodup
import Stencil.FileTree
import Stencil.Pathname
import Stencil.Proofs.Assoc
import Stencil.Proofs.Pathname

namespace Stencil.FileTree

def IsName (s : String) : Prop :=
  Pathname.IsPart s ∧ s ≠ ".."

instance (s : String) : Decidable (IsName s) :=
  inferInstanceAs (Decidable (_ ∧ _))

mutual
def Proper : FileTree → Prop
  | file _ => True
  | folder entries => (Assoc.keys entries).Nodup ∧ ProperEntries entries

def ProperEntries : List (String × FileTree) → Prop
  | [] => True
  | (name, child) :: rest => IsName name ∧ Proper child ∧ ProperEntries rest
end

section Files

mutual
theorem names_filesBelow : (t : FileTree) → (here : List String) → t.Proper →
    ∀ path ∈ (filesBelow here t).map Prod.fst, ∃ rest, path = here ++ rest ∧ ∀ n ∈ rest, IsName n
  | file _, here, _, path, hpath => by
    rw [filesBelow, List.map_singleton, List.mem_singleton] at hpath
    exact ⟨[], by rw [hpath, List.append_nil], fun _ hn => absurd hn List.not_mem_nil⟩
  | folder entries, here, hproper, path, hpath => by
    obtain ⟨name, rest, hpath, hname, -, hrest⟩ := names_filesOfEntries entries here hproper.2 path hpath
    exact ⟨name :: rest, hpath, List.forall_mem_cons.mpr ⟨hname, hrest⟩⟩

theorem names_filesOfEntries : (entries : List (String × FileTree)) → (here : List String) →
    ProperEntries entries → ∀ path ∈ (filesOfEntries here entries).map Prod.fst,
      ∃ name rest, path = here ++ name :: rest ∧ IsName name ∧ name ∈ Assoc.keys entries ∧ ∀ n ∈ rest, IsName n
  | [], _, _, _, hpath => absurd hpath List.not_mem_nil
  | (name, child) :: others, here, ⟨hname, hchild, hothers⟩, path, hpath => by
    rw [filesOfEntries, List.map_append, List.mem_append] at hpath
    rcases hpath with hpath | hpath
    · obtain ⟨rest, rfl, hrest⟩ := names_filesBelow child (here ++ [name]) hchild path hpath
      exact ⟨name, rest, List.append_cons .. |>.symm, hname, List.mem_cons_self, hrest⟩
    · obtain ⟨other, rest, hpath, hother, hmem, hrest⟩ := names_filesOfEntries others here hothers path hpath
      exact ⟨other, rest, hpath, hother, List.mem_cons_of_mem _ hmem, hrest⟩
end

mutual
theorem nodup_filesBelow : (t : FileTree) → (here : List String) → t.Proper →
    ((filesBelow here t).map Prod.fst).Nodup
  | file _, _, _ => List.nodup_singleton _
  | folder entries, here, hproper => nodup_filesOfEntries entries here hproper.1 hproper.2

theorem nodup_filesOfEntries : (entries : List (String × FileTree)) → (here : List String) →
    (Assoc.keys entries).Nodup → ProperEntries entries → ((filesOfEntries here entries).map Prod.fst).Nodup
  | [], _, _, _ => List.nodup_nil
  | (name, child) :: others, here, hnodup, ⟨_, hchild, hothers⟩ => by
    obtain ⟨hfresh, hrest⟩ := List.nodup_cons.mp hnodup
    rw [filesOfEntries, List.map_append]
    apply List.Nodup.append (nodup_filesBelow child _ hchild) (nodup_filesOfEntries others here hrest hothers)
    intro path hbelow hbeside
    obtain ⟨rest, hpath, -⟩ := names_filesBelow child (here ++ [name]) hchild path hbelow
    obtain ⟨other, rest', hother, -, hmem, -⟩ := names_filesOfEntries others here hothers path hbeside
    rw [hpath, ← List.append_cons] at hother
    have hsame : name = other := (List.cons.inj (List.append_cancel_left hother)).1
    exact hfresh (hsame ▸ hmem)
end

theorem names_files {t : FileTree} (h : t.Proper) {path : List String} (hpath : path ∈ t.files.map Prod.fst) :
    ∀ n ∈ path, IsName n := by
  obtain ⟨rest, hrest, hnames⟩ := names_filesBelow t [] h path hpath
  rw [hrest, List.nil_append]
  exact hnames

end Files

section Writing

variable {t u : FileTree} {path place base : List String} {name : String} {bytes : ByteArray}

@[simp]
theorem bytes?_file_nil (bytes : ByteArray) : (file bytes).bytes? [] = some bytes := rfl

@[simp]
theorem bytes?_file_cons (bytes : ByteArray) (n : String) (path : List String) :
    (file bytes).bytes? (n :: path) = none := rfl

@[simp]
theorem bytes?_folder_nil (entries : List (String × FileTree)) : (folder entries).bytes? [] = none := rfl

theorem bytes?_folder_cons (entries : List (String × FileTree)) (n : String) (path : List String) :
    (folder entries).bytes? (n :: path) = (entries.lookup n).bind fun child => child.bytes? path := by
  unfold bytes?
  rw [get?]
  cases entries.lookup n <;> rfl

theorem bytes?_empty (path : List String) : empty.bytes? path = none := by
  cases path <;> rfl

theorem bytes?_set (entries : List (String × FileTree)) (n m : String) (child : FileTree) (path : List String) :
    (folder (Assoc.set n child entries)).bytes? (m :: path) =
      if m = n then child.bytes? path else (folder entries).bytes? (m :: path) := by
  rw [bytes?_folder_cons, bytes?_folder_cons]
  split
  · next heq => rw [heq, Assoc.lookup_set_self, Option.bind_some]
  · next hne => rw [Assoc.lookup_set_of_ne hne]

theorem bytes?_makeFolders (h : t.makeFolders place = some u) (path : List String) :
    u.bytes? path = t.bytes? path := by
  induction place generalizing t u path with
  | nil =>
    rw [makeFolders] at h
    split at h
    · exact (Option.some.inj h) ▸ rfl
    · cases h
  | cons n place ih =>
    cases t with
    | file => cases h
    | folder entries =>
      obtain ⟨child, hchild, hu⟩ := Option.bind_eq_some_iff.mp h
      obtain rfl := Option.some.inj hu
      cases path with
      | nil => rfl
      | cons m path =>
        rw [bytes?_set]
        split
        · next heq =>
          rw [ih hchild, heq, bytes?_folder_cons]
          cases entries.lookup n with
          | none => exact bytes?_empty path
          | some => rfl
        · rfl

theorem bytes?_set_file {entries : List (String × FileTree)}
    (hfile : ((entries.lookup name).map isFolder).getD false = false) (path : List String) :
    (folder (Assoc.set name (file bytes) entries)).bytes? path =
      if path = [name] then some bytes else (folder entries).bytes? path := by
  cases path with
  | nil => rfl
  | cons m path =>
    rw [bytes?_set]
    by_cases hm : m = name
    · subst hm
      rw [if_pos rfl]
      cases path with
      | nil => rw [if_pos rfl, bytes?_file_nil]
      | cons k path =>
        rw [if_neg (by simp), bytes?_file_cons, bytes?_folder_cons]
        rcases hlookup : entries.lookup m with _ | (_ | _)
        · rfl
        · rfl
        · simp [hlookup, isFolder, isFile] at hfile
    · rw [if_neg hm, if_neg fun heq => hm (List.cons.inj heq).1]

theorem bytes?_putFile (h : putFile bytes name t place = some u) (path : List String) :
    u.bytes? path = if path = place ++ [name] then some bytes else t.bytes? path := by
  induction place generalizing t u path with
  | nil =>
    cases t with
    | file => cases h
    | folder entries =>
      rw [putFile] at h
      split at h
      · cases h
      · next hfile =>
        obtain rfl := Option.some.inj h
        exact bytes?_set_file (Bool.not_eq_true _ ▸ hfile) path
  | cons n place ih =>
    cases t with
    | file => cases h
    | folder entries =>
      rw [putFile] at h
      obtain ⟨child, hchild, h⟩ := Option.bind_eq_some_iff.mp h
      obtain ⟨changed, hchanged, hu⟩ := Option.bind_eq_some_iff.mp h
      obtain rfl := Option.some.inj hu
      cases path with
      | nil => rfl
      | cons m path =>
        rw [bytes?_set, List.cons_append]
        split
        · next heq =>
          rw [ih hchanged, heq, bytes?_folder_cons, hchild, Option.bind_some]
          simp only [List.cons.injEq, true_and]
        · next hne => rw [if_neg fun heq => hne (List.cons.inj heq).1]

theorem enter_eq {here here' : List String} (hup : ".." ∉ place) (h : t.enter here place = some (u, here')) :
    here' = here ++ place ∧ ∀ path, u.bytes? path = t.bytes? path := by
  induction place generalizing t here with
  | nil =>
    obtain ⟨rfl, rfl⟩ := Prod.mk.inj (Option.some.inj h)
    exact ⟨(List.append_nil _).symm, fun _ => rfl⟩
  | cons n place ih =>
    obtain ⟨hn, hplace⟩ := not_or.mp (mt List.mem_cons.mpr hup)
    rw [enter] at h
    · obtain ⟨made, hmade, h⟩ := Option.bind_eq_some_iff.mp h
      obtain ⟨rfl, hsame⟩ := ih hplace h
      refine ⟨by rw [List.append_assoc, List.singleton_append], fun path => ?_⟩
      rw [hsame, bytes?_makeFolders hmade]
    · exact fun he => hn he.symm

theorem bytes?_write (hup : ".." ∉ place) (h : t.write base place bytes = some u) (path : List String) :
    u.bytes? path = if path = base ++ place then some bytes else t.bytes? path := by
  unfold write at h
  obtain ⟨name, hname, h⟩ := Option.bind_eq_some_iff.mp h
  obtain ⟨made, hmade, h⟩ := Option.bind_eq_some_iff.mp h
  obtain ⟨⟨entered, there⟩, hentered, h⟩ := Option.bind_eq_some_iff.mp h
  have hlast : place.dropLast ++ [name] = place := List.dropLast_append_getLast? name hname
  obtain ⟨rfl, hsame⟩ := enter_eq (fun hmem => hup ((List.dropLast_sublist place).subset hmem)) hentered
  dsimp only at h
  split at h
  · cases h
  · rw [bytes?_putFile h, List.append_assoc, hlast, hsame, bytes?_makeFolders hmade]

end Writing

end Stencil.FileTree
