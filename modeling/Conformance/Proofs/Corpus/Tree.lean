import Conformance.Corpus.Basic
import Conformance.Corpus.Index
import Conformance.Proofs.Path.Ordinary

namespace Conformance

open Conformance.Path (Ordinary ofNames)

/-! Trees of files, and the corpora that show one. -/

section

variable {content : Host.Location → Option Host.Entry} {names : Host.Location}
  {recursive : Bool} {test : String → Bool}

/-- A path is listed for a location: that of a file below it that passes a test, right in it
or at any depth. -/
def IsListedIn (content : Host.Location → Option Host.Entry) (names : Host.Location)
    (recursive : Bool) (test : String → Bool) (path : String) : Prop :=
  ∃ rest bytes, rest ≠ [] ∧ content (names ++ rest) = some (.file bytes) ∧
    (recursive = true ∨ rest.length = 1) ∧ path = ofNames (names ++ rest) ∧ test path = true

/-- The paths that are listed for a location, in their order. -/
structure ListingIn (content : Host.Location → Option Host.Entry) (names : Host.Location)
    (recursive : Bool) (test : String → Bool) (paths : List String) : Prop where
  sorted : paths.Pairwise (· < ·)
  mem_iff : ∀ path, path ∈ paths ↔ IsListedIn content names recursive test path

theorem ListingIn.unique {left right : List String}
    (hleft : ListingIn content names recursive test left)
    (hright : ListingIn content names recursive test right) : left = right := by
  refine hleft.sorted.eq_of_mem_iff hright.sorted fun path => ?_
  rw [hleft.mem_iff, hright.mem_iff]

end

/-- Files at locations through ordinary names; none lies in another one. -/
structure FileTree where
  files : List (Host.Location × ByteArray)
  named : ∀ file ∈ files, file.1 ≠ []
  ordinary : ∀ file ∈ files, ∀ name ∈ file.1, Ordinary name
  distinct : (files.map Prod.fst).Nodup
  apart : ∀ file ∈ files, ∀ other ∈ files, file.1 <+: other.1 → file.1 = other.1

namespace FileTree

variable {tree : FileTree} {location root rest : Host.Location} {bytes : ByteArray}

/-- A folder is what files lie in. -/
def IsFolder (tree : FileTree) (location : Host.Location) : Prop :=
  ∃ file ∈ tree.files, location <+: file.1 ∧ location ≠ file.1

instance (tree : FileTree) (location : Host.Location) : Decidable (tree.IsFolder location) :=
  inferInstanceAs (Decidable (∃ file ∈ tree.files, _ ∧ _))

theorem isFolder_iff :
    tree.IsFolder location ↔ ∃ rest bytes, rest ≠ [] ∧ (location ++ rest, bytes) ∈ tree.files := by
  constructor
  · rintro ⟨⟨path, bytes⟩, hfile, ⟨rest, rfl⟩, hne⟩
    refine ⟨rest, bytes, ?_, hfile⟩
    rintro rfl
    exact hne (by simp)
  · rintro ⟨rest, bytes, hrest, hfile⟩
    exact ⟨_, hfile, List.prefix_append location rest, by simpa using hrest⟩

def get? (tree : FileTree) (location : Host.Location) : Option Host.Entry :=
  match tree.files.find? fun file => file.1 = location with
  | some file => some (.file file.2)
  | none => if tree.IsFolder location then some .folder else none

theorem eq_of_mem_files {left right : ByteArray} (hleft : (location, left) ∈ tree.files)
    (hright : (location, right) ∈ tree.files) : left = right := by
  have heq := List.inj_on_of_nodup_map tree.distinct hleft hright rfl
  exact congrArg Prod.snd heq

theorem mem_of_find? {file : Host.Location × ByteArray}
    (hfound : tree.files.find? (fun file => file.1 = location) = some file) :
    file.1 = location ∧ file ∈ tree.files :=
  ⟨by simpa using List.find?_some hfound, List.mem_of_find?_eq_some hfound⟩

theorem get?_of_mem (hfile : (location, bytes) ∈ tree.files) :
    tree.get? location = some (.file bytes) := by
  rw [get?]
  split
  · rename_i file hfound
    obtain ⟨rfl, hmem⟩ := mem_of_find? hfound
    rw [eq_of_mem_files hmem hfile]
  · rename_i hnone
    exact absurd (List.find?_eq_none.mp hnone _ hfile) (by simp)

theorem get?_eq_file_iff :
    tree.get? location = some (.file bytes) ↔ (location, bytes) ∈ tree.files := by
  refine ⟨fun hentry => ?_, get?_of_mem⟩
  rw [get?] at hentry
  split at hentry
  · rename_i file hfound
    obtain ⟨rfl, hmem⟩ := mem_of_find? hfound
    cases hentry
    exact hmem
  · split at hentry <;> cases hentry

theorem get?_eq_folder_iff : tree.get? location = some .folder ↔ tree.IsFolder location := by
  rw [get?]
  split
  · rename_i file hfound
    obtain ⟨rfl, hmem⟩ := mem_of_find? hfound
    refine ⟨fun hentry => (by cases hentry), ?_⟩
    rintro ⟨other, hother, hbegin, hne⟩
    exact absurd (tree.apart file hmem other hother hbegin) hne
  · simp

theorem get?_ne_link (target : String) : tree.get? location ≠ some (.link target) := by
  rw [get?]
  split
  · simp
  · split <;> simp

theorem ordinary_of_isFolder (hfolder : tree.IsFolder location) :
    ∀ name ∈ location, Ordinary name := by
  obtain ⟨rest, bytes, -, hfile⟩ := isFolder_iff.mp hfolder
  exact (List.forall_mem_append.mp (tree.ordinary _ hfile)).1

/-- A path that is listed for a root: that of a file below it that passes a
test, right in it or at any depth. -/
def IsListed (tree : FileTree) (root : Host.Location) (recursive : Bool)
    (test : String → Bool) (path : String) : Prop :=
  ∃ rest bytes, rest ≠ [] ∧ (root ++ rest, bytes) ∈ tree.files ∧
    (recursive = true ∨ rest.length = 1) ∧ path = ofNames (root ++ rest) ∧ test path = true

/-- The paths that are listed for a root, in their order. -/
structure Listing (tree : FileTree) (root : Host.Location) (recursive : Bool)
    (test : String → Bool) (paths : List String) : Prop where
  sorted : paths.Pairwise (· < ·)
  mem_iff : ∀ path, path ∈ paths ↔ tree.IsListed root recursive test path

theorem listing_iff {recursive : Bool} {test : String → Bool} {paths : List String} :
    tree.Listing root recursive test paths ↔ ListingIn tree.get? root recursive test paths := by
  have hlisted (path : String) : IsListedIn tree.get? root recursive test path ↔
      tree.IsListed root recursive test path := by
    rw [IsListedIn, IsListed]
    simp only [get?_eq_file_iff]
  constructor
  · intro hlisting
    exact ⟨hlisting.sorted, fun path => (hlisting.mem_iff path).trans (hlisted path).symm⟩
  · intro hlisting
    exact ⟨hlisting.sorted, fun path => (hlisting.mem_iff path).trans (hlisted path)⟩

theorem Listing.unique {recursive : Bool} {test : String → Bool} {left right : List String}
    (hleft : tree.Listing root recursive test left)
    (hright : tree.Listing root recursive test right) : left = right :=
  (listing_iff.mp hleft).unique (listing_iff.mp hright)

end FileTree

/-- Names of what lies in a corpus: they start with one of its folders. -/
def InCorpus (names : List String) : Prop :=
  ∃ top ∈ Index.tops, [top] <+: names

theorem InCorpus.ne_nil {names : List String} (h : InCorpus names) : names ≠ [] := by
  obtain ⟨top, -, htop⟩ := h
  rintro rfl
  simp at htop

theorem InCorpus.mono {names more : List String} (h : InCorpus names) (hbegin : names <+: more) :
    InCorpus more := by
  obtain ⟨top, htop, hfirst⟩ := h
  exact ⟨top, htop, hfirst.trans hbegin⟩

/-- A corpus shows what lies in the test and harness folders of a tree. -/
structure Corpus.Shows (corpus : Corpus) (tree : FileTree) : Prop where
  listed : ∀ {root : String} {names : List String} (recursive : Bool) (test : String → Bool),
    (∀ name ∈ names, Ordinary name) → InCorpus names → Path.normalize root = ofNames names →
      tree.IsFolder names →
        ∃ paths, corpus.list root recursive test = .ok paths ∧
          tree.Listing names recursive test paths
  missing : ∀ {root : String} {names : List String} (recursive : Bool) (test : String → Bool),
    (∀ name ∈ names, Ordinary name) → InCorpus names → Path.normalize root = ofNames names →
      ¬ tree.IsFolder names →
        corpus.list root recursive test = .error (.notFound (ofNames names))
  read : ∀ {names : List String} {bytes : ByteArray}, (names, bytes) ∈ tree.files →
    InCorpus names → corpus.read (ofNames names) = .ok bytes

end Conformance
