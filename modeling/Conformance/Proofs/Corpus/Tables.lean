import Conformance.Corpus.Index
import Conformance.Proofs.Path.Segments
import Mathlib.Data.List.Induction
import Mathlib.Data.String.Basic

namespace Conformance.Index

/-! What the tables of an archive hold: of each path the last file entry, and
the folders that are listed or that something lies in. -/

/-- Of the folders around a path, none is there without those around it. -/
def IsClosed (directories : Std.TreeSet String) (path : List Char) : Prop :=
  ∀ front, Path.within front path = true → directories.contains (.ofList front) = true →
    ∀ outer, outer ≠ [] → Path.within outer front = true →
      directories.contains (.ofList outer) = true

theorem contains_insert_iff {directories : Std.TreeSet String} {path text : List Char} :
    (directories.insert (.ofList path)).contains (.ofList text) = true ↔
      path = text ∨ directories.contains (.ofList text) = true := by
  rw [Std.TreeSet.contains_insert, Bool.or_eq_true, beq_iff_eq,
    Std.LawfulEqCmp.compare_eq_iff_eq, String.ofList_inj]

theorem isClosed_insert {directories : Std.TreeSet String} {path parent : List Char}
    (hclosed : IsClosed directories path) (hparent : Path.parent? path = some parent) :
    IsClosed (directories.insert (.ofList path)) parent := by
  intro front hfront hcontains outer houter hwithin
  rw [contains_insert_iff] at hcontains ⊢
  have hpath : Path.within front path = true :=
    (Path.within_of_parent? hparent).mpr (.inr hfront)
  rcases hcontains with rfl | hcontains
  · exact absurd rfl ((Path.within_parent_iff hparent).mp hfront).2
  · exact .inr (hclosed front hpath hcontains outer houter hwithin)

theorem contains_addFolder_iff {directories : Std.TreeSet String} {path : List Char}
    (folder : List Char) (hclosed : IsClosed directories path) :
    (addFolder path directories).contains (.ofList folder) = true ↔
      directories.contains (.ofList folder) = true ∨
        folder ≠ [] ∧ Path.within folder path = true := by
  fun_induction addFolder path directories with
  | case1 path directories text hstop =>
      refine ⟨.inl, ?_⟩
      rintro (hcontains | ⟨hne, hwithin⟩)
      · exact hcontains
      · rw [Bool.or_eq_true] at hstop
        rcases hstop with hempty | hthere
        · rw [List.isEmpty_iff] at hempty
          subst hempty
          rcases Path.within_iff.mp hwithin with rfl | ⟨rest, hrest⟩
          · contradiction
          · simp at hrest
        · refine hclosed path ?_ hthere folder hne hwithin
          exact Path.within_iff.mpr (.inl rfl)
  | case2 path directories text hgo hparent =>
      have hne : path ≠ [] := by
        rintro rfl
        simp at hgo
      rw [contains_insert_iff, Path.within_of_parent?_eq_none hparent]
      constructor
      · rintro (rfl | hthere)
        · exact .inr ⟨hne, rfl⟩
        · exact .inl hthere
      · rintro (hthere | ⟨-, rfl⟩)
        · exact .inr hthere
        · exact .inl rfl
  | case3 path directories text hgo parent hparent ih =>
      rw [ih (isClosed_insert hclosed hparent), contains_insert_iff,
        Path.within_of_parent? hparent]
      have hne : path ≠ [] := by
        rintro rfl
        simp at hgo
      constructor
      · rintro ((rfl | hthere) | ⟨hfolder, hwithin⟩)
        · exact .inr ⟨hne, .inl rfl⟩
        · exact .inl hthere
        · exact .inr ⟨hfolder, .inr hwithin⟩
      · rintro (hthere | ⟨hfolder, rfl | hwithin⟩)
        · exact .inl (.inr hthere)
        · exact .inl (.inl rfl)
        · exact .inr ⟨hfolder, hwithin⟩

def IsFileEntry (lead : String) (entry : String × Bool) (path : String) : Prop :=
  entry.2 = false ∧ corpusPath? lead entry.1 = some path

/-- An entry makes the folders around it and, if it is one, itself. -/
def MakesFolder (lead : String) (entry : String × Bool) (folder : String) : Prop :=
  folder ≠ "" ∧ ∃ path, corpusPath? lead entry.1 = some path ∧
    Path.within folder.toList path.toList = true ∧ (entry.2 = false → folder ≠ path)

/-- The number of the last file entry for a path. -/
def IsLastFile (lead : String) (listed : List (String × Bool)) (path : String)
    (number : Nat) : Prop :=
  (∃ entry, listed[number]? = some entry ∧ IsFileEntry lead entry path) ∧
    ∀ later entry, number < later → listed[later]? = some entry →
      ¬ IsFileEntry lead entry path

/-- Tables hold what some entries say. -/
structure Tables.Hold (tables : Tables) (lead : String) (listed : List (String × Bool)) :
    Prop where
  files : ∀ path number,
    tables.files[path]? = some number ↔ IsLastFile lead listed path number
  directories : ∀ folder,
    tables.directories.contains folder = true ↔ ∃ entry ∈ listed, MakesFolder lead entry folder

variable {lead : String} {listed : List (String × Bool)} {tables : Tables}

theorem isLastFile_append_of_isFileEntry {entry : String × Bool} {path : String}
    (hentry : IsFileEntry lead entry path) (number : Nat) :
    IsLastFile lead (listed ++ [entry]) path number ↔ number = listed.length := by
  constructor
  · rintro ⟨⟨other, hother, -⟩, hlater⟩
    have hbound := (List.getElem?_eq_some_iff.mp hother).1
    rw [List.length_append, List.length_singleton] at hbound
    by_contra hne
    exact hlater listed.length entry (by omega) List.getElem?_concat_length hentry
  · rintro rfl
    refine ⟨⟨entry, List.getElem?_concat_length, hentry⟩, ?_⟩
    intro later other hlater hother
    have hbound := (List.getElem?_eq_some_iff.mp hother).1
    rw [List.length_append, List.length_singleton] at hbound
    omega

theorem isLastFile_append_of_not {entry : String × Bool} {path : String}
    (hentry : ¬ IsFileEntry lead entry path) (number : Nat) :
    IsLastFile lead (listed ++ [entry]) path number ↔ IsLastFile lead listed path number := by
  have hwhole : ∀ {number : Nat} {other : String × Bool}, IsFileEntry lead other path →
      ((listed ++ [entry])[number]? = some other ↔ listed[number]? = some other) := by
    intro number other hfile
    by_cases hbound : number < listed.length
    · rw [List.getElem?_append_left hbound]
    · rw [List.getElem?_append_right (by omega),
        List.getElem?_eq_none (by omega : listed.length ≤ number)]
      constructor
      · intro hother
        have hmem := List.mem_of_getElem? hother
        rw [List.mem_singleton] at hmem
        exact absurd (hmem ▸ hfile) hentry
      · intro hother
        cases hother
  constructor
  · rintro ⟨⟨other, hother, hfile⟩, hlater⟩
    refine ⟨⟨other, (hwhole hfile).mp hother, hfile⟩, ?_⟩
    intro later another hless hanother hfile'
    exact hlater later another hless ((hwhole hfile').mpr hanother) hfile'
  · rintro ⟨⟨other, hother, hfile⟩, hlater⟩
    refine ⟨⟨other, (hwhole hfile).mpr hother, hfile⟩, ?_⟩
    intro later another hless hanother hfile'
    exact hlater later another hless ((hwhole hfile').mp hanother) hfile'

theorem exists_isLastFile {path : String} {entry : String × Bool} (hmem : entry ∈ listed)
    (hentry : IsFileEntry lead entry path) : ∃ number, IsLastFile lead listed path number := by
  induction listed using List.reverseRecOn with
  | nil => cases hmem
  | append_singleton listed last ih =>
      by_cases hlast : IsFileEntry lead last path
      · exact ⟨listed.length, (isLastFile_append_of_isFileEntry hlast _).mpr rfl⟩
      · rcases List.mem_append.mp hmem with hmem | hmem
        · obtain ⟨number, hnumber⟩ := ih hmem
          exact ⟨number, (isLastFile_append_of_not hlast number).mpr hnumber⟩
        · rw [List.mem_singleton] at hmem
          exact absurd (hmem ▸ hentry) hlast

namespace Tables

theorem Hold.isClosed (hhold : tables.Hold lead listed) (path : List Char) :
    IsClosed tables.directories path := by
  intro front _ hcontains outer houter hwithin
  rw [hhold.directories] at hcontains ⊢
  obtain ⟨entry, hentry, hne, whole, hwhole, hfront, hfile⟩ := hcontains
  rw [String.toList_ofList] at hfront
  refine ⟨entry, hentry, by simpa using houter, whole, hwhole, ?_, ?_⟩
  · rw [String.toList_ofList]
    exact Path.within_trans hwithin hfront
  · rintro hplain rfl
    refine hfile hplain ?_
    rw [String.toList_ofList] at hfront
    rw [Path.within_antisymm hfront hwithin]

theorem Hold.contains_addFolder_iff (hhold : tables.Hold lead listed) (path : List Char)
    (folder : String) :
    (addFolder path tables.directories).contains folder = true ↔
      (∃ entry ∈ listed, MakesFolder lead entry folder) ∨
        folder ≠ "" ∧ Path.within folder.toList path = true := by
  have hadd := Index.contains_addFolder_iff folder.toList (hhold.isClosed path)
  rw [String.ofList_toList, hhold.directories] at hadd
  simpa using hadd

theorem Hold.add (hhold : tables.Hold lead listed) (entry : String × Bool) :
    (tables.add lead listed.length entry.1 entry.2).Hold lead (listed ++ [entry]) := by
  have hdirectories : ∀ folder, (∃ other ∈ listed ++ [entry], MakesFolder lead other folder) ↔
      (∃ other ∈ listed, MakesFolder lead other folder) ∨ MakesFolder lead entry folder := by
    intro folder
    simp [or_and_right, exists_or]
  unfold Tables.add
  split
  · rename_i hnone
    refine ⟨fun path number => ?_, fun folder => ?_⟩
    · rw [isLastFile_append_of_not (by simp [IsFileEntry, hnone])]
      exact hhold.files path number
    · rw [hdirectories, hhold.directories]
      simp [MakesFolder, hnone]
  · rename_i path hsome
    split
    · rename_i hfolder
      refine ⟨fun other number => ?_, fun folder => ?_⟩
      · rw [isLastFile_append_of_not (by simp [IsFileEntry, hfolder])]
        exact hhold.files other number
      · rw [hdirectories, hhold.contains_addFolder_iff]
        simp [MakesFolder, hsome, hfolder]
    · rename_i hfile
      refine ⟨fun other number => ?_, fun folder => ?_⟩
      · rw [Std.TreeMap.getElem?_insert]
        simp only [Std.LawfulEqCmp.compare_eq_iff_eq]
        split
        · rename_i heq
          subst heq
          rw [isLastFile_append_of_isFileEntry (by simp [IsFileEntry, hfile, hsome]),
            Option.some.injEq, eq_comm]
        · rename_i hne
          rw [isLastFile_append_of_not (by simp [IsFileEntry, hsome, hne])]
          exact hhold.files other number
      · have hmakes : MakesFolder lead entry folder ↔ folder ≠ "" ∧
            Path.within folder.toList path.toList = true ∧ folder.toList ≠ path.toList := by
          simp [MakesFolder, hsome, hfile, String.toList_inj]
        rw [hdirectories, hmakes]
        dsimp only
        split
        · rename_i hparent
          rw [hhold.directories, Path.within_of_parent?_eq_none hparent]
          simp
        · rename_i parent hparent
          rw [hhold.contains_addFolder_iff, Path.within_parent_iff hparent]

end Tables

theorem Tables.Hold.mem_files_iff (hhold : tables.Hold lead listed) {path : String} :
    path ∈ tables.files ↔ ∃ entry ∈ listed, IsFileEntry lead entry path := by
  rw [Std.TreeMap.mem_iff_isSome_getElem?, Option.isSome_iff_exists]
  simp only [hhold.files]
  constructor
  · rintro ⟨number, ⟨entry, hentry, hfile⟩, -⟩
    exact ⟨entry, List.mem_of_getElem? hentry, hfile⟩
  · rintro ⟨entry, hentry, hfile⟩
    exact exists_isLastFile hentry hfile

theorem Tables.Hold.mem_directories_of_isFileEntry (hhold : tables.Hold lead listed)
    {entry : String × Bool} {path folder : String} (hentry : entry ∈ listed)
    (hfile : IsFileEntry lead entry path) (hne : folder ≠ "")
    (hwithin : Path.isWithin folder path = true) (hdiffer : folder ≠ path) :
    folder ∈ tables.directories := by
  rw [Std.TreeSet.mem_iff_contains, hhold.directories]
  exact ⟨entry, hentry, hne, path, hfile.2, hwithin, fun _ => hdiffer⟩

theorem hold_tablesOf (lead : String) (listed : List (String × Bool)) :
    (tablesOf lead listed).Hold lead listed := by
  induction listed using List.reverseRecOn with
  | nil =>
      refine ⟨fun path number => ?_, fun folder => ?_⟩
      · simp [tablesOf, IsLastFile]
      · simp [tablesOf]
  | append_singleton listed entry ih =>
      have hstep : tablesOf lead (listed ++ [entry]) =
          (tablesOf lead listed).add lead listed.length entry.1 entry.2 := by
        simp [tablesOf, List.zipIdx_append]
      rw [hstep]
      exact ih.add entry

end Conformance.Index
