import Conformance.Proofs.Corpus.IndexView

namespace Conformance.Index

variable {index : Index} {folder lead path root : String} {recursive : Bool}
  {test : String → Bool}

/-- A path that a listing of a folder shows: behind the lead of the folder, there is no
further slash in it unless folders in the folder count. -/
structure Shows (index : Index) (folder : String) (recursive : Bool) (test : String → Bool)
    (path : String) : Prop where
  file : path ∈ index.files
  below : ∃ rest, path = leadOf folder ++ rest ∧ (recursive = true ∨ '/' ∉ rest.toList)
  passes : test path = true

theorem isDirectlyBelow_iff :
    isDirectlyBelow lead path = true ↔ ∃ rest, path = lead ++ rest ∧ '/' ∉ rest.toList := by
  rw [isDirectlyBelow]
  split
  · rename_i rest hstrip
    obtain rfl := Text.stripStart?_eq_some_iff.mp hstrip
    constructor
    · intro hno
      exact ⟨rest, rfl, by simpa using hno⟩
    · rintro ⟨other, hother, hno⟩
      obtain rfl := (String.append_right_inj lead).mp hother
      simpa using hno
  · rename_i hstrip
    refine ⟨fun hfalse => (by cases hfalse), ?_⟩
    rintro ⟨rest, hrest, -⟩
    rw [Text.stripStart?_eq_some_iff.mpr hrest] at hstrip
    cases hstrip

theorem shows_iff : index.Shows folder recursive test path ↔
    path ∈ index.startingWith (leadOf folder) ∧
      (recursive || isDirectlyBelow (leadOf folder) path) = true ∧ test path = true := by
  rw [startingWith_eq_filter, List.mem_filter, Std.TreeMap.mem_keys, Bool.or_eq_true,
    isDirectlyBelow_iff, Text.startsWith_iff]
  constructor
  · rintro ⟨hfile, ⟨rest, rfl, hdepth⟩, htest⟩
    refine ⟨⟨hfile, ?_⟩, hdepth.imp_right fun hno => ⟨rest, rfl, hno⟩, htest⟩
    rw [String.toList_append]
    exact List.prefix_append _ _
  · rintro ⟨⟨hfile, more, hmore⟩, hdepth, htest⟩
    have hpath : path = leadOf folder ++ String.ofList more :=
      String.toList_injective (by simp [hmore])
    refine ⟨hfile, ⟨_, hpath, ?_⟩, htest⟩
    refine hdepth.imp_right ?_
    rintro ⟨rest, hrest, hno⟩
    rwa [← (String.append_right_inj _).mp (hrest.symm.trans hpath)]

/-- What is listed for a folder stands in the order of its bytes, each path once. -/
structure Lists (index : Index) (folder : String) (recursive : Bool) (test : String → Bool)
    (paths : List String) : Prop where
  sorted : paths.Pairwise fun left right => Text.bytesOf left < Text.bytesOf right
  mem_iff : ∀ path, path ∈ paths ↔ index.Shows folder recursive test path

theorem Lists.pairwise {paths : List String} (h : index.Lists folder recursive test paths) :
    paths.Pairwise (· < ·) :=
  h.sorted.imp Text.bytesOf_lt_iff.mp

theorem Lists.unique {left right : List String} (hleft : index.Lists folder recursive test left)
    (hright : index.Lists folder recursive test right) : left = right := by
  refine hleft.pairwise.eq_of_mem_iff hright.pairwise fun path => ?_
  rw [hleft.mem_iff, hright.mem_iff]

theorem lists_filter : index.Lists folder recursive test
    ((index.startingWith (leadOf folder)).filter fun path =>
      (recursive || isDirectlyBelow (leadOf folder) path) && test path) where
  sorted := by
    rw [startingWith_eq_filter]
    exact (((keys_pairwise index.files).filter _).filter _).imp Text.bytesOf_lt_iff.mpr
  mem_iff path := by
    rw [List.mem_filter, Bool.and_eq_true, shows_iff]

/-- A folder that is not the root has to be there. -/
def Lacks (index : Index) (folder : String) : Prop :=
  folder ≠ "" ∧ folder ∉ index.directories

theorem list_of_lacks (h : index.Lacks (Path.normalize root)) :
    index.list root recursive test = .error (.notFound (Path.normalize root)) := by
  have hempty : (Path.normalize root).isEmpty = false := by simpa using h.1
  have hmissing : index.directories.contains (Path.normalize root) = false := by
    simpa [← Std.TreeSet.contains_iff_mem] using h.2
  rw [list, hempty, hmissing]
  rfl

theorem exists_list_of_not_lacks (h : ¬ index.Lacks (Path.normalize root)) (recursive : Bool)
    (test : String → Bool) :
    ∃ paths, index.list root recursive test = .ok paths ∧
      index.Lists (Path.normalize root) recursive test paths := by
  refine ⟨_, ?_, lists_filter⟩
  rw [Lacks, not_and_or, not_not, not_not] at h
  have hthere : (!(Path.normalize root).isEmpty &&
      !index.directories.contains (Path.normalize root)) = false := by
    rcases h with hempty | hmem
    · simp [hempty]
    · simp [hmem]
  simp only [list, hthere, Bool.false_eq_true, if_false]

theorem list_scan (index : Index) (root : String) (recursive : Bool) (test : String → Bool) :
    (∀ error, index.list root recursive test = .error error ↔
      index.Lacks (Path.normalize root) ∧ error = .notFound (Path.normalize root)) ∧
    (∀ paths, index.list root recursive test = .ok paths ↔
      ¬ index.Lacks (Path.normalize root) ∧
        index.Lists (Path.normalize root) recursive test paths) := by
  by_cases hlacks : index.Lacks (Path.normalize root)
  · rw [list_of_lacks hlacks]
    refine ⟨fun error => ?_, fun paths => ?_⟩
    · constructor
      · rintro ⟨⟩
        exact ⟨hlacks, rfl⟩
      · rintro ⟨-, rfl⟩
        rfl
    · exact ⟨fun h => (by cases h), fun h => absurd hlacks h.1⟩
  · obtain ⟨shown, hlist, hshown⟩ := exists_list_of_not_lacks hlacks recursive test
    rw [hlist]
    refine ⟨fun error => ?_, fun paths => ?_⟩
    · exact ⟨fun h => (by cases h), fun h => absurd h.1 hlacks⟩
    · constructor
      · rintro ⟨⟩
        exact ⟨hlacks, hshown⟩
      · rintro ⟨-, hpaths⟩
        rw [hshown.unique hpaths]

end Conformance.Index
