import Conformance.Proofs.Corpus.Loading

namespace Conformance

/-! The errors of files. What is wrong with the text of a file concerns that file alone; what a
corpus says of a file that it cannot read need not. -/

theorem Zip.Entry.isPerFile_of_read {entry : Entry} {error : Error}
    (h : entry.read = .error error) : error.isPerFile = false := by
  rw [read] at h
  split at h
  · cases h
    rfl
  · rename_i held hopened
    cases held with
    | ok bytes => cases h
    | error fault =>
        cases h
        rfl

namespace Stream

variable {corpus : Corpus} {stream : Stream} {path : String} {expand : Bool} {error : Error}

theorem load_of_read (h : corpus.read path = .error error) :
    load corpus expand path = .error error := by
  simp [load, h, bind, Except.bind]

theorem error_of_load (h : load corpus expand path = .error error) :
    corpus.read path = .error error ∨
      (∃ bytes, corpus.read path = .ok bytes) ∧
        ∃ problem, error = .format (Path.normalize path) problem := by
  cases hread : corpus.read path with
  | error other =>
      rw [load_of_read hread] at h
      cases h
      exact .inl rfl
  | ok bytes =>
      refine .inr ⟨⟨bytes, rfl⟩, ?_⟩
      cases hcases : Case.read bytes path expand with
      | ok cases => simp [load, hread, hcases, bind, Except.bind, Except.mapError] at h
      | error problem =>
          refine ⟨problem, ?_⟩
          simpa [load, hread, hcases, bind, Except.bind, Except.mapError, eq_comm] using h

theorem forall_load_iff (corpus : Corpus) (expand : Bool) (path : String) :
    (∀ error, load corpus expand path = .error error → error.isPerFile = true) ↔
      ∀ error, corpus.read path = .error error → error.isPerFile = true := by
  constructor
  · intro h error hread
    exact h error (load_of_read hread)
  · intro h error hload
    rcases error_of_load hload with hread | ⟨-, problem, rfl⟩
    · exact h error hread
    · rfl

theorem error_mem_fileItems_iff :
    .error error ∈ stream.fileItems path ↔
      load stream.corpus stream.options.expandStrict path = .error error := by
  rw [fileItems]
  cases load stream.corpus stream.options.expandStrict path with
  | error other => simp [eq_comm]
  | ok cases => simp

theorem error_mem_directoryItems_iff {subDirectory : String} :
    .error error ∈ stream.directoryItems subDirectory ↔
      stream.corpus.list (rootOf subDirectory) true isTestFile = .error error ∨
        ∃ path ∈ stream.filesOf subDirectory,
          load stream.corpus stream.options.expandStrict path = .error error := by
  rw [directoryItems, filesOf]
  cases stream.corpus.list (rootOf subDirectory) true isTestFile with
  | error other => simp [eq_comm]
  | ok paths => simp [error_mem_fileItems_iff]

/-- The errors that a listing passes over. -/
def PassesErrors (items : List Item) : Prop :=
  ∀ error, .error error ∈ items → error.isPerFile = true

/-- Where a folder that cannot be listed stops nothing, a stream passes its errors unless one
of its files cannot be read for another reason than its own. -/
theorem passesErrors_items_iff
    (hlist : ∀ root error, stream.corpus.list root true isTestFile = .error error →
      error.isPerFile = true) :
    PassesErrors stream.items ↔
      ∀ path ∈ stream.options.subDirectories.flatMap stream.filesOf,
        ∀ error, stream.corpus.read path = .error error → error.isPerFile = true := by
  simp only [← forall_load_iff stream.corpus stream.options.expandStrict]
  constructor
  · intro h path hpath error hload
    obtain ⟨subDirectory, hsub, hpath⟩ := List.mem_flatMap.mp hpath
    apply h error
    exact List.mem_flatMap.mpr
      ⟨subDirectory, hsub, error_mem_directoryItems_iff.mpr (.inr ⟨path, hpath, hload⟩)⟩
  · intro h error hmem
    obtain ⟨subDirectory, hsub, hmem⟩ := List.mem_flatMap.mp hmem
    rcases error_mem_directoryItems_iff.mp hmem with hfails | ⟨path, hpath, hload⟩
    · exact hlist _ error hfails
    · exact h path (List.mem_flatMap.mpr ⟨subDirectory, hsub, hpath⟩) error hload

end Stream

namespace Index

variable {archive : Zip.Archive} {root : String} {index : Index} {options : StreamOptions}

theorem isPerFile_of_list {asked : String} {recursive : Bool} {test : String → Bool}
    {error : Error} (h : index.list asked recursive test = .error error) :
    error.isPerFile = true := by
  rw [list] at h
  split at h
  · cases h
    rfl
  · cases h

theorem mem_files_of_list {asked : String} {recursive : Bool} {test : String → Bool}
    {paths : List String} (h : index.list asked recursive test = .ok paths) {path : String}
    (hpath : path ∈ paths) : path ∈ index.files := by
  rw [list] at h
  split at h
  · cases h
  · rw [Except.ok.injEq] at h
    rw [← h, startingWith_eq_filter] at hpath
    exact Std.TreeMap.mem_keys.mp (List.mem_of_mem_filter (List.mem_of_mem_filter hpath))

theorem Knows.passesErrors_iff (hknows : index.Knows archive root) :
    Stream.PassesErrors (Stream.items ⟨index.toCorpus, options⟩) ↔
      ∀ path ∈ options.subDirectories.flatMap (Stream.filesOf ⟨index.toCorpus, options⟩),
        ∃ bytes, index.toCorpus.read path = .ok bytes := by
  rw [Stream.passesErrors_items_iff fun asked error => by
    rw [list_toCorpus]
    exact isPerFile_of_list]
  refine forall₂_congr fun path hpath => ?_
  obtain ⟨subDirectory, -, hlisted⟩ := List.mem_flatMap.mp hpath
  obtain ⟨paths, hpaths, hmem⟩ := Stream.mem_filesOf_iff_exists.mp hlisted
  rw [list_toCorpus] at hpaths
  obtain ⟨number, entry, -, -, hread⟩ := hknows.exists_entry (mem_files_of_list hpaths hmem)
  dsimp only
  rw [hread]
  cases hbytes : entry.read with
  | ok bytes => simp
  | error error =>
      have hfatal := Zip.Entry.isPerFile_of_read hbytes
      simp [hfatal]

end Index

namespace Directory

variable {directory : Directory} {options : StreamOptions}

theorem list_toCorpus (directory : Directory) : directory.toCorpus.list = directory.list := by
  rw [toCorpus]

theorem read_toCorpus (directory : Directory) : directory.toCorpus.read = directory.read := by
  rw [toCorpus]

theorem notFound_of_locate {path : String} {error : Error}
    (h : directory.locate path = .error error) : error = .notFound (Path.normalize path) := by
  rw [locate] at h
  split at h
  · cases h
  · cases h
    rfl

theorem isPerFile_of_list {asked : String} {recursive : Bool} {test : String → Bool}
    {error : Error} (h : directory.list asked recursive test = .error error) :
    error.isPerFile = true := by
  rw [list] at h
  cases hlocate : directory.locate asked with
  | error other =>
      rw [hlocate] at h
      cases h
      rw [notFound_of_locate hlocate]
      rfl
  | ok folder =>
      rw [hlocate] at h
      simp only [bind, Except.bind] at h
      split at h
      · cases h
      · cases h
        rfl

theorem error_of_read {path : String} {error : Error} (h : directory.read path = .error error) :
    error = .notFound (Path.normalize path) ∨ ∃ fault, error = .host fault := by
  rw [read] at h
  cases hlocate : directory.locate path with
  | error other =>
      rw [hlocate] at h
      cases h
      exact .inl (notFound_of_locate hlocate)
  | ok target =>
      rw [hlocate] at h
      simp only [bind, Except.bind] at h
      split at h
      · cases h
        exact .inl rfl
      · split at h
        · cases h
        · cases h
          exact .inl rfl
        · cases h
          exact .inr ⟨_, rfl⟩

theorem passesErrors_iff :
    Stream.PassesErrors (Stream.items ⟨directory.toCorpus, options⟩) ↔
      ∀ path ∈ options.subDirectories.flatMap (Stream.filesOf ⟨directory.toCorpus, options⟩),
        ∀ fault, directory.toCorpus.read path ≠ .error (.host fault) := by
  rw [Stream.passesErrors_items_iff fun asked error => by
    rw [list_toCorpus]
    exact isPerFile_of_list]
  refine forall₂_congr fun path hpath => ?_
  dsimp only
  rw [read_toCorpus]
  constructor
  · intro h fault hread
    cases h _ hread
  · intro h error hread
    rcases error_of_read hread with rfl | ⟨fault, rfl⟩
    · rfl
    · exact absurd hread (h fault)

end Directory

end Conformance
