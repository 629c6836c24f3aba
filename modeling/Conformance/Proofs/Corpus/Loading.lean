import Conformance.Proofs.Case.Acceptance
import Conformance.Proofs.Corpus.Indexing
import Conformance.Proofs.Corpus.Operations

namespace Conformance

open Conformance.Path (Below Apart)

/-! A walk through folders of an archive that lie apart loads each test file below them once,
and tells the cases of a file from those of all others. -/

namespace Case

theorem identities_variants (expand : Bool) {base : Case} (hplain : base.strict = false) :
    ((variants expand base).map identity).Nodup := by
  unfold variants
  split
  · simp
  · split
    · simp
    · split
      · simp
      · simp [identity, hplain]

end Case

namespace Stream

variable {corpus : Corpus} {stream : Stream} {path : String} {expand : Bool}
  {cases : List Case}

/-- What the files are called that are loaded. -/
structure IsTest (path : String) : Prop where
  script : ∃ stem, path = stem ++ ".js"
  plain : ∀ front part rest, path = front ++ part ++ rest →
    Text.asciiLowercase part ≠ "_fixture"

theorem isTestFile_iff : isTestFile path = true ↔ IsTest path := by
  rw [isTestFile, Bool.and_eq_true, Bool.not_eq_true', ← Bool.not_eq_true, Text.endsWith_iff,
    Text.contains_asciiLowercase_iff]
  push Not
  constructor
  · rintro ⟨hscript, hplain⟩
    exact ⟨hscript, hplain⟩
  · rintro ⟨hscript, hplain⟩
    exact ⟨hscript, hplain⟩

instance : DecidablePred IsTest := fun _ => decidable_of_iff _ isTestFile_iff

theorem exists_base_of_load (h : load corpus expand path = .ok cases) :
    ∃ base : Case, base.fileName = Path.normalize path ∧ base.strict = false ∧
      cases = Case.variants expand base := by
  cases hread : corpus.read path with
  | error error => simp [load, hread, bind, Except.bind] at h
  | ok bytes =>
      cases hdecode : Case.decode bytes with
      | error problem =>
          simp [load, Case.read, hread, hdecode, bind, Except.bind, Except.mapError] at h
      | ok text =>
          rw [load_of_decode hread hdecode, casesOf_eq_ok_iff] at h
          obtain ⟨mapping, metadata, -, hdescribes, rfl⟩ := h
          exact ⟨⟨metadata, text, false⟩, hdescribes.fileName, rfl, rfl⟩

/-- The items of a file by its bytes: those of its cases that the filter accepts, or what is
wrong with it. -/
def itemsRead (options : StreamOptions) (path : String) : Except Error ByteArray → List Item
  | .error error => [.error error]
  | .ok bytes =>
    match Case.read bytes path options.expandStrict with
    | .error problem => [.error (.format path problem)]
    | .ok cases => (cases.filter options.filter).map .ok

theorem fileItems_eq_itemsRead (stream : Stream) (hnormal : Path.normalize path = path) :
    stream.fileItems path = itemsRead stream.options path (stream.corpus.read path) := by
  rw [fileItems, load, hnormal]
  cases stream.corpus.read path with
  | error error => rfl
  | ok bytes =>
      simp only [bind, Except.bind, itemsRead]
      cases Case.read bytes path stream.options.expandStrict <;> rfl

def casesIn (stream : Stream) (path : String) : List Case :=
  (stream.fileItems path).filterMap Except.toOption

theorem casesIn_eq (stream : Stream) (path : String) :
    stream.casesIn path = [] ∨
      ∃ base : Case, base.fileName = Path.normalize path ∧ base.strict = false ∧
        stream.casesIn path =
          (Case.variants stream.options.expandStrict base).filter stream.options.filter := by
  rw [casesIn, fileItems]
  cases hload : load stream.corpus stream.options.expandStrict path with
  | error error => exact .inl rfl
  | ok cases =>
      obtain ⟨base, hname, hplain, rfl⟩ := exists_base_of_load hload
      refine .inr ⟨base, hname, hplain, ?_⟩
      rw [List.filterMap_map]
      exact List.filterMap_some

theorem fileName_of_mem_casesIn {case : Case} (h : case ∈ stream.casesIn path) :
    case.fileName = Path.normalize path := by
  rcases casesIn_eq stream path with hnone | ⟨base, hname, -, heq⟩
  · rw [hnone] at h
    cases h
  · rw [heq] at h
    rw [Case.fileName, metadata_of_mem_variants (List.mem_of_mem_filter h)]
    exact hname

theorem identities_casesIn (stream : Stream) (path : String) :
    ((stream.casesIn path).map Case.identity).Nodup := by
  rcases casesIn_eq stream path with hnone | ⟨base, -, hplain, heq⟩
  · simp [hnone]
  · rw [heq]
    exact (Case.identities_variants _ hplain).sublist (List.filter_sublist.map _)

theorem identities_nodup (stream : Stream) {paths : List String} (hnodup : paths.Nodup)
    (hnormal : ∀ path ∈ paths, Path.normalize path = path) :
    (((paths.flatMap stream.fileItems).filterMap Except.toOption).map Case.identity).Nodup := by
  have hfiles : (paths.flatMap stream.fileItems).filterMap Except.toOption =
      paths.flatMap stream.casesIn := List.filterMap_flatMap
  rw [hfiles, List.map_flatMap, List.nodup_flatMap]
  refine ⟨fun path _ => identities_casesIn stream path, ?_⟩
  apply hnodup.imp_of_mem
  intro left right hleft hright hne identity hinLeft hinRight
  obtain ⟨first, hfirst, rfl⟩ := List.mem_map.mp hinLeft
  obtain ⟨second, hsecond, hsame⟩ := List.mem_map.mp hinRight
  have hname : second.fileName = first.fileName := congrArg Prod.fst hsame
  rw [fileName_of_mem_casesIn hfirst, fileName_of_mem_casesIn hsecond, hnormal left hleft,
    hnormal right hright] at hname
  exact hne hname.symm

end Stream

def StreamOptions.roots (options : StreamOptions) : List String :=
  options.subDirectories.map fun subDirectory => Path.normalize (Stream.rootOf subDirectory)

namespace Index

variable {archive : Zip.Archive} {rootName root subDirectory : String} {index : Index}

theorem Knows.ofArchive (hmade : Index.ofArchive archive rootName = .ok index) :
    index.Knows archive (Path.normalize rootName) := by
  have hreadable : faultOf? archive = none := by
    rw [Index.ofArchive] at hmade
    split at hmade
    · cases hmade
    · assumption
  rw [ofArchive_eq hreadable] at hmade
  split at hmade
  · cases hmade
    exact ⟨rfl, hold_tablesOf _ _⟩
  · cases hmade

namespace Knows

theorem ne_empty_of_mem_directories (hknows : index.Knows archive root) {folder : String}
    (hthere : folder ∈ index.directories) : folder ≠ "" := by
  rw [Std.TreeSet.mem_iff_contains] at hthere
  obtain ⟨entry, -, hne, -⟩ := (hknows.tables.directories folder).mp hthere
  exact hne

variable {options : StreamOptions}

theorem list_eq (hknows : index.Knows archive root)
    (hthere : Path.normalize (Stream.rootOf subDirectory) ∈ index.directories) :
    index.list (Stream.rootOf subDirectory) true Stream.isTestFile =
      .ok ((index.files.keys.filter (Text.startsWith
        (Path.normalize (Stream.rootOf subDirectory) ++ "/"))).filter Stream.isTestFile) := by
  have hne := hknows.ne_empty_of_mem_directories hthere
  have hlead : leadOf (Path.normalize (Stream.rootOf subDirectory)) =
      Path.normalize (Stream.rootOf subDirectory) ++ "/" := if_neg (by simpa using hne)
  simp [list, hthere, hlead, startingWith_eq_filter]

theorem filesOf_eq (hknows : index.Knows archive root)
    (hthere : Path.normalize (Stream.rootOf subDirectory) ∈ index.directories) :
    Stream.filesOf ⟨index.toCorpus, options⟩ subDirectory =
      (index.files.keys.filter (Text.startsWith
        (Path.normalize (Stream.rootOf subDirectory) ++ "/"))).filter Stream.isTestFile := by
  rw [Stream.filesOf, list_toCorpus, hknows.list_eq hthere]

theorem mem_filesOf_iff (hknows : index.Knows archive root)
    (hthere : Path.normalize (Stream.rootOf subDirectory) ∈ index.directories) {path : String} :
    path ∈ Stream.filesOf ⟨index.toCorpus, options⟩ subDirectory ↔
      path ∈ index.files ∧ Stream.IsTest path ∧
        Below (Path.normalize (Stream.rootOf subDirectory)) path := by
  rw [hknows.filesOf_eq hthere, List.mem_filter, List.mem_filter, Std.TreeMap.mem_keys,
    Stream.isTestFile_iff, Path.startsWith_slash_iff, and_assoc, and_comm (a := Below _ _)]

theorem nodup_loaded (hknows : index.Knows archive root)
    (hthere : ∀ folder ∈ options.roots, folder ∈ index.directories)
    (hapart : options.roots.Pairwise Apart) :
    (options.subDirectories.flatMap (Stream.filesOf ⟨index.toCorpus, options⟩)).Nodup := by
  rw [StreamOptions.roots, List.forall_mem_map] at hthere
  rw [StreamOptions.roots, List.pairwise_map] at hapart
  rw [List.nodup_flatMap]
  refine ⟨fun subDirectory hmem => ?_, ?_⟩
  · rw [hknows.filesOf_eq (hthere subDirectory hmem)]
    have hkeys : index.files.keys.Nodup := (keys_pairwise index.files).imp ne_of_lt
    exact (hkeys.filter _).filter _
  · apply hapart.imp_of_mem
    intro left right hleft hright hfar path hinLeft hinRight
    rw [hknows.mem_filesOf_iff (hthere left hleft)] at hinLeft
    rw [hknows.mem_filesOf_iff (hthere right hright)] at hinRight
    exact hfar.not_both hinLeft.2.2 hinRight.2.2

theorem items_eq (hknows : index.Knows archive root)
    (hthere : ∀ folder ∈ options.roots, folder ∈ index.directories) :
    Stream.items ⟨index.toCorpus, options⟩ =
      (options.subDirectories.flatMap (Stream.filesOf ⟨index.toCorpus, options⟩)).flatMap
        (Stream.fileItems ⟨index.toCorpus, options⟩) := by
  apply Stream.items_eq_flatMap
  intro subDirectory hmem
  have hlist := hknows.list_eq (List.forall_mem_map.mp hthere subDirectory hmem)
  rw [← list_toCorpus] at hlist
  exact ⟨_, hlist⟩

theorem mem_loaded_iff (hknows : index.Knows archive root)
    (hthere : ∀ folder ∈ options.roots, folder ∈ index.directories) {path : String} :
    path ∈ options.subDirectories.flatMap (Stream.filesOf ⟨index.toCorpus, options⟩) ↔
      path ∈ index.files ∧ Stream.IsTest path ∧ ∃ folder ∈ options.roots, Below folder path := by
  have hroots := List.forall_mem_map.mp hthere
  rw [List.mem_flatMap]
  constructor
  · rintro ⟨subDirectory, hsub, hpath⟩
    obtain ⟨hfile, htest, hbelow⟩ :=
      (hknows.mem_filesOf_iff (hroots subDirectory hsub)).mp hpath
    exact ⟨hfile, htest, _, List.mem_map_of_mem hsub, hbelow⟩
  · rintro ⟨hfile, htest, folder, hfolder, hbelow⟩
    obtain ⟨subDirectory, hsub, rfl⟩ := List.mem_map.mp hfolder
    exact ⟨subDirectory, hsub,
      (hknows.mem_filesOf_iff (hroots subDirectory hsub)).mpr ⟨hfile, htest, hbelow⟩⟩

theorem exists_entry (hknows : index.Knows archive root) {path : String}
    (hfile : path ∈ index.files) :
    ∃ number entry, index.files[path]? = some number ∧ archive[number]? = some entry ∧
      index.toCorpus.read path = entry.read := by
  have hnormal : Path.normalize path = path := hknows.tables.normalize_of_mem_files hfile
  rw [Std.TreeMap.mem_iff_isSome_getElem?, Option.isSome_iff_exists] at hfile
  obtain ⟨number, hnumber⟩ := hfile
  obtain ⟨⟨listed, hlisted, -⟩, -⟩ := (hknows.tables.files path number).mp hnumber
  rw [Zip.Archive.getElem?_listed, Option.map_eq_some_iff] at hlisted
  obtain ⟨entry, hentry, -⟩ := hlisted
  refine ⟨number, entry, hnumber, hentry, ?_⟩
  rw [read_toCorpus, read_of_getElem? hknows.entries hnormal hnumber hentry]

end Knows

/-- In a walk through folders of an archive that lie apart, each file of the index that is a
test and lies below one of them is loaded once, and no other file is. The items are those of
the loaded files, one file after the other, and those of a file come of the entry that the
index names for it; the file gives its name to its cases, and no two cases are the same. -/
theorem loads_each_once {made : Index}
    (hmade : Index.ofArchive archive rootName = .ok made) (label : String)
    (options : StreamOptions) (hthere : ∀ folder ∈ options.roots, folder ∈ made.directories)
    (hapart : options.roots.Pairwise Apart) (more : Nat) :
    let stream : Stream := ⟨Index.toCorpus { made with label }, options⟩
    let calls := Walk.calls stream (Walk.start stream) (stream.items.length + 1 + more)
    (Walk.loadedBy calls).Nodup ∧
      (∀ path, path ∈ Walk.loadedBy calls ↔
        path ∈ made.files ∧ Stream.IsTest path ∧
          ∃ folder ∈ options.roots, Below folder path) ∧
      Walk.itemsOf calls = (Walk.loadedBy calls).flatMap stream.fileItems ∧
      (∀ path ∈ Walk.loadedBy calls,
        (∃ number entry, made.files[path]? = some number ∧ archive[number]? = some entry ∧
          stream.corpus.read path = entry.read ∧
          stream.fileItems path = Stream.itemsRead options path entry.read) ∧
        ∀ case, .ok case ∈ stream.fileItems path → case.fileName = path) ∧
      (((Walk.itemsOf calls).filterMap Except.toOption).map Case.identity).Nodup := by
  have hmadeKnows := Knows.ofArchive hmade
  have hknows : Index.Knows { made with label } archive (Path.normalize rootName) :=
    ⟨hmadeKnows.entries, hmadeKnows.tables⟩
  intro stream calls
  have hloaded : Walk.loadedBy calls = options.subDirectories.flatMap stream.filesOf :=
    Walk.loadedBy_calls stream more
  have hcalls : Walk.itemsOf calls = stream.items := by
    rw [← Walk.itemsOf_calls stream (1 + more), ← Nat.add_assoc]
  have hnormal : ∀ path ∈ Walk.loadedBy calls, Path.normalize path = path := by
    rw [hloaded]
    intro path hpath
    exact hknows.tables.normalize_of_mem_files ((hknows.mem_loaded_iff hthere).mp hpath).1
  have hnodup : (Walk.loadedBy calls).Nodup := by
    rw [hloaded]
    exact hknows.nodup_loaded hthere hapart
  have hitems : Walk.itemsOf calls = (Walk.loadedBy calls).flatMap stream.fileItems := by
    rw [hloaded, hcalls]
    exact hknows.items_eq hthere
  refine ⟨hnodup, fun path => ?_, hitems, fun path hpath => ⟨?_, fun case hcase => ?_⟩, ?_⟩
  · rw [hloaded]
    exact hknows.mem_loaded_iff hthere
  · have hfile := hpath
    rw [hloaded] at hfile
    obtain ⟨number, entry, hnumber, hentry, hread⟩ :=
      hknows.exists_entry ((hknows.mem_loaded_iff hthere).mp hfile).1
    exact ⟨number, entry, hnumber, hentry, hread,
      hread ▸ stream.fileItems_eq_itemsRead (hnormal path hpath)⟩
  · rw [← hnormal path hpath]
    apply Stream.fileName_of_mem_casesIn
    exact List.mem_filterMap.mpr ⟨_, hcase, rfl⟩
  · rw [hitems]
    exact stream.identities_nodup hnodup hnormal

def siblings : Zip.Archive :=
  [.plain "r/test/a-b/y.js" .empty,
    .plain "r/test/a/x.js" "/*---\ndescription: d\n---*/\n".toUTF8,
    .plain "r/test/a.b/z.js" .empty, .plain "r/test/a/x_FIXTURE.js" .empty]

def siblingOptions : StreamOptions where
  subDirectories := ["a", "./a-b/", "a.b"]

theorem loads_each_once_siblings :
    ∃ made, Index.ofArchive siblings "r" = .ok made ∧
      (∀ folder ∈ siblingOptions.roots, folder ∈ made.directories) ∧
      siblingOptions.roots.Pairwise Apart ∧
      let stream : Stream := ⟨Index.toCorpus { made with label := "" }, siblingOptions⟩
      let loaded := Walk.loadedBy
        (Walk.calls stream (Walk.start stream) (stream.items.length + 1 + 0))
      loaded.count "test/a/x.js" = 1 ∧ "test/a/x_FIXTURE.js" ∉ loaded ∧
        (stream.fileItems "test/a/x.js").map (Except.map Case.identity) =
          [.ok ("test/a/x.js", false), .ok ("test/a/x.js", true)] := by
  have hfileX : IsFileEntry (leadOf (Path.normalize "r")) ("r/test/a/x.js", false)
      "test/a/x.js" := ⟨rfl, by decide⟩
  have hfileY : IsFileEntry (leadOf (Path.normalize "r")) ("r/test/a-b/y.js", false)
      "test/a-b/y.js" := ⟨rfl, by decide⟩
  have hfileZ : IsFileEntry (leadOf (Path.normalize "r")) ("r/test/a.b/z.js", false)
      "test/a.b/z.js" := ⟨rfl, by decide⟩
  have hknown : ∃ made, Index.ofArchive siblings "r" = .ok made ∧
      made.Knows siblings (Path.normalize "r") := by
    refine exists_knows rfl (hasTop_iff.mpr ⟨"test", by decide, ?_⟩)
    exact (hold_tablesOf _ _).mem_directories_of_isFileEntry (by decide) hfileX (by decide)
      (by decide) (by decide)
  obtain ⟨made, hmade, hknows⟩ := hknown
  have hroots : ∀ folder ∈ siblingOptions.roots, folder ∈ made.directories := by
    have heq : siblingOptions.roots = ["test/a", "test/a-b", "test/a.b"] := by decide
    rw [heq]
    simp only [List.forall_mem_cons, List.not_mem_nil, false_implies, implies_true, and_true]
    refine ⟨?_, ?_, ?_⟩
    · exact hknows.tables.mem_directories_of_isFileEntry (by decide) hfileX (by decide)
        (by decide) (by decide)
    · exact hknows.tables.mem_directories_of_isFileEntry (by decide) hfileY (by decide)
        (by decide) (by decide)
    · exact hknows.tables.mem_directories_of_isFileEntry (by decide) hfileZ (by decide)
        (by decide) (by decide)
  have hapart : siblingOptions.roots.Pairwise Apart := by decide
  obtain ⟨hnodup, hmem, -, hloaded, -⟩ := loads_each_once hmade "" _ hroots hapart 0
  have hfile : "test/a/x.js" ∈ made.files :=
    hknows.tables.mem_files_iff.mpr ⟨("r/test/a/x.js", false), by decide, hfileX⟩
  have hthere := (hmem "test/a/x.js").mpr ⟨hfile, by decide, "test/a", by decide, "x.js", rfl⟩
  refine ⟨made, hmade, hroots, hapart, List.count_eq_one_of_mem hnodup hthere, ?_, ?_⟩
  · intro hfixture
    have htest := ((hmem _).mp hfixture).2.1
    revert htest
    decide
  · obtain ⟨⟨number, entry, hnumber, hentry, -, hitems⟩, -⟩ := hloaded _ hthere
    obtain ⟨⟨listed, hlisted, -, hpath⟩, -⟩ := (hknows.tables.files _ number).mp hnumber
    rw [Zip.Archive.getElem?_listed, hentry] at hlisted
    cases hlisted
    have hcontent : entry.read = .ok "/*---\ndescription: d\n---*/\n".toUTF8 := by
      have hsiblings := List.mem_of_getElem? hentry
      simp only [siblings, List.mem_cons, List.not_mem_nil, or_false] at hsiblings
      revert hpath
      rcases hsiblings with rfl | rfl | rfl | rfl <;> decide
    rw [hitems, hcontent]
    decide +kernel

end Index

end Conformance
