import Conformance.Proofs.Command.Listing
import Conformance.Proofs.Exclusion.Listed
import Conformance.Proofs.Exclusion.Unrecognized

namespace Conformance

/-! The exclusions that are told to name no file. A file is seen by its cases, so one that cannot
be loaded is not seen, and an entry that names it is told. -/

def Stream.testNameOf (path : String) : String :=
  let fileName := Path.normalize path
  (Text.stripStart? "test/" fileName).getD fileName

namespace Session

variable {stream : Stream}

theorem ok_mem_fileItems_iff {path : String} {case : Case} :
    .ok case ∈ stream.fileItems path ↔
      ∃ cases, Stream.load stream.corpus stream.options.expandStrict path = .ok cases ∧
        case ∈ cases ∧ stream.options.filter case = true := by
  rw [Stream.fileItems]
  cases Stream.load stream.corpus stream.options.expandStrict path with
  | error error => simp
  | ok cases => simp

theorem ok_mem_directoryItems_iff {subDirectory : String} {case : Case} :
    .ok case ∈ stream.directoryItems subDirectory ↔
      ∃ path ∈ stream.filesOf subDirectory, .ok case ∈ stream.fileItems path := by
  rw [Stream.directoryItems, Stream.filesOf]
  cases stream.corpus.list (Stream.rootOf subDirectory) true Stream.isTestFile with
  | error error => simp
  | ok paths => simp

theorem mem_casesOf_items_iff {case : Case} : case ∈ casesOf stream.items ↔
    ∃ path ∈ stream.options.subDirectories.flatMap stream.filesOf,
      .ok case ∈ stream.fileItems path := by
  have hcase : case ∈ casesOf stream.items ↔ .ok case ∈ stream.items := by
    rw [casesOf, List.mem_filterMap]
    constructor
    · rintro ⟨error | _, hitem, hok⟩
      · cases hok
      · cases hok
        exact hitem
    · intro hitem
      exact ⟨_, hitem, rfl⟩
  rw [hcase, Stream.items]
  simp only [List.mem_flatMap, ok_mem_directoryItems_iff]
  constructor
  · rintro ⟨subDirectory, hsub, path, hpath, hitem⟩
    exact ⟨path, ⟨subDirectory, hsub, hpath⟩, hitem⟩
  · rintro ⟨path, ⟨subDirectory, hsub, hpath⟩, hitem⟩
    exact ⟨subDirectory, hsub, path, hpath, hitem⟩

theorem testName_of_mem_load {corpus : Corpus} {expand : Bool} {path : String}
    {cases : List Case} (hload : Stream.load corpus expand path = .ok cases) {case : Case}
    (hcase : case ∈ cases) : case.testName = Stream.testNameOf path := by
  obtain ⟨base, hname, -, rfl⟩ := Stream.exists_base_of_load hload
  have hfile : case.fileName = Path.normalize path := by
    rw [Case.fileName, Stream.metadata_of_mem_variants hcase]
    exact hname
  rw [Case.testName, hfile, Stream.testNameOf]

theorem exists_case_iff (hall : ∀ case, stream.options.filter case = true) (name : String) :
    (∃ case ∈ casesOf stream.items, Text.lowercase case.testName = name) ↔
      ∃ path ∈ stream.options.subDirectories.flatMap stream.filesOf,
        Text.lowercase (Stream.testNameOf path) = name ∧
          ∃ cases, Stream.load stream.corpus stream.options.expandStrict path = .ok cases := by
  simp only [mem_casesOf_items_iff, ok_mem_fileItems_iff, hall, and_true]
  constructor
  · rintro ⟨case, ⟨path, hpath, cases, hload, hcase⟩, hname⟩
    rw [testName_of_mem_load hload hcase] at hname
    exact ⟨path, hpath, hname, cases, hload⟩
  · rintro ⟨path, hpath, hname, cases, hload⟩
    obtain ⟨base, -, -, rfl⟩ := Stream.exists_base_of_load hload
    obtain ⟨case, hcase⟩ := List.exists_mem_of_ne_nil _ (Case.variants_ne_nil _ base)
    exact ⟨case, ⟨path, hpath, _, hload, hcase⟩, (testName_of_mem_load hload hcase) ▸ hname⟩

variable (surroundings : Surroundings)

def told : List String → List Line
  | [] => [.out (colored surroundings .green "All exclusion entries match a test file")]
  | missing =>
    [.out "", .out (styled surroundings (.boldColored .yellow) "=== Unrecognized exclusions ===")]
      ++
      missing.map (fun entry => .out ("  " ++ entry)) ++
        [.out "", .out s!"Total: {missing.length} entries"]

theorem unrecognized_eq (engine : Exclusion.Engine) (items : List Stream.Item) :
    unrecognized surroundings engine items =
      (told surroundings (engine.unrecognized (casesOf items)), none) := by
  rw [unrecognized]
  cases engine.unrecognized (casesOf items) <;> rfl

/-- An entry is exact, and each file that it names, whatever the case of its letters, is one that
cannot be loaded. -/
structure Misses (entry : String) (corpus : Corpus) (settings : Settings) : Prop where
  exact : (Exclusion.FileEntry.ofText entry).IsExact
  unloaded : ∀ path ∈ settings.subDirectories.flatMap
      (Stream.filesOf ⟨corpus, settings.streamOptions⟩),
    Text.lowercase (Stream.testNameOf path) =
      String.ofList (Exclusion.FileEntry.ofText entry).name →
    ∃ error, Stream.load corpus true path = .error error

theorem misses_iff_unused {entry : String} {corpus : Corpus} {settings : Settings} :
    Misses entry corpus settings ↔ Exclusion.Unused entry
      (casesOf (Stream.items ⟨corpus, settings.streamOptions⟩)) := by
  have hall : ∀ case, settings.streamOptions.filter case = true := fun _ => rfl
  have hseen := @exists_case_iff ⟨corpus, settings.streamOptions⟩ hall
    (String.ofList (Exclusion.FileEntry.ofText entry).name)
  constructor
  · rintro ⟨hexact, hunloaded⟩
    refine ⟨hexact, fun case hcase hname => ?_⟩
    obtain ⟨path, hpath, hname, cases, hload⟩ := hseen.mp ⟨case, hcase, hname⟩
    obtain ⟨error, herror⟩ := hunloaded path hpath hname
    cases hload.symm.trans herror
  · rintro ⟨hexact, hunseen⟩
    refine ⟨hexact, fun path hpath hname => ?_⟩
    cases hload : Stream.load corpus true path with
    | error error => exact ⟨error, rfl⟩
    | ok cases =>
        obtain ⟨case, hcase, hname⟩ := hseen.mpr ⟨path, hpath, hname, cases, hload⟩
        exact absurd hname (hunseen case hcase)

/-- What a command on the stream needs is there: a corpus, folders in it, and an engine. -/
structure Ready (settings : Settings) (cache after : Cache) (corpus : Corpus)
    (engine : Exclusion.Engine) : Prop where
  opened : settings.openCorpus surroundings.fetcher surroundings.defaultCache cache =
    (after, .ok corpus)
  folders : settings.subDirectories ≠ []
  made : settings.engine after.host = .ok engine

/-- A command that fails prints no more than where its files come from. -/
def Fails (printed : Printed) : Prop :=
  printed.2 ≠ none ∧ (printed.1 = [] ∨ ∃ corpus, printed.1 = heading surroundings corpus)

variable {settings : Settings} {cache after : Cache} {corpus : Corpus} {engine : Exclusion.Engine}

theorem onStream_of_opened (action : Action)
    (hopen : settings.openCorpus surroundings.fetcher surroundings.defaultCache cache =
      (after, .ok corpus)) (hfolders : settings.subDirectories ≠ []) :
    onStream surroundings settings action cache =
      let (lines, error) := body surroundings after.host settings action
        ⟨corpus, settings.streamOptions⟩
      (after, heading surroundings corpus ++ lines, error) := by
  have hcreate : Stream.create corpus settings.streamOptions =
      .ok ⟨corpus, settings.streamOptions⟩ := by
    rw [Stream.create, if_neg]
    simpa [Settings.streamOptions] using hfolders
  simp only [onStream, hopen, hcreate]

theorem act_of_ready (h : Ready surroundings settings cache after corpus engine) :
    act surroundings settings .unrecognized cache =
      (after, heading surroundings corpus ++ told surroundings (engine.unrecognized
        (casesOf (Stream.items ⟨corpus, settings.streamOptions⟩))), none) := by
  have hact : act surroundings settings .unrecognized cache =
      onStream surroundings settings .unrecognized cache := rfl
  rw [hact, onStream_of_opened surroundings .unrecognized h.opened h.folders, body, h.made]
  simp only [unrecognized_eq]

theorem fails_of_not_ready
    (h : ∀ after corpus engine, ¬ Ready surroundings settings cache after corpus engine) :
    Fails surroundings (act surroundings settings .unrecognized cache).2 := by
  have hact : act surroundings settings .unrecognized cache =
      onStream surroundings settings .unrecognized cache := rfl
  rw [hact]
  rcases hopen : settings.openCorpus surroundings.fetcher surroundings.defaultCache cache with
    ⟨after, error | corpus⟩
  · simp only [onStream, hopen]
    exact ⟨by simp, .inl rfl⟩
  by_cases hfolders : settings.subDirectories = []
  · have hcreate : Stream.create corpus settings.streamOptions =
        .error (.invalidArgument .noSubDirectory) := by
      rw [Stream.create, if_pos]
      simpa [Settings.streamOptions] using hfolders
    simp only [onStream, hopen, hcreate]
    exact ⟨by simp, .inr ⟨corpus, rfl⟩⟩
  rw [onStream_of_opened surroundings .unrecognized hopen hfolders, body]
  cases hengine : settings.engine after.host with
  | error error => exact ⟨by simp, .inr ⟨corpus, List.append_nil _⟩⟩
  | ok engine => exact absurd ⟨hopen, hfolders, hengine⟩ (h after corpus engine)

/-- The entries that are told are the exact ones of which each file is one that cannot be loaded:
in order, each once and as it is written. No other one is told, whatever goes wrong with the files,
and none where there is no corpus or no engine. -/
theorem unrecognized_tells_misses (settings : Settings) (cache : Cache) :
    (∀ after corpus engine, Ready surroundings settings cache after corpus engine →
      ∃ listed missing, settings.exclusions.listed after.host.read = .ok listed ∧
        act surroundings settings .unrecognized cache =
          (after, heading surroundings corpus ++ told surroundings missing, none) ∧
        (missing.Pairwise fun left right => Text.bytesOf left < Text.bytesOf right) ∧
        ∀ text, text ∈ missing ↔ ∃ entry ∈ settings.exclusions.files ++ listed,
          Text.trim entry = text ∧ Misses entry corpus settings) ∧
    ((∀ after corpus engine, ¬ Ready surroundings settings cache after corpus engine) →
      Fails surroundings (act surroundings settings .unrecognized cache).2) := by
  refine ⟨fun after corpus engine hready => ?_, fails_of_not_ready surroundings⟩
  obtain ⟨listed, hlisted, hmade⟩ := Exclusion.Engine.ofRules_eq_ok_iff.mp hready.made
  refine ⟨listed, _, hlisted, act_of_ready surroundings hready, ?_, fun text => ?_⟩
  · exact (Exclusion.Engine.unrecognized_pairwise engine _).imp Text.bytesOf_lt_iff.mpr
  · simp only [misses_iff_unused]
    exact Exclusion.Parts.mem_unrecognized_iff hmade

def rulesOfThree : Settings where
  path := some "/c"
  subDirectories := ["a"]
  exclusions := { files := [" a/gone.js", "A/B.js(strict mode)", "*.mjs"] }

theorem opened_rulesOfThree : rulesOfThree.openCorpus surroundings.fetcher
    surroundings.defaultCache { host := hostOfTwo } =
      ({ host := hostOfTwo }, .ok (Directory.toCorpus ⟨hostOfTwo, "/c"⟩)) := by
  simp [rulesOfThree, Settings.openCorpus, holds_hostOfTwo.ofPath, Except.map]

theorem mem_filesOf_rulesOfThree {path : String} :
    path ∈ rulesOfThree.subDirectories.flatMap
      (Stream.filesOf ⟨Directory.toCorpus ⟨hostOfTwo, "/c"⟩, rulesOfThree.streamOptions⟩) ↔
        path = "test/a/b.js" := by
  have hfolder : twoFiles.IsFolder ["test", "a"] := (isFolder_twoFiles_iff _).mpr (by simp)
  have hroot : Path.normalize (Stream.rootOf "a") = Path.ofNames ["test", "a"] := by decide
  obtain ⟨listed, hlisted, hlisting⟩ := holds_hostOfTwo.list_of_isFolder hroot (by simp)
    hfolder true Stream.isTestFile
  have hfiles : Stream.filesOf ⟨Directory.toCorpus ⟨hostOfTwo, "/c"⟩, rulesOfThree.streamOptions⟩
      "a" = listed := by
    rw [Stream.filesOf, Directory.list_toCorpus, hlisted]
  have hname : Path.ofNames ["test", "a", "b.js"] = "test/a/b.js" := by decide
  rw [rulesOfThree, List.flatMap_singleton, ← rulesOfThree, hfiles, hlisting.mem_iff]
  constructor
  · rintro ⟨rest, bytes, -, hfile, -, rfl, -⟩
    obtain ⟨rfl, -⟩ : rest = ["b.js"] ∧ _ := by simpa [twoFiles] using hfile
    exact hname
  · rintro rfl
    refine ⟨["b.js"], "/*---\ndescription: d\n---*/\n".toUTF8, by simp, ?_, .inl rfl, hname.symm,
      by decide⟩
    simp [twoFiles]

theorem read_rulesOfThree : Directory.read ⟨hostOfTwo, "/c"⟩ "test/a/b.js" =
    .ok "/*---\ndescription: d\n---*/\n".toUTF8 := by
  have hname : Path.ofNames ["test", "a", "b.js"] = "test/a/b.js" := by decide
  rw [← hname]
  exact holds_hostOfTwo.read_file (by simp [twoFiles])

theorem load_rulesOfThree : ∃ cases,
    Stream.load (Directory.toCorpus ⟨hostOfTwo, "/c"⟩) true "test/a/b.js" = .ok cases := by
  have hcases : (Case.read "/*---\ndescription: d\n---*/\n".toUTF8 "test/a/b.js" true).isOk =
      true := by
    decide +kernel
  simp only [Stream.load, Directory.read_toCorpus, read_rulesOfThree, bind, Except.bind]
  cases hload : Case.read "/*---\ndescription: d\n---*/\n".toUTF8 "test/a/b.js" true with
  | error problem =>
      rw [hload] at hcases
      cases hcases
  | ok cases => exact ⟨cases, rfl⟩

theorem misses_rulesOfThree_iff {entry : String}
    (hentry : entry ∈ rulesOfThree.exclusions.files) :
    Misses entry (Directory.toCorpus ⟨hostOfTwo, "/c"⟩) rulesOfThree ↔ entry = " a/gone.js" := by
  have htest : Text.lowercase (Stream.testNameOf "test/a/b.js") = "a/b.js" := by decide +kernel
  simp only [rulesOfThree, List.mem_cons, List.not_mem_nil, or_false] at hentry
  rcases hentry with rfl | rfl | rfl
  · refine iff_of_true ⟨⟨by decide +kernel, by decide +kernel⟩, fun path hpath hname => ?_⟩ rfl
    obtain rfl := mem_filesOf_rulesOfThree.mp hpath
    rw [htest] at hname
    exact absurd hname (by decide +kernel)
  · refine iff_of_false (fun hmisses => ?_) (by decide)
    obtain ⟨cases, hload⟩ := load_rulesOfThree
    have hnamed : Text.lowercase (Stream.testNameOf "test/a/b.js") =
        String.ofList (Exclusion.FileEntry.ofText "A/B.js(strict mode)").name := by
      decide +kernel
    obtain ⟨error, herror⟩ :=
      hmisses.unloaded "test/a/b.js" (mem_filesOf_rulesOfThree.mpr rfl) hnamed
    cases hload.symm.trans herror
  · refine iff_of_false (fun hmisses => ?_) (by decide)
    exact absurd hmisses.exact.plain (by decide +kernel)

/-- A file is named by its name in capital letters, and in one of its modes. -/
theorem unrecognized_tells_misses_gone : ∀ surroundings : Surroundings,
    act surroundings rulesOfThree .unrecognized { host := hostOfTwo } =
      ({ host := hostOfTwo }, heading surroundings (Directory.toCorpus ⟨hostOfTwo, "/c"⟩) ++
        told surroundings ["a/gone.js"], none) := by
  intro surroundings
  obtain ⟨engine, hengine⟩ : ∃ engine, rulesOfThree.engine hostOfTwo = .ok engine := ⟨_, rfl⟩
  obtain ⟨hready, -⟩ :=
    unrecognized_tells_misses surroundings rulesOfThree { host := hostOfTwo }
  obtain ⟨listed, missing, hlisted, hact, hsorted, hmem⟩ :=
    hready _ _ _ ⟨opened_rulesOfThree surroundings, by simp [rulesOfThree], hengine⟩
  obtain rfl : [] = listed := Except.ok.inj hlisted
  have htold : missing = ["a/gone.js"] := by
    apply (hsorted.imp Text.bytesOf_lt_iff.mp).eq_of_mem_iff (List.pairwise_singleton _ _)
    intro text
    rw [hmem, List.append_nil, List.mem_singleton]
    constructor
    · rintro ⟨entry, hentry, rfl, hmisses⟩
      rw [(misses_rulesOfThree_iff hentry).mp hmisses]
      decide
    · rintro rfl
      have hentry : " a/gone.js" ∈ rulesOfThree.exclusions.files := by simp [rulesOfThree]
      exact ⟨_, hentry, by decide, (misses_rulesOfThree_iff hentry).mpr rfl⟩
  rw [hact, htold]

def bare : Zip.Archive :=
  [.plain "r/test/a/x.js" (.mk #[])]

def rulesOfBare : Settings where
  subDirectories := ["a"]
  exclusions := { files := ["a/x.js"] }

theorem load_bare {made : Index} (hknows : made.Knows bare (Path.normalize "r")) {path : String}
    (hfile : path ∈ made.files) (expand : Bool) :
    Stream.load made.toCorpus expand path =
      .error (.format (Path.normalize path) (.block .noStart)) := by
  obtain ⟨number, entry, -, hnumber, hread⟩ := hknows.exists_entry hfile
  obtain rfl := List.mem_singleton.mp (List.mem_of_getElem? hnumber)
  have hdecode : Case.decode (.mk #[]) = .ok "" := by decide +kernel
  rw [Zip.Entry.read_plain] at hread
  rw [Stream.load_of_decode hread hdecode]
  rfl

/-- The entry that names it is told, as if there were no such file. -/
theorem unrecognized_tells_bare :
    ∃ made, Index.ofArchive bare "r" = .ok made ∧
      "test/a/x.js" ∈ Stream.filesOf ⟨made.toCorpus, rulesOfBare.streamOptions⟩ "a" ∧
      ∀ surroundings host, body surroundings host rulesOfBare .unrecognized
        ⟨made.toCorpus, rulesOfBare.streamOptions⟩ = (told surroundings ["a/x.js"], none) := by
  have hentry : Index.IsFileEntry (Index.leadOf (Path.normalize "r")) ("r/test/a/x.js", false)
      "test/a/x.js" := ⟨rfl, by decide⟩
  obtain ⟨made, hmade, hknows⟩ : ∃ made, Index.ofArchive bare "r" = .ok made ∧
      made.Knows bare (Path.normalize "r") := by
    refine Index.exists_knows rfl (Index.hasTop_iff.mpr ⟨"test", by decide, ?_⟩)
    exact (Index.hold_tablesOf _ _).mem_directories_of_isFileEntry (by decide) hentry
      (by decide) (by decide) (by decide)
  have hroot : Path.normalize (Stream.rootOf "a") = "test/a" := by decide
  have hthere : Path.normalize (Stream.rootOf "a") ∈ made.directories := by
    rw [hroot]
    exact hknows.tables.mem_directories_of_isFileEntry (by decide) hentry (by decide) (by decide)
      (by decide)
  have hfile : "test/a/x.js" ∈ made.files :=
    hknows.tables.mem_files_iff.mpr ⟨("r/test/a/x.js", false), by decide, hentry⟩
  have hmisses : Misses "a/x.js" made.toCorpus rulesOfBare := by
    refine ⟨⟨by decide +kernel, by decide +kernel⟩, fun path hpath _ => ?_⟩
    obtain ⟨subDirectory, hsub, hpath⟩ := List.mem_flatMap.mp hpath
    obtain rfl : subDirectory = "a" := List.mem_singleton.mp hsub
    exact ⟨_, load_bare hknows ((hknows.mem_filesOf_iff hthere).mp hpath).1 true⟩
  obtain ⟨engine, hengine⟩ : ∃ engine,
      Exclusion.Parts.engine { files := ["a/x.js"] } = .ok engine := ⟨_, rfl⟩
  have htold : engine.unrecognized
      (casesOf (Stream.items ⟨made.toCorpus, rulesOfBare.streamOptions⟩)) = ["a/x.js"] := by
    apply (Exclusion.Engine.unrecognized_pairwise engine _).eq_of_mem_iff
      (List.pairwise_singleton _ _)
    intro text
    rw [Exclusion.Parts.mem_unrecognized_iff hengine]
    have htrim : Text.trim "a/x.js" = "a/x.js" := by decide
    simp only [List.mem_singleton, exists_eq_left, ← misses_iff_unused, hmisses, and_true, htrim,
      eq_comm]
  refine ⟨made, hmade, ?_, fun surroundings host => ?_⟩
  · rw [hknows.mem_filesOf_iff hthere, hroot]
    exact ⟨hfile, by decide, "x.js", rfl⟩
  · have hrules : rulesOfBare.engine host = .ok engine :=
      (Exclusion.Engine.ofRules_of_no_source rfl).trans hengine
    rw [body, hrules]
    simp only [unrecognized_eq, htold]

end Session

end Conformance
