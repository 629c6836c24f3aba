import Conformance.Command.Session
import Conformance.Proofs.Corpus.Agreement
import Conformance.Proofs.Corpus.Failure

namespace Conformance.Session

open Conformance.Stream (PassesErrors)

/-! A listing tells the errors that concern one file, and ends at any other. -/

variable {before behind items : List Stream.Item} {error : Error}

theorem passesErrors_cons_ok {case : Case} :
    PassesErrors (.ok case :: items) ↔ PassesErrors items := by
  simp [PassesErrors]

theorem passesErrors_cons_error :
    PassesErrors (.error error :: items) ↔ error.isPerFile = true ∧ PassesErrors items := by
  simp [PassesErrors]

theorem untilFatal_append (hbefore : PassesErrors before) (items : List Stream.Item) :
    untilFatal (before ++ items) = (before ++ (untilFatal items).1, (untilFatal items).2) := by
  induction before with
  | nil => rfl
  | cons item before ih =>
      cases item with
      | ok case =>
          rw [passesErrors_cons_ok] at hbefore
          rw [List.cons_append, untilFatal, ih hbefore]
          rfl
      | error error =>
          rw [passesErrors_cons_error] at hbefore
          rw [List.cons_append, untilFatal, if_pos hbefore.1, ih hbefore.2]
          rfl

theorem untilFatal_eq_self (h : PassesErrors items) : untilFatal items = (items, none) := by
  have happend := untilFatal_append h []
  simpa [untilFatal] using happend

theorem untilFatal_of_fatal (hbefore : PassesErrors before) (hfatal : error.isPerFile = false)
    (behind : List Stream.Item) :
    untilFatal (before ++ .error error :: behind) = (before, some error) := by
  rw [untilFatal_append hbefore, untilFatal, if_neg (by simp [hfatal]), List.append_nil]

theorem passesErrors_of_untilFatal (h : (untilFatal items).2 = none) : PassesErrors items := by
  induction items with
  | nil => simp [PassesErrors]
  | cons item items ih =>
      cases item with
      | ok case => exact passesErrors_cons_ok.mpr (ih h)
      | error error =>
          rw [untilFatal] at h
          split at h
          · rename_i hpass
            exact passesErrors_cons_error.mpr ⟨hpass, ih h⟩
          · cases h

variable (surroundings : Surroundings) (engine : Exclusion.Engine) (excludedOnly : Bool)
  (part : Option String)

theorem list_of_passesErrors (h : PassesErrors items) :
    list surroundings engine excludedOnly part items =
      (items.filterMap (itemLine? surroundings engine excludedOnly part) ++
        totals surroundings (items.filterMap (itemLine? surroundings engine excludedOnly part)),
          none) := by
  rw [list, untilFatal_eq_self h]

theorem list_of_fatal (hbefore : PassesErrors before) (hfatal : error.isPerFile = false)
    (behind : List Stream.Item) :
    list surroundings engine excludedOnly part (before ++ .error error :: behind) =
      (before.filterMap (itemLine? surroundings engine excludedOnly part), some error) := by
  rw [list, untilFatal_of_fatal hbefore hfatal]

theorem list_snd_eq_none_iff :
    (list surroundings engine excludedOnly part items).2 = none ↔ PassesErrors items := by
  constructor
  · intro h
    apply passesErrors_of_untilFatal
    rw [← h, list]
    rcases untilFatal items with ⟨before, _ | error⟩ <;> rfl
  · intro h
    rw [list_of_passesErrors surroundings engine excludedOnly part h]

theorem code_run_list {arguments : Arguments} {host : Host} {cache : Cache} {corpus : Corpus}
    (haction : arguments.action = .list excludedOnly part)
    (hopen : (settingsOf host arguments.options).1.openCorpus surroundings.fetcher
      surroundings.defaultCache { host } = (cache, .ok corpus))
    (hfolders : (settingsOf host arguments.options).1.subDirectories ≠ [])
    (hengine : (settingsOf host arguments.options).1.engine cache.host = .ok engine) :
    code (run surroundings arguments host) = 0 ↔
      (list surroundings engine excludedOnly part
        (Stream.items ⟨corpus, (settingsOf host arguments.options).1.streamOptions⟩)).2 =
          none := by
  have hcreate : Stream.create corpus (settingsOf host arguments.options).1.streamOptions =
      .ok ⟨corpus, (settingsOf host arguments.options).1.streamOptions⟩ := by
    rw [Stream.create, if_neg]
    simpa [Settings.streamOptions] using hfolders
  have hact : (act surroundings (settingsOf host arguments.options).1 arguments.action
      { host }).2.2 = (list surroundings engine excludedOnly part
        (Stream.items ⟨corpus, (settingsOf host arguments.options).1.streamOptions⟩)).2 := by
    simp only [haction, act, onStream, hopen, hcreate, body, hengine]
  have hdone : (run surroundings arguments host).succeeded =
      (act surroundings (settingsOf host arguments.options).1 arguments.action
        { host }).2.2.isNone := rfl
  rw [code, hdone, hact]
  simp

/-- A listing of an archive comes to its end if and only if each file that it comes to can be
read, and one of a folder of the host if the host refuses none of them; then it tells each
error in a line. What is wrong with the bytes of a file never ends it, whereas an entry that
cannot be opened, or unpacked with the checksum it should have, does. -/
theorem list_ends_iff_read (options : StreamOptions) :
    (∀ archive rootName made label, Index.ofArchive archive rootName = .ok made →
      let stream : Stream := ⟨Index.toCorpus { made with label }, options⟩
      (list surroundings engine excludedOnly part stream.items).2 = none ↔
        ∀ path ∈ options.subDirectories.flatMap stream.filesOf,
          ∃ bytes, stream.corpus.read path = .ok bytes) ∧
      (∀ directory : Directory,
        let stream : Stream := ⟨directory.toCorpus, options⟩
        (list surroundings engine excludedOnly part stream.items).2 = none ↔
          ∀ path ∈ options.subDirectories.flatMap stream.filesOf,
            ∀ fault, stream.corpus.read path ≠ .error (.host fault)) ∧
      (∀ corpus expand path error, Stream.load corpus expand path = .error error →
        corpus.read path = .error error ∨
          (∃ bytes, corpus.read path = .ok bytes) ∧
            ∃ problem, error = .format (Path.normalize path) problem) ∧
      (∀ items, PassesErrors items →
        ∃ lines, list surroundings engine excludedOnly part items = (lines, none) ∧
          ∀ error, .error error ∈ items →
            .err (colored surroundings .yellow "SKIP" ++ ": " ++ error.message) ∈ lines) ∧
      (∀ before error behind, PassesErrors before → error.isPerFile = false →
        list surroundings engine excludedOnly part (before ++ .error error :: behind) =
          (before.filterMap (itemLine? surroundings engine excludedOnly part), some error)) ∧
      ∀ arguments host cache corpus, arguments.action = .list excludedOnly part →
        (settingsOf host arguments.options).1.openCorpus surroundings.fetcher
          surroundings.defaultCache { host } = (cache, .ok corpus) →
        (settingsOf host arguments.options).1.subDirectories ≠ [] →
        (settingsOf host arguments.options).1.engine cache.host = .ok engine →
          (code (run surroundings arguments host) = 0 ↔
            (list surroundings engine excludedOnly part
              (Stream.items ⟨corpus,
                (settingsOf host arguments.options).1.streamOptions⟩)).2 = none) := by
  refine ⟨fun archive rootName made label hmade => ?_, fun directory => ?_,
    fun corpus expand path error => Stream.error_of_load, fun items hpass => ?_,
    fun before error behind hbefore hfatal =>
      list_of_fatal surroundings engine excludedOnly part hbefore hfatal behind,
    fun arguments host cache corpus => code_run_list surroundings engine excludedOnly part⟩
  · have hknows := Index.Knows.ofArchive hmade
    have hlabelled : Index.Knows { made with label } archive (Path.normalize rootName) :=
      ⟨hknows.entries, hknows.tables⟩
    exact (list_snd_eq_none_iff surroundings engine excludedOnly part).trans
      hlabelled.passesErrors_iff
  · exact (list_snd_eq_none_iff surroundings engine excludedOnly part).trans
      Directory.passesErrors_iff
  · refine ⟨_, list_of_passesErrors surroundings engine excludedOnly part hpass, ?_⟩
    intro error hmem
    exact List.mem_append_left _ (List.mem_filterMap.mpr ⟨_, hmem, rfl⟩)

def listingOfTwo : Arguments where
  options := { folder := some "/c", subDirectories := ["a"] }
  action := .list false none

theorem settingsOf_listingOfTwo :
    (settingsOf hostOfTwo listingOfTwo.options).1 =
      { path := some "/c", subDirectories := ["a"] } := by
  have hnames : Host.names Settings.defaultFile = ["test262_harness.toml"] := by decide
  have horigin : hostOfTwo.origin Settings.defaultFile = [] := rfl
  have hshort : ¬ Host.pathLimit ≤ Settings.defaultFile.utf8ByteSize := by decide
  have hfind : hostOfTwo.find Settings.defaultFile = .ok ["test262_harness.toml"] := by
    simp [Host.find, hshort, hnames, horigin, Host.follow, Host.isFolderAt, get?_hostOfTwo]
    decide
  have hmissing : hostOfTwo.resolve Settings.defaultFile = .error .noEntry := by
    simp [Host.resolve, hfind, get?_hostOfTwo, bind, Except.bind]
  unfold settingsOf Settings.loadOrDefault
  simp [listingOfTwo, Host.isPresent, hmissing, override]

theorem list_ends_iff_read_two :
    ∀ surroundings : Surroundings, code (run surroundings listingOfTwo hostOfTwo) = 0 := by
  intro surroundings
  have hopen : (settingsOf hostOfTwo listingOfTwo.options).1.openCorpus surroundings.fetcher
      surroundings.defaultCache { host := hostOfTwo } =
        ({ host := hostOfTwo }, .ok (Directory.toCorpus ⟨hostOfTwo, "/c"⟩)) := by
    rw [settingsOf_listingOfTwo]
    simp [Settings.openCorpus, holds_hostOfTwo.ofPath, Except.map]
  have hengine : ∃ engine, (settingsOf hostOfTwo listingOfTwo.options).1.engine hostOfTwo =
      .ok engine := by
    rw [settingsOf_listingOfTwo]
    exact ⟨_, rfl⟩
  obtain ⟨engine, hengine⟩ := hengine
  obtain ⟨-, hdirectory, -, -, -, hcommand⟩ :=
    list_ends_iff_read surroundings engine false none { subDirectories := ["a"] }
  apply (hcommand listingOfTwo hostOfTwo _ _ rfl hopen ?_ hengine).mpr
  · rw [settingsOf_listingOfTwo]
    apply (hdirectory ⟨hostOfTwo, "/c"⟩).mpr
    intro path hpath fault hfault
    obtain ⟨paths, hpaths, hmem⟩ := Stream.mem_filesOf_iff_exists.mp (by simpa using hpath)
    have hfolder : twoFiles.IsFolder ["test", "a"] := (isFolder_twoFiles_iff _).mpr (by simp)
    have hroot : Path.normalize (Stream.rootOf "a") = Path.ofNames ["test", "a"] := by decide
    obtain ⟨listed, hlisted, hlisting⟩ := holds_hostOfTwo.list_of_isFolder hroot (by simp)
      hfolder true Stream.isTestFile
    rw [Directory.list_toCorpus, hlisted] at hpaths
    cases hpaths
    obtain ⟨rest, bytes, -, hfile, -, rfl, -⟩ := (hlisting.mem_iff path).mp hmem
    rw [Directory.read_toCorpus, holds_hostOfTwo.read_file hfile] at hfault
    cases hfault
  · rw [settingsOf_listingOfTwo]
    simp

/-- A file whose bytes do not have the checksum that its archive names. -/
def misread : Zip.Archive :=
  [{ Zip.Entry.plain "r/test/a/x.js" (.mk #[]) with
    body := Zip.Layout.bodyOf 0 1 (.ok (.mk #[])) }]

theorem list_stops_at_misread :
    ∃ made, Index.ofArchive misread "r" = .ok made ∧
      "test/a/x.js" ∈ Stream.filesOf ⟨made.toCorpus, { subDirectories := ["a"] }⟩ "a" ∧
      Stream.load made.toCorpus true "test/a/x.js" = .error (.host .invalidChecksum) ∧
      (Error.host .invalidChecksum).isPerFile = false ∧
      ∀ surroundings engine excludedOnly part,
        (list surroundings engine excludedOnly part
          (Stream.items ⟨made.toCorpus, { subDirectories := ["a"] }⟩)).2 ≠ none := by
  have hentry : Index.IsFileEntry (Index.leadOf (Path.normalize "r")) ("r/test/a/x.js", false)
      "test/a/x.js" := ⟨rfl, by decide⟩
  have hknown : ∃ made, Index.ofArchive misread "r" = .ok made ∧
      made.Knows misread (Path.normalize "r") := by
    refine Index.exists_knows rfl (Index.hasTop_iff.mpr ⟨"test", by decide, ?_⟩)
    exact (Index.hold_tablesOf _ _).mem_directories_of_isFileEntry (by decide) hentry
      (by decide) (by decide) (by decide)
  obtain ⟨made, hmade, hknows⟩ := hknown
  have hfile : "test/a/x.js" ∈ made.files :=
    hknows.tables.mem_files_iff.mpr ⟨("r/test/a/x.js", false), by decide, hentry⟩
  have hlisted : "test/a/x.js" ∈
      Stream.filesOf ⟨made.toCorpus, { subDirectories := ["a"] }⟩ "a" := by
    have hroot : Path.normalize (Stream.rootOf "a") = "test/a" := by decide
    rw [hknows.mem_filesOf_iff, hroot]
    · exact ⟨hfile, by decide, "x.js", rfl⟩
    · rw [hroot]
      exact hknows.tables.mem_directories_of_isFileEntry (by decide) hentry (by decide)
        (by decide) (by decide)
  have hread : made.toCorpus.read "test/a/x.js" = .error (.host .invalidChecksum) := by
    obtain ⟨number, entry, -, hnumber, hread⟩ := hknows.exists_entry hfile
    rw [hread]
    obtain rfl := List.mem_singleton.mp (List.mem_of_getElem? hnumber)
    decide
  refine ⟨made, hmade, hlisted, Stream.load_of_read hread, rfl, ?_⟩
  intro surroundings engine excludedOnly part hends
  have hpass := (list_snd_eq_none_iff surroundings engine excludedOnly part).mp hends
  have hmem : Except.error (.host .invalidChecksum) ∈
      Stream.items ⟨made.toCorpus, { subDirectories := ["a"] }⟩ := by
    refine List.mem_flatMap.mpr ⟨"a", by simp, ?_⟩
    exact Stream.error_mem_directoryItems_iff.mpr
      (.inr ⟨_, hlisted, Stream.load_of_read hread⟩)
  cases hpass _ hmem

end Conformance.Session
