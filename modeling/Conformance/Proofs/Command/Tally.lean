import Conformance.Proofs.Command.Unrecognized
import Conformance.Proofs.Text.Search

namespace Conformance.Session

open Conformance.Stream (PassesErrors)

/-! A listing counts as it goes along. However its items are mixed, what it counts is what it has
told, and a listing of the excluded cases tells some of what one of all cases does. -/

/-- A case has the part in the name of its file that is asked for. -/
def Asked (part : Option String) (case : Case) : Prop :=
  ∀ text ∈ part, text.toList <:+: case.fileName.toList

theorem all_contains_iff {part : Option String} {case : Case} :
    part.all (Text.contains · case.fileName) = true ↔ Asked part case := by
  cases part with
  | none => simp [Asked]
  | some text => simp [Asked, Text.contains_iff]

instance (part : Option String) : DecidablePred (Asked part) := fun _ =>
  decidable_of_iff _ all_contains_iff

def errorsOf (items : List Stream.Item) : List Error :=
  items.filterMap fun
    | .ok _ => none
    | .error error => some error

def outsOf (lines : List Line) : List String :=
  lines.filterMap fun
    | .out text => some text
    | .err _ => none

def errsOf (lines : List Line) : List String :=
  lines.filterMap fun
    | .out _ => none
    | .err text => some text

variable (surroundings : Surroundings)

def skipped (error : Error) : String :=
  colored surroundings .yellow "SKIP" ++ ": " ++ error.message

def withReason (case : Case) (reason : Exclusion.Reason) : String :=
  case.display ++ " " ++ styled surroundings .dimmed s!"[{reason.message}]"

def ending (total errors : Nat) : List String :=
  ["", s!"Total: {total} cases"] ++
    if errors = 0 then []
    else [colored surroundings .yellow "Warning:" ++ s!" {errors} files could not be read"]

variable (engine : Exclusion.Engine) (excludedOnly : Bool) (part : Option String)

def Printed.behind (line : Line) (printed : Printed) : Printed :=
  (line :: printed.1, printed.2)

/-- A listing, item by item, where so many cases and errors are told. -/
def tally (total errors : Nat) : List Stream.Item → Printed
  | [] => ((ending surroundings total errors).map .out, none)
  | .error error :: items =>
    if error.isPerFile then
      .behind (.err (skipped surroundings error)) (tally total (errors + 1) items)
    else ([], some error)
  | .ok case :: items =>
    if ¬ Asked part case then tally total errors items
    else if excludedOnly then
      match engine.resolve case with
      | some reason =>
        .behind (.out (withReason surroundings case reason)) (tally (total + 1) errors items)
      | none => tally total errors items
    else .behind (.out case.display) (tally (total + 1) errors items)

def shown (items : List Stream.Item) : List String :=
  (casesOf items).filterMap (caseLine? surroundings engine excludedOnly part)

variable {surroundings engine excludedOnly part}
variable {before behind items : List Stream.Item} {error : Error} {fatal : Option Error}

theorem caseLine?_eq (case : Case) : caseLine? surroundings engine excludedOnly part case =
    if ¬ Asked part case then none
    else if excludedOnly then (engine.resolve case).map (withReason surroundings case)
    else some case.display := by
  rw [caseLine?]
  by_cases hasked : Asked part case
  · rw [all_contains_iff.mpr hasked, if_neg (not_not.mpr hasked)]
    rfl
  · rw [Bool.eq_false_iff.mpr (mt all_contains_iff.mp hasked), if_pos hasked]
    rfl

theorem tally_ok (total errors : Nat) (case : Case) :
    tally surroundings engine excludedOnly part total errors (.ok case :: items) =
      match caseLine? surroundings engine excludedOnly part case with
      | some text => .behind (.out text)
          (tally surroundings engine excludedOnly part (total + 1) errors items)
      | none => tally surroundings engine excludedOnly part total errors items := by
  rw [tally, caseLine?_eq]
  by_cases hasked : Asked part case
  · cases excludedOnly with
    | false => simp [hasked]
    | true => cases hresolve : engine.resolve case <;> simp [hasked]
  · simp [hasked]

theorem shown_ok (case : Case) :
    shown surroundings engine excludedOnly part (.ok case :: items) =
      (caseLine? surroundings engine excludedOnly part case).toList ++
        shown surroundings engine excludedOnly part items := by
  have hshown : shown surroundings engine excludedOnly part (.ok case :: items) =
      (case :: casesOf items).filterMap (caseLine? surroundings engine excludedOnly part) := rfl
  rw [hshown, List.filterMap_cons]
  cases caseLine? surroundings engine excludedOnly part case <;> rfl

theorem tally_append (hbefore : PassesErrors before) (total errors : Nat)
    (items : List Stream.Item) :
    tally surroundings engine excludedOnly part total errors (before ++ items) =
      let later := tally surroundings engine excludedOnly part
        (total + (shown surroundings engine excludedOnly part before).length)
        (errors + (errorsOf before).length) items
      (before.filterMap (itemLine? surroundings engine excludedOnly part) ++ later.1, later.2) := by
  induction before generalizing total errors with
  | nil => rfl
  | cons item before ih =>
      cases item with
      | ok case =>
          rw [passesErrors_cons_ok] at hbefore
          have herrors : errorsOf (.ok case :: before) = errorsOf before := rfl
          rw [List.cons_append, tally_ok, ih hbefore, ih hbefore, shown_ok, herrors,
            List.length_append, List.filterMap_cons, itemLine?]
          cases caseLine? surroundings engine excludedOnly part case with
          | none => simp
          | some text => simp [Printed.behind, Nat.add_assoc]
      | error error =>
          rw [passesErrors_cons_error] at hbefore
          have herrors : errorsOf (.error error :: before) = error :: errorsOf before := rfl
          have hshown : shown surroundings engine excludedOnly part (.error error :: before) =
              shown surroundings engine excludedOnly part before := rfl
          rw [List.cons_append, tally, if_pos hbefore.1, ih hbefore.2, herrors, hshown,
            List.length_cons, List.filterMap_cons, itemLine?, ← Nat.add_assoc,
            Nat.add_right_comm errors]
          rfl

/-- Items are told up to the first error that does not concern one file, or all of them where
there is no such error. -/
inductive Ends : List Stream.Item → List Stream.Item → Option Error → Prop
  | finished {items : List Stream.Item} (passes : PassesErrors items) : Ends items items none
  | aborted {before : List Stream.Item} {error : Error} (passes : PassesErrors before)
      (fatal : error.isPerFile = false) (behind : List Stream.Item) :
      Ends (before ++ .error error :: behind) before (some error)

theorem exists_ends (items : List Stream.Item) : ∃ before fatal, Ends items before fatal := by
  induction items with
  | nil => exact ⟨[], none, .finished (by simp [PassesErrors])⟩
  | cons item items ih =>
      obtain ⟨before, fatal, hends⟩ := ih
      cases item with
      | ok case =>
          cases hends with
          | finished hpasses => exact ⟨_, _, .finished (passesErrors_cons_ok.mpr hpasses)⟩
          | aborted hpasses hfatal behind =>
              exact ⟨_, _, .aborted (passesErrors_cons_ok.mpr hpasses) hfatal behind⟩
      | error error =>
          cases hpass : error.isPerFile with
          | false =>
              have hnone : PassesErrors [] := by simp [PassesErrors]
              exact ⟨_, _, .aborted hnone hpass items⟩
          | true =>
              cases hends with
              | finished hpasses =>
                  exact ⟨_, _, .finished (passesErrors_cons_error.mpr ⟨hpass, hpasses⟩)⟩
              | aborted hpasses hfatal behind =>
                  exact ⟨_, _, .aborted (passesErrors_cons_error.mpr ⟨hpass, hpasses⟩) hfatal
                    behind⟩

theorem Ends.passes (h : Ends items before fatal) : PassesErrors before := by
  cases h with
  | finished hpasses => exact hpasses
  | aborted hpasses => exact hpasses

def closing (surroundings : Surroundings) (fatal : Option Error) (total errors : Nat) :
    List String :=
  match fatal with
  | none => ending surroundings total errors
  | some _ => []

theorem tally_eq (h : Ends items before fatal) :
    tally surroundings engine excludedOnly part 0 0 items =
      (before.filterMap (itemLine? surroundings engine excludedOnly part) ++
        (closing surroundings fatal (shown surroundings engine excludedOnly part before).length
          (errorsOf before).length).map .out, fatal) := by
  cases h with
  | finished hpasses =>
      have htally : tally surroundings engine excludedOnly part 0 0 (before ++ []) = _ :=
        tally_append hpasses 0 0 []
      rw [List.append_nil, Nat.zero_add, Nat.zero_add] at htally
      exact htally
  | aborted hpasses hfatal behind =>
      rw [tally_append hpasses, tally, if_neg (by simp [hfatal])]
      rfl

theorem outsOf_lines (items : List Stream.Item) :
    outsOf (items.filterMap (itemLine? surroundings engine excludedOnly part)) =
      shown surroundings engine excludedOnly part items := by
  induction items with
  | nil => rfl
  | cons item items ih =>
      cases item with
      | ok case =>
          rw [shown_ok, ← ih, List.filterMap_cons, itemLine?]
          cases caseLine? surroundings engine excludedOnly part case <;> rfl
      | error error => exact ih

theorem errsOf_lines (items : List Stream.Item) :
    errsOf (items.filterMap (itemLine? surroundings engine excludedOnly part)) =
      (errorsOf items).map (skipped surroundings) := by
  induction items with
  | nil => rfl
  | cons item items ih =>
      cases item with
      | ok case =>
          rw [List.filterMap_cons, itemLine?]
          cases caseLine? surroundings engine excludedOnly part case <;> exact ih
      | error error => exact congrArg (skipped surroundings error :: ·) ih

theorem outsOf_append (left right : List Line) :
    outsOf (left ++ right) = outsOf left ++ outsOf right :=
  List.filterMap_append

theorem errsOf_append (left right : List Line) :
    errsOf (left ++ right) = errsOf left ++ errsOf right :=
  List.filterMap_append

theorem outsOf_map_out (texts : List String) : outsOf (texts.map .out) = texts := by
  simp [outsOf, List.filterMap_map]

theorem errsOf_map_out (texts : List String) : errsOf (texts.map .out) = [] := by
  simp [errsOf, List.filterMap_map]

theorem countP_isOut (lines : List Line) : lines.countP isOut = (outsOf lines).length := by
  induction lines with
  | nil => rfl
  | cons line lines ih =>
      rw [List.countP_cons, ih]
      cases line <;> rfl

theorem countP_not_isOut (lines : List Line) :
    lines.countP (fun line => !isOut line) = (errsOf lines).length := by
  induction lines with
  | nil => rfl
  | cons line lines ih =>
      rw [List.countP_cons, ih]
      cases line <;> rfl

theorem totals_eq (lines : List Line) : totals surroundings lines =
    (ending surroundings (outsOf lines).length (errsOf lines).length).map .out := by
  rw [totals, countP_isOut, countP_not_isOut, ending, List.map_append]
  split <;> rfl

theorem list_eq_tally (items : List Stream.Item) :
    list surroundings engine excludedOnly part items =
      tally surroundings engine excludedOnly part 0 0 items := by
  obtain ⟨before, fatal, hends⟩ := exists_ends items
  rw [tally_eq hends]
  cases hends with
  | finished hpasses =>
      rw [list_of_passesErrors _ _ _ _ hpasses, totals_eq, outsOf_lines, errsOf_lines,
        List.length_map]
      rfl
  | aborted hpasses hfatal behind =>
      rw [list_of_fatal _ _ _ _ hpasses hfatal]
      exact congrArg (·, some _) (List.append_nil _).symm

def listed (part : Option String) (items : List Stream.Item) : List Case :=
  (casesOf items).filter fun case => Asked part case

theorem shown_false (items : List Stream.Item) :
    shown surroundings engine false part items = (listed part items).map Case.display := by
  rw [shown, listed, ← List.filterMap_eq_map, List.filterMap_filter]
  apply List.filterMap_congr
  intro case _
  rw [caseLine?_eq]
  by_cases hasked : Asked part case <;> simp [hasked]

theorem shown_true (items : List Stream.Item) :
    shown surroundings engine true part items = (listed part items).filterMap fun case =>
      (engine.resolve case).map (withReason surroundings case) := by
  rw [shown, listed, List.filterMap_filter]
  apply List.filterMap_congr
  intro case _
  rw [caseLine?_eq]
  by_cases hasked : Asked part case <;> simp [hasked]

/-- Some lines are printed and counted, and some errors told and counted; what ends the listing
before its end takes the place of the counts. -/
structure Lists (surroundings : Surroundings) (printed : Printed) (lines : List String)
    (errors : List Error) (fatal : Option Error) : Prop where
  ends : printed.2 = fatal
  errs : errsOf printed.1 = errors.map (skipped surroundings)
  outs : outsOf printed.1 = lines ++ closing surroundings fatal lines.length errors.length

theorem lists_tally (h : Ends items before fatal) :
    Lists surroundings (tally surroundings engine excludedOnly part 0 0 items)
      (shown surroundings engine excludedOnly part before) (errorsOf before) fatal := by
  rw [tally_eq h]
  refine ⟨rfl, ?_, ?_⟩
  · rw [errsOf_append, errsOf_lines, errsOf_map_out, List.append_nil]
  · rw [outsOf_append, outsOf_lines, outsOf_map_out]

variable {settings : Settings} {corpus : Corpus}

theorem act_list (excludedOnly : Bool) (part : Option String) {cache after : Cache}
    (hready : Ready surroundings settings cache after corpus engine) :
    act surroundings settings (.list excludedOnly part) cache =
      let printed := tally surroundings engine excludedOnly part 0 0
        (Stream.items ⟨corpus, settings.streamOptions⟩)
      (after, heading surroundings corpus ++ printed.1, printed.2) := by
  have hact : act surroundings settings (.list excludedOnly part) cache =
      onStream surroundings settings (.list excludedOnly part) cache := rfl
  rw [hact, onStream_of_opened surroundings _ hready.opened hready.folders, body, hready.made]
  simp only [list_eq_tally]

theorem run_of_act {arguments : Arguments} {host : Host} {after : Cache} {lines : List Line}
    (hact : act surroundings (settingsOf host arguments.options).1 arguments.action { host } =
      (after, lines, fatal)) :
    (run surroundings arguments host).lines =
        lines ++ (fatal.map (errorLine surroundings)).toList ∧
      code (run surroundings arguments host) = if fatal.isNone then 0 else 1 := by
  have hlines : (run surroundings arguments host).lines =
      (act surroundings (settingsOf host arguments.options).1 arguments.action { host }).2.1 ++
        ((act surroundings (settingsOf host arguments.options).1 arguments.action
          { host }).2.2.map (errorLine surroundings)).toList := rfl
  have hdone : (run surroundings arguments host).succeeded =
      (act surroundings (settingsOf host arguments.options).1 arguments.action
        { host }).2.2.isNone := rfl
  rw [hlines, code, hdone, hact]
  exact ⟨rfl, rfl⟩

theorem act_list_of_not_ready (excludedOnly : Bool) (part : Option String) {cache : Cache}
    (hnever : ∀ after corpus engine, ¬ Ready surroundings settings cache after corpus engine) :
    act surroundings settings (.list excludedOnly part) cache =
      act surroundings settings .unrecognized cache := by
  have hlist : act surroundings settings (.list excludedOnly part) cache =
      onStream surroundings settings (.list excludedOnly part) cache := rfl
  have hother : act surroundings settings .unrecognized cache =
      onStream surroundings settings .unrecognized cache := rfl
  rw [hlist, hother, onStream, onStream]
  rcases hopen : settings.openCorpus surroundings.fetcher surroundings.defaultCache cache with
    ⟨after, error | corpus⟩
  · rfl
  cases hcreate : Stream.create corpus settings.streamOptions with
  | error error => simp only [hcreate]
  | ok stream =>
      cases hengine : settings.engine after.host with
      | error error => simp only [hcreate, body, hengine]
      | ok engine =>
          have hfolders : settings.subDirectories ≠ [] := by
            intro hempty
            simp [Stream.create, Settings.streamOptions, hempty] at hcreate
          exact absurd ⟨hopen, hfolders, hengine⟩ (hnever after corpus engine)

/-- Where a listing has all that it needs, it goes through the items of its stream and counts
them as it goes. It ends at the first error that does not concern one file, or at the end. Until
then, it tells each error, and each case with the part that is asked for in a line; behind all of
them, it tells how many cases these were, and how many errors if there were any. A listing of the
excluded cases ends alike and tells the same errors. Its lines are those of the same cases for
which there is a reason, in the same order, with the reason. Where something is missing, both fail
alike and list nothing. -/
theorem listings_alike (surroundings : Surroundings) (settings : Settings)
    (part : Option String) :
    (∀ corpus engine,
      let items := Stream.items ⟨corpus, settings.streamOptions⟩
      let told excludedOnly := tally surroundings engine excludedOnly part 0 0 items
      ∃ before fatal, Ends items before fatal ∧
        Lists surroundings (told false) ((listed part before).map Case.display)
          (errorsOf before) fatal ∧
        Lists surroundings (told true)
          ((listed part before).filterMap fun case =>
            (engine.resolve case).map (withReason surroundings case))
          (errorsOf before) fatal ∧
        (∀ excludedOnly cache after, Ready surroundings settings cache after corpus engine →
          act surroundings settings (.list excludedOnly part) cache =
            (after, heading surroundings corpus ++ (told excludedOnly).1,
              (told excludedOnly).2)) ∧
        ∀ excludedOnly arguments host after, arguments.action = .list excludedOnly part →
          (settingsOf host arguments.options).1 = settings →
          Ready surroundings settings { host } after corpus engine →
            (run surroundings arguments host).lines =
              heading surroundings corpus ++ (told excludedOnly).1 ++
                (fatal.map (errorLine surroundings)).toList ∧
            code (run surroundings arguments host) = if fatal.isNone then 0 else 1) ∧
    ∀ cache,
      (∀ after corpus engine, ¬ Ready surroundings settings cache after corpus engine) →
        Fails surroundings (act surroundings settings (.list false part) cache).2 ∧
          act surroundings settings (.list true part) cache =
            act surroundings settings (.list false part) cache := by
  refine ⟨?_, fun cache hnever => ?_⟩
  · intro corpus engine items told
    obtain ⟨before, fatal, hends⟩ := exists_ends items
    refine ⟨before, fatal, hends, ?_, ?_, fun excludedOnly _ _ => act_list excludedOnly part, ?_⟩
    · rw [← shown_false]
      exact lists_tally hends
    · rw [← shown_true]
      exact lists_tally hends
    · rintro excludedOnly arguments host after haction rfl hready
      have hact := act_list excludedOnly part hready
      rw [← haction] at hact
      have hfatal : (told excludedOnly).2 = fatal := (lists_tally hends).ends
      rw [← hfatal]
      exact run_of_act hact
  · rw [act_list_of_not_ready true part hnever, act_list_of_not_ready false part hnever]
    exact ⟨fails_of_not_ready surroundings hnever, rfl⟩

def bothModes : List Case :=
  ((Case.read "/*---\ndescription: d\n---*/\n".toUTF8 "test/a/b.js" true).toOption).getD []

theorem items_rulesOfThree :
    Stream.items ⟨Directory.toCorpus ⟨hostOfTwo, "/c"⟩, rulesOfThree.streamOptions⟩ =
      bothModes.map .ok := by
  have hfolder : twoFiles.IsFolder ["test", "a"] := (isFolder_twoFiles_iff _).mpr (by simp)
  have hroot : Path.normalize (Stream.rootOf "a") = Path.ofNames ["test", "a"] := by decide
  obtain ⟨paths, hpaths, hlisting⟩ := holds_hostOfTwo.list_of_isFolder hroot (by simp)
    hfolder true Stream.isTestFile
  have hfiles : Stream.filesOf ⟨Directory.toCorpus ⟨hostOfTwo, "/c"⟩, rulesOfThree.streamOptions⟩
      "a" = paths := by
    rw [Stream.filesOf, Directory.list_toCorpus, hpaths]
  obtain rfl : paths = ["test/a/b.js"] := by
    apply hlisting.sorted.eq_of_mem_iff (List.pairwise_singleton _ _)
    intro path
    rw [← hfiles, List.mem_singleton, ← mem_filesOf_rulesOfThree]
    simp [rulesOfThree]
  have hload : Stream.load (Directory.toCorpus ⟨hostOfTwo, "/c"⟩) true "test/a/b.js" =
      .ok bothModes := by
    have hcases : (Case.read "/*---\ndescription: d\n---*/\n".toUTF8 "test/a/b.js" true).isOk =
        true := by
      decide +kernel
    rw [bothModes]
    simp only [Stream.load, Directory.read_toCorpus, read_rulesOfThree, bind, Except.bind]
    cases hread : Case.read "/*---\ndescription: d\n---*/\n".toUTF8 "test/a/b.js" true with
    | error problem =>
        rw [hread] at hcases
        cases hcases
    | ok cases => rfl
  have hitems : Stream.items ⟨Directory.toCorpus ⟨hostOfTwo, "/c"⟩, rulesOfThree.streamOptions⟩ =
      Stream.directoryItems ⟨Directory.toCorpus ⟨hostOfTwo, "/c"⟩, rulesOfThree.streamOptions⟩
        "a" := List.flatMap_singleton ..
  have hexpand : rulesOfThree.streamOptions.expandStrict = true := rfl
  rw [hitems, Stream.directoryItems, Directory.list_toCorpus, hpaths]
  simp only [List.flatMap_singleton, Stream.fileItems, hexpand, hload]
  exact congrArg (List.map _) (List.filter_true bothModes)

theorem resolve_bothModes {engine : Exclusion.Engine}
    (hengine : rulesOfThree.engine hostOfTwo = .ok engine) :
    bothModes.map engine.resolve = [none, some (.file "test/a/b.js(strict mode)")] := by
  have hmade : Exclusion.Engine.ofParts rulesOfThree.exclusions.files [] [] [] = .ok engine :=
    hengine
  obtain ⟨hfiles, -, -, hdirectories⟩ := Exclusion.Engine.madeOf_ofParts hmade
  have hresolve : ∀ case ∈ bothModes, engine.resolve case =
      (Exclusion.Scan.file? rulesOfThree.exclusions.files case).or
        (Exclusion.Scan.pattern? rulesOfThree.exclusions.files case) := by
    have hwords : ∀ case ∈ bothModes, case.metadata.features = [] ∧ case.metadata.flags = [] := by
      decide +kernel
    intro case hcase
    rw [Exclusion.Engine.resolve, Exclusion.Engine.directoryReason?_eq case hdirectories,
      Exclusion.Engine.fileReason?_eq case hfiles, Exclusion.Engine.patternReason?_eq case hfiles,
      Exclusion.Engine.featureReason?, Exclusion.Engine.flagReason?, (hwords case hcase).1,
      (hwords case hcase).2]
    rfl
  rw [List.map_congr_left hresolve]
  decide +kernel

theorem exists_bothModes {engine : Exclusion.Engine}
    (hengine : rulesOfThree.engine hostOfTwo = .ok engine) :
    ∃ plain strict : Case, bothModes = [plain, strict] ∧
      plain.fileName = "test/a/b.js" ∧ strict.fileName = "test/a/b.js" ∧
      plain.display = "test/a/b.js(default)" ∧ strict.display = "test/a/b.js(strict mode)" ∧
      engine.resolve plain = none ∧
      engine.resolve strict = some (.file "test/a/b.js(strict mode)") := by
  have hnames : bothModes.map Case.fileName = ["test/a/b.js", "test/a/b.js"] := by decide +kernel
  have hdisplays : bothModes.map Case.display =
      ["test/a/b.js(default)", "test/a/b.js(strict mode)"] := by decide +kernel
  have hresolve := resolve_bothModes hengine
  obtain ⟨plain, strict, hmodes⟩ : ∃ plain strict, bothModes = [plain, strict] :=
    List.length_eq_two.mp (by simpa using congrArg List.length hnames)
  rw [hmodes] at hnames hdisplays hresolve
  simp only [List.map_cons, List.map_nil, List.cons.injEq, and_true] at hnames hdisplays hresolve
  exact ⟨plain, strict, hmodes, hnames.1, hnames.2, hdisplays.1, hdisplays.2, hresolve.1,
    hresolve.2⟩

theorem ends_map_ok {cases : List Case} (h : Ends (cases.map .ok) before fatal) :
    before = cases.map .ok ∧ fatal = none := by
  generalize hitems : (cases.map .ok : List Stream.Item) = items at h
  cases h with
  | finished => exact ⟨rfl, rfl⟩
  | @aborted _ error hpasses hfatal behind =>
      have hmem : Except.error error ∈ (cases.map .ok : List Stream.Item) := by simp [hitems]
      simp at hmem

/-- Of a file, one mode is excluded. -/
theorem listings_alike_modes : ∀ surroundings : Surroundings,
    outsOf (act surroundings rulesOfThree (.list false (some "b.j"))
        { host := hostOfTwo }).2.1 =
      outsOf (heading surroundings (Directory.toCorpus ⟨hostOfTwo, "/c"⟩)) ++
        ["test/a/b.js(default)", "test/a/b.js(strict mode)", "", "Total: 2 cases"] ∧
    outsOf (act surroundings rulesOfThree (.list true (some "b.j"))
        { host := hostOfTwo }).2.1 =
      outsOf (heading surroundings (Directory.toCorpus ⟨hostOfTwo, "/c"⟩)) ++
        ["test/a/b.js(strict mode) " ++
            styled surroundings .dimmed "[File test/a/b.js(strict mode) excluded]",
          "", "Total: 1 cases"] := by
  intro surroundings
  obtain ⟨engine, hengine⟩ : ∃ engine, rulesOfThree.engine hostOfTwo = .ok engine := ⟨_, rfl⟩
  have hready : Ready surroundings rulesOfThree { host := hostOfTwo } { host := hostOfTwo }
      (Directory.toCorpus ⟨hostOfTwo, "/c"⟩) engine :=
    ⟨opened_rulesOfThree surroundings, by simp [rulesOfThree], hengine⟩
  obtain ⟨before, fatal, hends, hall, hexcluded, hact, -⟩ :=
    (listings_alike surroundings rulesOfThree (some "b.j")).1
      (Directory.toCorpus ⟨hostOfTwo, "/c"⟩) engine
  obtain ⟨plain, strict, hmodes, hname, hstrictName, hdisplay, hstrictDisplay, hnone, hreason⟩ :=
    exists_bothModes hengine
  rw [items_rulesOfThree] at hends
  obtain ⟨hbefore, hfatal⟩ := ends_map_ok hends
  have hasked {case : Case} (hname : case.fileName = "test/a/b.js") :
      Asked (some "b.j") case := by
    rw [← all_contains_iff, hname]
    decide
  have hlisted : listed (some "b.j") before = [plain, strict] := by
    rw [hbefore, hmodes]
    simp [listed, casesOf, hasked hname, hasked hstrictName, Except.toOption]
  have herrors : errorsOf before = [] := by
    rw [hbefore, hmodes]
    rfl
  rw [hlisted, herrors, hfatal] at hall hexcluded
  have htold : withReason surroundings strict (.file "test/a/b.js(strict mode)") =
      "test/a/b.js(strict mode) " ++
        styled surroundings .dimmed "[File test/a/b.js(strict mode) excluded]" := by
    have hfront : "test/a/b.js(strict mode)" ++ " " = "test/a/b.js(strict mode) " := by decide
    rw [withReason, hstrictDisplay, hfront]
    rfl
  rw [hact _ _ _ hready, hact _ _ _ hready, outsOf_append, outsOf_append, hall.outs,
    hexcluded.outs]
  simp only [List.map_cons, List.map_nil, List.filterMap_cons, List.filterMap_nil, hdisplay,
    hstrictDisplay, hnone, hreason, Option.map_none, Option.map_some, htold]
  have htwo : closing surroundings none 2 0 = ["", "Total: 2 cases"] := rfl
  have hone : closing surroundings none 1 0 = ["", "Total: 1 cases"] := rfl
  simp only [List.length_cons, List.length_nil, Nat.zero_add, Nat.reduceAdd, htwo, hone,
    List.cons_append, List.nil_append, and_self]

end Conformance.Session
