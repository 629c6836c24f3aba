import Conformance.Proofs.Exclusion.Entries
import Conformance.Proofs.Exclusion.Tables
import Conformance.Proofs.Path.Segments

namespace Conformance.Exclusion

/-! Rules read one after the other, with no tables. The verdict of an engine is
the one that its rules give when they are read this way. -/

namespace Scan

def directory? (directories : List String) (case : Case) : Option Reason :=
  (directories.find? fun directory =>
    nameOf directory.toList ≠ [] ∧
      Path.segments (nameOf directory.toList) <+:
        Path.segments (Text.lowered case.testName.toList)).map
    fun directory => .directory (Text.trim directory)

def file? (files : List String) (case : Case) : Option Reason :=
  if ∃ entry ∈ files, hasGlobMark entry = false ∧
      (FileEntry.ofText entry).name ≠ [] ∧
      (FileEntry.ofText entry).name = Text.lowered case.testName.toList ∧
      (FileEntry.ofText entry).scope.covers case.strict = true
  then some (.file case.display)
  else none

def word? (configured own : List String) : Option String :=
  own.find? fun word =>
    ∃ other ∈ configured, Text.lowercase (Text.trim other) = Text.lowercase word

def globTakes (glob : List Char) (name : String) : Bool :=
  match Glob.Pattern.read glob with
  | .ok pattern => pattern.accepts name
  | .error _ => false

def pattern? (files : List String) (case : Case) : Option Reason :=
  (files.find? fun entry =>
    hasGlobMark entry && (FileEntry.ofText entry).scope.covers case.strict &&
      globTakes (FileEntry.ofText entry).name (Text.lowercase case.testName)).map
    fun entry => .pattern case.display (Text.trim entry)

end Scan

def scan (files features flags directories : List String) (case : Case) : Option Reason :=
  (Scan.directory? directories case).or <|
    (Scan.file? files case).or <|
      ((Scan.word? features case.metadata.features).map .feature).or <|
        ((Scan.word? flags case.metadata.flags).map .flag).or (Scan.pattern? files case)

/-- The words that are not blank. -/
def spelled (words : List String) : List String :=
  words.filter fun word => Text.trim word ≠ ""

def tagged (fileName : String) (features : List String) : Case where
  metadata := ⟨fileName, "", "", "", "", [], features, [], [], none, .script⟩
  program := ""
  strict := false

namespace Engine

variable {engine : Engine} {files features flags directories : List String}

theorem directoryReason?_eq (case : Case)
    (hmade : engine.directories = directoryEntries directories) :
    engine.directoryReason? case = Scan.directory? directories case := by
  have htest : ∀ directory : String,
      ((!(nameOf directory.toList).isEmpty) = true ∧
        Path.within (nameOf directory.toList) (Text.lowercase case.testName).toList = true) ↔
      (nameOf directory.toList ≠ [] ∧
        Path.segments (nameOf directory.toList) <+:
          Path.segments (Text.lowered case.testName.toList)) := by
    intro directory
    simp [Path.within_iff_segments, Text.lowercase]
  rw [directoryReason?, Scan.directory?, hmade, directoryEntries]
  simp only [List.find?_filter, List.find?_map, Option.map_map, Function.comp_def, caseName, htest]

theorem names_iff {entry : String} {case : Case} :
    (FileEntry.ofText entry).Names (caseName case) case.strict ↔
      hasGlobMark entry = false ∧
        (FileEntry.ofText entry).name ≠ [] ∧
        (FileEntry.ofText entry).name = Text.lowered case.testName.toList ∧
        (FileEntry.ofText entry).scope.covers case.strict = true := by
  have hsame : String.ofList (FileEntry.ofText entry).name = caseName case ↔
      (FileEntry.ofText entry).name = Text.lowered case.testName.toList := by
    rw [caseName, Text.lowercase]
    exact String.ofList_inj
  rw [← FileEntry.isPattern_ofText, ← hsame]
  constructor
  · rintro ⟨hplain, hnamed, hname, hcovers⟩
    exact ⟨hplain, hnamed, hname, hcovers⟩
  · rintro ⟨hplain, hnamed, hname, hcovers⟩
    exact ⟨hplain, hnamed, hname, hcovers⟩

theorem fileReason?_eq (case : Case) (hholds : engine.Holds files) :
    engine.fileReason? case = Scan.file? files case := by
  have htable := hholds.exact (caseName case) case.strict
  simp only [names_iff] at htable
  rw [fileReason?, Scan.file?]
  exact if_congr htable rfl rfl

theorem mem_lowerWords_iff {words : List String} {word : String} :
    word ∈ lowerWords words ↔
      ∃ other ∈ spelled words, Text.lowercase (Text.trim other) = word := by
  have hblank : ∀ other : String,
      Text.lowercase (Text.trim other) ≠ "" ↔ Text.trim other ≠ "" :=
    fun _ => not_congr Text.lowercase_eq_empty_iff
  simp only [lowerWords, spelled, List.mem_filter, List.mem_map, decide_eq_true_eq]
  constructor
  · rintro ⟨⟨other, hother, rfl⟩, hword⟩
    exact ⟨other, ⟨hother, (hblank other).mp (by simpa using hword)⟩, rfl⟩
  · rintro ⟨other, ⟨hother, hspelled⟩, rfl⟩
    exact ⟨⟨other, hother, rfl⟩, by simpa using (hblank other).mpr hspelled⟩

theorem find?_lowerWords (configured own : List String) :
    (own.find? fun word =>
      (Std.HashSet.ofList (lowerWords configured)).contains (Text.lowercase word)) =
      Scan.word? (spelled configured) own := by
  rw [Scan.word?]
  congr 1
  funext word
  rw [Bool.eq_iff_iff, Std.HashSet.contains_ofList, List.contains_iff_mem, mem_lowerWords_iff,
    decide_eq_true_eq]

theorem any_patternEntry (entry name : String) (strict : Bool) :
    ((PatternEntry.ofText? entry).any fun made =>
      made.scope.covers strict && made.pattern.accepts name) =
      (hasGlobMark entry && (FileEntry.ofText entry).scope.covers strict &&
        Scan.globTakes (FileEntry.ofText entry).name name) := by
  rw [PatternEntry.ofText?, ← FileEntry.isPattern_ofText, Scan.globTakes]
  cases hpattern : (FileEntry.ofText entry).isPattern with
  | false => simp
  | true =>
      cases hread : Glob.Pattern.read (FileEntry.ofText entry).name with
      | error problem => simp [Except.toOption]
      | ok pattern => simp [Except.toOption]

theorem written_of_patternEntry {entry : String} {made : PatternEntry}
    (hmade : PatternEntry.ofText? entry = some made) : made.written = Text.trim entry := by
  unfold PatternEntry.ofText? at hmade
  simp only at hmade
  split at hmade
  · obtain ⟨pattern, -, rfl⟩ := Option.map_eq_some_iff.mp hmade
    exact FileEntry.written_ofText entry
  · cases hmade

theorem patternReason?_eq (case : Case) (hholds : engine.Holds files) :
    engine.patternReason? case = Scan.pattern? files case := by
  rw [patternReason?, Scan.pattern?, hholds.patterns, List.find?_filterMap]
  simp only [any_patternEntry, caseName]
  cases hfound : files.find? fun entry =>
      hasGlobMark entry && (FileEntry.ofText entry).scope.covers case.strict &&
        Scan.globTakes (FileEntry.ofText entry).name (Text.lowercase case.testName) with
  | none => rfl
  | some entry =>
      have htakes := List.find?_some hfound
      rw [← any_patternEntry, Option.any_eq_true] at htakes
      obtain ⟨made, hmade, -⟩ := htakes
      simp [hmade, written_of_patternEntry hmade]

/-- An engine gives the reason that is found first when its rules are read one
after the other: folders, names, features, flags, and globs. Blank features and
flags do not count. -/
theorem resolve_eq_scan (hmade : ofParts files features flags directories = .ok engine)
    (case : Case) :
    engine.resolve case = scan files (spelled features) (spelled flags) directories case := by
  obtain ⟨hfiles, hfeatures, hflags, hdirectories⟩ := madeOf_ofParts hmade
  rw [resolve, scan, directoryReason?_eq case hdirectories, fileReason?_eq case hfiles,
    patternReason?_eq case hfiles, featureReason?, flagReason?, hfeatures, hflags,
    find?_lowerWords, find?_lowerWords]

/-- A folder, a name in one mode, a glob, a feature and a flag: all are passed
by but the glob. -/
theorem resolve_eq_scan_glob :
    ∃ engine, ofParts ["Test/b.js(strict mode)", "a/*.js"] ["Proxy"] ["raw"] ["intl402"] =
        .ok engine ∧
      engine.resolve (tagged "test/A/b.js" []) =
        some (.pattern "test/A/b.js(default)" "a/*.js") := by
  have hmade : ∃ engine, ofParts ["Test/b.js(strict mode)", "a/*.js"] ["Proxy"] ["raw"]
      ["intl402"] = .ok engine := ⟨_, rfl⟩
  obtain ⟨engine, hmade⟩ := hmade
  refine ⟨engine, hmade, ?_⟩
  rw [resolve_eq_scan hmade]
  decide +kernel

/-- A blank feature that is configured does not exclude a case with a blank
feature. -/
theorem resolve_ne_scan_blank :
    ∃ engine, ofParts [] [""] [] [] = .ok engine ∧
      engine.resolve (tagged "test/a.js" [""]) = none ∧
      scan [] [""] [] [] (tagged "test/a.js" [""]) = some (.feature "") := by
  have hblank : lowerWords [""] = [] := by decide
  have hunnamed : directoryEntries [] = [] := rfl
  refine ⟨_, rfl, ?_, ?_⟩
  · simp [resolve, directoryReason?, fileReason?, featureReason?, flagReason?, patternReason?,
      hblank, hunnamed, tagged]
  · decide +kernel

end Engine

end Conformance.Exclusion
