import Conformance.Case.Basic
import Conformance.Exclusion.Rules
import Conformance.Glob.Match
import Std.Data.HashSet

namespace Conformance.Exclusion

/-! Rules made ready for look-up, and why they exclude a case. -/

inductive Kind where
  | directory
  | file
  | feature
  | flag
  | pattern
deriving DecidableEq, Repr, Hashable

def Kind.name : Kind → String
  | directory => "directory"
  | file => "file"
  | feature => "feature"
  | flag => "flag"
  | pattern => "pattern"

inductive Reason where
  | directory (written : String)
  | file (case : String)
  | feature (word : String)
  | flag (word : String)
  | pattern (case written : String)
deriving DecidableEq, Repr

namespace Reason

def kind : Reason → Kind
  | directory _ => .directory
  | file _ => .file
  | feature _ => .feature
  | flag _ => .flag
  | pattern _ _ => .pattern

def message : Reason → String
  | directory written => s!"Directory {written} was excluded"
  | file case => s!"File {case} excluded"
  | feature word => s!"Feature {word} excluded"
  | flag word => s!"Flag {word} excluded"
  | pattern case written => s!"File {case} excluded by pattern {written}"

end Reason

structure ExactEntry where
  written : String
  name : String

structure PatternEntry where
  written : String
  pattern : Glob.Pattern
  scope : Scope

structure DirectoryEntry where
  written : String
  name : List Char

structure Engine where
  exact : Std.HashSet (String × Bool) := {}
  exactEntries : List ExactEntry := []
  patterns : List PatternEntry := []
  features : Std.HashSet String := {}
  flags : Std.HashSet String := {}
  directories : List DirectoryEntry := []

namespace Engine

def modes (name : String) : Scope → List (String × Bool)
  | some strict => [(name, strict)]
  | none => [(name, false), (name, true)]

def addFile (engine : Engine) (entry : String) : Except Error Engine :=
  let file := FileEntry.ofText entry
  let name := String.ofList file.name
  if file.name.isEmpty then .ok engine
  else if file.isPattern then
    match Glob.Pattern.read file.name with
    | .error problem => .error (.invalidArgument (.badPattern entry name problem))
    | .ok pattern =>
      .ok { engine with patterns := engine.patterns ++ [⟨file.written, pattern, file.scope⟩] }
  else
    .ok { engine with
      exact := engine.exact.insertMany (modes name file.scope)
      exactEntries := engine.exactEntries ++ [⟨file.written, name⟩] }

def lowerWords (words : List String) : List String :=
  (words.map fun word => Text.lowercase (Text.trim word)).filter (!·.isEmpty)

def directoryEntries (directories : List String) : List DirectoryEntry :=
  (directories.map fun directory =>
    ⟨Text.trim directory, nameOf directory.toList⟩).filter (!·.name.isEmpty)

def ofParts (files features flags directories : List String) : Except Error Engine := do
  let engine ← files.foldlM addFile {}
  return { engine with
    features := .ofList (lowerWords features)
    flags := .ofList (lowerWords flags)
    directories := directoryEntries directories }

/-- The engine of some rules, where the files of the list come last. -/
def ofRules (rules : Rules) (read : String → Except Host.Fault ByteArray) :
    Except Error Engine := do
  let listed ← match rules.source with
    | none => .ok []
    | some path => ListFile.ofRead path (read path)
  ofParts (rules.files ++ listed) rules.features rules.flags rules.directories

def isEmpty (engine : Engine) : Bool :=
  engine.exact.isEmpty && engine.patterns.isEmpty && engine.features.isEmpty &&
    engine.flags.isEmpty && engine.directories.isEmpty

def caseName (case : Case) : String :=
  Text.lowercase case.testName

def directoryReason? (engine : Engine) (case : Case) : Option Reason :=
  let name := (caseName case).toList
  (engine.directories.find? fun entry => Path.within entry.name name).map
    fun entry => .directory entry.written

def fileReason? (engine : Engine) (case : Case) : Option Reason :=
  if engine.exact.contains (caseName case, case.strict) then some (.file case.display)
  else none

def featureReason? (engine : Engine) (case : Case) : Option Reason :=
  (case.metadata.features.find? fun word => engine.features.contains (Text.lowercase word)).map
    .feature

def flagReason? (engine : Engine) (case : Case) : Option Reason :=
  (case.metadata.flags.find? fun word => engine.flags.contains (Text.lowercase word)).map .flag

def patternReason? (engine : Engine) (case : Case) : Option Reason :=
  (engine.patterns.find? fun entry =>
    entry.scope.covers case.strict && entry.pattern.accepts (caseName case)).map
    fun entry => .pattern case.display entry.written

def resolve (engine : Engine) (case : Case) : Option Reason :=
  (engine.directoryReason? case).or <|
    (engine.fileReason? case).or <|
      (engine.featureReason? case).or <|
        (engine.flagReason? case).or (engine.patternReason? case)

def excludes (engine : Engine) (case : Case) : Bool :=
  (engine.resolve case).isSome

def withoutRepeats : List String → List String
  | [] => []
  | [entry] => [entry]
  | entry :: next :: more =>
    if entry = next then withoutRepeats (next :: more)
    else entry :: withoutRepeats (next :: more)

def unrecognized (engine : Engine) (cases : List Case) : List String :=
  let observed := Std.HashSet.ofList (cases.map caseName)
  let missing := engine.exactEntries.filter fun entry => !observed.contains entry.name
  withoutRepeats (Path.sortPaths (missing.map (·.written)))

end Engine

end Conformance.Exclusion
