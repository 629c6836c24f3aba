import Conformance.Case.Block
import Conformance.Case.Expectation
import Conformance.Yaml.Value

namespace Conformance

/-! What a test file says about itself. -/

inductive ProgramType where
  | script
  | module
deriving DecidableEq, Repr, Hashable

namespace ProgramType

def name : ProgramType → String
  | script => "script"
  | module => "module"

end ProgramType

structure Metadata where
  fileName : String
  esid : String
  author : String
  description : String
  info : String
  locale : List String
  features : List String
  flags : List String
  includes : List String
  negative : Option Expectation
  programType : ProgramType
deriving DecidableEq, Repr

namespace Metadata

inductive Problem where
  | block (problem : Block.Problem)
  | unloadable
  | notMapping
  | notScalar (key : String)
  | notList (key : String)
  | negativeNotMapping
  | notText
  | noCase
deriving DecidableEq, Repr

def Problem.message : Problem → String
  | block .noStart => "cannot find YAML section start"
  | block .noEnd => "cannot find YAML section end"
  | block .empty => "YAML section is empty"
  | unloadable => "could not load YAML content"
  | notMapping => "YAML section is not a mapping"
  | notScalar key => s!"\x60{key}\x60 must be a scalar"
  | notList key => s!"\x60{key}\x60 must be a list"
  | negativeNotMapping => "\x60negative\x60 must be a mapping"
  | notText => "stream did not contain valid UTF-8"
  | noCase => "no test case produced"

abbrev Read (α : Type) := Except Problem α

def scalarText? : Yaml.Value → Option String
  | .string text => some text
  | .number number => some number.toText
  | .bool true => some "true"
  | .bool false => some "false"
  | .null => some ""
  | _ => none

def scalar (key : String) (value : Yaml.Value) : Read String :=
  match scalarText? value with
  | some text => .ok text
  | none => .error (.notScalar key)

def textAt (mapping : Yaml.Mapping) (key : String) : Read String :=
  match mapping.get? key with
  | none => .ok ""
  | some value => scalar key value

def scalars (key : String) : List Yaml.Value → Read (List String)
  | [] => .ok []
  | value :: values => do return (← scalar key value) :: (← scalars key values)

def listAt (mapping : Yaml.Mapping) (key : String) : Read (List String) :=
  match mapping.get? key with
  | none => .ok []
  | some .null => .ok []
  | some (.sequence items) => scalars key items
  | some (.string single) => .ok [single]
  | some _ => .error (.notList key)

/-- The section of the standard; two older keys stand in for it. -/
def sectionId (mapping : Yaml.Mapping) : Read String :=
  match ["esid", "es5id", "es6id"].findSome? mapping.get? with
  | none => .ok ""
  | some value => scalar "esid" value

structure NegativeTexts where
  phase : String
  errorType : String
deriving DecidableEq, Repr

def NegativeTexts.expectation (texts : NegativeTexts) : Expectation where
  phase := (Phase.ofText? texts.phase).getD .unknown
  errorType := (ErrorType.ofText? texts.errorType).getD .unknown

inductive Fallback where
  | phase (text : String)
  | errorType (text : String)
deriving DecidableEq, Repr

def Fallback.message : Fallback → String
  | phase text => s!"negative.phase fell back to unknown: {Phase.unreadable text}"
  | errorType text => s!"negative.type fell back to unknown: {ErrorType.unreadable text}"

def NegativeTexts.fallbacks (texts : NegativeTexts) : List Fallback :=
  (if (Phase.ofText? texts.phase).isNone then [.phase texts.phase] else []) ++
    (if (ErrorType.ofText? texts.errorType).isNone then [.errorType texts.errorType] else [])

def negativeTexts (mapping : Yaml.Mapping) : Read (Option NegativeTexts) :=
  match mapping.get? "negative" with
  | none => .ok none
  | some .null => .ok none
  | some (.mapping entries) => do
    return some ⟨← textAt entries "phase", ← textAt entries "type"⟩
  | some _ => .error .negativeNotMapping

def front (mapping : Yaml.Mapping) : Read (String × List String × Option NegativeTexts) := do
  let esid ← sectionId mapping
  let flags ← listAt mapping "flags"
  return (esid, flags, ← negativeTexts mapping)

def programTypeOf (flags : List String) : ProgramType :=
  if flags.contains "module" then .module else .script

def ofMapping (fileName : String) (mapping : Yaml.Mapping) : Read Metadata := do
  let (esid, flags, negative) ← front mapping
  return {
    fileName
    esid
    author := ← textAt mapping "author"
    description := ← textAt mapping "description"
    info := ← textAt mapping "info"
    locale := ← listAt mapping "locale"
    features := ← listAt mapping "features"
    flags
    includes := ← listAt mapping "includes"
    negative := negative.map NegativeTexts.expectation
    programType := programTypeOf flags }

/-- Notices come as soon as both texts of a negative case are read, whatever
else is wrong with the mapping. -/
def fallbacks (mapping : Yaml.Mapping) : List Fallback :=
  match front mapping with
  | .ok (_, _, some texts) => texts.fallbacks
  | _ => []

abbrev Loader := List Char → Option Yaml.Value

def root (load : Loader) (contents : List Char) : Read Yaml.Mapping :=
  match Block.body contents with
  | .error problem => .error (.block problem)
  | .ok body =>
    match load body with
    | none => .error .unloadable
    | some (.mapping mapping) => .ok mapping
    | some _ => .error .notMapping

def ofContents (load : Loader) (fileName : String) (contents : List Char) : Read Metadata := do
  ofMapping fileName (← root load contents)

def fallbacksOf (load : Loader) (contents : List Char) : List Fallback :=
  match root load contents with
  | .ok mapping => fallbacks mapping
  | .error _ => []

end Metadata

end Conformance
