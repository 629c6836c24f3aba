import Conformance.Text.Blank
import Conformance.Text.LetterCase

namespace Conformance

inductive Phase where
  | parse
  | resolution
  | runtime
  | unknown
deriving DecidableEq, Repr, Hashable

namespace Phase

/-- `early` is an older name of the parse phase. Blanks around the name and
the case of its ASCII letters do not count. -/
def ofText? (text : String) : Option Phase :=
  match Text.asciiLowercase (Text.trim text) with
  | "parse" => some parse
  | "early" => some parse
  | "resolution" => some resolution
  | "runtime" => some runtime
  | _ => none

def name : Phase → String
  | parse => "parse"
  | resolution => "resolution"
  | runtime => "runtime"
  | unknown => "unknown"

def all : List Phase := [parse, resolution, runtime, unknown]

def ofName? (text : String) : Option Phase :=
  all.find? (·.name == text)

def unreadable (text : String) : String :=
  s!"unknown testing phase \x60{text}\x60"

theorem name_injective {left right : Phase} (h : left.name = right.name) :
    left = right := by
  cases left <;> cases right <;> first | rfl | exact absurd h (by decide)

end Phase

inductive ErrorType where
  | syntaxError
  | referenceError
  | typeError
  | rangeError
  | evalError
  | uriError
  | test262Error
  | unknown
deriving DecidableEq, Repr, Hashable

namespace ErrorType

def name : ErrorType → String
  | syntaxError => "SyntaxError"
  | referenceError => "ReferenceError"
  | typeError => "TypeError"
  | rangeError => "RangeError"
  | evalError => "EvalError"
  | uriError => "URIError"
  | test262Error => "Test262Error"
  | unknown => "Unknown"

def constructors : List ErrorType :=
  [syntaxError, referenceError, typeError, rangeError, evalError, uriError, test262Error]

def all : List ErrorType := constructors ++ [unknown]

def ofText? (text : String) : Option ErrorType :=
  let wanted := Text.asciiLowercase (Text.trim text)
  constructors.find? fun errorType => Text.asciiLowercase errorType.name == wanted

def ofName? (text : String) : Option ErrorType :=
  all.find? (·.name == text)

def unreadable (text : String) : String :=
  s!"unknown error type \x60{text}\x60"

end ErrorType

structure Expectation where
  phase : Phase
  errorType : ErrorType
deriving DecidableEq, Repr, Hashable

end Conformance
