import Conformance.Case.Metadata
import Conformance.Path
import Conformance.Yaml.Document

namespace Conformance

structure Case where
  metadata : Metadata
  program : String
  strict : Bool
deriving DecidableEq, Repr

namespace Case

def fileName (case : Case) : String := case.metadata.fileName

def testName (case : Case) : String :=
  (Text.stripStart? "test/" case.fileName).getD case.fileName

def hasFlag (case : Case) (flag : String) : Bool :=
  case.metadata.flags.contains flag

def isAsync (case : Case) : Bool := case.hasFlag "async"

def isNegative (case : Case) : Bool :=
  case.metadata.negative.isSome || case.hasFlag "negative"

def identity (case : Case) : String × Bool := (case.fileName, case.strict)

def same (left right : Case) : Bool := left.identity == right.identity

def display (case : Case) : String :=
  case.fileName ++ if case.strict then "(strict mode)" else "(default)"

def strictLine : String := "\x22use strict\x22;\n"

def asStrict (case : Case) : Case :=
  if case.strict then case
  else { case with program := strictLine ++ case.program, strict := true }

theorem asStrict_of_strict {case : Case} (h : case.strict = true) : case.asStrict = case := by
  simp [asStrict, h]

@[simp] theorem strict_asStrict (case : Case) : case.asStrict.strict = true := by
  unfold asStrict
  split <;> simp_all

@[simp] theorem metadata_asStrict (case : Case) : case.asStrict.metadata = case.metadata := by
  unfold asStrict
  split <;> rfl

@[simp] theorem asStrict_asStrict (case : Case) : case.asStrict.asStrict = case.asStrict :=
  asStrict_of_strict (strict_asStrict case)

def variants (expand : Bool) (base : Case) : List Case :=
  if base.metadata.programType = .module then [base]
  else if base.hasFlag "onlyStrict" then [base.asStrict]
  else if base.hasFlag "noStrict" || base.hasFlag "raw" || !expand then [base]
  else [base, base.asStrict]

theorem variants_ne_nil (expand : Bool) (base : Case) : variants expand base ≠ [] := by
  unfold variants
  split
  · simp
  · split
    · simp
    · split <;> simp

theorem eq_of_mem_variants {expand : Bool} {base case : Case} (h : case ∈ variants expand base) :
    case = base ∨ case = base.asStrict := by
  unfold variants at h
  split at h
  · exact .inl (by simpa using h)
  · split at h
    · exact .inr (by simpa using h)
    · split at h
      · exact .inl (by simpa using h)
      · simpa using h

def load (load : Metadata.Loader) (contents fileName : String) (expand : Bool) :
    Except Metadata.Problem (List Case) := do
  let metadata ← Metadata.ofContents load (Path.normalize fileName) contents.toList
  return variants expand ⟨metadata, contents, false⟩

def parse (contents fileName : String) (expand : Bool) :
    Except Metadata.Problem (List Case) :=
  load Yaml.load? contents fileName expand

def fallbacks (contents : String) : List Metadata.Fallback :=
  Metadata.fallbacksOf Yaml.load? contents.toList

def decode (bytes : ByteArray) : Except Metadata.Problem String :=
  match String.fromUTF8? bytes with
  | none => .error .notText
  | some text => .ok ((Text.stripStart? "\ufeff" text).getD text)

def read (bytes : ByteArray) (fileName : String) (expand : Bool) :
    Except Metadata.Problem (List Case) := do
  parse (← decode bytes) fileName expand

def fallbacksRead (bytes : ByteArray) : List Metadata.Fallback :=
  match decode bytes with
  | .ok text => fallbacks text
  | .error _ => []

end Case

end Conformance
