import Conformance.Case.Basic
import Conformance.Run.Outcome

namespace Conformance

structure Buckets where
  success : List Case := []
  failure : List Case := []
  falsePositive : List Case := []
  falseNegative : List Case := []

namespace Buckets

def get (buckets : Buckets) : Classification → List Case
  | .success => buckets.success
  | .failure => buckets.failure
  | .falsePositive => buckets.falsePositive
  | .falseNegative => buckets.falseNegative

def add (buckets : Buckets) (case : Case) : Classification → Buckets
  | .success => { buckets with success := buckets.success ++ [case] }
  | .failure => { buckets with failure := buckets.failure ++ [case] }
  | .falsePositive => { buckets with falsePositive := buckets.falsePositive ++ [case] }
  | .falseNegative => { buckets with falseNegative := buckets.falseNegative ++ [case] }

def map (f : List Case → List Case) (buckets : Buckets) : Buckets :=
  ⟨f buckets.success, f buckets.failure, f buckets.falsePositive, f buckets.falseNegative⟩

def size (buckets : Buckets) : Nat :=
  buckets.success.length + buckets.failure.length + buckets.falsePositive.length +
    buckets.falseNegative.length

def isEmpty (buckets : Buckets) : Bool := buckets.size == 0

@[simp] theorem get_map (f : List Case → List Case) (buckets : Buckets) (c : Classification) :
    (buckets.map f).get c = f (buckets.get c) := by
  cases c <;> rfl

theorem get_add (buckets : Buckets) (case : Case) (c d : Classification) :
    (buckets.add case c).get d =
      if d = c then buckets.get d ++ [case] else buckets.get d := by
  cases c <;> cases d <;> rfl

end Buckets

structure Summary where
  allowed : Buckets := {}
  disallowed : Buckets := {}
  unrecognized : List String := []
  cancelled : Bool := false

namespace Summary

def bucket (summary : Summary) : Outcome → List Case
  | .allowed c => summary.allowed.get c
  | .disallowed c => summary.disallowed.get c

def record (summary : Summary) (outcome : Outcome) (case : Case) : Summary :=
  match outcome with
  | .allowed c => { summary with allowed := summary.allowed.add case c }
  | .disallowed c => { summary with disallowed := summary.disallowed.add case c }

def caseLE (left right : Case) : Bool :=
  if left.fileName = right.fileName then !left.strict || right.strict
  else decide (left.fileName < right.fileName)

def sortCases (cases : List Case) : List Case :=
  cases.mergeSort caseLE

def finish (summary : Summary) : Summary :=
  { summary with
    allowed := summary.allowed.map sortCases
    disallowed := summary.disallowed.map sortCases }

def ofOutcomes (cancelled : Bool) (outcomes : List (Case × Outcome)) : Summary :=
  finish (outcomes.foldl (fun summary entry => summary.record entry.2 entry.1) { cancelled })

def withUnrecognized (summary : Summary) (unrecognized : List String) : Summary :=
  { summary with unrecognized }

def total (summary : Summary) : Nat :=
  summary.allowed.size + summary.disallowed.size

def hasProblems (summary : Summary) : Bool :=
  !summary.disallowed.isEmpty

def problems (summary : Summary) : List (Classification × Case) :=
  Classification.all.flatMap fun c => (summary.disallowed.get c).map (c, ·)

theorem bucket_record (summary : Summary) (outcome other : Outcome) (case : Case) :
    (summary.record outcome case).bucket other =
      if other = outcome then summary.bucket other ++ [case] else summary.bucket other := by
  cases outcome <;> cases other <;> simp [record, bucket, Buckets.get_add]

end Summary

end Conformance
