import Conformance.Json
import Conformance.Run.Summary
import Conformance.Text.Style

namespace Conformance.Summary

def memberName : Classification → String
  | .success => "success"
  | .failure => "failure"
  | .falsePositive => "false_positive"
  | .falseNegative => "false_negative"

def byClassification (value : Classification → Json) : Json :=
  .object (Classification.all.map fun c => (memberName c, value c))

def counts (buckets : Buckets) : Json :=
  byClassification fun c => .natural (buckets.get c).length

def names (buckets : Buckets) : Json :=
  byClassification fun c => .array ((buckets.get c).map fun case => .string case.display)

def members (summary : Summary) : List (String × Json) :=
  [("total", .natural summary.total),
   ("cancelled", .bool summary.cancelled),
   ("allowed", counts summary.allowed),
   ("disallowed", counts summary.disallowed),
   ("problems", names summary.disallowed),
   ("unrecognized", .array (summary.unrecognized.map .string))]

def report (summary : Summary) (generatedAt : String) : Json :=
  .object (("generated_at", .string generatedAt) :: summary.members)

def countText (buckets : Buckets) (c : Classification) : String :=
  toString (buckets.get c).length

def heading (styled : Bool) (color : Text.Color) (title : String) : List String :=
  ["", Text.styled styled (.boldColored color) s!"=== {title} ==="]

def countRow (style : Classification → String → String) (buckets : Buckets) : String :=
  ", ".intercalate (Classification.all.map fun c =>
    style c (countText buckets c) ++ " " ++ c.name)

def countColor : Classification → Text.Color
  | .success => .green
  | .failure => .red
  | .falsePositive => .yellow
  | .falseNegative => .red

def overview (summary : Summary) (styled : Bool) : List String :=
  let colored (color : Text.Color) := Text.styled styled (.colored color)
  heading styled .cyan "Test262 Summary" ++
  [s!"Total:           {summary.total}",
   "Allowed:         " ++ countRow (fun c => colored (countColor c)) summary.allowed,
   "Disallowed:      " ++ countRow (fun _ text => text) summary.disallowed] ++
  (if summary.cancelled then [colored .yellow "Run was cancelled"] else []) ++
  (if summary.hasProblems then
    heading styled .red "Excluded cases with unexpected results" ++
      summary.problems.map fun problem =>
        colored .yellow problem.1.name ++ ": " ++ problem.2.display
  else []) ++
  (if summary.unrecognized.isEmpty then []
  else
    heading styled .yellow "Unrecognized exclusions" ++
      summary.unrecognized.map ("  " ++ ·))

end Conformance.Summary
