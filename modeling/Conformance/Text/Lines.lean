namespace Conformance.Text

def withoutReturn (line : List Char) : List Char :=
  match line.getLast? with
  | some '\r' => line.dropLast
  | _ => line

def closedLines : List (List Char) → List (List Char)
  | [] => []
  | [rest] => if rest = [] then [] else [rest]
  | line :: next :: more => withoutReturn line :: closedLines (next :: more)

def lines (text : List Char) : List (List Char) :=
  closedLines (text.splitOn '\n')

@[simp] theorem lines_nil : lines [] = [] := by
  rfl

end Conformance.Text
