import Conformance.Corpus.Stream

namespace Conformance

/-- What a walk has ahead: cases that are ready, files that are listed, and
folders. -/
structure Walk where
  directories : List String
  files : List String
  ready : List Case

namespace Walk

inductive Operation where
  | list (root : String)
  | read (path : String)
deriving DecidableEq, Repr

/-- The result of asking for an item: the item, if there is one, what was done
for it, and the walk from there on. -/
structure Next where
  item : Option Stream.Item
  operations : List Operation
  walk : Walk

def start (stream : Stream) : Walk := ⟨stream.options.subDirectories, [], []⟩

def Next.after (operation : Operation) (next : Next) : Next :=
  { next with operations := operation :: next.operations }

def nextOfFiles (stream : Stream) (directories : List String) (otherwise : Unit → Next) :
    List String → Next
  | [] => otherwise ()
  | path :: files =>
    Next.after (.read path) <|
      match Stream.load stream.corpus stream.options.expandStrict path with
      | .error error => ⟨some (.error error), [], ⟨directories, files, []⟩⟩
      | .ok cases =>
        match cases.filter stream.options.filter with
        | [] => nextOfFiles stream directories otherwise files
        | case :: ready => ⟨some (.ok case), [], ⟨directories, files, ready⟩⟩

def nextOfDirectories (stream : Stream) : List String → Next
  | [] => ⟨none, [], ⟨[], [], []⟩⟩
  | directory :: directories =>
    let root := Stream.rootOf directory
    Next.after (.list root) <|
      match stream.corpus.list root true Stream.isTestFile with
      | .error error => ⟨some (.error error), [], ⟨directories, [], []⟩⟩
      | .ok files =>
        nextOfFiles stream directories (fun _ => nextOfDirectories stream directories) files

def next (stream : Stream) (walk : Walk) : Next :=
  match walk.ready with
  | case :: ready => ⟨some (.ok case), [], { walk with ready }⟩
  | [] =>
    nextOfFiles stream walk.directories (fun _ => nextOfDirectories stream walk.directories)
      walk.files

def calls (stream : Stream) (walk : Walk) : Nat → List Next
  | 0 => []
  | count + 1 =>
    let first := walk.next stream
    first :: calls stream first.walk count

def itemsOf (calls : List Next) : List Stream.Item :=
  calls.filterMap (·.item)

def operationsOf (calls : List Next) : List Operation :=
  calls.flatMap (·.operations)

def complete (stream : Stream) : List Next :=
  calls stream (start stream) (stream.items.length + 1)

def noticesOf (stream : Stream) : Operation → List Notice
  | .list _ => []
  | .read path => Stream.loadNotices stream.corpus path

/-- What is told of an item and of what was done for it, where only the cases
are asked for. -/
def Next.notices (stream : Stream) (next : Next) : List Notice :=
  next.operations.flatMap (noticesOf stream) ++
    match next.item with
    | some (.error error) => [.skippedTest error]
    | _ => []

end Walk

end Conformance
