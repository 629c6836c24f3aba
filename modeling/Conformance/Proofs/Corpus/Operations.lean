import Conformance.Proofs.Corpus.Items

namespace Conformance

def Stream.filesOf (stream : Stream) (subDirectory : String) : List String :=
  match stream.corpus.list (rootOf subDirectory) true isTestFile with
  | .error _ => []
  | .ok paths => paths

theorem Stream.mem_filesOf_iff_exists {stream : Stream} {subDirectory path : String} :
    path ∈ stream.filesOf subDirectory ↔
      ∃ paths, stream.corpus.list (rootOf subDirectory) true isTestFile = .ok paths ∧
        path ∈ paths := by
  rw [filesOf]
  cases stream.corpus.list (rootOf subDirectory) true isTestFile with
  | error error => simp
  | ok paths => simp

namespace Walk

variable {stream : Stream}

def visit (stream : Stream) (subDirectory : String) : List Operation :=
  .list (Stream.rootOf subDirectory) :: (stream.filesOf subDirectory).map .read

/-- What is left to be done in a walk. -/
def planned (walk : Walk) (stream : Stream) : List Operation :=
  walk.files.map .read ++ walk.directories.flatMap (visit stream)

def finished : Walk := ⟨[], [], []⟩

/-- A call does the first of some operations and leaves the others; it leaves none where it
has nothing to hand out. -/
structure Next.Does (next : Next) (stream : Stream) (operations : List Operation) : Prop where
  operations : next.operations ++ next.walk.planned stream = operations
  last : next.item = none → next.walk = finished

theorem Next.Does.after {next : Next} {operations : List Operation}
    (h : next.Does stream operations) (operation : Operation) :
    (next.after operation).Does stream (operation :: operations) :=
  ⟨congrArg (operation :: ·) h.operations, h.last⟩

theorem does_nextOfFiles {directories : List String} {otherwise : Unit → Next}
    (hotherwise : (otherwise ()).Does stream (directories.flatMap (visit stream)))
    (files : List String) :
    (nextOfFiles stream directories otherwise files).Does stream
      (files.map .read ++ directories.flatMap (visit stream)) := by
  induction files with
  | nil => exact hotherwise
  | cons path files ih =>
      rw [nextOfFiles, List.map_cons, List.cons_append]
      apply Next.Does.after
      cases Stream.load stream.corpus stream.options.expandStrict path with
      | error error => exact ⟨rfl, by simp⟩
      | ok cases =>
          dsimp only
          cases cases.filter stream.options.filter with
          | nil => exact ih
          | cons case ready => exact ⟨rfl, by simp⟩

theorem does_nextOfDirectories (directories : List String) :
    (nextOfDirectories stream directories).Does stream (directories.flatMap (visit stream)) := by
  induction directories with
  | nil => exact ⟨rfl, fun _ => rfl⟩
  | cons directory directories ih =>
      rw [nextOfDirectories, List.flatMap_cons, visit, List.cons_append, Stream.filesOf]
      apply Next.Does.after
      cases stream.corpus.list (Stream.rootOf directory) true Stream.isTestFile with
      | error error => exact ⟨rfl, by simp⟩
      | ok files => exact does_nextOfFiles ih files

theorem does_next (stream : Stream) (walk : Walk) :
    (walk.next stream).Does stream (walk.planned stream) := by
  rw [next]
  split
  · exact ⟨rfl, by simp⟩
  · exact does_nextOfFiles (does_nextOfDirectories walk.directories) walk.files

theorem itemsOf_calls (stream : Stream) (more : Nat) :
    itemsOf (calls stream (start stream) (stream.items.length + more)) = stream.items := by
  rw [itemsOf_eq, item_calls (ahead_start stream) more]
  simp

theorem operationsOf_cons (next : Next) (nexts : List Next) :
    operationsOf (next :: nexts) = next.operations ++ operationsOf nexts :=
  List.flatMap_cons

theorem operationsOf_finished (stream : Stream) (count : Nat) :
    operationsOf (calls stream finished count) = [] := by
  induction count with
  | zero => rfl
  | succ count ih => exact ih

theorem operationsOf_calls {items : List Stream.Item} {walk : Walk}
    (hahead : walk.ahead stream = items) (more : Nat) :
    operationsOf (calls stream walk (items.length + 1 + more)) = walk.planned stream := by
  induction items generalizing walk with
  | nil =>
      have htakes := takes_next stream walk
      have hdoes := does_next stream walk
      rw [hahead] at htakes
      rw [← hdoes.operations, hdoes.last htakes.item, List.length_nil, Nat.zero_add,
        Nat.add_comm, calls, operationsOf_cons, hdoes.last htakes.item, operationsOf_finished]
      rfl
  | cons item items ih =>
      have htakes := takes_next stream walk
      have hdoes := does_next stream walk
      rw [hahead] at htakes
      rw [← hdoes.operations, List.length_cons, Nat.add_right_comm, calls, operationsOf_cons,
        ih htakes.walk]

def Operation.loaded : Operation → List String
  | .list _ => []
  | .read path => [path]

def loadedBy (calls : List Next) : List String :=
  (operationsOf calls).flatMap Operation.loaded

theorem loadedBy_calls (stream : Stream) (more : Nat) :
    loadedBy (calls stream (start stream) (stream.items.length + 1 + more)) =
      stream.options.subDirectories.flatMap stream.filesOf := by
  have hvisit (subDirectory : String) :
      (visit stream subDirectory).flatMap Operation.loaded = stream.filesOf subDirectory := by
    simp [visit, Operation.loaded, List.flatMap_map]
  rw [loadedBy, operationsOf_calls (ahead_start stream), planned, start, List.map_nil,
    List.nil_append, List.flatMap_assoc]
  simp only [hvisit]

end Walk

theorem Stream.items_eq_flatMap (stream : Stream)
    (hlisted : ∀ subDirectory ∈ stream.options.subDirectories,
      ∃ paths, stream.corpus.list (rootOf subDirectory) true isTestFile = .ok paths) :
    stream.items =
      (stream.options.subDirectories.flatMap stream.filesOf).flatMap stream.fileItems := by
  rw [items, List.flatMap_assoc]
  apply List.flatMap_congr
  intro subDirectory hmem
  obtain ⟨paths, hpaths⟩ := hlisted subDirectory hmem
  rw [directoryItems, filesOf, hpaths]

end Conformance
