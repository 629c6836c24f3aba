import Conformance.Proofs.Corpus.Agreement

namespace Conformance.Walk

variable {stream : Stream}

/-- The items that a walk has ahead: of the cases that are ready, the files that are
listed and the folders, in this order. -/
def ahead (walk : Walk) (stream : Stream) : List Stream.Item :=
  walk.ready.map .ok ++ (walk.files.flatMap stream.fileItems ++
    walk.directories.flatMap stream.directoryItems)

@[simp] theorem ahead_start (stream : Stream) : (start stream).ahead stream = stream.items := rfl

/-- The first of some items is handed out, and the others are ahead. -/
structure Next.Takes (next : Next) (stream : Stream) (items : List Stream.Item) : Prop where
  item : next.item = items.head?
  walk : next.walk.ahead stream = items.tail

theorem Next.Takes.after {next : Next} {items : List Stream.Item} (h : next.Takes stream items)
    (operation : Operation) : (next.after operation).Takes stream items :=
  ⟨h.item, h.walk⟩

theorem takes_error (error : Error) (operations : List Operation)
    (directories files : List String) :
    Next.Takes ⟨some (.error error), operations, ⟨directories, files, []⟩⟩ stream
      (.error error :: (files.flatMap stream.fileItems ++
        directories.flatMap stream.directoryItems)) :=
  ⟨rfl, rfl⟩

theorem takes_nextOfFiles {directories : List String} {otherwise : Unit → Next}
    (hotherwise : (otherwise ()).Takes stream (directories.flatMap stream.directoryItems))
    (files : List String) :
    (nextOfFiles stream directories otherwise files).Takes stream
      (files.flatMap stream.fileItems ++ directories.flatMap stream.directoryItems) := by
  induction files with
  | nil => exact hotherwise
  | cons path files ih =>
      rw [nextOfFiles, List.flatMap_cons, List.append_assoc, Stream.fileItems]
      refine Next.Takes.after ?_ _
      cases Stream.load stream.corpus stream.options.expandStrict path with
      | error error => exact takes_error error [] directories files
      | ok cases =>
          dsimp only
          cases cases.filter stream.options.filter with
          | nil => exact ih
          | cons case ready => exact ⟨rfl, rfl⟩

theorem takes_nextOfDirectories (directories : List String) :
    (nextOfDirectories stream directories).Takes stream
      (directories.flatMap stream.directoryItems) := by
  induction directories with
  | nil => exact ⟨rfl, rfl⟩
  | cons directory directories ih =>
      rw [nextOfDirectories, List.flatMap_cons, Stream.directoryItems]
      refine Next.Takes.after ?_ _
      cases stream.corpus.list (Stream.rootOf directory) true Stream.isTestFile with
      | error error => exact takes_error error [] directories []
      | ok files => exact takes_nextOfFiles ih files

/-- Each call hands out the first of the items ahead. -/
theorem takes_next (stream : Stream) (walk : Walk) :
    (walk.next stream).Takes stream (walk.ahead stream) := by
  rw [next, ahead]
  split
  · rename_i case ready hready
    rw [hready]
    exact ⟨rfl, rfl⟩
  · rename_i hready
    rw [hready]
    exact takes_nextOfFiles (takes_nextOfDirectories walk.directories) walk.files

theorem item_calls {items : List Stream.Item} {walk : Walk}
    (hahead : walk.ahead stream = items) (more : Nat) :
    (calls stream walk (items.length + more)).map (·.item) =
      items.map some ++ List.replicate more none := by
  induction items generalizing walk with
  | nil =>
      rw [List.length_nil, Nat.zero_add]
      induction more generalizing walk with
      | zero => rfl
      | succ more ih =>
          have hnext := takes_next stream walk
          rw [hahead] at hnext
          rw [calls, List.map_cons, ih hnext.walk, hnext.item]
          rfl
  | cons item items ih =>
      have hnext := takes_next stream walk
      rw [hahead] at hnext
      rw [List.length_cons, Nat.add_right_comm, calls, List.map_cons, ih hnext.walk, hnext.item]
      rfl

theorem itemsOf_eq (nexts : List Next) : itemsOf nexts = (nexts.map (·.item)).filterMap id := by
  rw [itemsOf, List.filterMap_map]
  rfl

/-- Whatever of the corpus fails, and whatever the filter accepts: calls hand out the items
of the stream in their order, and nothing from there on, however many calls there are. A
walk that is made later is the same, call by call, where the corpus still answers alike for
the folders of the stream and for the files in them. -/
theorem calls_hand_out_items (stream : Stream) (more : Nat) :
    (calls stream (start stream) (stream.items.length + more)).map (·.item) =
        stream.items.map some ++ List.replicate more none ∧
      itemsOf (calls stream (start stream) (stream.items.length + more)) = stream.items ∧
      ∀ later : Corpus,
        stream.corpus.Agree later (· ∈ stream.options.subDirectories.map Stream.rootOf) →
          ∀ count, calls ⟨later, stream.options⟩ (start ⟨later, stream.options⟩) count =
            calls stream (start stream) count := by
  have hitems := item_calls (ahead_start stream) more
  refine ⟨hitems, ?_, fun later hagree count => ?_⟩
  · rw [itemsOf_eq, hitems]
    simp
  · refine (calls_congr hagree ⟨fun directory hdirectory => ?_, ?_⟩ count).symm
    · exact List.mem_map_of_mem hdirectory
    · simp [start]

/-- A corpus of a script with a variant in each mode, a file that cannot be opened and one
that is not for the filter, and of some empty folders. -/
def mixedFiles (folders : List String) : Corpus where
  list root _ test :=
    if root = "test/a" then .ok (["test/a/x.js", "test/a/y.js", "test/a/z.js"].filter test)
    else if root ∈ folders then .ok []
    else .error (.notFound root)
  read path :=
    if path = "test/a/y.js" then .error (.zip .encrypted)
    else if path = "test/a/z.js" then .ok "/*---\nflags: [raw]\n---*/\n".toUTF8
    else .ok "/*---\ndescription: d\n---*/\n".toUTF8
  describe := "mixed"

def mixedStream (folders : List String) : Stream where
  corpus := mixedFiles folders
  options.subDirectories := ["a", "b"]
  options.filter case := !case.hasFlag "raw"

theorem calls_hand_out_items_mixed :
    (mixedFiles []).Agree (mixedFiles ["test/c"]) (· ∈ ["a", "b"].map Stream.rootOf) ∧
      (calls (mixedStream []) (start (mixedStream [])) 6).map
          (·.item.map (Except.map Case.identity)) =
        [some (.ok ("test/a/x.js", false)), some (.ok ("test/a/x.js", true)),
          some (.error (.zip .encrypted)), some (.error (.notFound "test/b")), none, none] ∧
      ∀ count, calls (mixedStream ["test/c"]) (start (mixedStream ["test/c"])) count =
        calls (mixedStream []) (start (mixedStream [])) count := by
  have hagree : (mixedFiles []).Agree (mixedFiles ["test/c"])
      (· ∈ ["a", "b"].map Stream.rootOf) := by
    refine ⟨fun recursive test hasked => ?_, fun _ _ _ _ => rfl⟩
    have hroots : ["a", "b"].map Stream.rootOf = ["test/a", "test/b"] := by decide
    rw [hroots] at hasked
    simp only [List.mem_cons, List.not_mem_nil, or_false] at hasked
    rcases hasked with rfl | rfl <;> rfl
  obtain ⟨hitems, -, hlater⟩ := calls_hand_out_items (mixedStream []) 2
  have hlength : (mixedStream []).items.length = 4 := by decide +kernel
  rw [hlength] at hitems
  refine ⟨hagree, ?_, hlater _ hagree⟩
  have hshown := congrArg (List.map (Option.map (Except.map Case.identity))) hitems
  rw [List.map_map] at hshown
  refine hshown.trans ?_
  decide +kernel

end Conformance.Walk
