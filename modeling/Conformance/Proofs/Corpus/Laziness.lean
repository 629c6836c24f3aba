import Conformance.Proofs.Corpus.Operations

namespace Conformance.Walk

/-! A walk lists and reads nothing before it is due: whatever is done hands out all that it gives
before the next thing is done. This holds even where the corpus changes while it is walked. -/

def Operation.items (stream : Stream) : Operation → List Stream.Item
  | .list root =>
    match stream.corpus.list root true Stream.isTestFile with
    | .error error => [.error error]
    | .ok _ => []
  | .read path => stream.fileItems path

def behind (walk : Walk) (calls : List Next) : Walk :=
  (calls.getLast?.map (·.walk)).getD walk

theorem behind_concat (walk : Walk) (calls : List Next) (next : Next) :
    walk.behind (calls ++ [next]) = next.walk := by
  rw [behind, List.getLast?_concat]
  rfl

theorem behind_cons (walk : Walk) (first : Next) (calls : List Next) :
    walk.behind (first :: calls) = first.walk.behind calls := by
  rw [behind, behind, List.getLast?_cons]
  cases calls.getLast? <;> rfl

theorem operationsOf_concat (calls : List Next) (next : Next) :
    operationsOf (calls ++ [next]) = operationsOf calls ++ next.operations := by
  rw [operationsOf, List.flatMap_append, List.flatMap_singleton]
  rfl

theorem itemsOf_concat (calls : List Next) (next : Next) :
    itemsOf (calls ++ [next]) = itemsOf calls ++ next.item.toList := by
  rw [itemsOf, List.filterMap_append]
  cases hitem : next.item <;> simp [itemsOf, hitem]

theorem calls_concat (stream : Stream) (walk : Walk) (count : Nat) :
    calls stream walk (count + 1) =
      calls stream walk count ++ [next stream (walk.behind (calls stream walk count))] := by
  induction count generalizing walk with
  | zero => rfl
  | succ count ih =>
      have hfirst (count : Nat) : calls stream walk (count + 1) =
          walk.next stream :: calls stream (walk.next stream).walk count := rfl
      rw [hfirst (count + 1), ih, hfirst count, behind_cons, List.cons_append]

/-- A stream of a corpus that may be another one from operation to operation, which are counted
from the start of the walk. -/
structure Shifting where
  corpusAt : Nat → Corpus
  options : StreamOptions

namespace Shifting

def streamAt (shifting : Shifting) (done : Nat) : Stream :=
  ⟨shifting.corpusAt done, shifting.options⟩

def constant (stream : Stream) : Shifting :=
  ⟨fun _ => stream.corpus, stream.options⟩

def nextOfFiles (shifting : Shifting) (directories : List String) (otherwise : Nat → Next) :
    Nat → List String → Next
  | done, [] => otherwise done
  | done, path :: files =>
    Next.after (.read path) <|
      match Stream.load (shifting.corpusAt done) shifting.options.expandStrict path with
      | .error error => ⟨some (.error error), [], ⟨directories, files, []⟩⟩
      | .ok cases =>
        match cases.filter shifting.options.filter with
        | [] => nextOfFiles shifting directories otherwise (done + 1) files
        | case :: ready => ⟨some (.ok case), [], ⟨directories, files, ready⟩⟩

def nextOfDirectories (shifting : Shifting) : Nat → List String → Next
  | _, [] => ⟨none, [], ⟨[], [], []⟩⟩
  | done, directory :: directories =>
    let root := Stream.rootOf directory
    Next.after (.list root) <|
      match (shifting.corpusAt done).list root true Stream.isTestFile with
      | .error error => ⟨some (.error error), [], ⟨directories, [], []⟩⟩
      | .ok files =>
        shifting.nextOfFiles directories
          (fun done => nextOfDirectories shifting done directories) (done + 1) files

def next (shifting : Shifting) (done : Nat) (walk : Walk) : Next :=
  match walk.ready with
  | case :: ready => ⟨some (.ok case), [], { walk with ready }⟩
  | [] =>
    shifting.nextOfFiles walk.directories
      (fun done => shifting.nextOfDirectories done walk.directories) done walk.files

def start (shifting : Shifting) : Walk := ⟨shifting.options.subDirectories, [], []⟩

/-- The call behind some calls from the start. -/
def nextBehind (shifting : Shifting) (calls : List Next) : Next :=
  shifting.next (operationsOf calls).length (shifting.start.behind calls)

def calls (shifting : Shifting) : Nat → List Next
  | 0 => []
  | count + 1 => calls shifting count ++ [shifting.nextBehind (calls shifting count)]

/-- What is done for some folders, if so many operations are done: each folder is listed, and
then the files of this listing are read in its order. -/
def course (shifting : Shifting) : Nat → List String → List Operation
  | _, [] => []
  | done, directory :: directories =>
    let here := visit (shifting.streamAt done) directory
    here ++ course shifting (done + here.length) directories

/-- The items that operations give, if so many are done. -/
def given (shifting : Shifting) : Nat → List Operation → List Stream.Item
  | _, [] => []
  | done, operation :: operations =>
    operation.items (shifting.streamAt done) ++ given shifting (done + 1) operations

theorem given_append (shifting : Shifting) (done : Nat) (first rest : List Operation) :
    shifting.given done (first ++ rest) =
      shifting.given done first ++ shifting.given (done + first.length) rest := by
  induction first generalizing done with
  | nil => rfl
  | cons operation first ih =>
      rw [List.cons_append, given, given, ih, List.append_assoc, List.length_cons,
        Nat.add_right_comm, Nat.add_assoc]

def planned (shifting : Shifting) (done : Nat) (walk : Walk) : List Operation :=
  walk.files.map .read ++ shifting.course (done + walk.files.length) walk.directories

/-- A call does the first of some operations. It goes on to another one only where those before
have given nothing, and hands out the first item that one gives. -/
structure Does (shifting : Shifting) (done : Nat) (operations : List Operation) (next : Next) :
    Prop where
  planned : next.operations ++ shifting.planned (done + next.operations.length) next.walk =
    operations
  given : next.item.toList ++ next.walk.ready.map .ok = shifting.given done next.operations
  due : ∀ front operation behind, next.operations = front ++ operation :: behind →
    shifting.given done front = []
  last : next.item = none → next.walk = finished

variable {shifting : Shifting} {done : Nat} {operations : List Operation} {next : Next}

theorem Does.after {operation : Operation}
    (hnothing : operation.items (shifting.streamAt done) = [])
    (h : shifting.Does (done + 1) operations next) :
    shifting.Does done (operation :: operations) (next.after operation) := by
  refine ⟨?_, ?_, ?_, h.last⟩
  · rw [← h.planned, Nat.add_assoc, Nat.add_comm 1]
    rfl
  · have hgiven : shifting.given done (next.after operation).operations =
        operation.items (shifting.streamAt done) ++ shifting.given (done + 1) next.operations :=
      rfl
    rw [hgiven, hnothing]
    exact h.given
  · intro front other behind hfront
    cases front with
    | nil => rfl
    | cons first front =>
        obtain ⟨rfl, hrest⟩ := List.cons.inj hfront
        rw [Shifting.given, hnothing]
        exact h.due front other behind hrest

theorem does_of_items {operation : Operation} {item : Stream.Item} {walk : Walk}
    (hitems : operation.items (shifting.streamAt done) = item :: walk.ready.map .ok) :
    shifting.Does done (operation :: shifting.planned (done + 1) walk)
      (Next.after operation ⟨some item, [], walk⟩) := by
  refine ⟨rfl, ?_, ?_, ?_⟩
  · have hgiven : shifting.given done [operation] =
        operation.items (shifting.streamAt done) ++ [] := rfl
    exact (hgiven.trans (by rw [hitems, List.append_nil]; rfl)).symm
  · intro front other behind hfront
    cases front with
    | nil => rfl
    | cons first front => simp [Next.after] at hfront
  · intro hnone
    cases hnone

theorem planned_cons (done : Nat) (directories files : List String) (path : String)
    (ready : List Case) :
    shifting.planned done ⟨directories, path :: files, []⟩ =
      .read path :: shifting.planned (done + 1) ⟨directories, files, ready⟩ := by
  rw [planned, planned, List.map_cons, List.cons_append, List.length_cons, Nat.add_comm _ 1,
    ← Nat.add_assoc]

theorem course_cons (done : Nat) (directory : String) (directories : List String) :
    shifting.course done (directory :: directories) =
      .list (Stream.rootOf directory) :: shifting.planned (done + 1)
        ⟨directories, (shifting.streamAt done).filesOf directory, []⟩ := by
  rw [course, visit, planned, List.length_cons, List.length_map, List.cons_append,
    Nat.add_comm _ 1, ← Nat.add_assoc]

theorem does_nextOfFiles {directories : List String} {otherwise : Nat → Next}
    (hotherwise : ∀ done, shifting.Does done (shifting.course done directories) (otherwise done))
    (done : Nat) (files : List String) :
    shifting.Does done (shifting.planned done ⟨directories, files, []⟩)
      (shifting.nextOfFiles directories otherwise done files) := by
  induction files generalizing done with
  | nil => exact hotherwise done
  | cons path files ih =>
      have hitems : Operation.items (shifting.streamAt done) (.read path) =
          match Stream.load (shifting.corpusAt done) shifting.options.expandStrict path with
          | .error error => [.error error]
          | .ok cases => (cases.filter shifting.options.filter).map .ok := rfl
      rw [nextOfFiles]
      cases hload : Stream.load (shifting.corpusAt done) shifting.options.expandStrict path with
      | error error =>
          rw [planned_cons done directories files path []]
          rw [hload] at hitems
          exact does_of_items hitems
      | ok cases =>
          rw [hload] at hitems
          dsimp only at hitems ⊢
          cases hfilter : cases.filter shifting.options.filter with
          | nil =>
              rw [hfilter] at hitems
              rw [planned_cons done directories files path []]
              exact Does.after hitems (ih (done + 1))
          | cons case ready =>
              rw [hfilter] at hitems
              rw [planned_cons done directories files path ready]
              exact does_of_items hitems

theorem does_nextOfDirectories (done : Nat) (directories : List String) :
    shifting.Does done (shifting.course done directories)
      (shifting.nextOfDirectories done directories) := by
  induction directories generalizing done with
  | nil =>
      refine ⟨rfl, rfl, fun front operation behind hfront => ?_, fun _ => rfl⟩
      simp [nextOfDirectories] at hfront
  | cons directory directories ih =>
      have hitems : Operation.items (shifting.streamAt done) (.list (Stream.rootOf directory)) =
          match (shifting.corpusAt done).list (Stream.rootOf directory) true Stream.isTestFile with
          | .error error => [.error error]
          | .ok _ => [] := rfl
      have hfiles : (shifting.streamAt done).filesOf directory =
          match (shifting.corpusAt done).list (Stream.rootOf directory) true Stream.isTestFile with
          | .error _ => []
          | .ok paths => paths := rfl
      rw [nextOfDirectories]
      cases hlist : (shifting.corpusAt done).list (Stream.rootOf directory) true
          Stream.isTestFile with
      | error error =>
          rw [hlist] at hitems hfiles
          rw [course_cons, hfiles]
          exact does_of_items hitems
      | ok files =>
          rw [hlist] at hitems hfiles
          rw [course_cons, hfiles]
          exact Does.after hitems (does_nextOfFiles ih (done + 1) files)

/-- A call where nothing is ready, and one that hands out what is. -/
theorem does_next (shifting : Shifting) (done : Nat) {walk : Walk} (hready : walk.ready = []) :
    shifting.Does done (shifting.planned done walk) (shifting.next done walk) := by
  obtain ⟨directories, files, ready⟩ := walk
  obtain rfl : ready = [] := hready
  exact does_nextOfFiles (fun done => does_nextOfDirectories done directories) done files

theorem next_of_ready (done : Nat) {walk : Walk} {case : Case} {ready : List Case}
    (hready : walk.ready = case :: ready) :
    shifting.next done walk = ⟨some (.ok case), [], { walk with ready }⟩ := by
  rw [next, hready]

theorem next_of_item_none {walk : Walk} (hnone : (shifting.next done walk).item = none) :
    (shifting.next done walk).walk = finished := by
  cases hready : walk.ready with
  | cons case ready =>
      rw [next_of_ready done hready] at hnone
      cases hnone
  | nil => exact (does_next shifting done hready).last hnone

/-- What some calls have done and handed out. Cases that are ready come from the last of all
operations. -/
structure Kept (shifting : Shifting) (calls : List Next) : Prop where
  planned : operationsOf calls ++
      shifting.planned (operationsOf calls).length (shifting.start.behind calls) =
    shifting.course 0 shifting.options.subDirectories
  given : itemsOf calls ++ (shifting.start.behind calls).ready.map .ok =
    shifting.given 0 (operationsOf calls)
  source : (shifting.start.behind calls).ready ≠ [] → ∃ before last earlier,
    operationsOf calls = before ++ [last] ∧ itemsOf calls = shifting.given 0 before ++ earlier

/-- An item comes from the last operation, of which the items in front of it, and all those of the
operations before, are handed out. -/
structure Comes (shifting : Shifting) (calls : List Next) (next : Next) (item : Stream.Item)
    (before : List Operation) (last : Operation) (earlier rest : List Stream.Item) : Prop where
  operations : operationsOf (calls ++ [next]) = before ++ [last]
  items : last.items (shifting.streamAt before.length) = earlier ++ item :: rest
  earlier : itemsOf calls = shifting.given 0 before ++ earlier

variable {calls : List Next} {item : Stream.Item}

theorem nextBehind_of_ready {case : Case} {ready : List Case}
    (hready : (shifting.start.behind calls).ready = case :: ready) :
    shifting.nextBehind calls =
      ⟨some (.ok case), [], { shifting.start.behind calls with ready }⟩ :=
  next_of_ready _ hready

theorem does_nextBehind (hready : (shifting.start.behind calls).ready = []) :
    shifting.Does (operationsOf calls).length
      (shifting.planned (operationsOf calls).length (shifting.start.behind calls))
      (shifting.nextBehind calls) :=
  does_next shifting _ hready

namespace Kept

theorem itemsOf_eq (h : shifting.Kept calls) (hready : (shifting.start.behind calls).ready = []) :
    itemsOf calls = shifting.given 0 (operationsOf calls) := by
  have hgiven := h.given
  rwa [hready, List.map_nil, List.append_nil] at hgiven

theorem itemsOf_of_due (h : shifting.Kept calls) {front behind : List Operation}
    {operation : Operation}
    (hfront : (shifting.nextBehind calls).operations = front ++ operation :: behind) :
    itemsOf calls = shifting.given 0 (operationsOf calls ++ front) := by
  cases hready : (shifting.start.behind calls).ready with
  | cons case ready =>
      rw [nextBehind_of_ready hready] at hfront
      simp at hfront
  | nil =>
      have hnothing := (does_nextBehind hready).due front operation behind hfront
      rw [given_append, Nat.zero_add, hnothing, List.append_nil]
      exact h.itemsOf_eq hready

theorem comes_of_ready (h : shifting.Kept calls) {case : Case} {ready : List Case}
    (hready : (shifting.start.behind calls).ready = case :: ready) :
    ∃ before last earlier rest,
      shifting.Comes calls (shifting.nextBehind calls) (.ok case) before last earlier rest := by
  obtain ⟨before, last, earlier, hoperations, hitems⟩ := h.source (by simp [hready])
  refine ⟨before, last, earlier, ready.map .ok, ?_, ?_, hitems⟩
  · rw [operationsOf_concat, nextBehind_of_ready hready, List.append_nil, hoperations]
  · have hgiven := h.given
    rw [hready, hoperations, hitems, given_append, List.append_assoc, Nat.zero_add] at hgiven
    have hlast := List.append_cancel_left hgiven
    rw [Shifting.given, Shifting.given, List.append_nil] at hlast
    exact hlast.symm

theorem comes_of_done (h : shifting.Kept calls) (hready : (shifting.start.behind calls).ready = [])
    (hitem : (shifting.nextBehind calls).item = some item) :
    ∃ before last earlier rest,
      shifting.Comes calls (shifting.nextBehind calls) item before last earlier rest := by
  have hgiven := (does_nextBehind hready).given
  rw [hitem, Option.toList_some, List.singleton_append] at hgiven
  rcases List.eq_nil_or_concat (shifting.nextBehind calls).operations with
    hnone | ⟨front, last, hlast⟩
  · rw [hnone, Shifting.given] at hgiven
    cases hgiven
  · rw [List.concat_eq_append] at hlast
    have hnothing := (does_nextBehind hready).due front last [] hlast
    refine ⟨operationsOf calls ++ front, last, [],
      (shifting.nextBehind calls).walk.ready.map .ok, ?_, ?_, ?_⟩
    · rw [operationsOf_concat, hlast, List.append_assoc]
    · rw [hlast, given_append, hnothing, List.nil_append, Shifting.given, Shifting.given,
        List.append_nil] at hgiven
      rw [List.length_append]
      exact hgiven.symm
    · rw [List.append_nil]
      exact h.itemsOf_of_due hlast

theorem exists_comes (h : shifting.Kept calls)
    (hitem : (shifting.nextBehind calls).item = some item) :
    ∃ before last earlier rest,
      shifting.Comes calls (shifting.nextBehind calls) item before last earlier rest := by
  cases hready : (shifting.start.behind calls).ready with
  | cons case ready =>
      rw [nextBehind_of_ready hready] at hitem
      obtain rfl : .ok case = item := Option.some.inj hitem
      exact h.comes_of_ready hready
  | nil => exact h.comes_of_done hready hitem

theorem planned_concat (h : shifting.Kept calls) :
    operationsOf (calls ++ [shifting.nextBehind calls]) ++
        shifting.planned (operationsOf (calls ++ [shifting.nextBehind calls])).length
          (shifting.nextBehind calls).walk =
      shifting.course 0 shifting.options.subDirectories := by
  rw [← h.planned, operationsOf_concat]
  cases hready : (shifting.start.behind calls).ready with
  | cons case ready =>
      rw [nextBehind_of_ready hready, List.append_nil]
      rfl
  | nil => rw [List.length_append, List.append_assoc, (does_nextBehind hready).planned]

theorem given_concat (h : shifting.Kept calls) :
    itemsOf (calls ++ [shifting.nextBehind calls]) ++
        (shifting.nextBehind calls).walk.ready.map .ok =
      shifting.given 0 (operationsOf (calls ++ [shifting.nextBehind calls])) := by
  rw [operationsOf_concat, itemsOf_concat]
  cases hready : (shifting.start.behind calls).ready with
  | cons case ready =>
      rw [nextBehind_of_ready hready, List.append_nil, ← h.given, hready, List.append_assoc]
      rfl
  | nil =>
      rw [given_append, ← h.itemsOf_eq hready, List.append_assoc, (does_nextBehind hready).given,
        Nat.zero_add]

theorem concat (h : shifting.Kept calls) :
    shifting.Kept (calls ++ [shifting.nextBehind calls]) := by
  refine ⟨?_, ?_, fun hready => ?_⟩
  · rw [behind_concat]
    exact h.planned_concat
  · rw [behind_concat]
    exact h.given_concat
  · rw [behind_concat] at hready
    cases hitem : (shifting.nextBehind calls).item with
    | some item =>
        obtain ⟨before, last, earlier, rest, hcomes⟩ := h.exists_comes hitem
        refine ⟨before, last, earlier ++ [item], hcomes.operations, ?_⟩
        rw [itemsOf_concat, hitem, hcomes.earlier, List.append_assoc]
        rfl
    | none =>
        have hfinished : (shifting.nextBehind calls).walk = finished := next_of_item_none hitem
        rw [hfinished] at hready
        exact absurd rfl hready

end Kept

theorem kept_calls (shifting : Shifting) (count : Nat) : shifting.Kept (shifting.calls count) := by
  induction count with
  | zero => exact ⟨rfl, rfl, fun hready => absurd rfl hready⟩
  | succ count ih => exact ih.concat

def whole (shifting : Shifting) : List Operation :=
  shifting.course 0 shifting.options.subDirectories

def items (shifting : Shifting) : List Stream.Item :=
  shifting.given 0 shifting.whole

theorem prefix_whole_of_calls (shifting : Shifting) (count : Nat) :
    operationsOf (shifting.calls count) <+: shifting.whole :=
  ⟨_, (kept_calls shifting count).planned⟩

theorem length_itemsOf_calls_le (shifting : Shifting) (count : Nat) :
    (itemsOf (shifting.calls count)).length ≤ shifting.items.length := by
  have hkept := kept_calls shifting count
  rw [items, whole, ← hkept.planned, given_append, ← hkept.given]
  simp only [List.length_append]
  omega

theorem length_itemsOf_calls {count : Nat}
    (hsome : ∀ earlier < count, (shifting.nextBehind (shifting.calls earlier)).item ≠ none) :
    (itemsOf (shifting.calls count)).length = count := by
  induction count with
  | zero => rfl
  | succ count ih =>
      obtain ⟨item, hitem⟩ := Option.ne_none_iff_exists'.mp (hsome count (Nat.lt_succ_self count))
      rw [calls, itemsOf_concat, hitem, List.length_append,
        ih fun earlier hearlier => hsome earlier (Nat.lt_succ_of_lt hearlier)]
      rfl

theorem behind_calls_of_item_none {count : Nat}
    (hnone : (shifting.nextBehind (shifting.calls count)).item = none) (more : Nat) :
    shifting.start.behind (shifting.calls (count + 1 + more)) = finished := by
  induction more with
  | zero =>
      rw [Nat.add_zero, calls, behind_concat]
      exact next_of_item_none hnone
  | succ more ih =>
      rw [← Nat.add_assoc, calls, behind_concat, nextBehind, ih]
      rfl

theorem behind_calls_items (shifting : Shifting) (more : Nat) :
    shifting.start.behind (shifting.calls (shifting.items.length + 1 + more)) = finished := by
  have hends : ∃ count < shifting.items.length + 1,
      (shifting.nextBehind (shifting.calls count)).item = none := by
    by_contra hnever
    push Not at hnever
    have hlength := length_itemsOf_calls hnever
    have hle := length_itemsOf_calls_le shifting (shifting.items.length + 1)
    omega
  obtain ⟨count, hcount, hnone⟩ := hends
  obtain ⟨further, hfurther⟩ := Nat.exists_eq_add_of_le (Nat.succ_le_of_lt hcount)
  have hrest := behind_calls_of_item_none hnone (further + more)
  rwa [← Nat.add_assoc, ← Nat.succ_eq_add_one count, ← hfurther] at hrest

theorem calls_items (shifting : Shifting) (more : Nat) :
    operationsOf (shifting.calls (shifting.items.length + 1 + more)) = shifting.whole ∧
      itemsOf (shifting.calls (shifting.items.length + 1 + more)) = shifting.items := by
  have hkept := kept_calls shifting (shifting.items.length + 1 + more)
  have hplanned := hkept.planned
  have hgiven := hkept.given
  rw [behind_calls_items] at hplanned hgiven
  have hwhole : operationsOf (shifting.calls (shifting.items.length + 1 + more)) =
      shifting.whole := (List.append_nil _).symm.trans hplanned
  rw [hwhole] at hgiven
  exact ⟨hwhole, (List.append_nil _).symm.trans hgiven⟩

theorem course_ne_read (shifting : Shifting) (done : Nat) (directories : List String)
    (path : String) (rest : List Operation) :
    shifting.course done directories ≠ .read path :: rest := by
  cases directories with
  | nil => simp [course]
  | cons directory directories => simp [course_cons]

theorem prefix_of_append_course {done : Nat} {directories files paths : List String}
    {behind : List Operation}
    (h : files.map .read ++ shifting.course done directories = paths.map .read ++ behind) :
    paths <+: files := by
  obtain ⟨more, hpaths, hcourse⟩ | ⟨more, hfiles, -⟩ := List.append_eq_append_iff.mp h
  · cases more with
    | nil =>
        rw [List.append_nil] at hpaths
        rw [List.map_injective_iff.mpr (fun _ _ => Operation.read.inj) hpaths]
    | cons operation more =>
        have hmem : operation ∈ paths.map Operation.read := by simp [hpaths]
        obtain ⟨path, -, rfl⟩ := List.mem_map.mp hmem
        exact absurd hcourse (course_ne_read shifting done directories path _)
  · obtain ⟨front, back, rfl, hfront, -⟩ := List.map_eq_append_iff.mp hfiles
    rw [List.map_injective_iff.mpr (fun _ _ => Operation.read.inj) hfront]
    exact List.prefix_append paths back

theorem prefix_of_course {done : Nat} {directories paths : List String} {root : String}
    {front behind : List Operation}
    (h : shifting.course done directories = front ++ .list root :: (paths.map .read ++ behind)) :
    ∃ directory ∈ directories, root = Stream.rootOf directory ∧
      paths <+: (shifting.streamAt (done + front.length)).filesOf directory := by
  induction directories generalizing done front with
  | nil => simp [course] at h
  | cons directory directories ih =>
      rw [course_cons, planned] at h
      dsimp only at h
      cases front with
      | nil =>
          obtain ⟨hroot, hrest⟩ := List.cons.inj h
          refine ⟨directory, List.mem_cons_self, (Operation.list.inj hroot).symm, ?_⟩
          exact prefix_of_append_course hrest
      | cons operation front =>
          obtain ⟨-, hrest⟩ := List.cons.inj h
          have hbehind : ∃ between, front =
              ((shifting.streamAt done).filesOf directory).map .read ++ between ∧
              shifting.course
                (done + 1 + ((shifting.streamAt done).filesOf directory).length) directories =
                  between ++ .list root :: (paths.map .read ++ behind) := by
            rcases List.append_eq_append_iff.mp hrest with
              ⟨between, hfront, hcourse⟩ | ⟨between, hfiles, hcourse⟩
            · exact ⟨between, hfront, hcourse⟩
            · cases between with
              | nil => exact ⟨[], by simpa using hfiles.symm, hcourse.symm⟩
              | cons other between =>
                  obtain ⟨rfl, -⟩ := List.cons.inj hcourse
                  have hmem : Operation.list root ∈
                      ((shifting.streamAt done).filesOf directory).map .read := by simp [hfiles]
                  simp at hmem
          obtain ⟨between, rfl, hcourse⟩ := hbehind
          obtain ⟨other, hmem, hroot, hpaths⟩ := ih hcourse
          refine ⟨other, List.mem_cons_of_mem _ hmem, hroot, ?_⟩
          rw [List.length_cons, List.length_append, List.length_map]
          convert hpaths using 3
          omega

theorem nextOfFiles_constant {stream : Stream} {directories : List String}
    {otherwise : Nat → Next} {last : Next} (hlast : ∀ done, otherwise done = last)
    (done : Nat) (files : List String) :
    (constant stream).nextOfFiles directories otherwise done files =
      Walk.nextOfFiles stream directories (fun _ => last) files := by
  induction files generalizing done with
  | nil => exact hlast done
  | cons path files ih =>
      rw [nextOfFiles, ih (done + 1)]
      rfl

theorem nextOfDirectories_constant (stream : Stream) (done : Nat) (directories : List String) :
    (constant stream).nextOfDirectories done directories =
      Walk.nextOfDirectories stream directories := by
  induction directories generalizing done with
  | nil => rfl
  | cons directory directories ih =>
      rw [nextOfDirectories]
      simp only [nextOfFiles_constant ih]
      rfl

theorem next_constant (stream : Stream) (done : Nat) (walk : Walk) :
    (constant stream).next done walk = walk.next stream := by
  rw [next, nextOfFiles_constant (fun done => nextOfDirectories_constant stream done _)]
  rfl

theorem calls_constant (stream : Stream) (count : Nat) :
    (constant stream).calls count = Walk.calls stream (Walk.start stream) count := by
  induction count with
  | zero => rfl
  | succ count ih =>
      rw [calls, nextBehind, next_constant, ih, calls_concat]
      rfl

/-- However the corpus changes, some calls do the first of what a whole walk does. It lists the
folders in their order, and reads behind each listing the files of it, in its order. Behind a
listing, what is read are thus its first files. When something is done, all items of what was done
before are handed out, and an item that is handed out comes from what was done last. For a corpus
that does not change, these are the calls of the program. -/
theorem calls_do_what_is_due :
    (∀ shifting : Shifting,
      (∀ more, operationsOf (shifting.calls (shifting.items.length + 1 + more)) = shifting.whole ∧
        itemsOf (shifting.calls (shifting.items.length + 1 + more)) = shifting.items) ∧
      ∀ count,
        operationsOf (shifting.calls count) <+: shifting.whole ∧
        (∀ front root paths behind,
          operationsOf (shifting.calls count) =
              front ++ .list root :: (paths.map .read ++ behind) →
            ∃ directory ∈ shifting.options.subDirectories, root = Stream.rootOf directory ∧
              paths <+: (shifting.streamAt front.length).filesOf directory) ∧
        shifting.calls (count + 1) =
          shifting.calls count ++ [shifting.nextBehind (shifting.calls count)] ∧
        (∀ front operation behind,
          (shifting.nextBehind (shifting.calls count)).operations =
              front ++ operation :: behind →
            itemsOf (shifting.calls count) =
              shifting.given 0 (operationsOf (shifting.calls count) ++ front)) ∧
        ∀ item, (shifting.nextBehind (shifting.calls count)).item = some item →
          ∃ before last earlier rest,
            shifting.Comes (shifting.calls count) (shifting.nextBehind (shifting.calls count)) item
              before last earlier rest) ∧
      ∀ stream count,
        (constant stream).calls count = Walk.calls stream (Walk.start stream) count := by
  refine ⟨fun shifting => ⟨calls_items shifting, fun count =>
    ⟨prefix_whole_of_calls shifting count, ?_, rfl, ?_, ?_⟩⟩, calls_constant⟩
  · intro front root paths behind hoperations
    obtain ⟨later, hwhole⟩ := prefix_whole_of_calls shifting count
    have hcourse : shifting.course 0 shifting.options.subDirectories =
        front ++ .list root :: (paths.map .read ++ (behind ++ later)) := by
      rw [← whole, ← hwhole, hoperations]
      simp
    have hpaths := prefix_of_course hcourse
    rwa [Nat.zero_add] at hpaths
  · intro front operation behind
    exact (kept_calls shifting count).itemsOf_of_due
  · intro item
    exact (kept_calls shifting count).exists_comes

def sealedFiles (folders : List String) : Corpus where
  list root _ test :=
    if root = "test/a" then .ok (["test/a/x.js", "test/a/y.js"].filter test)
    else if root ∈ folders then .ok []
    else .error (.notFound root)
  read _ := .error (.zip .encrypted)
  describe := "sealed"

/-- Once the first of two sealed files is read, there is another folder. -/
def growing : Shifting where
  corpusAt done := if done < 2 then sealedFiles [] else sealedFiles ["test/b"]
  options := { subDirectories := ["a", "b"] }

theorem calls_do_what_is_due_growing :
    operationsOf (growing.calls 3) =
        [.list "test/a", .read "test/a/x.js", .read "test/a/y.js", .list "test/b"] ∧
      itemsOf (growing.calls 3) =
        [.error (.zip .encrypted), .error (.zip .encrypted)] ∧
      operationsOf (growing.calls 1) = [.list "test/a", .read "test/a/x.js"] ∧
      itemsOf (growing.calls 1) =
        growing.given 0 [.list "test/a", .read "test/a/x.js"] ∧
      operationsOf ((constant ⟨sealedFiles [], { subDirectories := ["a"] }⟩).calls 1) =
        [.list "test/a", .read "test/a/x.js"] := by
  obtain ⟨hall, hconstant⟩ := calls_do_what_is_due
  obtain ⟨hends, hcalls⟩ := hall growing
  obtain ⟨-, -, -, hdue, -⟩ := hcalls 1
  refine ⟨(hends 0).1, (hends 0).2, rfl, hdue [] (.read "test/a/y.js") [] rfl, ?_⟩
  rw [hconstant]
  rfl

end Shifting

end Conformance.Walk
