import Conformance.Proofs.Case.Variants
import Conformance.Proofs.Corpus.Failure
import Conformance.Proofs.Path.Form

namespace Conformance

/-! A file that is asked for by its path, and one that a walk comes to. -/

namespace Stream

variable {corpus : Corpus} {stream : Stream} {path asked rest : String} {expand : Bool}
  {cases : List Case}

/-- What a path is not taken from the test folder for. -/
def fronts : List String := ["test/", "harness/", "./", "/"]

theorem singlePath_eq_self (hnormal : Path.normalize path = path)
    (htest : Text.startsWith "test/" path = true) : singlePath path = path := by
  rw [singlePath]
  simp only [hnormal, htest, Bool.true_or, if_true]

theorem normalize_rest (hnormal : Path.normalize ("test/" ++ rest) = "test/" ++ rest)
    (hfront : ¬ ['.', '/'] <+: rest.toList) (hslash : ¬ ['/'] <+: rest.toList) :
    Path.normalize rest = rest := by
  have hform := Path.isForm_normalized ("test/" ++ rest).toList
  rw [← Path.toList_normalize, hnormal, String.toList_append] at hform
  have hhead : rest.toList.head? ≠ some '/' := by
    intro hhead
    obtain ⟨more, hmore⟩ := List.head?_eq_some_iff.mp hhead
    exact hslash ⟨more, hmore.symm⟩
  apply String.toList_injective
  rw [Path.toList_normalize]
  exact Path.normalized_eq_self_iff.mpr ⟨hform.of_append hhead, hfront⟩

theorem singlePath_rest_iff (hnormal : Path.normalize ("test/" ++ rest) = "test/" ++ rest) :
    singlePath rest = "test/" ++ rest ↔ ∀ front ∈ fronts, Text.startsWith front rest = false := by
  simp only [fronts, List.forall_mem_cons, List.not_mem_nil, false_imp_iff, implies_true,
    and_true]
  constructor
  · intro hsame
    rw [singlePath] at hsame
    split at hsame
    · have hlength := Path.length_normalized_le rest.toList
      rw [← Path.toList_normalize, hsame, String.toList_append, List.length_append] at hlength
      exact absurd hlength (Nat.not_le_of_lt (Nat.lt_add_of_pos_left (by decide)))
    · rename_i hfolders
      have hself : Path.normalize rest = rest := by
        apply String.toList_injective
        have hlists := congrArg String.toList hsame
        rw [String.toList_append, String.toList_append] at hlists
        exact List.append_cancel_left hlists
      have hfront {front : String} (hfront : front.toList = ['/'] ∨ front.toList = ['.', '/']) :
          Text.startsWith front rest = false := by
        rw [← Bool.not_eq_true, Text.startsWith_iff]
        intro hstarts
        have hless := Path.length_normalized_lt (hfront.imp (· ▸ hstarts) (· ▸ hstarts))
        rw [← Path.toList_normalize, hself] at hless
        exact Nat.lt_irrefl _ hless
      rw [hself, Bool.or_eq_true, not_or, Bool.not_eq_true, Bool.not_eq_true] at hfolders
      exact ⟨hfolders.1, hfolders.2, hfront (.inr rfl), hfront (.inl rfl)⟩
  · rintro ⟨htest, hharness, hhere, hslash⟩
    rw [← Bool.not_eq_true, Text.startsWith_iff] at hhere hslash
    have hrest := normalize_rest hnormal hhere hslash
    rw [singlePath]
    simp only [hrest, htest, hharness, Bool.or_self, Bool.false_eq_true, if_false]

theorem load_unexpanded (corpus : Corpus) (expand : Bool) (path : String) :
    load corpus false path = (load corpus expand path).map (List.take 1) := by
  cases hread : corpus.read path with
  | error error =>
      rw [load_of_read hread, load_of_read hread]
      rfl
  | ok bytes =>
      cases hdecode : Case.decode bytes with
      | error problem =>
          simp [load, Case.read, hread, hdecode, bind, Except.bind, Except.mapError, Except.map]
      | ok text =>
          rw [load_of_decode hread hdecode, load_of_decode hread hdecode, casesOf_unexpanded]
          cases expand with
          | true => rfl
          | false =>
              rw [casesOf_unexpanded]
              cases casesOf Yaml.load? text path true <;> simp [Except.map, List.take_take]

theorem ne_nil_of_load (h : load corpus expand path = .ok cases) : cases ≠ [] := by
  obtain ⟨base, -, -, rfl⟩ := exists_base_of_load h
  exact Case.variants_ne_nil expand base

theorem fileItems_of_filter (hall : ∀ case, stream.options.filter case = true) (path : String) :
    stream.fileItems path =
      match load stream.corpus stream.options.expandStrict path with
      | .error error => [.error error]
      | .ok cases => cases.map .ok := by
  rw [fileItems]
  cases load stream.corpus stream.options.expandStrict path with
  | error error => rfl
  | ok cases =>
      dsimp only
      rw [List.filter_eq_self.mpr fun case _ => hall case]

theorem head?_fileItems (hall : ∀ case, stream.options.filter case = true)
    (hasked : singlePath asked = path) :
    (stream.fileItems path).head? = some (stream.single asked) := by
  rw [fileItems_of_filter hall, single]
  simp only [hasked, load_unexpanded stream.corpus stream.options.expandStrict path]
  cases hload : load stream.corpus stream.options.expandStrict path with
  | error error => rfl
  | ok cases =>
      obtain ⟨first, others, rfl⟩ := List.exists_cons_of_ne_nil (ne_nil_of_load hload)
      rfl

theorem tail_fileItems (hall : ∀ case, stream.options.filter case = true)
    (hunexpanded : stream.options.expandStrict = false) (path : String) :
    (stream.fileItems path).tail = [] := by
  rw [fileItems_of_filter hall, hunexpanded, load_unexpanded stream.corpus true path]
  cases load stream.corpus true path with
  | error error => rfl
  | ok cases => cases cases <;> rfl

def inMode (stream : Stream) (expand : Bool) : Stream :=
  { stream with options := { stream.options with expandStrict := expand } }

end Stream

namespace Walk

variable {stream : Stream} {path rest : String}

/-- A call that loads a file loads that one alone, and has its items to hand out. -/
def Next.LoadsOne (next : Next) (stream : Stream) : Prop :=
  ∀ path, Operation.read path ∈ next.operations →
    loadedBy [next] = [path] ∧
      next.item = (stream.fileItems path).head? ∧
      next.walk.ready.map .ok = (stream.fileItems path).tail

theorem Next.LoadsOne.after {next : Next} (h : next.LoadsOne stream) (root : String) :
    (next.after (.list root)).LoadsOne stream := by
  intro path hpath
  rcases List.mem_cons.mp hpath with hlist | hpath
  · cases hlist
  · exact h path hpath

theorem loadsOne_of_operations {next : Next} (h : next.operations = []) :
    next.LoadsOne stream := by
  intro path hpath
  rw [h] at hpath
  cases hpath

theorem loadsOne_nextOfFiles (hall : ∀ case, stream.options.filter case = true)
    {directories : List String} {otherwise : Unit → Next}
    (hotherwise : (otherwise ()).LoadsOne stream) (files : List String) :
    (nextOfFiles stream directories otherwise files).LoadsOne stream := by
  cases files with
  | nil => exact hotherwise
  | cons path files =>
      have hitems := Stream.fileItems_of_filter hall path
      rw [nextOfFiles]
      cases hload : Stream.load stream.corpus stream.options.expandStrict path with
      | error error =>
          rw [hload] at hitems
          intro asked hasked
          obtain rfl : asked = path := by simpa [Next.after] using hasked
          rw [hitems]
          exact ⟨rfl, rfl, rfl⟩
      | ok cases =>
          obtain ⟨first, others, rfl⟩ :=
            List.exists_cons_of_ne_nil (Stream.ne_nil_of_load hload)
          have hfilter : (first :: others).filter stream.options.filter = first :: others :=
            List.filter_eq_self.mpr fun case _ => hall case
          rw [hload] at hitems
          dsimp only
          rw [hfilter]
          intro asked hasked
          obtain rfl : asked = path := by simpa [Next.after] using hasked
          rw [hitems]
          exact ⟨rfl, rfl, rfl⟩

theorem loadsOne_nextOfDirectories (hall : ∀ case, stream.options.filter case = true)
    (directories : List String) : (nextOfDirectories stream directories).LoadsOne stream := by
  induction directories with
  | nil => exact loadsOne_of_operations rfl
  | cons directory directories ih =>
      rw [nextOfDirectories]
      refine Next.LoadsOne.after ?_ _
      cases stream.corpus.list (Stream.rootOf directory) true Stream.isTestFile with
      | error error => exact loadsOne_of_operations rfl
      | ok files => exact loadsOne_nextOfFiles hall ih files

theorem loadsOne_next (hall : ∀ case, stream.options.filter case = true) (walk : Walk) :
    (walk.next stream).LoadsOne stream := by
  rw [next]
  split
  · exact loadsOne_of_operations rfl
  · exact loadsOne_nextOfFiles hall (loadsOne_nextOfDirectories hall _) _

theorem loadsOne_of_mem_calls (hall : ∀ case, stream.options.filter case = true) {walk : Walk}
    {count : Nat} {next : Next} (h : next ∈ calls stream walk count) : next.LoadsOne stream := by
  induction count generalizing walk with
  | zero => cases h
  | succ count ih =>
      rcases List.mem_cons.mp h with rfl | h
      · exact loadsOne_next hall walk
      · exact ih h

theorem mem_loadedBy_iff {calls : List Next} :
    path ∈ loadedBy calls ↔ ∃ next ∈ calls, Operation.read path ∈ next.operations := by
  have hloaded (operation : Operation) : path ∈ operation.loaded ↔ operation = .read path := by
    cases operation <;> simp [Operation.loaded, eq_comm]
  simp only [loadedBy, operationsOf, List.mem_flatMap, hloaded, exists_eq_right]

theorem loadedBy_complete (stream : Stream) :
    loadedBy (complete stream) = stream.options.subDirectories.flatMap stream.filesOf :=
  loadedBy_calls stream 0

theorem loadedBy_inMode (stream : Stream) (expand : Bool) :
    loadedBy (complete (stream.inMode expand)) = loadedBy (complete stream) := by
  rw [loadedBy_complete, loadedBy_complete]
  rfl

/-- A lookup of a file that a walk comes to gives what the walk hands out for it: its one item
where files are not expanded, and else the first of them. So does a lookup without the test
folder, but for the rests that are not taken from it. -/
theorem single_of_loaded (hall : ∀ case, stream.options.filter case = true)
    (hnormal : Path.normalize path = path) (hrest : path = "test/" ++ rest)
    (hloaded : path ∈ loadedBy (complete stream)) :
    (∀ expand, ∃ next ∈ complete (stream.inMode expand),
        Operation.read path ∈ next.operations) ∧
      (∀ expand, ∀ next ∈ complete (stream.inMode expand),
        Operation.read path ∈ next.operations →
          loadedBy [next] = [path] ∧ next.item = some (stream.single path) ∧
            (expand = false → next.walk.ready = [])) ∧
      (Stream.singlePath rest = path ↔
        ∀ front ∈ Stream.fronts, Text.startsWith front rest = false) ∧
      ((∀ front ∈ Stream.fronts, Text.startsWith front rest = false) →
        stream.single rest = stream.single path) := by
  subst hrest
  have hself : Stream.singlePath ("test/" ++ rest) = "test/" ++ rest :=
    Stream.singlePath_eq_self hnormal (Text.startsWith_iff.mpr (by simp))
  have hsame := Stream.singlePath_rest_iff hnormal
  refine ⟨fun expand => ?_, fun expand next hnext hread => ?_, hsame, fun hfronts => ?_⟩
  · rw [← mem_loadedBy_iff, loadedBy_inMode]
    exact hloaded
  · have hall' : ∀ case, (stream.inMode expand).options.filter case = true := hall
    obtain ⟨hone, hitem, hready⟩ := loadsOne_of_mem_calls hall' hnext _ hread
    rw [Stream.head?_fileItems hall' hself] at hitem
    refine ⟨hone, hitem, fun hunexpanded => ?_⟩
    rw [Stream.tail_fileItems hall' hunexpanded] at hready
    exact List.map_eq_nil_iff.mp hready
  · rw [Stream.single, Stream.single, hsame.mpr hfronts, hself]

def oneScript : Stream where
  corpus.list root _ test :=
    if root = "test/a" then .ok (["test/a/x.js"].filter test) else .error (.notFound root)
  corpus.read _ := .ok "/*---\ndescription: d\n---*/\n".toUTF8
  corpus.describe := "one script"
  options.subDirectories := ["a"]

theorem single_of_loaded_script :
    "test/a/x.js" ∈ loadedBy (complete oneScript) ∧
      (∀ next ∈ complete (oneScript.inMode true),
        Operation.read "test/a/x.js" ∈ next.operations →
          next.item = some (oneScript.single "a/x.js")) ∧
      (∀ next ∈ complete (oneScript.inMode false),
        Operation.read "test/a/x.js" ∈ next.operations →
          next.item = some (oneScript.single "a/x.js") ∧ next.walk.ready = []) ∧
      (oneScript.single "a/x.js").isOk = true := by
  have hloaded : "test/a/x.js" ∈ loadedBy (complete oneScript) := by
    rw [loadedBy_complete]
    decide
  have hpath : "test/a/x.js" = "test/" ++ "a/x.js" := by decide
  obtain ⟨-, hcalls, -, hrest⟩ := single_of_loaded (fun _ => rfl) (by decide) hpath hloaded
  rw [hrest (by decide)]
  refine ⟨hloaded, fun next hnext hread => ?_, fun next hnext hread => ?_, by decide +kernel⟩
  · exact (hcalls true next hnext hread).2.1
  · obtain ⟨-, hitem, hready⟩ := hcalls false next hnext hread
    exact ⟨hitem, hready rfl⟩

end Walk

end Conformance
