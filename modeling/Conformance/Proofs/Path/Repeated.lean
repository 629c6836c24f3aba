import Conformance.Proofs.Path.Normalized
import Conformance.Proofs.Path.Ordinary
import Conformance.Proofs.Text.Trimmed
import Mathlib.Logic.Function.Iterate

namespace Conformance.Path

/-! Corpus form taken again. What it takes off in front is looked for once and in a fixed order,
first `./` and then slashes, so that a `./` behind a slash is left for the next time. -/

def heres (count : Nat) : List Char :=
  (List.replicate count ['.', '/']).flatten

def slashes (count : Nat) : List Char :=
  List.replicate count '/'

theorem heres_succ (count : Nat) : heres (count + 1) = '.' :: '/' :: heres count := rfl

theorem slashes_succ (count : Nat) : slashes (count + 1) = '/' :: slashes count := rfl

theorem dropHere_heres (count : Nat) (rest : List Char) :
    dropHere (heres count ++ rest) = dropHere rest := by
  induction count with
  | zero => rfl
  | succ count ih =>
      rw [heres_succ, List.cons_append, List.cons_append, dropHere]
      exact ih

theorem exists_heres (path : List Char) :
    ∃ count, path = heres count ++ dropHere path ∧ ¬ ['.', '/'] <+: dropHere path := by
  induction hlength : path.length using Nat.strong_induction_on generalizing path with
  | _ length ih =>
      by_cases hhere : ['.', '/'] <+: path
      · obtain ⟨rest, rfl⟩ := hhere
        have hshorter : rest.length < length := by
          rw [← hlength, List.length_append]
          simp
        obtain ⟨count, hcount, hstop⟩ := ih rest.length hshorter rest rfl
        have hdrop : dropHere (['.', '/'] ++ rest) = dropHere rest := dropHere_heres 1 rest
        rw [hdrop]
        exact ⟨count + 1, congrArg (['.', '/'] ++ ·) hcount, hstop⟩
      · rw [dropHere_eq_self hhere]
        exact ⟨0, rfl, hhere⟩

theorem dropWhile_slashes (count : Nat) (rest : List Char) :
    (slashes count ++ rest).dropWhile (· == '/') = rest.dropWhile (· == '/') := by
  induction count with
  | zero => rfl
  | succ count ih =>
      rw [slashes_succ, List.cons_append, List.dropWhile_cons_of_pos (by decide)]
      exact ih

theorem exists_slashes (path : List Char) :
    ∃ count, path = slashes count ++ path.dropWhile (· == '/') := by
  have hall : ∀ c ∈ path.takeWhile (· == '/'), c = '/' := by
    intro c hc
    simpa using List.mem_takeWhile_imp hc
  have hfront := List.eq_replicate_of_mem hall
  refine ⟨(path.takeWhile (· == '/')).length, ?_⟩
  rw [slashes, ← hfront, List.takeWhile_append_dropWhile]

theorem exists_slashes_behind (path : List Char) :
    ∃ count, path = path.rdropWhile (· == '/') ++ slashes count := by
  obtain ⟨count, hcount⟩ := exists_slashes path.reverse
  refine ⟨count, ?_⟩
  rw [List.rdropWhile, slashes, ← List.reverse_replicate, ← List.reverse_append]
  exact List.reverse_eq_iff.mp hcount

theorem normalized_eq (path : List Char) : normalized path =
    ((dropHere (path.map slashed)).dropWhile (· == '/')).rdropWhile (· == '/') := rfl

theorem exists_dropHere_eq (path : List Char) : ∃ front behind,
    dropHere (path.map slashed) = slashes front ++ normalized path ++ slashes behind := by
  obtain ⟨front, hfront⟩ := exists_slashes (dropHere (path.map slashed))
  obtain ⟨behind, hbehind⟩ :=
    exists_slashes_behind ((dropHere (path.map slashed)).dropWhile (· == '/'))
  refine ⟨front, behind, ?_⟩
  rw [List.append_assoc, normalized_eq, ← hbehind]
  exact hfront

/-- Behind the leading copies of `./` there are slashes, and behind these there is a further
`./`, with more behind it than slashes. -/
def Exposes (path : List Char) : Prop :=
  ∃ copies front rest,
    path.map slashed = heres copies ++ slashes (front + 1) ++ ['.', '/'] ++ rest ∧
      ∃ c ∈ rest, c ≠ '/'

theorem normalized_of_exposed {path rest : List Char} {copies front : Nat}
    (hpath : path.map slashed = heres copies ++ slashes (front + 1) ++ ['.', '/'] ++ rest) :
    normalized path = (['.', '/'] ++ rest).rdropWhile (· == '/') := by
  have hstop : dropHere (slashes (front + 1) ++ (['.', '/'] ++ rest)) =
      slashes (front + 1) ++ (['.', '/'] ++ rest) := by
    apply dropHere_eq_self
    rintro ⟨more, hmore⟩
    cases hmore
  have hdot : (['.', '/'] ++ rest).dropWhile (· == '/') = ['.', '/'] ++ rest :=
    List.dropWhile_cons_of_neg (by decide)
  rw [normalized_eq, hpath, List.append_assoc, List.append_assoc, dropHere_heres, hstop,
    dropWhile_slashes, hdot]

theorem exists_mem_behind_here {path more : List Char}
    (hmore : ['.', '/'] ++ more = normalized path) : ∃ c ∈ more, c ≠ '/' := by
  by_contra hnone
  push Not at hnone
  have hslashes : ['.', '/'] ++ more = ['.'] ++ slashes (more.length + 1) := by
    rw [slashes_succ, slashes, ← List.eq_replicate_of_mem hnone]
    rfl
  apply getLast?_normalized path
  rw [← hmore, hslashes, List.getLast?_append_of_ne_nil _ (by simp [slashes])]
  simp [slashes, List.getLast?_replicate]

theorem here_normalized_iff {path : List Char} :
    ['.', '/'] <+: normalized path ↔ Exposes path := by
  constructor
  · rintro ⟨more, hmore⟩
    obtain ⟨copies, hcopies, hstop⟩ := exists_heres (path.map slashed)
    obtain ⟨front, behind, hrest⟩ := exists_dropHere_eq path
    rw [← hmore] at hrest
    cases front with
    | zero =>
        refine absurd ?_ hstop
        rw [hrest]
        exact ⟨more ++ slashes behind, by simp [slashes]⟩
    | succ front =>
        refine ⟨copies, front, more ++ slashes behind, ?_, ?_⟩
        · rw [hcopies, hrest]
          simp
        · obtain ⟨c, hc, hne⟩ := exists_mem_behind_here hmore
          exact ⟨c, List.mem_append_left _ hc, hne⟩
  · rintro ⟨copies, front, rest, hpath, c, hc, hne⟩
    have hkept : rest.rdropWhile (· == '/') ≠ [] := by
      rw [Ne, List.rdropWhile_eq_nil_iff]
      intro hall
      exact hne (by simpa using hall c hc)
    rw [normalized_of_exposed hpath, Text.rdropWhile_append, if_neg hkept]
    exact List.prefix_append _ _

theorem normalized_normalized_iff {path : List Char} :
    normalized (normalized path) = normalized path ↔ ¬ ['.', '/'] <+: normalized path := by
  constructor
  · intro heq hhere
    have hshorter := length_normalized_lt (.inr hhere)
    rw [heq] at hshorter
    exact lt_irrefl _ hshorter
  · intro hhere
    exact normalized_eq_self (backslash_not_mem_normalized path) hhere (head?_normalized path)
      (getLast?_normalized path)

theorem length_normalized_add_two_le {path : List Char} (h : ['.', '/'] <+: path) :
    (normalized path).length + 2 ≤ path.length := by
  obtain ⟨rest, rfl⟩ := h
  have hnext : normalized (['.', '/'] ++ rest) = normalized rest := rfl
  have hshorter := length_normalized_le rest
  rw [hnext, List.length_append, Nat.add_comm]
  exact Nat.add_le_add_left hshorter 2

theorem exists_rounds (path : List Char) :
    ∃ rounds ≤ (normalized path).length / 2 + 1,
      normalized (normalized^[rounds] path) = normalized^[rounds] path := by
  induction hlength : (normalized path).length using Nat.strong_induction_on generalizing path with
  | _ length ih =>
      by_cases hhere : ['.', '/'] <+: normalized path
      · have hshorter := length_normalized_add_two_le hhere
        obtain ⟨rounds, hrounds, hrest⟩ := ih _ (by omega) (normalized path) rfl
        exact ⟨rounds + 1, by omega, hrest⟩
      · exact ⟨1, by omega, normalized_normalized_iff.mpr hhere⟩

theorem toList_iterate_normalize (rounds : Nat) (path : String) :
    (normalize^[rounds] path).toList = normalized^[rounds] path.toList := by
  induction rounds generalizing path with
  | zero => rfl
  | succ rounds ih => rw [Function.iterate_succ_apply, ih, toList_normalize,
      Function.iterate_succ_apply]

/-- Corpus form taken again is the same unless a path exposes a further `./`, and then it is
shorter. It comes to rest when it is taken again and again. -/
theorem normalize_normalize_iff (path : String) :
    (normalize (normalize path) = normalize path ↔ ¬ Exposes path.toList) ∧
      (Exposes path.toList →
        (normalize (normalize path)).length + 2 ≤ (normalize path).length) ∧
      ∃ rounds ≤ (normalize path).length / 2 + 1,
        normalize (normalize^[rounds] path) = normalize^[rounds] path := by
  have hlength (text : String) : text.length = text.toList.length := String.length_toList.symm
  refine ⟨?_, fun hexposed => ?_, ?_⟩
  · rw [← String.toList_inj, toList_normalize, toList_normalize, normalized_normalized_iff,
      here_normalized_iff]
  · rw [hlength, hlength, toList_normalize, toList_normalize]
    exact length_normalized_add_two_le (here_normalized_iff.mpr hexposed)
  · obtain ⟨rounds, hrounds, hrest⟩ := exists_rounds path.toList
    refine ⟨rounds, by rwa [hlength, toList_normalize], ?_⟩
    rw [← String.toList_inj, toList_normalize, toList_iterate_normalize]
    exact hrest

theorem normalize_normalize_iff_helper :
    Exposes "/./harness/assert.js".toList ∧
      (normalize (normalize "/./harness/assert.js")).length + 2 ≤
        (normalize "/./harness/assert.js").length := by
  have hexposed : Exposes "/./harness/assert.js".toList :=
    ⟨0, 0, "harness/assert.js".toList, by decide, 'h', by decide, by decide⟩
  exact ⟨hexposed, (normalize_normalize_iff _).2.1 hexposed⟩

/-- The name of a helper is found the second time only. -/
theorem normalize_normalize_ne :
    normalize "/./harness/assert.js" = "./harness/assert.js" ∧
      normalize "./harness/assert.js" = "harness/assert.js" ∧
      normalize (normalize "/./harness/assert.js") ≠ normalize "/./harness/assert.js" := by
  decide

end Conformance.Path
