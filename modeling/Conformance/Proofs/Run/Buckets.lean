import Conformance.Run.Runner
import Mathlib.Data.List.Nodup
import Mathlib.Data.List.Perm.Basic
import Mathlib.Data.Prod.Lex
import Mathlib.Data.String.Basic
import Mathlib.Data.Bool.Basic

namespace Conformance

/-! What the buckets of a summary hold: of the cases that were recorded those
with the outcome of the bucket, in the order of file names and modes. -/

namespace Case

/-- Cases are in the order of their files, and of one file the plain one is
first. -/
def Before (left right : Case) : Prop :=
  toLex left.identity ≤ toLex right.identity

theorem before_iff {left right : Case} :
    left.Before right ↔
      left.fileName ≤ right.fileName ∧
        (left.fileName = right.fileName → left.strict ≤ right.strict) :=
  Prod.Lex.toLex_le_toLex'

theorem identity_eq_of_before {left right : Case} (h : left.Before right)
    (h' : right.Before left) : left.identity = right.identity :=
  toLex.injective (le_antisymm h h')

end Case

namespace Summary

theorem caseLE_iff {left right : Case} : caseLE left right = true ↔ left.Before right := by
  rw [Case.before_iff, caseLE]
  by_cases hfile : left.fileName = right.fileName
  · cases hleft : left.strict <;> cases hright : right.strict <;> simp [hfile]
  · simp only [hfile, if_false, decide_eq_true_eq, false_implies, and_true]
    exact (Ne.le_iff_lt hfile).symm

theorem sortCases_pairwise (cases : List Case) : (sortCases cases).Pairwise Case.Before := by
  have hsorted : (sortCases cases).Pairwise fun left right => caseLE left right = true := by
    apply List.pairwise_mergeSort
    · intro first second third hfirst hsecond
      rw [caseLE_iff] at hfirst hsecond ⊢
      exact le_trans hfirst hsecond
    · intro first second
      rw [Bool.or_eq_true, caseLE_iff, caseLE_iff]
      exact le_total _ _
  exact hsorted.imp caseLE_iff.mp

theorem sortCases_perm (cases : List Case) : (sortCases cases).Perm cases :=
  List.mergeSort_perm cases caseLE

theorem sortCases_eq_of_perm {first second : List Case}
    (hdistinct : (second.map Case.identity).Nodup) (hperm : first.Perm second) :
    sortCases first = sortCases second := by
  have hall := (sortCases_perm first).trans (hperm.trans (sortCases_perm second).symm)
  refine List.Perm.eq_of_pairwise ?_ (sortCases_pairwise first) (sortCases_pairwise second) hall
  intro left right hleft hright hbefore hafter
  have hleft : left ∈ second := hperm.mem_iff.mp ((sortCases_perm first).mem_iff.mp hleft)
  have hright : right ∈ second := (sortCases_perm second).mem_iff.mp hright
  exact List.inj_on_of_nodup_map hdistinct hleft hright
    (Case.identity_eq_of_before hbefore hafter)

theorem bucket_finish (summary : Summary) (outcome : Outcome) :
    summary.finish.bucket outcome = sortCases (summary.bucket outcome) := by
  cases outcome <;> simp [finish, bucket]

@[simp] theorem cancelled_record (summary : Summary) (outcome : Outcome) (case : Case) :
    (summary.record outcome case).cancelled = summary.cancelled := by
  cases outcome <;> rfl

@[simp] theorem unrecognized_record (summary : Summary) (outcome : Outcome) (case : Case) :
    (summary.record outcome case).unrecognized = summary.unrecognized := by
  cases outcome <;> rfl

def casesOf (outcomes : List (Case × Outcome)) (outcome : Outcome) : List Case :=
  (outcomes.filter fun entry => entry.2 = outcome).map Prod.fst

def recordAll (summary : Summary) (outcomes : List (Case × Outcome)) : Summary :=
  outcomes.foldl (fun summary entry => summary.record entry.2 entry.1) summary

theorem bucket_recordAll (summary : Summary) (outcomes : List (Case × Outcome))
    (outcome : Outcome) :
    (summary.recordAll outcomes).bucket outcome =
      summary.bucket outcome ++ casesOf outcomes outcome := by
  induction outcomes generalizing summary with
  | nil => simp [recordAll, casesOf]
  | cons entry outcomes ih =>
      have hrest := ih (summary.record entry.2 entry.1)
      rw [bucket_record] at hrest
      by_cases heq : outcome = entry.2
      · simpa [recordAll, casesOf, heq] using hrest
      · simpa [recordAll, casesOf, heq, Ne.symm heq] using hrest

theorem recordAll_keeps (summary : Summary) (outcomes : List (Case × Outcome)) :
    (summary.recordAll outcomes).cancelled = summary.cancelled ∧
      (summary.recordAll outcomes).unrecognized = summary.unrecognized := by
  induction outcomes generalizing summary with
  | nil => exact ⟨rfl, rfl⟩
  | cons entry outcomes ih => simpa [recordAll] using ih (summary.record entry.2 entry.1)

section

variable (cancelled : Bool) (outcomes : List (Case × Outcome))

@[simp] theorem cancelled_ofOutcomes : (ofOutcomes cancelled outcomes).cancelled = cancelled :=
  (recordAll_keeps { cancelled } outcomes).1

@[simp] theorem unrecognized_ofOutcomes : (ofOutcomes cancelled outcomes).unrecognized = [] :=
  (recordAll_keeps { cancelled } outcomes).2

theorem bucket_ofOutcomes (outcome : Outcome) :
    (ofOutcomes cancelled outcomes).bucket outcome = sortCases (casesOf outcomes outcome) := by
  have hempty : ({ cancelled } : Summary).bucket outcome = [] := by
    cases outcome with
    | allowed c => cases c <;> rfl
    | disallowed c => cases c <;> rfl
  have hall := bucket_recordAll { cancelled } outcomes outcome
  rw [hempty, List.nil_append] at hall
  exact (bucket_finish _ outcome).trans (congrArg sortCases hall)

end

theorem bucket_ofOutcomes_eq_nil {cancelled : Bool} {outcomes : List (Case × Outcome)}
    {outcome : Outcome} (h : ∀ entry ∈ outcomes, entry.2 ≠ outcome) :
    (ofOutcomes cancelled outcomes).bucket outcome = [] := by
  have hnone : casesOf outcomes outcome = [] := by
    rw [casesOf, List.filter_eq_nil_iff.mpr fun entry hentry => by simpa using h entry hentry]
    rfl
  rw [bucket_ofOutcomes, hnone]
  exact List.mergeSort_nil

end Summary

def Outcome.all : List Outcome :=
  Classification.all.map .allowed ++ Classification.all.map .disallowed

namespace Summary

def cases (summary : Summary) : List Case :=
  Outcome.all.flatMap summary.bucket

theorem length_cases (summary : Summary) : summary.cases.length = summary.total := by
  simp only [cases, Outcome.all, Classification.all, bucket, total, Buckets.size,
    Buckets.get, List.map_cons, List.map_nil, List.cons_append, List.nil_append,
    List.flatMap_cons, List.flatMap_nil, List.length_append, List.length_nil]
  omega

private theorem flatMap_casesOf_perm (outcomes : List (Case × Outcome)) :
    (Outcome.all.flatMap (casesOf outcomes)).Perm (outcomes.map Prod.fst) := by
  induction outcomes with
  | nil => simp [Outcome.all, Classification.all, casesOf]
  | cons entry outcomes ih =>
      refine List.perm_iff_count.mpr fun case => ?_
      have hcase := List.perm_iff_count.mp ih case
      obtain ⟨first, outcome⟩ := entry
      simp only [Outcome.all, Classification.all, casesOf, List.map_cons, List.map_nil,
        List.cons_append, List.nil_append, List.flatMap_cons, List.flatMap_nil,
        List.count_append, List.count_cons, List.count_nil, List.filter_cons] at hcase ⊢
      cases outcome with
      | allowed c => cases c <;> simp [List.count_cons] <;> omega
      | disallowed c => cases c <;> simp [List.count_cons] <;> omega

theorem cases_ofOutcomes_perm (cancelled : Bool) (outcomes : List (Case × Outcome)) :
    (ofOutcomes cancelled outcomes).cases.Perm (outcomes.map Prod.fst) := by
  refine List.Perm.trans ?_ (flatMap_casesOf_perm outcomes)
  refine List.Perm.flatMap_left Outcome.all fun outcome _ => ?_
  rw [bucket_ofOutcomes]
  exact sortCases_perm _

theorem casesOf_eq_filter (outcomeOf : Case → Outcome) (outcomes : List (Case × Outcome))
    (h : ∀ entry ∈ outcomes, entry.2 = outcomeOf entry.1) (outcome : Outcome) :
    casesOf outcomes outcome =
      (outcomes.map Prod.fst).filter fun case => outcomeOf case = outcome := by
  rw [casesOf, List.filter_map]
  refine congrArg _ (List.filter_congr fun entry hentry => ?_)
  simp [h entry hentry]

theorem eq_of_bucket_eq {first second : Summary}
    (hbucket : ∀ outcome, first.bucket outcome = second.bucket outcome)
    (hunrecognized : first.unrecognized = second.unrecognized)
    (hcancelled : first.cancelled = second.cancelled) : first = second := by
  have hbuckets {left right : Buckets} (h : ∀ c, left.get c = right.get c) :
      left = right := by
    cases left
    cases right
    have hsuccess := h .success
    have hfailure := h .failure
    have hpositive := h .falsePositive
    have hnegative := h .falseNegative
    simp_all [Buckets.get]
  have hallowed := hbuckets fun c => hbucket (.allowed c)
  have hdisallowed := hbuckets fun c => hbucket (.disallowed c)
  cases first
  cases second
  simp_all

end Summary

end Conformance
