import Conformance.Proofs.Corpus.IndexView
import Conformance.Proofs.Path.Repeated

namespace Conformance.Path

variable {path form : List Char}

/-- A text that can come out as a corpus form. It may start with `./`. -/
structure IsForm (text : List Char) : Prop where
  no_backslash : '\\' ∉ text
  head_ne : text.head? ≠ some '/'
  getLast_ne : text.getLast? ≠ some '/'

/-- The form stands in the path behind copies of `./`, as many as there are, and then slashes;
behind it there are slashes only. -/
def Leaves (path form : List Char) : Prop :=
  ∃ copies front behind,
    path.map slashed = heres copies ++ slashes front ++ form ++ slashes behind ∧
      ¬ ['.', '/'] <+: slashes front ++ form ++ slashes behind

theorem isForm_normalized (path : List Char) : IsForm (normalized path) where
  no_backslash := backslash_not_mem_normalized path
  head_ne := head?_normalized path
  getLast_ne := getLast?_normalized path

theorem IsForm.of_append {front rest : List Char} (h : IsForm (front ++ rest))
    (hhead : rest.head? ≠ some '/') : IsForm rest where
  no_backslash := fun hmem => h.no_backslash (List.mem_append_right front hmem)
  head_ne := hhead
  getLast_ne := by
    intro hlast
    obtain ⟨more, rfl⟩ := List.getLast?_eq_some_iff.mp hlast
    apply h.getLast_ne
    rw [← List.append_assoc]
    exact List.getLast?_concat

theorem leaves_normalized (path : List Char) : Leaves path (normalized path) := by
  obtain ⟨copies, hcopies, hstop⟩ := exists_heres (path.map slashed)
  obtain ⟨front, behind, hrest⟩ := exists_dropHere_eq path
  rw [hrest] at hcopies hstop
  refine ⟨copies, front, behind, ?_, hstop⟩
  rw [hcopies]
  simp only [List.append_assoc]

theorem rdropWhile_slashes (text : List Char) (count : Nat) :
    (text ++ slashes count).rdropWhile (· == '/') = text.rdropWhile (· == '/') := by
  have hreverse : (slashes count).reverse = slashes count := List.reverse_replicate
  rw [List.rdropWhile, List.reverse_append, hreverse, dropWhile_slashes, List.rdropWhile]

theorem Leaves.normalized_eq (hleaves : Leaves path form) (hform : IsForm form) :
    normalized path = form := by
  obtain ⟨copies, front, behind, hpath, hhere⟩ := hleaves
  have hfront : form.dropWhile (· == '/') = form :=
    List.dropWhile_beq_eq_self_of_head?_ne hform.head_ne
  have hbehind : form.rdropWhile (· == '/') = form := rdropWhile_eq_self hform.getLast_ne
  have hdropped : dropHere (path.map slashed) = slashes front ++ (form ++ slashes behind) := by
    rw [hpath, List.append_assoc, List.append_assoc, dropHere_heres, ← List.append_assoc,
      dropHere_eq_self hhere, List.append_assoc]
  rw [Path.normalized_eq, hdropped, dropWhile_slashes, Text.rdropWhile_dropWhile,
    rdropWhile_slashes, hbehind, hfront]

theorem normalized_eq_iff : normalized path = form ↔ IsForm form ∧ Leaves path form := by
  constructor
  · rintro rfl
    exact ⟨isForm_normalized path, leaves_normalized path⟩
  · rintro ⟨hform, hleaves⟩
    exact hleaves.normalized_eq hform

theorem leaves_slash_cons (hform : IsForm form) : Leaves ('/' :: form) form := by
  refine ⟨0, 1, 0, ?_, ?_⟩
  · rw [List.map_cons, map_slashed_eq_self hform.no_backslash]
    simp [heres, slashes, slashed]
  · rintro ⟨rest, hrest⟩
    cases hrest

theorem exists_normalized_eq_iff : (∃ path, normalized path = form) ↔ IsForm form := by
  constructor
  · rintro ⟨path, rfl⟩
    exact isForm_normalized path
  · intro hform
    exact ⟨'/' :: form, normalized_eq_iff.mpr ⟨hform, leaves_slash_cons hform⟩⟩

theorem normalized_eq_self_iff :
    normalized path = path ↔ IsForm path ∧ ¬ ['.', '/'] <+: path := by
  constructor
  · intro heq
    refine ⟨exists_normalized_eq_iff.mp ⟨path, heq⟩, fun hhere => ?_⟩
    have hshorter := length_normalized_lt (.inr hhere)
    rw [heq] at hshorter
    exact lt_irrefl _ hshorter
  · rintro ⟨hform, hhere⟩
    exact normalized_eq_self hform.no_backslash hhere hform.head_ne hform.getLast_ne

theorem normalize_normalize_of_within {folder path : String} (hfolder : Ordinary folder)
    (hwithin : isWithin folder (normalize path) = true) :
    normalize (normalize path) = normalize path := by
  have hhere := not_here_of_within hfolder hwithin
  rw [toList_normalize] at hhere
  rw [← String.toList_inj, toList_normalize, toList_normalize]
  exact normalized_eq_self_iff.mpr ⟨isForm_normalized _, hhere⟩

/-- What a path loses to its corpus form are copies of `./`, slashes behind these, and slashes at
its end. A path is its own corpus form if it is a form that does not start with `./`, and the
corpus form of some path if it is a form at all. A corpus form at or below a corpus folder is its
own. -/
theorem normalize_leaves_form (path : String) :
    IsForm (normalize path).toList ∧
      Leaves path.toList (normalize path).toList ∧
      (normalize path = path ↔ IsForm path.toList ∧ ¬ ['.', '/'] <+: path.toList) ∧
      ((∃ other, normalize other = path) ↔ IsForm path.toList) ∧
      (Index.isCorpusPath (normalize path) = true →
        normalize (normalize path) = normalize path) := by
  obtain ⟨hform, hleaves⟩ := normalized_eq_iff.mp (toList_normalize path).symm
  refine ⟨hform, hleaves, ?_, ?_, fun hcorpus => ?_⟩
  · rw [← String.toList_inj, toList_normalize]
    exact normalized_eq_self_iff
  · rw [← exists_normalized_eq_iff]
    constructor
    · rintro ⟨other, rfl⟩
      exact ⟨other.toList, (toList_normalize other).symm⟩
    · rintro ⟨other, hother⟩
      refine ⟨.ofList other, String.toList_injective ?_⟩
      rw [toList_normalize, String.toList_ofList, hother]
  · rw [Index.isCorpusPath, List.any_eq_true] at hcorpus
    obtain ⟨top, htop, hwithin⟩ := hcorpus
    exact normalize_normalize_of_within (Index.ordinary_of_mem_tops htop) hwithin

theorem normalize_leaves_form_helper :
    Index.isCorpusPath (normalize ".\\.//harness\\assert.js/") = true ∧
      normalize (normalize ".\\.//harness\\assert.js/") =
        normalize ".\\.//harness\\assert.js/" := by
  have hcorpus : Index.isCorpusPath (normalize ".\\.//harness\\assert.js/") = true := by decide
  exact ⟨hcorpus, (normalize_leaves_form _).2.2.2.2 hcorpus⟩

end Conformance.Path
