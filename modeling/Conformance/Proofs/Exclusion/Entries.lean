import Conformance.Exclusion.Rules
import Conformance.Proofs.Text.LetterCase

namespace Conformance.Exclusion

def isGlobMark (c : Char) : Bool :=
  c == '*' || c == '?' || c == '[' || c == '{'

def hasGlobMark (entry : String) : Bool :=
  entry.toList.any isGlobMark

theorem isGlobMark_iff {c : Char} :
    isGlobMark c = true ↔ c = '*' ∨ c = '?' ∨ c = '[' ∨ c = '{' := by
  simp [isGlobMark, or_assoc]

theorem mark_of_isGlobMark {c : Char} (h : isGlobMark c = true) : Text.LetterCase.Mark c := by
  rcases isGlobMark_iff.mp h with rfl | rfl | rfl | rfl <;> decide

theorem isBlank_of_isGlobMark {c : Char} (h : isGlobMark c = true) : Text.isBlank c = false := by
  rcases isGlobMark_iff.mp h with rfl | rfl | rfl | rfl <;> decide

theorem not_mem_of_isGlobMark {text : List Char} {c : Char} (h : isGlobMark c = true)
    (htext : text.any isGlobMark = false) : c ∉ text := by
  intro hmem
  have hany : text.any isGlobMark = true := List.any_eq_true.mpr ⟨c, hmem, h⟩
  rw [htext] at hany
  contradiction

theorem mem_dropHere_iff {path : List Char} {c : Char} (h : isGlobMark c = true) :
    c ∈ Path.dropHere path ↔ c ∈ path := by
  fun_induction Path.dropHere path with
  | case1 rest ih =>
      have hcut : c ∉ ['.', '/'] := not_mem_of_isGlobMark h (by decide)
      refine ih.trans ?_
      change c ∈ rest ↔ c ∈ ['.', '/'] ++ rest
      rw [List.mem_append]
      exact (or_iff_right hcut).symm
  | case2 path hother => rfl

theorem mem_trimSlashes_iff {path : List Char} {c : Char} (h : isGlobMark c = true) :
    c ∈ Path.trimSlashes path ↔ c ∈ path := by
  have hslash : (c == '/') = false := by
    rcases isGlobMark_iff.mp h with rfl | rfl | rfl | rfl <;> decide
  have hdrop : ∀ text : List Char, c ∈ text.dropWhile (· == '/') ↔ c ∈ text :=
    fun _ => Text.mem_dropWhile_iff (p := (· == '/')) hslash
  rw [Path.trimSlashes, List.mem_reverse, hdrop, List.mem_reverse, hdrop]

theorem mem_slashed_iff {path : List Char} {c : Char} (h : isGlobMark c = true) :
    c ∈ path.map Path.slashed ↔ c ∈ path := by
  have hslash : c ≠ '/' := by rintro rfl; exact absurd h (by decide)
  have hback : c ≠ '\\' := by rintro rfl; exact absurd h (by decide)
  rw [List.mem_map]
  constructor
  · rintro ⟨d, hd, rfl⟩
    unfold Path.slashed at hslash ⊢
    split at hslash
    · contradiction
    · rename_i hother
      rwa [if_neg hother]
  · intro hc
    exact ⟨c, hc, if_neg hback⟩

theorem mem_after?_iff {mark text rest : List Char} {c : Char} (hmark : c ∉ mark)
    (hafter : Text.after? mark text = some rest) : c ∈ rest ↔ c ∈ text := by
  rw [Text.after?_eq_some_iff.mp hafter, List.mem_append]
  exact (or_iff_right hmark).symm

theorem mem_before?_iff {mark text rest : List Char} {c : Char} (hmark : c ∉ mark)
    (hbefore : Text.before? mark text = some rest) : c ∈ rest ↔ c ∈ text := by
  rw [Text.before?_eq_some_iff.mp hbefore, List.mem_append]
  exact (or_iff_left hmark).symm

theorem mem_testRelative_iff {path : List Char} {c : Char} (h : isGlobMark c = true) :
    c ∈ testRelative path ↔ c ∈ path := by
  have hpath : c ∈ Path.normalized (Text.trimmed path) ↔ c ∈ path := by
    rw [Path.normalized, mem_trimSlashes_iff h, mem_dropHere_iff h, mem_slashed_iff h,
      Text.mem_trimmed_iff (isBlank_of_isGlobMark h)]
  rw [← hpath, testRelative]
  cases hafter : Text.after? "test/".toList (Path.normalized (Text.trimmed path)) with
  | none => rfl
  | some rest =>
      exact mem_after?_iff (not_mem_of_isGlobMark h (by decide)) hafter

theorem mem_nameOf_iff {path : List Char} {c : Char} (h : isGlobMark c = true) :
    c ∈ nameOf path ↔ c ∈ path := by
  rw [nameOf, Text.mem_lowered_iff (mark_of_isGlobMark h), mem_testRelative_iff h]

theorem mem_splitScope_iff {entry : List Char} {c : Char} (h : isGlobMark c = true) :
    c ∈ (splitScope entry).1 ↔ c ∈ entry := by
  unfold splitScope
  split
  · rename_i name hname
    exact mem_before?_iff (not_mem_of_isGlobMark h (by decide)) hname
  · split
    · rename_i name hname
      exact mem_before?_iff (not_mem_of_isGlobMark h (by decide)) hname
    · rfl

namespace FileEntry

theorem isPattern_ofText (entry : String) : (ofText entry).isPattern = hasGlobMark entry := by
  rw [Bool.eq_iff_iff]
  have hmem : ∀ c, isGlobMark c = true → (c ∈ (ofText entry).name ↔ c ∈ entry.toList) := by
    intro c hc
    rw [ofText]
    simp only
    rw [mem_nameOf_iff hc, mem_splitScope_iff hc, Text.mem_trimmed_iff (isBlank_of_isGlobMark hc)]
  simp only [isPattern, hasGlobMark, List.any_eq_true]
  constructor
  · rintro ⟨c, hc, hmark⟩
    exact ⟨c, (hmem c hmark).mp hc, hmark⟩
  · rintro ⟨c, hc, hmark⟩
    exact ⟨c, (hmem c hmark).mpr hc, hmark⟩

theorem written_ofText (entry : String) : (ofText entry).written = Text.trim entry := rfl

end FileEntry

end Conformance.Exclusion
