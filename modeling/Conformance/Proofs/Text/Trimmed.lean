import Conformance.Text.Blank
import Mathlib.Data.List.DropRight
import Mathlib.Data.List.Infix

namespace Conformance.Text

section

variable {p q : Char → Bool} {text front rest : List Char}

theorem rdropWhile_append (p : Char → Bool) (front rest : List Char) :
    (front ++ rest).rdropWhile p =
      if rest.rdropWhile p = [] then front.rdropWhile p else front ++ rest.rdropWhile p := by
  simp only [List.rdropWhile, List.reverse_append, List.dropWhile_append, List.isEmpty_iff,
    List.reverse_eq_nil_iff]
  split <;> simp

theorem rdropWhile_append_cons {c : Char} (hc : p c = false) (front rest : List Char) :
    (front ++ c :: rest).rdropWhile p = front ++ c :: rest.rdropWhile p := by
  have hkept : (c :: rest).rdropWhile p = c :: rest.rdropWhile p := by
    rw [← List.singleton_append, rdropWhile_append, List.rdropWhile_singleton]
    split <;> simp_all
  rw [rdropWhile_append, hkept, if_neg (List.cons_ne_nil _ _)]

theorem rdropWhile_suffix (h : rest <:+ text) : rest.rdropWhile p <:+ text.rdropWhile p := by
  obtain ⟨front, rfl⟩ := h
  rw [rdropWhile_append]
  split
  · rename_i hnil
    rw [hnil]
    exact List.nil_suffix
  · exact List.suffix_append front _

theorem eq_of_rdropWhile_eq (h : rest <:+ text) (hne : text.rdropWhile p ≠ [])
    (heq : rest.rdropWhile p = text.rdropWhile p) : rest = text := by
  obtain ⟨front, rfl⟩ := h
  rw [← heq] at hne
  rw [rdropWhile_append, if_neg hne] at heq
  obtain rfl : front = [] := List.append_left_eq_self.mp heq.symm
  rfl

theorem rdropWhile_dropWhile (p q : Char → Bool) (text : List Char) :
    (text.dropWhile q).rdropWhile p = (text.rdropWhile p).dropWhile q := by
  induction text with
  | nil => rfl
  | cons c text ih =>
      by_cases hq : q c = true
      · rw [List.dropWhile_cons_of_pos hq, ih, ← List.singleton_append, rdropWhile_append]
        split
        · rename_i hnil
          rw [hnil, List.rdropWhile_singleton]
          split <;> simp [hq]
        · rw [List.singleton_append, List.dropWhile_cons_of_pos hq]
      · rw [List.dropWhile_cons_of_neg hq, ← List.singleton_append, rdropWhile_append]
        split
        · rw [List.rdropWhile_singleton]
          split <;> simp [hq]
        · rw [List.singleton_append, List.dropWhile_cons_of_neg hq]

end

theorem trimEnd_eq (text : List Char) : trimEnd text = text.rdropWhile isBlank := rfl

theorem trimmed_eq (text : List Char) :
    trimmed text = (text.rdropWhile isBlank).dropWhile isBlank :=
  rdropWhile_dropWhile isBlank isBlank text

@[simp] theorem trimmed_trimmed (text : List Char) : trimmed (trimmed text) = trimmed text := by
  rw [trimmed_eq (trimmed text), trimmed, trimEnd_eq, List.rdropWhile_idempotent, ← trimEnd_eq,
    ← trimmed, trimmed_eq, List.dropWhile_idempotent]

theorem trimmed_trimStart (text : List Char) : trimmed (trimStart text) = trimmed text := by
  rw [trimmed, trimmed, trimStart, trimStart, List.dropWhile_idempotent]

theorem trimmed_concat {c : Char} (hc : isBlank c = true) (text : List Char) :
    trimmed (text ++ [c]) = trimmed text := by
  rw [trimmed_eq, trimmed_eq, List.rdropWhile_concat_pos _ _ _ hc]

end Conformance.Text
