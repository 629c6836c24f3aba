import Conformance.Path
import Mathlib.Data.List.TakeWhile

namespace Conformance.Path

theorem dropHere_sublist (path : List Char) : (dropHere path).Sublist path := by
  induction hlength : path.length using Nat.strong_induction_on generalizing path with
  | _ length ih =>
      unfold dropHere
      split
      · rename_i rest
        rw [List.length_cons, List.length_cons] at hlength
        have hrest := ih rest.length (by omega) rest rfl
        exact (hrest.trans (List.sublist_cons_self ..)).trans (List.sublist_cons_self ..)
      · exact List.Sublist.refl _

theorem trimSlashes_sublist (path : List Char) : (trimSlashes path).Sublist path := by
  have hback := (List.dropWhile_sublist (· == '/')
    (l := (path.dropWhile (· == '/')).reverse)).reverse
  rw [List.reverse_reverse] at hback
  exact hback.trans (List.dropWhile_sublist _)

theorem normalized_sublist (path : List Char) : (normalized path).Sublist (path.map slashed) :=
  (trimSlashes_sublist _).trans (dropHere_sublist _)

theorem backslash_not_mem_normalized (path : List Char) : '\\' ∉ normalized path := by
  intro hmem
  obtain ⟨c, -, hc⟩ := List.mem_map.mp ((normalized_sublist path).mem hmem)
  rw [slashed] at hc
  split at hc
  · cases hc
  · contradiction

theorem nul_not_mem_normalized {path : List Char} (hnul : '\x00' ∉ path) :
    '\x00' ∉ normalized path := by
  intro hmem
  obtain ⟨c, hc, hslashed⟩ := List.mem_map.mp ((normalized_sublist path).mem hmem)
  rw [slashed] at hslashed
  split at hslashed
  · exact absurd hslashed (by decide)
  · exact hnul (hslashed ▸ hc)

theorem length_normalized_le (path : List Char) : (normalized path).length ≤ path.length := by
  simpa using (normalized_sublist path).length_le

theorem length_normalized_lt {path : List Char} (h : ['/'] <+: path ∨ ['.', '/'] <+: path) :
    (normalized path).length < path.length := by
  rcases h with ⟨rest, rfl⟩ | ⟨rest, rfl⟩
  · have hnormal : normalized (['/'] ++ rest) = trimSlashes (rest.map slashed) := rfl
    have htrimmed := (trimSlashes_sublist (rest.map slashed)).length_le
    rw [List.length_map] at htrimmed
    rw [hnormal, List.length_append, List.length_singleton]
    omega
  · have hnormal : normalized (['.', '/'] ++ rest) = normalized rest := rfl
    have hshorter := length_normalized_le rest
    rw [hnormal, List.length_append]
    exact Nat.lt_of_le_of_lt hshorter (Nat.lt_add_of_pos_left (by decide))

theorem getLast?_normalized (path : List Char) : (normalized path).getLast? ≠ some '/' := by
  rw [normalized, trimSlashes, List.getLast?_reverse]
  intro hlast
  have hstop := List.head?_dropWhile_not (· == '/')
    ((dropHere (path.map slashed)).dropWhile (· == '/')).reverse
  rw [hlast] at hstop
  simp at hstop

theorem head?_normalized (path : List Char) : (normalized path).head? ≠ some '/' := by
  intro hhead
  obtain ⟨rest, hrest⟩ := List.head?_eq_some_iff.mp hhead
  have hprefix : normalized path <+: (dropHere (path.map slashed)).dropWhile (· == '/') := by
    rw [normalized, trimSlashes, ← List.reverse_suffix, List.reverse_reverse]
    exact List.dropWhile_suffix _
  obtain ⟨more, hmore⟩ := hprefix
  have hstop := List.head?_dropWhile_not (· == '/') (dropHere (path.map slashed))
  rw [← hmore, hrest] at hstop
  simp at hstop

end Conformance.Path
