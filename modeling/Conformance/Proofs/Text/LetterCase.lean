import Conformance.Text.Blank
import Conformance.Text.LetterCase
import Mathlib.Data.List.TakeWhile

namespace Conformance.Text

/-! What trimming and lower-casing leave in a text. Marks of punctuation stay
where they are, and no character turns into one. -/

namespace LetterCase

/-- A printable ASCII character without letter case. -/
def Mark (d : Char) : Prop :=
  32 < d.toNat ∧ d.toNat < 128 ∧ d.isAlpha = false

instance (d : Char) : Decidable (Mark d) :=
  inferInstanceAs (Decidable (_ ∧ _ ∧ _))

theorem lowering_beyond : ∀ row ∈ lowering,
    128 ≤ row.first + row.shift ∨ row.first = row.last ∧ row.first + row.shift = 107 := by
  decide +kernel

theorem not_mark_k : ¬ Mark 'k' := by decide

theorem toNat_of_mark_ofNat {n : Nat} (h : Mark (Char.ofNat n)) : (Char.ofNat n).toNat = n := by
  by_cases hvalid : n.isValidChar
  · rw [Char.ofNat, dif_pos hvalid]
    rfl
  · have hzero : (Char.ofNat n).toNat = 0 := by simp [Char.ofNat, hvalid]
    have := h.1
    omega

theorem not_mark_of_row {row : Row} {n : Nat} (hrow : row ∈ lowering)
    (hholds : row.holds n = true) :
    ¬ Mark (Char.ofNat (n + row.shift).toNat) := by
  intro hmark
  have heq := toNat_of_mark_ofNat hmark
  have hlow := hmark.2.1
  rw [heq] at hlow
  have hrange : row.first ≤ n ∧ n ≤ row.last := by
    simp only [Row.holds, Bool.and_eq_true, decide_eq_true_eq] at hholds
    exact hholds.1
  rcases lowering_beyond row hrow with hbeyond | ⟨hsingle, hk⟩
  · omega
  · have hvalue : (n + row.shift).toNat = 107 := by omega
    rw [hvalue] at hmark
    exact not_mark_k hmark

theorem toLower_of_mark {c : Char} (hascii : c.toNat < 128)
    (h : Mark c ∨ Mark c.toLower) : c.toLower = c := by
  have hall : ∀ n < 128, Mark (Char.ofNat n) ∨ Mark (Char.ofNat n).toLower →
      (Char.ofNat n).toLower = Char.ofNat n := by
    decide
  have hc := hall c.toNat hascii
  rw [Char.ofNat_toNat] at hc
  exact hc h

theorem mem_lowerChar_iff {c d : Char} (h : Mark d) : d ∈ lowerChar c ↔ d = c := by
  unfold lowerChar
  split
  · rename_i hascii
    rw [List.mem_singleton]
    constructor
    · rintro rfl
      exact toLower_of_mark hascii (.inr h)
    · rintro rfl
      exact (toLower_of_mark hascii (.inl h)).symm
  · rename_i hascii
    have hne : d ≠ c := by
      rintro rfl
      exact hascii h.2.1
    simp only [hne, iff_false]
    split
    · intro hmem
      simp only [List.mem_cons, List.not_mem_nil, or_false] at hmem
      rcases hmem with rfl | rfl
      · exact absurd h (by decide)
      · exact absurd h (by decide)
    · split
      · rename_i row hrow
        intro hmem
        rw [List.mem_singleton] at hmem
        subst hmem
        exact not_mark_of_row (List.mem_of_find?_eq_some hrow)
          (List.find?_eq_some_iff_append.mp hrow).1 h
      · simpa using hne

theorem not_mark_lowerSigma (before rest : List Char) : ¬ Mark (lowerSigma before rest) := by
  unfold lowerSigma
  split
  · decide
  · decide

theorem mem_lowerFrom_iff {before text : List Char} {d : Char} (h : Mark d) :
    d ∈ lowerFrom before text ↔ d ∈ text := by
  induction text generalizing before with
  | nil => rfl
  | cons c rest ih =>
      rw [lowerFrom, List.mem_append, ih, List.mem_cons]
      refine or_congr_left ?_
      split
      · rename_i hsigma
        rw [List.mem_singleton]
        constructor
        · rintro rfl
          exact absurd h (not_mark_lowerSigma before rest)
        · rintro rfl
          exact absurd (hsigma ▸ h) (by decide)
      · exact mem_lowerChar_iff h

theorem lowerChar_ne_nil (c : Char) : lowerChar c ≠ [] := by
  unfold lowerChar
  repeat' split
  all_goals simp

/-- Ends a word: a capital sigma does not look behind it. -/
structure Separates (c : Char) : Prop where
  seen : ignorable.covers c = false
  uncased : cased.covers c = false

theorem separates_slash : Separates '/' :=
  ⟨by decide +kernel, by decide +kernel⟩

theorem separates_of_isBlank {c : Char} (h : isBlank c = true) : Separates c := by
  have hcode : c.toNat ∈ List.range' 9 5 ++ [0x20, 0x85, 0xA0, 0x1680] ++ List.range' 0x2000 11 ++
      [0x2028, 0x2029, 0x202F, 0x205F, 0x3000] := by
    simp only [isBlank, Bool.or_eq_true, Bool.and_eq_true, decide_eq_true_eq, beq_iff_eq] at h
    simp only [List.mem_append, List.mem_range'_1, List.mem_cons, List.not_mem_nil, or_false]
    omega
  have hall : ∀ n ∈ List.range' 9 5 ++ [0x20, 0x85, 0xA0, 0x1680] ++ List.range' 0x2000 11 ++
      [0x2028, 0x2029, 0x202F, 0x205F, 0x3000], ignorable.covers (Char.ofNat n) = false ∧
        cased.covers (Char.ofNat n) = false := by
    decide +kernel
  have hc := hall _ hcode
  rw [Char.ofNat_toNat] at hc
  exact ⟨hc.1, hc.2⟩

theorem Separates.ne_capitalSigma {c : Char} (h : Separates c) : c ≠ capitalSigma := by
  rintro rfl
  exact absurd h.uncased (by decide +kernel)

section

variable {c : Char} (hc : Separates c)
include hc

theorem meetsCased_append (front rest : List Char) :
    meetsCased (front ++ c :: rest) = meetsCased front := by
  rw [meetsCased, meetsCased]
  induction front with
  | nil => simp [hc.seen, hc.uncased]
  | cons d front ih =>
      rw [List.cons_append]
      cases hd : ignorable.covers d with
      | false => simp [hd]
      | true => rwa [List.dropWhile_cons_of_pos hd, List.dropWhile_cons_of_pos hd]

theorem lowerFrom_before (before more text : List Char) :
    lowerFrom (before ++ c :: more) text = lowerFrom before text := by
  induction text generalizing before with
  | nil => rfl
  | cons d rest ih =>
      have hrest : lowerFrom (d :: (before ++ c :: more)) rest = lowerFrom (d :: before) rest :=
        ih (d :: before)
      rw [lowerFrom, lowerFrom, hrest, lowerSigma, lowerSigma, meetsCased_append hc]

theorem lowerFrom_append (before text rest : List Char) : lowerFrom before (text ++ c :: rest) =
    lowerFrom before text ++ (lowerChar c ++ lowerFrom [] rest) := by
  induction text generalizing before with
  | nil =>
      have hrest : lowerFrom (c :: before) rest = lowerFrom [] rest :=
        lowerFrom_before hc [] before rest
      rw [List.nil_append, lowerFrom, lowerFrom, if_neg hc.ne_capitalSigma, hrest,
        List.nil_append]
  | cons d text ih =>
      rw [List.cons_append, lowerFrom, lowerFrom, ih, lowerSigma, lowerSigma,
        meetsCased_append hc, List.append_assoc]

end

/-- The characters of a text lowered by themselves. -/
def loweredApart (text : List Char) : List Char :=
  text.flatMap fun c => if c = capitalSigma then [c] else lowerChar c

theorem length_lowerFrom (before text : List Char) :
    (lowerFrom before text).length = (loweredApart text).length := by
  induction text generalizing before with
  | nil => rfl
  | cons c text ih =>
      rw [lowerFrom, loweredApart, List.flatMap_cons, ← loweredApart, List.length_append,
        List.length_append, ih]
      split <;> rfl

theorem loweredApart_eq_nil {text : List Char} (h : loweredApart text = []) : text = [] := by
  cases text with
  | nil => rfl
  | cons c text =>
      rw [loweredApart, List.flatMap_cons, List.append_eq_nil_iff] at h
      obtain ⟨hfirst, -⟩ := h
      split at hfirst
      · cases hfirst
      · exact absurd hfirst (lowerChar_ne_nil c)

end LetterCase

theorem lowered_eq_iff_of_suffix {text rest : List Char} (h : rest <:+ text) :
    lowered rest = lowered text ↔ rest = text := by
  refine ⟨fun hlowered => ?_, congrArg lowered⟩
  obtain ⟨front, rfl⟩ := h
  have hlength := congrArg List.length hlowered
  rw [lowered, lowered, LetterCase.length_lowerFrom, LetterCase.length_lowerFrom,
    LetterCase.loweredApart, LetterCase.loweredApart, List.flatMap_append, List.length_append,
    eq_comm, Nat.add_eq_right, List.length_eq_zero_iff] at hlength
  rw [LetterCase.loweredApart_eq_nil hlength, List.nil_append]

theorem lowered_append_slash (front rest : List Char) :
    lowered (front ++ '/' :: rest) = lowered front ++ '/' :: lowered rest :=
  LetterCase.lowerFrom_append LetterCase.separates_slash [] front rest

theorem lowered_append {front : List Char}
    (hend : ∀ c, front.getLast? = some c → LetterCase.Separates c) (rest : List Char) :
    lowered (front ++ rest) = lowered front ++ lowered rest := by
  cases hlast : front.getLast? with
  | none =>
      rw [List.getLast?_eq_none_iff.mp hlast]
      rfl
  | some c =>
      have hc := hend c hlast
      obtain ⟨front, rfl⟩ := List.getLast?_eq_some_iff.mp hlast
      have hparts (text : List Char) := LetterCase.lowerFrom_append hc [] front text
      rw [List.append_assoc, List.singleton_append, lowered, lowered, lowered, hparts, hparts]
      simp only [LetterCase.lowerFrom, List.append_nil, List.append_assoc]

theorem mem_lowered_iff {text : List Char} {d : Char} (h : LetterCase.Mark d) :
    d ∈ lowered text ↔ d ∈ text :=
  LetterCase.mem_lowerFrom_iff h

theorem lowered_eq_nil_iff {text : List Char} : lowered text = [] ↔ text = [] := by
  cases text with
  | nil => simp [lowered, LetterCase.lowerFrom]
  | cons c rest =>
      simp only [lowered, LetterCase.lowerFrom, List.append_eq_nil_iff, reduceCtorEq, iff_false,
        not_and]
      intro hnil
      split at hnil
      · contradiction
      · exact absurd hnil (LetterCase.lowerChar_ne_nil c)

theorem lowercase_eq_empty_iff {text : String} : lowercase text = "" ↔ text = "" := by
  rw [← String.toList_inj]
  simp [lowercase, lowered_eq_nil_iff]

theorem mem_dropWhile_iff {p : Char → Bool} {text : List Char} {d : Char} (h : p d = false) :
    d ∈ text.dropWhile p ↔ d ∈ text := by
  constructor
  · intro hmem
    exact (List.dropWhile_sublist p).mem hmem
  · intro hmem
    rw [← List.takeWhile_append_dropWhile (p := p) (l := text), List.mem_append] at hmem
    rcases hmem with htaken | hleft
    · have hd := List.mem_takeWhile_imp htaken
      rw [h] at hd
      contradiction
    · exact hleft

theorem mem_trimmed_iff {text : List Char} {d : Char} (h : isBlank d = false) :
    d ∈ trimmed text ↔ d ∈ text := by
  rw [trimmed, trimEnd, trimStart, List.mem_reverse, mem_dropWhile_iff h, List.mem_reverse,
    mem_dropWhile_iff h]

end Conformance.Text
