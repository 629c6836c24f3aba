import Conformance.Path
import Conformance.Proofs.Text.Search
import Mathlib.Data.List.Sort
import Mathlib.Data.String.Basic

namespace Conformance

/-! The order of texts, and what it does for texts with one beginning: in a list
in order they stand together, from where the beginning itself would stand. -/

namespace Text

theorem not_lt_of_prefix {mark text : List Char} (h : mark <+: text) : ¬ text < mark := by
  induction mark generalizing text with
  | nil => exact List.not_lt_nil text
  | cons c mark ih =>
      obtain ⟨rest, rfl⟩ := h
      rw [List.cons_append, List.cons_lt_cons_iff]
      rintro (hlt | ⟨-, hlt⟩)
      · exact lt_irrefl c hlt
      · exact ih (List.prefix_append mark rest) hlt

theorem prefix_of_not_lt {mark left right : List Char} (hmark : ¬ left < mark)
    (hle : ¬ right < left) (h : mark <+: right) : mark <+: left := by
  induction mark generalizing left right with
  | nil => exact List.nil_prefix
  | cons c mark ih =>
      obtain ⟨rest, rfl⟩ := h
      cases left with
      | nil => exact absurd (List.nil_lt_cons c mark) hmark
      | cons d left =>
          rw [List.cons_append] at hle
          rw [List.cons_lt_cons_iff, not_or, not_and] at hmark hle
          obtain rfl : d = c := le_antisymm (not_lt.mp hle.1) (not_lt.mp hmark.1)
          exact (List.prefix_cons_inj d).mpr
            (ih (hmark.2 rfl) (hle.2 rfl) (List.prefix_append mark rest))

theorem le_of_startsWith {mark text : String} (h : startsWith mark text = true) :
    ¬ text < mark := by
  rw [String.lt_iff]
  exact not_lt_of_prefix (startsWith_iff.mp h)

theorem startsWith_of_le {mark left right : String} (hmark : ¬ left < mark)
    (hle : ¬ right < left) (h : startsWith mark right = true) : startsWith mark left = true := by
  rw [String.lt_iff] at hmark hle
  exact startsWith_iff.mpr (prefix_of_not_lt hmark hle (startsWith_iff.mp h))

theorem takeWhile_startsWith {mark : String} {texts : List String}
    (hsorted : texts.Pairwise (· < ·)) (hmark : ∀ text ∈ texts, ¬ text < mark) :
    texts.takeWhile (startsWith mark) = texts.filter (startsWith mark) := by
  induction texts with
  | nil => rfl
  | cons text texts ih =>
      rw [List.pairwise_cons] at hsorted
      by_cases h : startsWith mark text = true
      · rw [List.takeWhile_cons_of_pos h, List.filter_cons_of_pos h,
          ih hsorted.2 fun other hother => hmark other (List.mem_cons_of_mem text hother)]
      · rw [List.takeWhile_cons_of_neg h, List.filter_cons_of_neg h]
        symm
        rw [List.filter_eq_nil_iff]
        intro other hother hstarts
        exact h (startsWith_of_le (hmark text List.mem_cons_self)
          (not_lt.mpr (hsorted.1 other hother).le) hstarts)

theorem takeWhile_dropWhile_startsWith {texts : List String} (hsorted : texts.Pairwise (· < ·))
    (mark : String) :
    (texts.dropWhile fun text => decide (text < mark)).takeWhile (startsWith mark) =
      texts.filter (startsWith mark) := by
  induction texts with
  | nil => rfl
  | cons text texts ih =>
      by_cases hlt : text < mark
      · have hnot : ¬ startsWith mark text = true := fun h => le_of_startsWith h hlt
        rw [List.dropWhile_cons_of_pos (by simpa using hlt), List.filter_cons_of_neg hnot,
          ih (List.pairwise_cons.mp hsorted).2]
      · rw [List.dropWhile_cons_of_neg (by simpa using hlt)]
        refine takeWhile_startsWith hsorted ?_
        intro other hother
        rcases List.mem_cons.mp hother with rfl | hother
        · exact hlt
        · have hafter := (List.pairwise_cons.mp hsorted).1 other hother
          exact not_lt.mpr ((not_lt.mp hlt).trans hafter.le)

def bytesOf (text : String) : List UInt8 := text.toUTF8.data.toList

theorem bytesOf_eq_flatMap (text : String) :
    bytesOf text = text.toList.flatMap String.utf8EncodeChar := by
  have hencode : text.toByteArray = text.toList.utf8Encode := by
    rw [← String.toByteArray_ofList, String.ofList_toList]
  rw [bytesOf, String.toUTF8, hencode, List.utf8Encode, List.data_toByteArray]

theorem utf8EncodeChar_append_lt {c d : Char} (h : c < d) (left right : List UInt8) :
    String.utf8EncodeChar c ++ left < String.utf8EncodeChar d ++ right := by
  have hlt : c.val.toNat < d.val.toNat := h
  have hlimit : d.val.toNat < 0x110000 := by
    rcases d.valid with hd | ⟨-, hd⟩
    · exact hd.trans (by decide)
    · exact hd
  unfold String.utf8EncodeChar
  simp only []
  repeat' split
  all_goals
    simp only [List.cons_append, List.nil_append, List.cons_lt_cons_iff, UInt8.lt_iff_toNat_lt,
      ← UInt8.toNat_inj, UInt8.toNat_ofNat']
    simp (disch := omega) only [Nat.mod_eq_of_lt]
    omega

theorem flatMap_utf8EncodeChar_lt {left right : List Char} (h : left < right) :
    left.flatMap String.utf8EncodeChar < right.flatMap String.utf8EncodeChar := by
  induction left generalizing right with
  | nil =>
      cases right with
      | nil => exact absurd h (List.not_lt_nil [])
      | cons d right =>
          rw [List.flatMap_nil, List.flatMap_cons]
          cases hbytes : String.utf8EncodeChar d with
          | nil => exact absurd hbytes String.utf8EncodeChar_ne_nil
          | cons byte bytes => exact List.nil_lt_cons byte _
  | cons c left ih =>
      cases right with
      | nil => exact absurd h (List.not_lt_nil _)
      | cons d right =>
          rw [List.flatMap_cons, List.flatMap_cons]
          rcases List.cons_lt_cons_iff.mp h with hlt | ⟨rfl, hlt⟩
          · exact utf8EncodeChar_append_lt hlt _ _
          · exact List.append_left_lt (ih hlt)

theorem bytesOf_lt_iff {left right : String} : bytesOf left < bytesOf right ↔ left < right := by
  have hmono {first second : String} (h : first < second) : bytesOf first < bytesOf second := by
    rw [bytesOf_eq_flatMap, bytesOf_eq_flatMap]
    exact flatMap_utf8EncodeChar_lt (String.lt_iff.mp h)
  refine ⟨fun h => ?_, hmono⟩
  rcases lt_trichotomy left right with hlt | rfl | hlt
  · exact hlt
  · exact absurd h (List.lt_irrefl _)
  · exact absurd (hmono hlt) (List.lt_asymm h)

end Text

namespace Path

theorem sortPaths_perm (paths : List String) : (sortPaths paths).Perm paths :=
  List.mergeSort_perm paths _

theorem sortPaths_pairwise_le (paths : List String) : (sortPaths paths).Pairwise (· ≤ ·) := by
  have hle : (sortPaths paths).Pairwise fun left right => decide (left ≤ right) = true := by
    apply List.pairwise_mergeSort
    · intro first second third hfirst hsecond
      simp only [decide_eq_true_eq] at hfirst hsecond ⊢
      exact le_trans hfirst hsecond
    · intro first second
      simpa using le_total first second
  exact hle.imp of_decide_eq_true

theorem sortPaths_pairwise {paths : List String} (hdistinct : paths.Nodup) :
    (sortPaths paths).Pairwise (· < ·) := by
  have hnodup : (sortPaths paths).Nodup := (sortPaths_perm paths).nodup_iff.mpr hdistinct
  apply ((sortPaths_pairwise_le paths).and hnodup).imp
  intro left right hboth
  exact lt_of_le_of_ne hboth.1 hboth.2

theorem sortPaths_eq_of_perm {left right : List String} (hperm : left.Perm right) :
    sortPaths left = sortPaths right := by
  have hall := (sortPaths_perm left).trans (hperm.trans (sortPaths_perm right).symm)
  apply List.Perm.eq_of_pairwise _ (sortPaths_pairwise_le left) (sortPaths_pairwise_le right) hall
  intro first second _ _ hbefore hafter
  exact le_antisymm hbefore hafter

end Path

end Conformance
