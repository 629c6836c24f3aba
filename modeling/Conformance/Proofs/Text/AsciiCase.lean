import Conformance.Proofs.Text.Trimmed
import Conformance.Text.LetterCase

namespace Conformance.Text

theorem toLower_of_not_capital {c : Char} (h : c.toNat ∉ List.range' 65 26) : c.toLower = c := by
  have hcapital : ¬ (c.val ≥ 'A'.val ∧ c.val ≤ 'Z'.val) := by
    rintro ⟨hfirst, hlast⟩
    have hlow : 65 ≤ c.toNat := UInt32.le_iff_toNat_le.mp hfirst
    have hhigh : c.toNat ≤ 90 := UInt32.le_iff_toNat_le.mp hlast
    exact h (List.mem_range'_1.mpr ⟨hlow, by omega⟩)
  exact dif_neg hcapital

theorem apply_toLower {α : Type} {f : Char → α}
    (h : ∀ n ∈ List.range' 65 26, f (Char.ofNat n).toLower = f (Char.ofNat n)) (c : Char) :
    f c.toLower = f c := by
  by_cases hcapital : c.toNat ∈ List.range' 65 26
  · have hc := h c.toNat hcapital
    rwa [Char.ofNat_toNat] at hc
  · rw [toLower_of_not_capital hcapital]

theorem toLower_eq_iff {d : Char} (hd : d.isAlpha = false) (c : Char) : c.toLower = d ↔ c = d := by
  have hletters : ∀ n ∈ List.range' 65 26,
      (Char.ofNat n).isAlpha = true ∧ (Char.ofNat n).toLower.isAlpha = true := by decide
  refine Iff.of_eq (apply_toLower (f := (· = d)) (fun n hn => ?_) c)
  obtain ⟨hcapital, hsmall⟩ := hletters n hn
  refine propext (iff_of_false ?_ ?_)
  · rintro rfl
    rw [hsmall] at hd
    cases hd
  · rintro rfl
    rw [hcapital] at hd
    cases hd

theorem isBlank_toLower (c : Char) : isBlank c.toLower = isBlank c :=
  apply_toLower (by decide) c

namespace LetterCase

theorem ignorable_toLower (c : Char) : ignorable.covers c.toLower = ignorable.covers c :=
  apply_toLower (by decide +kernel) c

theorem cased_toLower (c : Char) : cased.covers c.toLower = cased.covers c :=
  apply_toLower (by decide +kernel) c

theorem lowerChar_toLower (c : Char) : lowerChar c.toLower = lowerChar c :=
  apply_toLower (by decide) c

theorem meetsCased_map_toLower (text : List Char) :
    meetsCased (text.map Char.toLower) = meetsCased text := by
  have hsame : ignorable.covers ∘ Char.toLower = ignorable.covers := funext ignorable_toLower
  rw [meetsCased, meetsCased, List.dropWhile_map, hsame]
  cases text.dropWhile ignorable.covers with
  | nil => rfl
  | cons c rest => exact cased_toLower c

theorem lowerFrom_map_toLower (before text : List Char) :
    lowerFrom (before.map Char.toLower) (text.map Char.toLower) = lowerFrom before text := by
  induction text generalizing before with
  | nil => rfl
  | cons c text ih =>
      have hrest : lowerFrom (c.toLower :: before.map Char.toLower) (text.map Char.toLower) =
          lowerFrom (c :: before) text := ih (c :: before)
      have hsigma : c.toLower = capitalSigma ↔ c = capitalSigma := toLower_eq_iff (by decide) c
      simp only [List.map_cons, lowerFrom, hrest, hsigma, lowerSigma, meetsCased_map_toLower,
        lowerChar_toLower]

end LetterCase

theorem lowered_map_toLower (text : List Char) : lowered (text.map Char.toLower) = lowered text :=
  LetterCase.lowerFrom_map_toLower [] text

theorem trimmed_map_toLower (text : List Char) :
    trimmed (text.map Char.toLower) = (trimmed text).map Char.toLower := by
  have hsame : isBlank ∘ Char.toLower = isBlank := funext isBlank_toLower
  rw [trimmed, trimmed, trimEnd, trimEnd, trimStart, trimStart, List.dropWhile_map, hsame,
    ← List.map_reverse, List.dropWhile_map, hsame, List.map_reverse]

end Conformance.Text
