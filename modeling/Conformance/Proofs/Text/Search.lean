import Conformance.Text.LetterCase
import Conformance.Text.Search
import Mathlib.Data.List.Infix

namespace Conformance.Text

theorem isSome_after?_iff {mark text : List Char} :
    (after? mark text).isSome = true ↔ mark <+: text := by
  rw [Option.isSome_iff_exists]
  exact exists_congr fun rest => after?_eq_some_iff.trans eq_comm

theorem startsWith_iff {mark text : String} :
    startsWith mark text = true ↔ mark.toList <+: text.toList := by
  rw [startsWith, stripStart?, Option.isSome_map]
  exact isSome_after?_iff

theorem endsWith_iff {mark text : String} :
    endsWith mark text = true ↔ ∃ front, text = front ++ mark := by
  rw [endsWith, stripEnd?, Option.isSome_map, Option.isSome_iff_exists]
  constructor
  · rintro ⟨front, hfront⟩
    refine ⟨String.ofList front, String.toList_injective ?_⟩
    simpa using before?_eq_some_iff.mp hfront
  · rintro ⟨front, rfl⟩
    exact ⟨front.toList, before?_eq_some_iff.mpr (by simp)⟩

theorem isSome_cutFrom_iff {mark seen text : List Char} :
    (cutFrom mark seen text).isSome = true ↔ mark <:+: text := by
  induction text generalizing seen with
  | nil =>
      rw [cutFrom, Option.isSome_map, isSome_after?_iff, List.prefix_nil, List.infix_nil]
  | cons c text ih =>
      rw [List.infix_cons_iff, ← isSome_after?_iff, cutFrom]
      cases after? mark (c :: text) with
      | none => simpa using ih
      | some rest => simp

theorem contains_iff {mark text : String} :
    contains mark text = true ↔ mark.toList <:+: text.toList := by
  rw [contains, occursIn, cut?]
  exact isSome_cutFrom_iff

/-- A text has a mark in it in whatever case where a part of it is the mark in that case. -/
theorem contains_asciiLowercase_iff {mark text : String} :
    contains mark (asciiLowercase text) = true ↔
      ∃ front part rest, text = front ++ part ++ rest ∧ asciiLowercase part = mark := by
  rw [contains_iff, asciiLowercase, String.toList_ofList]
  constructor
  · rintro ⟨front, rest, hwhole⟩
    rw [eq_comm, List.map_eq_append_iff] at hwhole
    obtain ⟨before, behind, hwhole, hbefore, hbehind⟩ := hwhole
    rw [List.map_eq_append_iff] at hbefore
    obtain ⟨front, part, rfl, -, hpart⟩ := hbefore
    refine ⟨.ofList front, .ofList part, .ofList behind, String.toList_injective ?_, ?_⟩
    · simpa using hwhole
    · apply String.toList_injective
      simpa [asciiLowercase] using hpart
  · rintro ⟨front, part, rest, rfl, rfl⟩
    exact ⟨front.toList.map Char.toLower, rest.toList.map Char.toLower, by simp [asciiLowercase]⟩

end Conformance.Text
