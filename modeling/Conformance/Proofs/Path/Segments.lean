import Conformance.Path
import Mathlib.Data.List.TakeWhile

namespace Conformance.Path

/-! Folders and their segments. A folder holds a path when its segments stand in
front of the path's. -/

theorem segments_append_slash (front rest : List Char) :
    segments (front ++ '/' :: rest) = segments front ++ segments rest :=
  List.splitOn_append_cons_self front rest

theorem segments_eq_singleton {name : List Char} (hname : '/' ∉ name) : segments name = [name] :=
  List.splitOn_eq_singleton hname

theorem segments_name_slash {name : List Char} (hname : '/' ∉ name) (rest : List Char) :
    segments (name ++ '/' :: rest) = name :: segments rest := by
  rw [segments_append_slash, segments_eq_singleton hname, List.singleton_append]

theorem intercalate_segments (path : List Char) :
    List.intercalate ['/'] (segments path) = path :=
  List.intercalate_splitOn '/'

theorem intercalate_append {front rest : List (List Char)} (hfront : front ≠ [])
    (hrest : rest ≠ []) :
    List.intercalate ['/'] (front ++ rest) =
      List.intercalate ['/'] front ++ '/' :: List.intercalate ['/'] rest := by
  induction front with
  | nil => contradiction
  | cons segment front ih =>
      by_cases hempty : front = []
      · subst hempty
        simp [List.intercalate_cons_of_ne_nil hrest]
      · rw [List.cons_append, List.intercalate_cons_of_ne_nil (by simp [hempty]),
          List.intercalate_cons_of_ne_nil hempty, ih hempty]
        simp

theorem segments_injective {left right : List Char} (h : segments left = segments right) :
    left = right := by
  rw [← intercalate_segments left, h, intercalate_segments]

theorem within_iff {folder path : List Char} :
    within folder path = true ↔ path = folder ∨ ∃ rest, path = folder ++ '/' :: rest := by
  constructor
  · intro h
    unfold within at h
    split at h
    · rename_i hafter
      exact .inl (by simpa using Text.after?_eq_some_iff.mp hafter)
    · rename_i c rest hafter
      obtain rfl : c = '/' := by simpa using h
      exact .inr ⟨rest, Text.after?_eq_some_iff.mp hafter⟩
    · contradiction
  · rintro (rfl | ⟨rest, rfl⟩)
    · have hafter : Text.after? path path = some [] := Text.after?_eq_some_iff.mpr (by simp)
      simp [within, hafter]
    · have hafter : Text.after? folder (folder ++ '/' :: rest) = some ('/' :: rest) :=
        Text.after?_eq_some_iff.mpr rfl
      simp [within, hafter]

theorem within_iff_segments {folder path : List Char} :
    within folder path = true ↔ segments folder <+: segments path := by
  rw [within_iff]
  constructor
  · rintro (rfl | ⟨rest, rfl⟩)
    · exact List.prefix_rfl
    · rw [segments_append_slash]
      exact List.prefix_append _ _
  · rintro ⟨more, hmore⟩
    cases more with
    | nil =>
        refine .inl (segments_injective ?_)
        simpa using hmore.symm
    | cons segment more =>
        refine .inr ⟨List.intercalate ['/'] (segment :: more), ?_⟩
        have hfolder : segments folder ≠ [] := List.splitOn_ne_nil '/' folder
        rw [← intercalate_segments path, ← hmore, intercalate_append hfolder (by simp),
          intercalate_segments]

def Below (folder path : String) : Prop :=
  ∃ rest, path = folder ++ "/" ++ rest

theorem isWithin_iff {folder path : String} :
    isWithin folder path = true ↔ path = folder ∨ Below folder path := by
  rw [isWithin, within_iff, String.toList_inj]
  refine or_congr_right ⟨?_, ?_⟩
  · rintro ⟨rest, hrest⟩
    refine ⟨.ofList rest, String.toList_injective ?_⟩
    simpa using hrest
  · rintro ⟨rest, rfl⟩
    exact ⟨rest.toList, by simp⟩

theorem startsWith_slash_iff {folder path : String} :
    Text.startsWith (folder ++ "/") path = true ↔ Below folder path := by
  rw [Text.startsWith, Option.isSome_iff_exists]
  exact exists_congr fun _ => Text.stripStart?_eq_some_iff

/-- Neither of two folders is the other one or lies in it. -/
structure Apart (left right : String) : Prop where
  ne : left ≠ right
  not_below : ¬ Below left right
  not_above : ¬ Below right left

theorem apart_iff {left right : String} :
    Apart left right ↔ isWithin left right = false ∧ isWithin right left = false := by
  rw [← Bool.not_eq_true, ← Bool.not_eq_true, isWithin_iff, isWithin_iff, not_or, not_or]
  constructor
  · rintro ⟨hne, hbelow, habove⟩
    exact ⟨⟨hne.symm, hbelow⟩, hne, habove⟩
  · rintro ⟨⟨-, hbelow⟩, hne, habove⟩
    exact ⟨hne, hbelow, habove⟩

instance (left right : String) : Decidable (Apart left right) :=
  decidable_of_iff _ apart_iff.symm

theorem Apart.not_both {left right path : String} (h : Apart left right)
    (hbelow : Below left path) : ¬ Below right path := by
  intro hother
  have hleft := isWithin_iff.mpr (.inr hbelow)
  have hright := isWithin_iff.mpr (.inr hother)
  rw [isWithin, within_iff_segments] at hleft hright
  rcases List.prefix_or_prefix_of_prefix hleft hright with hwithin | hwithin
  · rcases isWithin_iff.mp (within_iff_segments.mpr hwithin) with heq | hbelow
    · exact h.ne heq.symm
    · exact h.not_below hbelow
  · rcases isWithin_iff.mp (within_iff_segments.mpr hwithin) with heq | hbelow
    · exact h.ne heq
    · exact h.not_above hbelow

theorem slash_not_mem_lastSegment (path : List Char) : '/' ∉ lastSegment path := by
  rw [lastSegment, List.mem_reverse]
  intro hmem
  have hslash := List.mem_takeWhile_imp hmem
  simp at hslash

theorem slash_not_mem_of_parent? {path : List Char} (h : parent? path = none) :
    '/' ∉ path := by
  unfold parent? at h
  split at h
  · rename_i hempty
    intro hmem
    have hall := List.dropWhile_eq_nil_iff.mp hempty '/' (List.mem_reverse.mpr hmem)
    simp at hall
  · cases h

theorem within_of_parent?_eq_none {folder path : List Char} (h : parent? path = none) :
    within folder path = true ↔ folder = path := by
  rw [within_iff]
  constructor
  · rintro (rfl | ⟨rest, rfl⟩)
    · rfl
    · exact absurd (by simp) (slash_not_mem_of_parent? h)
  · rintro rfl
    exact .inl rfl

theorem within_of_parent? {folder path parent : List Char} (h : parent? path = some parent) :
    within folder path = true ↔ folder = path ∨ within folder parent = true := by
  have hlast : segments (lastSegment path) = [lastSegment path] :=
    List.splitOn_eq_singleton (slash_not_mem_lastSegment path)
  have hsegments : segments path = segments parent ++ [lastSegment path] := by
    rw [← hlast, ← segments_append_slash, ← parent?_eq_some h]
  rw [within_iff_segments, within_iff_segments, hsegments, List.prefix_concat_iff, ← hsegments]
  refine or_congr_left ⟨segments_injective, ?_⟩
  rintro rfl
  rfl

theorem within_trans {folder middle path : List Char} (hfolder : within folder middle = true)
    (hmiddle : within middle path = true) : within folder path = true := by
  rw [within_iff_segments] at *
  exact hfolder.trans hmiddle

theorem within_antisymm {folder path : List Char} (hfolder : within folder path = true)
    (hpath : within path folder = true) : folder = path := by
  rw [within_iff_segments] at *
  exact segments_injective (hfolder.eq_of_length_le hpath.length_le)

theorem within_parent_iff {folder path parent : List Char} (h : parent? path = some parent) :
    within folder parent = true ↔ within folder path = true ∧ folder ≠ path := by
  rw [within_of_parent? h]
  constructor
  · intro hparent
    refine ⟨.inr hparent, ?_⟩
    rintro rfl
    have hlong := length_parent?_lt h
    rcases within_iff.mp hparent with rfl | ⟨rest, rfl⟩
    · exact lt_irrefl _ hlong
    · rw [List.length_append] at hlong
      omega
  · rintro ⟨rfl | hparent, hne⟩
    · contradiction
    · exact hparent

end Conformance.Path
