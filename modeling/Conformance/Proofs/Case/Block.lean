import Conformance.Case.Block
import Conformance.Proofs.Text.LetterCase

namespace Conformance

namespace Text

/-- The two sides of the first occurrence of a mark. -/
structure IsCut (mark text left right : List Char) : Prop where
  whole : text = left ++ mark ++ right
  first : ∀ front back, text = front ++ mark ++ back → left.length ≤ front.length

variable {mark seen text left right : List Char}

theorem isCut_nil_left (hmark : text = mark ++ right) : IsCut mark text [] right :=
  ⟨by simpa using hmark, fun _ _ _ => Nat.zero_le _⟩

theorem IsCut.cons {c : Char} (h : IsCut mark text left right)
    (hfirst : ∀ back, c :: text ≠ mark ++ back) : IsCut mark (c :: text) (c :: left) right := by
  refine ⟨by simp [h.whole], fun front back hback => ?_⟩
  cases front with
  | nil => exact absurd hback (by simpa using hfirst back)
  | cons d front =>
      have htail : text = front ++ mark ++ back := (List.cons.inj hback).2
      simpa using h.first front back htail

theorem IsCut.exists_cons {c : Char} (h : IsCut mark (c :: text) left right)
    (hfirst : ∀ back, c :: text ≠ mark ++ back) :
    ∃ rest, left = c :: rest ∧ IsCut mark text rest right := by
  cases left with
  | nil => exact absurd h.whole (by simpa using hfirst right)
  | cons d rest =>
      obtain ⟨rfl, hwhole⟩ := List.cons.inj h.whole
      refine ⟨rest, rfl, hwhole, fun front back hback => ?_⟩
      have hlater := h.first (c :: front) back (by simp [hback])
      simpa using hlater

theorem cutFrom_eq_some_iff :
    cutFrom mark seen text = some (left, right) ↔
      ∃ passed, left = seen.reverse ++ passed ∧ IsCut mark text passed right := by
  induction text generalizing seen with
  | nil =>
      simp only [cutFrom, Option.map_eq_some_iff, after?_eq_some_iff, Prod.mk.injEq]
      constructor
      · rintro ⟨rest, hrest, rfl, rfl⟩
        exact ⟨[], by simp, isCut_nil_left hrest⟩
      · rintro ⟨passed, rfl, hcut⟩
        have hempty := List.append_eq_nil_iff.mp hcut.whole.symm
        have hpassed := (List.append_eq_nil_iff.mp hempty.1)
        exact ⟨right, by simp [hpassed.2, hempty.2], by simp [hpassed.1], rfl⟩
  | cons c text ih =>
      rw [cutFrom]
      split
      · rename_i rest hrest
        rw [after?_eq_some_iff] at hrest
        simp only [Option.some.injEq, Prod.mk.injEq]
        constructor
        · rintro ⟨rfl, rfl⟩
          exact ⟨[], by simp, isCut_nil_left hrest⟩
        · rintro ⟨passed, rfl, hcut⟩
          have hnone : passed = [] := by
            simpa using hcut.first [] rest (by simpa using hrest)
          subst hnone
          have hwhole := hcut.whole
          rw [hrest] at hwhole
          exact ⟨by simp, by simpa using hwhole⟩
      · rename_i hnone
        have hfirst : ∀ back, c :: text ≠ mark ++ back := by
          intro back hback
          rw [after?_eq_some_iff.mpr hback] at hnone
          cases hnone
        rw [ih]
        constructor
        · rintro ⟨passed, rfl, hcut⟩
          exact ⟨c :: passed, by simp, hcut.cons hfirst⟩
        · rintro ⟨passed, rfl, hcut⟩
          obtain ⟨rest, rfl, hrest⟩ := hcut.exists_cons hfirst
          exact ⟨rest, by simp, hrest⟩

theorem cut?_eq_some_iff : cut? mark text = some (left, right) ↔ IsCut mark text left right := by
  simp [cut?, cutFrom_eq_some_iff]

theorem trimmed_eq_nil_iff : trimmed text = [] ↔ ∀ c ∈ text, isBlank c = true := by
  rw [← trimStart_eq_nil_iff, trimmed, trimEnd, List.reverse_eq_nil_iff]
  constructor
  · intro h
    by_contra hne
    have hall : ∀ c ∈ trimStart text, isBlank c = true := by
      simpa using List.dropWhile_eq_nil_iff.mp h
    have hhead := List.head_dropWhile_not isBlank hne
    exact absurd (hall _ (List.head_mem hne)) (by simpa [trimStart] using hhead)
  · intro h
    simp [h]

end Text

namespace Block

variable {contents body : List Char} {parts : Parts}

/-- The first opening of a text, and the first closing behind it. -/
def IsSplit (contents : List Char) (parts : Parts) : Prop :=
  ∃ rest, Text.IsCut opening contents parts.before rest ∧
    Text.IsCut closing rest parts.body parts.after

theorem split_eq_ok_iff : split contents = .ok parts ↔ IsSplit contents parts := by
  unfold split
  split
  · rename_i hnone
    simp only [reduceCtorEq, false_iff]
    rintro ⟨rest, hopen, -⟩
    rw [Text.cut?_eq_some_iff.mpr hopen] at hnone
    cases hnone
  · rename_i before rest hopen
    split
    · rename_i hnone
      simp only [reduceCtorEq, false_iff]
      rintro ⟨rest', hopen', hclose⟩
      rw [Text.cut?_eq_some_iff.mpr hopen'] at hopen
      cases hopen
      rw [Text.cut?_eq_some_iff.mpr hclose] at hnone
      cases hnone
    · rename_i body after hclose
      constructor
      · intro h
        cases h
        exact ⟨rest, Text.cut?_eq_some_iff.mp hopen, Text.cut?_eq_some_iff.mp hclose⟩
      · rintro ⟨rest', hopen', hclose'⟩
        rw [Text.cut?_eq_some_iff.mpr hopen'] at hopen
        cases hopen
        rw [Text.cut?_eq_some_iff.mpr hclose'] at hclose
        cases hclose
        rfl

/-- The body of a text's block, where it is not all blank. -/
def IsBody (contents body : List Char) : Prop :=
  ∃ before after, IsSplit contents ⟨before, body, after⟩ ∧ ∃ c ∈ body, Text.isBlank c = false

theorem body_eq_ok_iff : Block.body contents = .ok body ↔ IsBody contents body := by
  unfold Block.body IsBody
  simp only [← split_eq_ok_iff]
  cases hsplit : split contents with
  | error problem => simp
  | ok parts =>
      have hblank : (Text.trimmed parts.body).isEmpty = true ↔
          ¬ ∃ c ∈ parts.body, Text.isBlank c = false := by
        rw [List.isEmpty_iff, Text.trimmed_eq_nil_iff]
        simp
      simp only [hblank]
      split
      · rename_i hnone
        simp only [reduceCtorEq, Except.ok.injEq, false_iff]
        rintro ⟨before, after, rfl, hsome⟩
        exact hnone hsome
      · rename_i hsome
        simp only [Except.ok.injEq]
        constructor
        · rintro rfl
          exact ⟨parts.before, parts.after, rfl, not_not.mp hsome⟩
        · rintro ⟨before, after, rfl, -⟩
          rfl

end Block

end Conformance
