import Conformance.Proofs.Exclusion.SameReading
import Conformance.Proofs.Text.Order

namespace Conformance.Exclusion

/-! The entries that name none of some cases. Without them, these cases are excluded as before,
and for the same reasons. -/

/-- An exact entry whose name is that of none of some cases. -/
structure Unused (entry : String) (cases : List Case) : Prop where
  exact : (FileEntry.ofText entry).IsExact
  unseen : ∀ case ∈ cases,
    Text.lowercase case.testName ≠ String.ofList (FileEntry.ofText entry).name

theorem unused_iff {entry : String} {cases : List Case} :
    Unused entry cases ↔ ((FileEntry.ofText entry).isPattern = false ∧
      (FileEntry.ofText entry).name ≠ []) ∧ ∀ case ∈ cases,
        Text.lowercase case.testName ≠ String.ofList (FileEntry.ofText entry).name := by
  rw [← FileEntry.isExact_iff]
  exact ⟨fun ⟨hexact, hunseen⟩ => ⟨hexact, hunseen⟩, fun ⟨hexact, hunseen⟩ => ⟨hexact, hunseen⟩⟩

instance (entry : String) (cases : List Case) : Decidable (Unused entry cases) :=
  decidable_of_iff _ unused_iff.symm

theorem Unused.congr {left right : String} {cases : List Case} (hleft : Unused left cases)
    (h : Text.trim left = Text.trim right) : Unused right cases := by
  have hread := FileEntry.ofText_congr h
  exact ⟨hread ▸ hleft.exact, hread ▸ hleft.unseen⟩

theorem Unused.not_names {entry : String} {cases : List Case} (h : Unused entry cases)
    {case : Case} (hcase : case ∈ cases) (strict : Bool) :
    ¬ (FileEntry.ofText entry).Names (Engine.caseName case) strict :=
  fun hnames => h.unseen case hcase hnames.same.symm

theorem ExactEntry.ofText?_eq_some_iff {entry : String} {made : ExactEntry} :
    ofText? entry = some made ↔ (FileEntry.ofText entry).IsExact ∧
      made = ⟨Text.trim entry, String.ofList (FileEntry.ofText entry).name⟩ := by
  rw [ofText?, Option.ite_none_right_eq_some, ← FileEntry.written_ofText, Option.some_inj,
    FileEntry.isExact_iff, eq_comm (b := made)]

namespace Engine

theorem mem_withoutRepeats_iff {entries : List String} {entry : String} :
    entry ∈ withoutRepeats entries ↔ entry ∈ entries := by
  fun_induction withoutRepeats entries with
  | case1 => rfl
  | case2 first => rfl
  | case3 first more ih => simp [ih]
  | case4 first next more hne ih => simp [ih]

theorem withoutRepeats_pairwise {entries : List String} (h : entries.Pairwise (· ≤ ·)) :
    (withoutRepeats entries).Pairwise (· < ·) := by
  fun_induction withoutRepeats entries with
  | case1 => exact .nil
  | case2 first => exact List.pairwise_singleton _ _
  | case3 first more ih => exact ih (List.pairwise_cons.mp h).2
  | case4 first next more hne ih =>
      rw [List.pairwise_cons] at h
      refine List.pairwise_cons.mpr ⟨fun entry hentry => ?_, ih h.2⟩
      rw [mem_withoutRepeats_iff] at hentry
      have hnext : first < next := lt_of_le_of_ne (h.1 next List.mem_cons_self) hne
      rcases List.mem_cons.mp hentry with rfl | hentry
      · exact hnext
      · exact hnext.trans_le ((List.pairwise_cons.mp h.2).1 entry hentry)

variable {engine : Engine} {cases others : List Case}

theorem unrecognized_pairwise (engine : Engine) (cases : List Case) :
    (engine.unrecognized cases).Pairwise (· < ·) :=
  withoutRepeats_pairwise (Path.sortPaths_pairwise_le _)

theorem mem_unrecognized_iff {text : String} :
    text ∈ engine.unrecognized cases ↔ ∃ entry ∈ engine.exactEntries,
      entry.written = text ∧ ∀ case ∈ cases, caseName case ≠ entry.name := by
  have hseen (entry : ExactEntry) :
      (!(Std.HashSet.ofList (cases.map caseName)).contains entry.name) = true ↔
        ∀ case ∈ cases, caseName case ≠ entry.name := by
    simp
  simp only [unrecognized, mem_withoutRepeats_iff, (Path.sortPaths_perm _).mem_iff, List.mem_map,
    List.mem_filter, hseen, and_assoc, and_comm (a := _ = text)]

theorem unrecognized_congr (h : ∀ case, case ∈ others ↔ case ∈ cases) :
    engine.unrecognized others = engine.unrecognized cases := by
  apply (unrecognized_pairwise engine others).eq_of_mem_iff (unrecognized_pairwise engine cases)
  intro text
  simp only [mem_unrecognized_iff, h]

theorem resolve_congr {other : Engine} {case : Case}
    (h : ∀ kind, engine.reason? case kind = other.reason? case kind) :
    engine.resolve case = other.resolve case := by
  rw [resolve_eq_findSome?, resolve_eq_findSome?, funext h]

end Engine

namespace Parts

variable {parts : Parts} {engine rest : Engine} {cases : List Case} {case : Case}

theorem mem_unrecognized_iff (hmade : parts.engine = .ok engine) {text : String} :
    text ∈ engine.unrecognized cases ↔
      ∃ entry ∈ parts.files, Text.trim entry = text ∧ Unused entry cases := by
  rw [Engine.mem_unrecognized_iff, Engine.exactEntries_ofParts hmade]
  constructor
  · rintro ⟨made, hmem, rfl, hunseen⟩
    obtain ⟨entry, hentry, hread⟩ := List.mem_filterMap.mp hmem
    obtain ⟨hexact, rfl⟩ := ExactEntry.ofText?_eq_some_iff.mp hread
    exact ⟨entry, hentry, rfl, hexact, hunseen⟩
  · rintro ⟨entry, hentry, rfl, hunused⟩
    have hread := ExactEntry.ofText?_eq_some_iff.mpr ⟨hunused.exact, rfl⟩
    exact ⟨_, List.mem_filterMap.mpr ⟨entry, hentry, hread⟩, rfl, hunused.unseen⟩

def without (parts : Parts) (texts : List String) : Parts :=
  { parts with files := parts.files.filter fun entry => Text.trim entry ∉ texts }

theorem within_without (parts : Parts) (texts : List String) :
    (parts.without texts).Within parts := by
  intro kind
  cases kind with
  | file | pattern => exact List.filter_subset_self _
  | directory | feature | flag => exact List.Subset.refl _

section

variable {texts : List String}

theorem patternEntries_without
    (hunused : ∀ entry ∈ parts.files, Text.trim entry ∈ texts → Unused entry cases) :
    (parts.without texts).files.filterMap PatternEntry.ofText? =
      parts.files.filterMap PatternEntry.ofText? := by
  rw [without, List.filterMap_filter]
  apply List.filterMap_congr
  intro entry hentry
  by_cases htext : Text.trim entry ∈ texts
  · simp [htext, PatternEntry.ofText?, (hunused entry hentry htext).exact.plain]
  · simp [htext]

theorem names_without (hcase : case ∈ cases)
    (hunused : ∀ entry ∈ parts.files, Text.trim entry ∈ texts → Unused entry cases)
    (strict : Bool) :
    (∃ entry ∈ (parts.without texts).files,
      (FileEntry.ofText entry).Names (Engine.caseName case) strict) ↔
    ∃ entry ∈ parts.files, (FileEntry.ofText entry).Names (Engine.caseName case) strict := by
  constructor
  · rintro ⟨entry, hentry, hnames⟩
    exact ⟨entry, List.mem_of_mem_filter hentry, hnames⟩
  · rintro ⟨entry, hentry, hnames⟩
    refine ⟨entry, List.mem_filter.mpr ⟨hentry, decide_eq_true fun htext => ?_⟩, hnames⟩
    exact (hunused entry hentry htext).not_names hcase strict hnames

theorem resolve_without (hmade : parts.engine = .ok engine)
    (hrest : (parts.without texts).engine = .ok rest) (hcase : case ∈ cases)
    (hunused : ∀ entry ∈ parts.files, Text.trim entry ∈ texts → Unused entry cases) :
    rest.resolve case = engine.resolve case := by
  obtain ⟨hfiles, hfeatures, hflags, hdirectories⟩ := Engine.madeOf_ofParts hmade
  obtain ⟨hfiles', hfeatures', hflags', hdirectories'⟩ := Engine.madeOf_ofParts hrest
  apply Engine.resolve_congr
  intro kind
  cases kind with
  | directory =>
      simp only [Engine.reason?, Engine.directoryReason?, hdirectories, hdirectories', without]
  | file =>
      have htable : rest.exact.contains (Engine.caseName case, case.strict) =
          engine.exact.contains (Engine.caseName case, case.strict) := by
        rw [Bool.eq_iff_iff, hfiles.exact, hfiles'.exact]
        exact names_without hcase hunused case.strict
      simp only [Engine.reason?, Engine.fileReason?, htable]
  | feature => simp only [Engine.reason?, Engine.featureReason?, hfeatures, hfeatures', without]
  | flag => simp only [Engine.reason?, Engine.flagReason?, hflags, hflags', without]
  | pattern =>
      simp only [Engine.reason?, Engine.patternReason?, hfiles.patterns, hfiles'.patterns,
        patternEntries_without hunused]

end

/-- What is told of the cases is each entry that is exact and names none of them, in order and
as it is written. The entries told can be taken out, and the other exact ones are of use. -/
theorem unrecognized_unused (hmade : parts.engine = .ok engine) (cases : List Case) :
    ((engine.unrecognized cases).Pairwise fun left right =>
      Text.bytesOf left < Text.bytesOf right) ∧
    (∀ others, (∀ case, case ∈ others ↔ case ∈ cases) →
      engine.unrecognized others = engine.unrecognized cases) ∧
    (∀ text, text ∈ engine.unrecognized cases ↔
      ∃ entry ∈ parts.files, Text.trim entry = text ∧ Unused entry cases) ∧
    (∃ rest, (parts.without (engine.unrecognized cases)).engine = .ok rest ∧
      ∀ case ∈ cases, rest.resolve case = engine.resolve case) ∧
    ∀ entry ∈ parts.files, (FileEntry.ofText entry).IsExact →
      Text.trim entry ∉ engine.unrecognized cases →
        ∃ case ∈ cases,
          Text.lowercase case.testName = String.ofList (FileEntry.ofText entry).name := by
  have hunused : ∀ entry ∈ parts.files, Text.trim entry ∈ engine.unrecognized cases →
      Unused entry cases := by
    intro entry _ htext
    obtain ⟨other, -, hsame, hother⟩ := (mem_unrecognized_iff hmade).mp htext
    exact hother.congr hsame
  refine ⟨(Engine.unrecognized_pairwise engine cases).imp Text.bytesOf_lt_iff.mpr,
    fun others => Engine.unrecognized_congr, fun text => mem_unrecognized_iff hmade, ?_, ?_⟩
  · obtain ⟨rest, hrest⟩ := (within_without parts _).accepted ⟨engine, hmade⟩
    exact ⟨rest, hrest, fun case hcase => resolve_without hmade hrest hcase hunused⟩
  · intro entry hentry hexact htext
    by_contra hnone
    push Not at hnone
    exact htext ((mem_unrecognized_iff hmade).mpr ⟨entry, hentry, rfl, hexact, hnone⟩)

def withGone : Parts where
  files := [" test/Gone.js", "gone.js(default)", "*.mjs", "test/A/x.js(strict mode)"]

theorem unrecognized_unused_gone :
    ∃ engine, withGone.engine = .ok engine ∧
      engine.unrecognized [tagged "test/a/X.js" []] = ["gone.js(default)", "test/Gone.js"] ∧
      ∃ rest, Parts.engine { files := ["*.mjs", "test/A/x.js(strict mode)"] } = .ok rest ∧
        rest.resolve (tagged "test/a/X.js" []) = engine.resolve (tagged "test/a/X.js" []) := by
  obtain ⟨engine, hmade⟩ : ∃ engine, withGone.engine = .ok engine := ⟨_, rfl⟩
  obtain ⟨hsorted, -, hmem, ⟨rest, hrest, hresolve⟩, -⟩ :=
    unrecognized_unused hmade [tagged "test/a/X.js" []]
  have htold : engine.unrecognized [tagged "test/a/X.js" []] =
      ["gone.js(default)", "test/Gone.js"] := by
    have hunused : (withGone.files.filter (Unused · [tagged "test/a/X.js" []])).map Text.trim =
        ["test/Gone.js", "gone.js(default)"] := by decide +kernel
    apply (hsorted.imp Text.bytesOf_lt_iff.mp).eq_of_mem_iff (by decide)
    intro text
    have htext : (∃ entry ∈ withGone.files,
        Text.trim entry = text ∧ Unused entry [tagged "test/a/X.js" []]) ↔
          text ∈ ["test/Gone.js", "gone.js(default)"] := by
      rw [← hunused, List.mem_map]
      simp only [List.mem_filter, decide_eq_true_eq, and_assoc, and_comm (a := Text.trim _ = text)]
    rw [hmem, htext]
    simp [or_comm]
  refine ⟨engine, hmade, htold, rest, ?_, hresolve _ (List.mem_singleton_self _)⟩
  rw [htold] at hrest
  exact hrest

end Parts

end Conformance.Exclusion
