import Conformance.Exclusion.Engine

namespace Conformance.Exclusion

/-- An entry without a glob names a case by name and mode. -/
structure FileEntry.Names (entry : FileEntry) (name : String) (strict : Bool) : Prop where
  plain : entry.isPattern = false
  named : entry.name ≠ []
  same : String.ofList entry.name = name
  covers : entry.scope.covers strict = true

def PatternEntry.ofText? (entry : String) : Option PatternEntry :=
  let file := FileEntry.ofText entry
  if file.isPattern then
    (Glob.Pattern.read file.name).toOption.map fun pattern =>
      ⟨file.written, pattern, file.scope⟩
  else none

namespace Engine

theorem mem_modes_iff {name other : String} {scope : Scope} {strict : Bool} :
    (other, strict) ∈ modes name scope ↔ name = other ∧ scope.covers strict = true := by
  cases scope with
  | none =>
      have heq : other = name ↔ name = other := eq_comm
      cases strict <;> simp [modes, Scope.covers, heq]
  | some mode =>
      have heq : other = name ↔ name = other := eq_comm
      have hmode : strict = mode ↔ mode = strict := eq_comm
      simp [modes, Scope.covers, heq, hmode]

inductive Added (engine : Engine) (entry : String) : Engine → Prop
  | unnamed (hname : (FileEntry.ofText entry).name = []) : Added engine entry engine
  | pattern (pattern : Glob.Pattern) (hpattern : (FileEntry.ofText entry).isPattern = true)
      (hread : Glob.Pattern.read (FileEntry.ofText entry).name = .ok pattern) :
      Added engine entry { engine with
        patterns := engine.patterns ++
          [⟨(FileEntry.ofText entry).written, pattern, (FileEntry.ofText entry).scope⟩] }
  | exact (hname : (FileEntry.ofText entry).name ≠ [])
      (hplain : (FileEntry.ofText entry).isPattern = false) :
      Added engine entry { engine with
        exact := engine.exact.insertMany
          (modes (String.ofList (FileEntry.ofText entry).name) (FileEntry.ofText entry).scope)
        exactEntries := engine.exactEntries ++
          [⟨(FileEntry.ofText entry).written, String.ofList (FileEntry.ofText entry).name⟩] }

theorem added_of_addFile {engine next : Engine} {entry : String}
    (hadd : engine.addFile entry = .ok next) : engine.Added entry next := by
  unfold addFile at hadd
  simp only at hadd
  split at hadd
  · rename_i hempty
    cases hadd
    exact .unnamed (List.isEmpty_iff.mp hempty)
  · rename_i hname
    split at hadd
    · rename_i hpattern
      split at hadd
      · cases hadd
      · rename_i pattern hread
        cases hadd
        exact .pattern pattern hpattern hread
    · rename_i hplain
      cases hadd
      exact .exact (by simpa using hname) (by simpa using hplain)

/-- The tables of names and of globs hold what some file entries say. -/
structure Holds (engine : Engine) (files : List String) : Prop where
  exact : ∀ name strict, engine.exact.contains (name, strict) = true ↔
    ∃ entry ∈ files, (FileEntry.ofText entry).Names name strict
  patterns : engine.patterns = files.filterMap PatternEntry.ofText?

theorem holds_empty : Holds {} [] where
  exact := by simp
  patterns := rfl

theorem exact_of_not_names {tables : Std.HashSet (String × Bool)} {seen : List String}
    {entry : String}
    (hseen : ∀ name strict, tables.contains (name, strict) = true ↔
      ∃ other ∈ seen, (FileEntry.ofText other).Names name strict)
    (hentry : ∀ name strict, ¬ (FileEntry.ofText entry).Names name strict)
    (name : String) (strict : Bool) :
    tables.contains (name, strict) = true ↔
      ∃ other ∈ seen ++ [entry], (FileEntry.ofText other).Names name strict := by
  rw [hseen]
  constructor
  · rintro ⟨other, hother, hnames⟩
    exact ⟨other, List.mem_append_left _ hother, hnames⟩
  · rintro ⟨other, hother, hnames⟩
    rcases List.mem_append.mp hother with hother | hother
    · exact ⟨other, hother, hnames⟩
    · rw [List.mem_singleton] at hother
      subst hother
      exact absurd hnames (hentry name strict)

theorem Holds.added {engine next : Engine} {seen : List String} {entry : String}
    (hholds : engine.Holds seen) (hadded : engine.Added entry next) :
    next.Holds (seen ++ [entry]) := by
  cases hadded with
  | unnamed hname =>
      have hplain : (FileEntry.ofText entry).isPattern = false := by
        simp [FileEntry.isPattern, hname]
      refine ⟨exact_of_not_names hholds.exact fun _ _ hnames => hnames.named hname, ?_⟩
      simp [hholds.patterns, PatternEntry.ofText?, hplain]
  | pattern pattern hpattern hread =>
      refine ⟨exact_of_not_names hholds.exact fun _ _ hnames => ?_, ?_⟩
      · simpa [hpattern] using hnames.plain
      · simp [hholds.patterns, PatternEntry.ofText?, hpattern, hread, Except.toOption]
  | exact hname hplain =>
      refine ⟨fun name strict => ?_, ?_⟩
      · simp only [Std.HashSet.contains_insertMany_list, Bool.or_eq_true, hholds.exact,
          List.contains_iff_mem, mem_modes_iff, List.mem_append, List.mem_singleton]
        constructor
        · rintro (⟨other, hother, hnames⟩ | ⟨hsame, hcovers⟩)
          · exact ⟨other, .inl hother, hnames⟩
          · exact ⟨entry, .inr rfl, ⟨hplain, hname, hsame, hcovers⟩⟩
        · rintro ⟨other, hother | rfl, hnames⟩
          · exact .inl ⟨other, hother, hnames⟩
          · exact .inr ⟨hnames.same, hnames.covers⟩
      · simp [hholds.patterns, PatternEntry.ofText?, hplain]

theorem Holds.foldlM {engine next : Engine} {seen files : List String}
    (hholds : engine.Holds seen) (hfold : files.foldlM addFile engine = .ok next) :
    next.Holds (seen ++ files) := by
  induction files generalizing engine seen with
  | nil =>
      cases hfold
      simpa using hholds
  | cons entry files ih =>
      rw [List.foldlM_cons] at hfold
      cases hadd : engine.addFile entry with
      | error problem =>
          rw [hadd] at hfold
          cases hfold
      | ok middle =>
          rw [hadd] at hfold
          simpa using ih (hholds.added (added_of_addFile hadd)) hfold

structure MadeOf (engine : Engine) (files features flags directories : List String) : Prop where
  files : engine.Holds files
  features : engine.features = .ofList (lowerWords features)
  flags : engine.flags = .ofList (lowerWords flags)
  directories : engine.directories = directoryEntries directories

theorem madeOf_ofParts {engine : Engine} {files features flags directories : List String}
    (hmade : ofParts files features flags directories = .ok engine) :
    engine.MadeOf files features flags directories := by
  unfold ofParts at hmade
  cases hfold : files.foldlM addFile {} with
  | error problem =>
      rw [hfold] at hmade
      cases hmade
  | ok read =>
      rw [hfold] at hmade
      cases hmade
      have hholds : read.Holds files := holds_empty.foldlM hfold
      exact ⟨⟨hholds.exact, hholds.patterns⟩, rfl, rfl, rfl⟩

end Engine

end Conformance.Exclusion
