import Conformance.Proofs.Exclusion.Display
import Conformance.Proofs.Glob.Nesting

namespace Conformance.Exclusion

/-! Entries that are read alike, however they are written. An engine cannot tell them apart, and
names that are not read alike exclude different cases. -/

/-- A file entry that is no glob and has a name. -/
structure FileEntry.IsExact (entry : FileEntry) : Prop where
  plain : entry.isPattern = false
  named : entry.name ≠ []

theorem FileEntry.isExact_iff {entry : FileEntry} :
    entry.IsExact ↔ entry.isPattern = false ∧ entry.name ≠ [] :=
  ⟨fun ⟨hplain, hnamed⟩ => ⟨hplain, hnamed⟩, fun ⟨hplain, hnamed⟩ => ⟨hplain, hnamed⟩⟩

theorem FileEntry.isPattern_eq (entry : FileEntry) :
    entry.isPattern = entry.name.any isGlobMark := rfl

theorem FileEntry.ofText_congr {left right : String} (h : Text.trim left = Text.trim right) :
    ofText left = ofText right := by
  have hchars : Text.trimmed left.toList = Text.trimmed right.toList := by
    rw [← Text.toList_trim, h, Text.toList_trim]
  rw [ofText, ofText, hchars]

theorem FileEntry.name_ofText (entry : String) :
    (ofText entry).name = nameOf (splitScope (Text.trimmed entry.toList)).1 := by
  rw [ofText]

theorem FileEntry.scope_ofText (entry : String) :
    (ofText entry).scope = (splitScope (Text.trimmed entry.toList)).2 := by
  rw [ofText]

def Scope.mark : Scope → List Char
  | none => []
  | some false => "(default)".toList
  | some true => "(strict mode)".toList

theorem Scope.mark_default : Scope.mark (some false) = "(default)".toList := rfl

theorem Scope.mark_strict : Scope.mark (some true) = "(strict mode)".toList := rfl

theorem slash_not_mem_mark (scope : Scope) : '/' ∉ scope.mark := by
  match scope with
  | none | some false | some true => decide

theorem before?_mark_eq_none_iff {entry : List Char} {mode : Bool} :
    Text.before? (Scope.mark (some mode)) entry = none ↔ ¬ Scope.mark (some mode) <:+ entry := by
  rw [Option.eq_none_iff_forall_ne_some]
  constructor
  · rintro h ⟨name, hname⟩
    exact h name (Text.before?_eq_some_iff.mpr hname.symm)
  · intro h name hname
    exact h ⟨name, (Text.before?_eq_some_iff.mp hname).symm⟩

theorem splitScope_eq_iff {entry name : List Char} {scope : Scope} :
    splitScope entry = (name, scope) ↔
      entry = name ++ scope.mark ∧
        (scope = none → ∀ mode, ¬ Scope.mark (some mode) <:+ entry) := by
  constructor
  · intro h
    rw [splitScope] at h
    split at h
    · rename_i front hstrict
      cases h
      exact ⟨Text.before?_eq_some_iff.mp hstrict, by simp⟩
    · rename_i hstrict
      split at h
      · rename_i front hdefault
        cases h
        exact ⟨Text.before?_eq_some_iff.mp hdefault, by simp⟩
      · rename_i hdefault
        cases h
        refine ⟨(List.append_nil entry).symm, fun _ mode => before?_mark_eq_none_iff.mp ?_⟩
        cases mode
        · exact hdefault
        · exact hstrict
  · rintro ⟨rfl, hnone⟩
    cases scope with
    | some mode =>
        cases mode
        · exact splitScope_default name
        · exact splitScope_strict name
    | none =>
        have hstrict := before?_mark_eq_none_iff.mpr (hnone rfl true)
        have hdefault := before?_mark_eq_none_iff.mpr (hnone rfl false)
        rw [Scope.mark_strict] at hstrict
        rw [Scope.mark_default] at hdefault
        rw [splitScope, hstrict, hdefault]
        exact congrArg (·, none) (List.append_nil name)

/-- Two file entries have one name, for one scope. -/
structure FileEntry.SameReading (left right : FileEntry) : Prop where
  name : left.name = right.name
  scope : left.scope = right.scope

theorem PatternEntry.exists_ofText?_iff {entry : String} {p : Glob.Pattern → Scope → Prop} :
    (∃ made, ofText? entry = some made ∧ p made.pattern made.scope) ↔
      (FileEntry.ofText entry).isPattern = true ∧
        ∃ pattern, Glob.Pattern.read (FileEntry.ofText entry).name = .ok pattern ∧
          p pattern (FileEntry.ofText entry).scope := by
  rw [ofText?]
  cases (FileEntry.ofText entry).isPattern with
  | false => simp
  | true =>
      cases Glob.Pattern.read (FileEntry.ofText entry).name with
      | error problem => simp [Except.toOption]
      | ok pattern => simp [Except.toOption]

namespace FileEntry.SameReading

variable {left right : FileEntry}

theorem refl (entry : FileEntry) : entry.SameReading entry :=
  ⟨rfl, rfl⟩

theorem symm (h : left.SameReading right) : right.SameReading left :=
  ⟨h.name.symm, h.scope.symm⟩

theorem isPattern (h : left.SameReading right) : left.isPattern = right.isPattern := by
  rw [FileEntry.isPattern, FileEntry.isPattern, h.name]

theorem names_iff (h : left.SameReading right) {name : String} {strict : Bool} :
    left.Names name strict ↔ right.Names name strict := by
  constructor
  · intro hnames
    exact ⟨h.isPattern ▸ hnames.plain, h.name ▸ hnames.named, h.name ▸ hnames.same,
      h.scope ▸ hnames.covers⟩
  · intro hnames
    exact ⟨h.isPattern ▸ hnames.plain, h.name ▸ hnames.named, h.name ▸ hnames.same,
      h.scope ▸ hnames.covers⟩

end FileEntry.SameReading

theorem Engine.globProblem?_eq_none_iff {entry : String} :
    globProblem? entry = none ↔ ((FileEntry.ofText entry).isPattern = true →
      ∃ pattern, Glob.Pattern.read (FileEntry.ofText entry).name = .ok pattern) := by
  rw [globProblem?]
  cases (FileEntry.ofText entry).isPattern with
  | false => simp
  | true =>
      cases Glob.Pattern.read (FileEntry.ofText entry).name with
      | error problem => simp
      | ok pattern => simp

theorem Engine.globProblem?_iff_of_front {left right : String} {front : List Char}
    (hfront : ∀ c ∈ front, isGlobMark c = false ∧ c ≠ '}')
    (hname : (FileEntry.ofText left).name = front ++ (FileEntry.ofText right).name) :
    globProblem? left = none ↔ globProblem? right = none := by
  have hmarks : front.any isGlobMark = false :=
    List.any_eq_false.mpr fun c hc => Bool.not_eq_true _ ▸ (hfront c hc).1
  have hpattern : (FileEntry.ofText left).isPattern = (FileEntry.ofText right).isPattern := by
    rw [FileEntry.isPattern_eq, FileEntry.isPattern_eq, hname, List.any_append, hmarks,
      Bool.false_or]
  have hplain : ∀ c ∈ front, Glob.Nesting.Plain c := by
    intro c hc
    obtain ⟨hmark, hclosed⟩ := hfront c hc
    refine ⟨?_, ?_, hclosed⟩
    · rintro rfl
      cases hmark
    · rintro rfl
      cases hmark
  rw [globProblem?_eq_none_iff, globProblem?_eq_none_iff, hpattern, hname,
    Glob.Pattern.exists_read_append_iff hplain]

namespace Kind

/-- Two entries of a kind are read alike. -/
def ReadsAlike (kind : Kind) (left right : String) : Prop :=
  match kind with
  | .directory => nameOf left.toList = nameOf right.toList
  | .file | .pattern => (FileEntry.ofText left).SameReading (FileEntry.ofText right)
  | .feature | .flag => Text.lowercase (Text.trim left) = Text.lowercase (Text.trim right)

theorem spells_congr {left right : String} {words : List String}
    (h : Text.lowercase (Text.trim left) = Text.lowercase (Text.trim right)) :
    Spells left words ↔ Spells right words := by
  rw [Spells, Spells, Ne, Ne, ← Text.lowercase_eq_empty_iff, h, Text.lowercase_eq_empty_iff]

theorem ReadsAlike.takes_iff {kind : Kind} {left right : String} {case : Case}
    (h : kind.ReadsAlike left right) : kind.Takes left case ↔ kind.Takes right case := by
  cases kind with
  | directory =>
      rw [ReadsAlike] at h
      rw [Takes, Takes, h]
  | file => exact FileEntry.SameReading.names_iff h
  | feature | flag => exact spells_congr h
  | pattern =>
      have hentries (entry : String) : Kind.pattern.Takes entry case ↔ _ :=
        PatternEntry.exists_ofText?_iff (p := fun pattern scope =>
          scope.covers case.strict = true ∧ pattern.accepts (Engine.caseName case) = true)
      rw [hentries, hentries, h.isPattern, h.name, h.scope]

theorem ReadsAlike.globProblem?_iff {left right : String} (h : ReadsAlike .file left right) :
    Engine.globProblem? left = none ↔ Engine.globProblem? right = none := by
  rw [Engine.globProblem?_eq_none_iff, Engine.globProblem?_eq_none_iff, h.isPattern, h.name]

end Kind

theorem exists_mem_iff_of_forall₂ {R : String → String → Prop} {p : String → Prop}
    {left right : List String} (h : List.Forall₂ R left right)
    (hsame : ∀ first second, R first second → (p first ↔ p second)) :
    (∃ entry ∈ left, p entry) ↔ ∃ entry ∈ right, p entry := by
  induction h with
  | nil => rfl
  | cons hfirst _ ih => simp only [List.exists_mem_cons_iff, hsame _ _ hfirst, ih]

namespace Parts

variable {left right : Parts} {one other : Engine} {case : Case}

def ReadsAlike (left right : Parts) : Prop :=
  ∀ kind, List.Forall₂ kind.ReadsAlike (left.entries kind) (right.entries kind)

theorem ReadsAlike.gives_iff (h : left.ReadsAlike right) {kind : Kind} :
    left.Gives kind case ↔ right.Gives kind case :=
  exists_mem_iff_of_forall₂ (h kind) fun _ _ hentry => hentry.takes_iff

theorem accepted_congr {R : String → String → Prop}
    (h : List.Forall₂ R left.files right.files) (hsame : ∀ first second, R first second →
      (Engine.globProblem? first = none ↔ Engine.globProblem? second = none)) :
    left.Accepted ↔ right.Accepted := by
  have hproblem := exists_mem_iff_of_forall₂ h fun first second hentry =>
    not_congr (hsame first second hentry)
  rw [accepted_iff, accepted_iff]
  simpa using not_congr hproblem

theorem ReadsAlike.accepted_iff (h : left.ReadsAlike right) : left.Accepted ↔ right.Accepted :=
  accepted_congr (h .file) fun _ _ => Kind.ReadsAlike.globProblem?_iff

theorem ReadsAlike.excludes_eq (h : left.ReadsAlike right) (hone : left.engine = .ok one)
    (hother : right.engine = .ok other) : one.excludes case = other.excludes case := by
  rw [Bool.eq_iff_iff, excludes_iff hone, excludes_iff hother]
  exact exists_congr fun kind => h.gives_iff

end Parts

theorem exists_case_named (path : List Char) (strict : Bool) :
    ∃ case : Case, Engine.caseName case = String.ofList (nameOf path) ∧ case.strict = strict := by
  have hbelow (case : Case)
      (h : case.fileName = "test/" ++ String.ofList (testRelative path)) :
      Engine.caseName case = String.ofList (nameOf path) := by
    rw [Engine.caseName, Case.testName_of_below h, Text.lowercase, String.toList_ofList, nameOf]
  cases strict with
  | false => exact ⟨tagged ("test/" ++ String.ofList (testRelative path)) [], hbelow _ rfl, rfl⟩
  | true =>
      refine ⟨(tagged ("test/" ++ String.ofList (testRelative path)) []).asStrict, hbelow _ ?_, rfl⟩
      rw [Case.fileName, Case.metadata_asStrict]
      rfl

theorem Scope.exists_covers (scope : Scope) : ∃ strict, scope.covers strict = true := by
  cases scope with
  | none => exact ⟨false, rfl⟩
  | some mode => exact ⟨mode, by simp [covers]⟩

theorem Scope.eq_of_covers {left right : Scope}
    (h : ∀ strict, left.covers strict = right.covers strict) : left = right := by
  have hplain := h false
  have hstrict := h true
  cases left with
  | none => cases right with
    | none => rfl
    | some mode => cases mode <;> simp [covers] at hplain hstrict
  | some mode => cases right with
    | none => cases mode <;> simp [covers] at hplain hstrict
    | some other => cases mode <;> cases other <;> simp [covers] at hplain ⊢

namespace Parts

variable {left right : String} {one other : Engine} {case : Case}

theorem readsAlike_alone
    (h : (FileEntry.ofText left).SameReading (FileEntry.ofText right)) :
    Parts.ReadsAlike { files := [left] } { files := [right] } := by
  intro kind
  cases kind with
  | file | pattern => exact .cons h .nil
  | directory | feature | flag => exact .nil

theorem excludes_alone_iff (hplain : (FileEntry.ofText left).isPattern = false)
    (hone : Parts.engine { files := [left] } = .ok one) :
    one.excludes case = true ↔
      (FileEntry.ofText left).Names (Engine.caseName case) case.strict := by
  rw [excludes_iff hone]
  constructor
  · rintro ⟨kind, entry, hentry, htakes⟩
    cases kind with
    | directory | feature | flag => cases hentry
    | file =>
        obtain rfl := List.mem_singleton.mp hentry
        exact htakes
    | pattern =>
        obtain rfl := List.mem_singleton.mp hentry
        obtain ⟨made, hmade, -⟩ := htakes
        simp [PatternEntry.ofText?, hplain] at hmade
  · intro hnames
    exact ⟨.file, left, List.mem_singleton_self _, hnames⟩

theorem reading_of_excludes (hleft : (FileEntry.ofText left).IsExact)
    (hright : (FileEntry.ofText right).isPattern = false)
    (hone : Parts.engine { files := [left] } = .ok one)
    (hother : Parts.engine { files := [right] } = .ok other)
    (hmore : ∀ case, one.excludes case = true → other.excludes case = true) {strict : Bool}
    (hcovers : (FileEntry.ofText left).scope.covers strict = true) :
    (FileEntry.ofText left).name = (FileEntry.ofText right).name ∧
      (FileEntry.ofText right).scope.covers strict = true := by
  obtain ⟨case, hname, rfl⟩ :=
    exists_case_named (splitScope (Text.trimmed left.toList)).1 strict
  rw [← FileEntry.name_ofText] at hname
  have hexcluded := hmore case ((excludes_alone_iff hleft.plain hone).mpr
    ⟨hleft.plain, hleft.named, hname.symm, hcovers⟩)
  rw [excludes_alone_iff hright hother] at hexcluded
  exact ⟨(String.ofList_inj.mp (hexcluded.same.trans hname)).symm, hexcluded.covers⟩

/-- Names alone exclude the same cases only where they are read alike. -/
theorem sameReading_of_excludes (hleft : (FileEntry.ofText left).IsExact)
    (hright : (FileEntry.ofText right).isPattern = false)
    (hone : Parts.engine { files := [left] } = .ok one)
    (hother : Parts.engine { files := [right] } = .ok other)
    (hsame : ∀ case, one.excludes case = other.excludes case) :
    (FileEntry.ofText left).SameReading (FileEntry.ofText right) := by
  obtain ⟨strict, hstrict⟩ := (FileEntry.ofText left).scope.exists_covers
  have hmore (case : Case) (h : one.excludes case = true) : other.excludes case = true :=
    hsame case ▸ h
  have hless (case : Case) (h : other.excludes case = true) : one.excludes case = true :=
    (hsame case).symm ▸ h
  have hname := (reading_of_excludes hleft hright hone hother hmore hstrict).1
  refine ⟨hname, Scope.eq_of_covers fun strict => Bool.eq_iff_iff.mpr ⟨fun hcovers => ?_,
    fun hcovers => ?_⟩⟩
  · exact (reading_of_excludes hleft hright hone hother hmore hcovers).2
  · have hreading :=
      reading_of_excludes ⟨hright, hname ▸ hleft.named⟩ hleft.plain hother hone hless hcovers
    exact hreading.2

end Parts

end Conformance.Exclusion
