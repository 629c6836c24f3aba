import Conformance.Proofs.Exclusion.Scan

namespace Conformance.Exclusion

/-! Lists of rules put together. Each entry is for itself a reason to exclude a case or none,
so what an engine says is told by the entries there are, and the order of the kinds. -/

/-- Rules in lists, as an engine is made from them. -/
structure Parts where
  files : List String := []
  features : List String := []
  flags : List String := []
  directories : List String := []

/-- An entry is written like one of a case's own words. -/
def Spells (entry : String) (words : List String) : Prop :=
  Text.trim entry ≠ "" ∧
    ∃ word ∈ words, Text.lowercase (Text.trim entry) = Text.lowercase word

namespace Kind

/-- The order in which kinds of reasons are looked for. -/
def order : List Kind := [.directory, .file, .feature, .flag, .pattern]

/-- An entry is for itself a reason of some kind to exclude a case. -/
def Takes (kind : Kind) (entry : String) (case : Case) : Prop :=
  match kind with
  | .directory => nameOf entry.toList ≠ [] ∧
      Path.within (nameOf entry.toList) (Engine.caseName case).toList = true
  | .file => (FileEntry.ofText entry).Names (Engine.caseName case) case.strict
  | .feature => Spells entry case.metadata.features
  | .flag => Spells entry case.metadata.flags
  | .pattern => ∃ made, PatternEntry.ofText? entry = some made ∧
      made.scope.covers case.strict = true ∧ made.pattern.accepts (Engine.caseName case) = true

theorem mem_order (kind : Kind) : kind ∈ order := by
  cases kind <;> decide

end Kind

namespace Engine

variable {engine : Engine} {case : Case} {kind : Kind}

def reason? (engine : Engine) (case : Case) : Kind → Option Reason
  | .directory => engine.directoryReason? case
  | .file => engine.fileReason? case
  | .feature => engine.featureReason? case
  | .flag => engine.flagReason? case
  | .pattern => engine.patternReason? case

theorem kind_of_reason? {reason : Reason} (hreason : engine.reason? case kind = some reason) :
    reason.kind = kind := by
  cases kind with
  | file =>
      rw [reason?, fileReason?, Option.ite_none_right_eq_some] at hreason
      obtain ⟨-, hreason⟩ := hreason
      cases hreason
      rfl
  | directory | feature | flag | pattern =>
      obtain ⟨found, -, rfl⟩ := Option.map_eq_some_iff.mp hreason
      rfl

theorem resolve_eq_findSome? :
    engine.resolve case = Kind.order.findSome? (engine.reason? case) := by
  have hcons (kind : Kind) (more : List Kind) : (kind :: more).findSome? (engine.reason? case) =
      (engine.reason? case kind).or (more.findSome? (engine.reason? case)) := by
    rw [List.findSome?_cons]
    cases engine.reason? case kind <;> rfl
  simp only [Kind.order, hcons, List.findSome?_nil, Option.or_none]
  rfl

/-- The kind of the reason that is found. -/
def kindOf? (engine : Engine) (case : Case) : Option Kind :=
  (engine.resolve case).map Reason.kind

/-- It is the first kind that has a reason. -/
theorem kindOf?_eq_find? (engine : Engine) (case : Case) : engine.kindOf? case =
    Kind.order.find? fun kind => (engine.reason? case kind).isSome := by
  rw [kindOf?, resolve_eq_findSome?]
  induction Kind.order with
  | nil => rfl
  | cons kind more ih =>
      rw [List.findSome?_cons, List.find?_cons]
      cases hreason : engine.reason? case kind with
      | none => exact ih
      | some reason => exact congrArg some (kind_of_reason? hreason)

theorem excludes_iff : engine.excludes case = true ↔
    ∃ kind, (engine.reason? case kind).isSome = true := by
  have hkind : (engine.kindOf? case).isSome = (engine.resolve case).isSome := Option.isSome_map
  rw [excludes, ← hkind, kindOf?_eq_find?, List.find?_isSome]
  exact ⟨fun ⟨kind, _, hkind⟩ => ⟨kind, hkind⟩, fun ⟨kind, hkind⟩ => ⟨kind, kind.mem_order, hkind⟩⟩

def globProblem? (entry : String) : Option Glob.Problem :=
  let file := FileEntry.ofText entry
  if file.isPattern then
    match Glob.Pattern.read file.name with
    | .error problem => some problem
    | .ok _ => none
  else none

def globError (entry : String) (problem : Glob.Problem) : Error :=
  .invalidArgument (.badPattern entry (String.ofList (FileEntry.ofText entry).name) problem)

theorem addFile_of_globProblem? {entry : String} {problem : Glob.Problem}
    (hproblem : globProblem? entry = some problem) :
    engine.addFile entry = .error (globError entry problem) := by
  cases hpattern : (FileEntry.ofText entry).isPattern with
  | false => simp [globProblem?, hpattern] at hproblem
  | true =>
      cases hread : Glob.Pattern.read (FileEntry.ofText entry).name with
      | ok pattern => simp [globProblem?, hpattern, hread] at hproblem
      | error found =>
          obtain rfl : found = problem := by simpa [globProblem?, hpattern, hread] using hproblem
          have hnamed : (FileEntry.ofText entry).name.isEmpty = false := by
            obtain ⟨c, hc, -⟩ := List.any_eq_true.mp hpattern
            exact List.isEmpty_eq_false_iff_exists_mem.mpr ⟨c, hc⟩
          simp [addFile, hnamed, hpattern, hread, globError]

theorem exists_addFile (engine : Engine) {entry : String} (hsound : globProblem? entry = none) :
    ∃ next, engine.addFile entry = .ok next := by
  cases hnamed : (FileEntry.ofText entry).name.isEmpty with
  | true => exact ⟨engine, by simp [addFile, hnamed]⟩
  | false =>
      cases hpattern : (FileEntry.ofText entry).isPattern with
      | false => exact ⟨_, by simp [addFile, hnamed, hpattern]; rfl⟩
      | true =>
          cases hread : Glob.Pattern.read (FileEntry.ofText entry).name with
          | error problem => simp [globProblem?, hpattern, hread] at hsound
          | ok pattern => exact ⟨_, by simp [addFile, hnamed, hpattern, hread]; rfl⟩

/-- The first entry with a glob that cannot be read stops the reading. -/
def faultOf? (files : List String) : Option Error :=
  files.findSome? fun entry => (globProblem? entry).map (globError entry)

theorem faultOf?_eq_some_iff {files : List String} {error : Error} :
    faultOf? files = some error ↔ ∃ front entry rest problem, files = front ++ entry :: rest ∧
      (∀ other ∈ front, globProblem? other = none) ∧ globProblem? entry = some problem ∧
        error = globError entry problem := by
  simp only [faultOf?, List.findSome?_eq_some_iff, Option.map_eq_some_iff, Option.map_eq_none_iff]
  constructor
  · rintro ⟨front, entry, rest, hfiles, ⟨problem, hproblem, rfl⟩, hfront⟩
    exact ⟨front, entry, rest, problem, hfiles, hfront, hproblem, rfl⟩
  · rintro ⟨front, entry, rest, problem, hfiles, hfront, hproblem, rfl⟩
    exact ⟨front, entry, rest, hfiles, ⟨problem, hproblem, rfl⟩, hfront⟩

theorem faultOf?_eq_none_iff {files : List String} :
    faultOf? files = none ↔ ∀ entry ∈ files, globProblem? entry = none := by
  simp only [faultOf?, List.findSome?_eq_none_iff, Option.map_eq_none_iff]

theorem foldlM_addFile_error_iff (engine : Engine) {files : List String} {error : Error} :
    files.foldlM addFile engine = .error error ↔ faultOf? files = some error := by
  induction files generalizing engine with
  | nil => exact ⟨fun h => (by cases h), fun h => (by cases h)⟩
  | cons entry files ih =>
      rw [List.foldlM_cons, faultOf?, List.findSome?_cons]
      cases hproblem : globProblem? entry with
      | some problem =>
          rw [addFile_of_globProblem? hproblem]
          exact ⟨fun h => (by cases h; rfl), fun h => (by cases h; rfl)⟩
      | none =>
          obtain ⟨next, hadd⟩ := exists_addFile engine hproblem
          rw [hadd]
          exact ih next

end Engine

namespace Parts

def engine (parts : Parts) : Except Error Engine :=
  Engine.ofParts parts.files parts.features parts.flags parts.directories

def append (left right : Parts) : Parts where
  files := left.files ++ right.files
  features := left.features ++ right.features
  flags := left.flags ++ right.flags
  directories := left.directories ++ right.directories

instance : Append Parts := ⟨append⟩

variable {parts left right : Parts} {engine : Engine} {case : Case} {kind : Kind}

def entries (parts : Parts) : Kind → List String
  | .directory => parts.directories
  | .file | .pattern => parts.files
  | .feature => parts.features
  | .flag => parts.flags

theorem entries_append :
    (left ++ right).entries kind = left.entries kind ++ right.entries kind := by
  cases kind <;> rfl

def Gives (parts : Parts) (kind : Kind) (case : Case) : Prop :=
  ∃ entry ∈ parts.entries kind, kind.Takes entry case

theorem gives_append :
    (left ++ right).Gives kind case ↔ left.Gives kind case ∨ right.Gives kind case := by
  simp only [Gives, entries_append, List.mem_append, or_and_right, exists_or]

theorem Gives.mono (hmore : ∀ entry ∈ left.entries kind, entry ∈ right.entries kind)
    (hgives : left.Gives kind case) : right.Gives kind case := by
  obtain ⟨entry, hentry, htakes⟩ := hgives
  exact ⟨entry, hmore entry hentry, htakes⟩

theorem spells_iff {configured own : List String} :
    ((own.find? fun word =>
      (Std.HashSet.ofList (Engine.lowerWords configured)).contains
        (Text.lowercase word)).isSome = true) ↔
      ∃ entry ∈ configured, Spells entry own := by
  simp only [List.find?_isSome, Std.HashSet.contains_ofList, List.contains_iff_mem,
    Engine.mem_lowerWords_iff, spelled, List.mem_filter, decide_eq_true_eq, Spells]
  constructor
  · rintro ⟨word, hword, entry, ⟨hentry, hspelled⟩, hsame⟩
    exact ⟨entry, hentry, hspelled, word, hword, hsame⟩
  · rintro ⟨entry, hentry, hspelled, word, hword, hsame⟩
    exact ⟨word, hword, entry, ⟨hentry, hspelled⟩, hsame⟩

theorem isSome_reason?_iff (hmade : parts.engine = .ok engine) :
    (engine.reason? case kind).isSome = true ↔ parts.Gives kind case := by
  obtain ⟨hfiles, hfeatures, hflags, hdirectories⟩ := Engine.madeOf_ofParts hmade
  cases kind with
  | directory =>
      simp [Engine.reason?, Engine.directoryReason?, hdirectories, Engine.directoryEntries,
        Gives, entries, Kind.Takes]
  | file =>
      rw [Engine.reason?, Engine.fileReason?, Option.isSome_ite]
      exact hfiles.exact _ _
  | feature =>
      rw [Engine.reason?, Engine.featureReason?, Option.isSome_map, hfeatures]
      exact spells_iff
  | flag =>
      rw [Engine.reason?, Engine.flagReason?, Option.isSome_map, hflags]
      exact spells_iff
  | pattern =>
      rw [Engine.reason?, Engine.patternReason?, Option.isSome_map, List.find?_isSome,
        hfiles.patterns]
      simp only [List.mem_filterMap, Bool.and_eq_true]
      constructor
      · rintro ⟨made, ⟨entry, hentry, hread⟩, htakes⟩
        exact ⟨entry, hentry, made, hread, htakes⟩
      · rintro ⟨entry, hentry, made, hread, htakes⟩
        exact ⟨made, ⟨entry, hentry, hread⟩, htakes⟩

def Accepted (parts : Parts) : Prop :=
  ∃ engine, parts.engine = .ok engine

theorem engine_eq_error_iff {error : Error} :
    parts.engine = .error error ↔ Engine.faultOf? parts.files = some error := by
  rw [← Engine.foldlM_addFile_error_iff {}, engine, Engine.ofParts]
  cases parts.files.foldlM Engine.addFile {} with
  | error problem => exact Iff.rfl
  | ok engine => exact ⟨fun h => (by cases h), fun h => (by cases h)⟩

theorem accepted_iff :
    parts.Accepted ↔ ∀ entry ∈ parts.files, Engine.globProblem? entry = none := by
  rw [← Engine.faultOf?_eq_none_iff, Option.eq_none_iff_forall_ne_some]
  simp only [ne_eq, ← engine_eq_error_iff]
  constructor
  · rintro ⟨engine, hmade⟩ error herror
    rw [hmade] at herror
    cases herror
  · intro hsound
    cases hmade : parts.engine with
    | error error => exact absurd hmade (hsound error)
    | ok engine => exact ⟨engine, hmade⟩

theorem accepted_append : (left ++ right).Accepted ↔ left.Accepted ∧ right.Accepted := by
  rw [accepted_iff, accepted_iff, accepted_iff]
  exact List.forall_mem_append

theorem excludes_iff (hmade : parts.engine = .ok engine) :
    engine.excludes case = true ↔ ∃ kind, parts.Gives kind case := by
  rw [Engine.excludes_iff]
  exact exists_congr fun kind => isSome_reason?_iff hmade

theorem kindOf?_of_gives (hmade : parts.engine = .ok engine) {gives : Kind → Bool}
    (hgives : ∀ kind, gives kind = true ↔ parts.Gives kind case) :
    engine.kindOf? case = Kind.order.find? gives := by
  rw [Engine.kindOf?_eq_find?]
  congr 1
  funext kind
  rw [Bool.eq_iff_iff, isSome_reason?_iff hmade, hgives]

theorem find?_or_eq {α : Type} [DecidableEq α] (items : List α) (first second : α → Bool) :
    (items.find? fun item => first item || second item) =
      items.find? fun item => items.find? first = some item || items.find? second = some item := by
  have hsound {item : α} (hitem : (decide (items.find? first = some item) ||
      decide (items.find? second = some item)) = true) : (first item || second item) = true := by
    rw [Bool.or_eq_true, decide_eq_true_eq, decide_eq_true_eq] at hitem
    rw [Bool.or_eq_true]
    exact hitem.imp List.find?_some List.find?_some
  cases hfound : items.find? fun item => first item || second item with
  | none =>
      symm
      rw [List.find?_eq_none] at hfound ⊢
      exact fun item hitem htrue => hfound item hitem (hsound htrue)
  | some item =>
      obtain ⟨htrue, front, rest, hitems, hfront⟩ := List.find?_eq_some_iff_append.mp hfound
      have hnone : ∀ before ∈ front, first before = false ∧ second before = false := by
        intro before hbefore
        simpa using hfront before hbefore
      symm
      refine List.find?_eq_some_iff_append.mpr ⟨?_, front, rest, hitems, fun before hbefore => ?_⟩
      · rw [Bool.or_eq_true, decide_eq_true_eq, decide_eq_true_eq]
        refine (Bool.or_eq_true_iff.mp htrue).imp (fun hfirst => ?_) (fun hsecond => ?_)
        · exact List.find?_eq_some_iff_append.mpr
            ⟨hfirst, front, rest, hitems, fun before hbefore => by simp [hnone before hbefore]⟩
        · exact List.find?_eq_some_iff_append.mpr
            ⟨hsecond, front, rest, hitems, fun before hbefore => by simp [hnone before hbefore]⟩
      · rw [Bool.not_eq_true', Bool.eq_false_iff]
        intro hfirst
        have heither := hsound hfirst
        rw [(hnone before hbefore).1, (hnone before hbefore).2] at heither
        cases heither

section

variable {both one other : Engine}

theorem excludes_append (hboth : (left ++ right).engine = .ok both)
    (hone : left.engine = .ok one) (hother : right.engine = .ok other) :
    both.excludes case = (one.excludes case || other.excludes case) := by
  rw [Bool.eq_iff_iff, Bool.or_eq_true, excludes_iff hboth, excludes_iff hone,
    excludes_iff hother, ← exists_or]
  exact exists_congr fun kind => gives_append

theorem kindOf?_append (hboth : (left ++ right).engine = .ok both)
    (hone : left.engine = .ok one) (hother : right.engine = .ok other) :
    both.kindOf? case = Kind.order.find? fun kind =>
      one.kindOf? case = some kind || other.kindOf? case = some kind := by
  rw [one.kindOf?_eq_find?, other.kindOf?_eq_find?, ← find?_or_eq]
  refine kindOf?_of_gives hboth fun kind => ?_
  rw [Bool.or_eq_true, isSome_reason?_iff hone, isSome_reason?_iff hother, gives_append]

end

/-- Every entry of some lists is one of others too. -/
def Within (left right : Parts) : Prop :=
  ∀ kind, left.entries kind ⊆ right.entries kind

theorem Within.accepted (hwithin : left.Within right) (h : right.Accepted) : left.Accepted :=
  accepted_iff.mpr fun entry hentry => accepted_iff.mp h entry (hwithin .file hentry)

theorem Within.excludes {more : Engine} (hwithin : left.Within right)
    (hmade : left.engine = .ok engine) (hmore : right.engine = .ok more)
    (hexcludes : engine.excludes case = true) : more.excludes case = true := by
  obtain ⟨kind, hgives⟩ := (excludes_iff hmade).mp hexcludes
  exact (excludes_iff hmore).mpr ⟨kind, hgives.mono (hwithin kind)⟩

theorem kindOf?_congr {again : Engine} (hleft : left.Within right) (hright : right.Within left)
    (hmade : left.engine = .ok engine) (hagain : right.engine = .ok again) :
    engine.kindOf? case = again.kindOf? case := by
  rw [again.kindOf?_eq_find?]
  refine kindOf?_of_gives hmade fun kind => ?_
  rw [isSome_reason?_iff hagain]
  exact ⟨Gives.mono (hright kind), Gives.mono (hleft kind)⟩

theorem engine_append (left right : Parts) :
    ((left ++ right).Accepted ↔ left.Accepted ∧ right.Accepted) ∧
    (∀ error, (left ++ right).engine = .error error ↔
      ∃ front entry rest problem, left.files ++ right.files = front ++ entry :: rest ∧
        (∀ before ∈ front, Engine.globProblem? before = none) ∧
        Engine.globProblem? entry = some problem ∧
        error = .invalidArgument
          (.badPattern entry (String.ofList (FileEntry.ofText entry).name) problem)) ∧
    (∀ both one other, (left ++ right).engine = .ok both → left.engine = .ok one →
      right.engine = .ok other → ∀ case,
        both.excludes case = (one.excludes case || other.excludes case) ∧
        both.kindOf? case = Kind.order.find? fun kind =>
          one.kindOf? case = some kind || other.kindOf? case = some kind) ∧
    (∀ again, left.Within again → again.Within left → (again.Accepted ↔ left.Accepted) ∧
      ∀ engine made, left.engine = .ok engine → again.engine = .ok made → ∀ case,
        made.excludes case = engine.excludes case ∧ made.kindOf? case = engine.kindOf? case) ∧
    (∀ more engine made, left.Within more → left.engine = .ok engine → more.engine = .ok made →
      ∀ case, engine.excludes case = true → made.excludes case = true) := by
  refine ⟨accepted_append, fun error => ?_, ?_, ?_, ?_⟩
  · exact engine_eq_error_iff.trans Engine.faultOf?_eq_some_iff
  · intro both one other hboth hone hother case
    exact ⟨excludes_append hboth hone hother, kindOf?_append hboth hone hother⟩
  · intro again hleft hagain
    refine ⟨⟨hleft.accepted, hagain.accepted⟩, fun engine made hengine hmade case => ?_⟩
    refine ⟨?_, kindOf?_congr hagain hleft hmade hengine⟩
    rw [Bool.eq_iff_iff]
    exact ⟨hagain.excludes hmade hengine, hleft.excludes hengine hmade⟩
  · intro more engine made hwithin hengine hmade case
    exact hwithin.excludes hengine hmade

/-- A glob, also written twice, and a folder. -/
theorem engine_append_folder :
    ∃ both one other twice, Parts.engine ({ files := ["a/*.js"] } ++ { directories := ["A"] }) =
        .ok both ∧ Parts.engine { files := ["a/*.js"] } = .ok one ∧
      Parts.engine { directories := ["A"] } = .ok other ∧
      Parts.engine { files := ["a/*.js", "a/*.js"] } = .ok twice ∧
      both.kindOf? (tagged "test/a/b.js" []) = some .directory ∧
      one.kindOf? (tagged "test/a/b.js" []) = some .pattern ∧
      twice.kindOf? (tagged "test/a/b.js" []) = some .pattern ∧
      both.excludes (tagged "test/a/b.js" []) = true := by
  have hglob (kind : Kind) : decide (kind = .pattern) = true ↔
      Gives { files := ["a/*.js"] } kind (tagged "test/a/b.js" []) := by
    cases kind with
    | pattern =>
        refine iff_of_true rfl ⟨"a/*.js", List.mem_singleton_self _, _, rfl, ?_, ?_⟩
        · decide
        · decide +kernel
    | file =>
        refine iff_of_false (by decide) ?_
        rintro ⟨entry, hentry, hnames⟩
        obtain rfl := List.mem_singleton.mp hentry
        exact absurd hnames.plain (by decide)
    | directory | feature | flag => simp [Gives, entries]
  have hfolder (kind : Kind) : decide (kind = .directory) = true ↔
      Gives { directories := ["A"] } kind (tagged "test/a/b.js" []) := by
    cases kind with
    | directory =>
        refine iff_of_true rfl ⟨"A", List.mem_singleton_self _, ?_, ?_⟩
        · decide +kernel
        · decide +kernel
    | file | feature | flag | pattern => simp [Gives, entries]
  obtain ⟨both, hboth⟩ : ∃ both, Parts.engine
      ({ files := ["a/*.js"] } ++ { directories := ["A"] }) = .ok both := ⟨_, rfl⟩
  obtain ⟨one, hone⟩ : ∃ one, Parts.engine { files := ["a/*.js"] } = .ok one := ⟨_, rfl⟩
  obtain ⟨other, hother⟩ : ∃ other, Parts.engine { directories := ["A"] } = .ok other := ⟨_, rfl⟩
  obtain ⟨twice, htwice⟩ : ∃ twice, Parts.engine { files := ["a/*.js", "a/*.js"] } =
      .ok twice := ⟨_, rfl⟩
  have hkindOne := kindOf?_of_gives hone hglob
  have hkindOther := kindOf?_of_gives hother hfolder
  obtain ⟨-, -, hboths, hagain, hmore⟩ :=
    engine_append { files := ["a/*.js"] } { directories := ["A"] }
  refine ⟨both, one, other, twice, hboth, hone, hother, htwice, ?_, hkindOne, ?_, ?_⟩
  · rw [(hboths both one other hboth hone hother _).2, hkindOne, hkindOther]
    decide
  · refine (((hagain { files := ["a/*.js", "a/*.js"] } ?_ ?_).2 one twice hone htwice _).2).trans
      hkindOne
    · intro kind
      cases kind <;> simp [entries]
    · intro kind
      cases kind <;> simp [entries]
  · refine hmore _ one both ?_ hone hboth _ ((excludes_iff hone).mpr ⟨.pattern, ?_⟩)
    · intro kind
      rw [entries_append]
      exact List.subset_append_left _ _
    · exact (hglob .pattern).mp rfl

end Parts

end Conformance.Exclusion
