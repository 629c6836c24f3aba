import Conformance.Proofs.Case.Acceptance
import Conformance.Proofs.Exclusion.Composition
import Conformance.Proofs.Path.Form

namespace Conformance

open Conformance.Exclusion

/-! A case in a list of files. What a case is written as names that case, in its mode, and no
other one. -/

namespace Case

/-- The cases there are: those that are loaded, and those of them in strict mode. -/
inductive Arises : Case → Prop
  | loaded {loader : Metadata.Loader} {contents fileName : String} {expand : Bool}
      {cases : List Case} {case : Case}
      (hload : load loader contents fileName expand = .ok cases) (hcase : case ∈ cases) :
      Arises case
  | strict {case : Case} (h : Arises case) : Arises case.asStrict

theorem fileName_of_mem_load {loader : Metadata.Loader} {contents fileName : String}
    {expand : Bool} {cases : List Case} {case : Case}
    (hload : load loader contents fileName expand = .ok cases) (hcase : case ∈ cases) :
    case.fileName = Path.normalize fileName := by
  have hloaded : Stream.casesOf loader contents fileName expand = .ok cases := by
    rw [Stream.casesOf, hload]
    rfl
  obtain ⟨mapping, metadata, -, hdescribes, rfl⟩ := Stream.casesOf_eq_ok_iff.mp hloaded
  rw [Case.fileName, Stream.metadata_of_mem_variants hcase]
  exact hdescribes.fileName

theorem Arises.exists_path {case : Case} (h : case.Arises) :
    ∃ path, case.fileName = Path.normalize path := by
  induction h with
  | loaded hload hcase => exact ⟨_, fileName_of_mem_load hload hcase⟩
  | strict h ih =>
      obtain ⟨path, hpath⟩ := ih
      exact ⟨path, by rw [fileName, metadata_asStrict]; exact hpath⟩

theorem testName_of_below {case : Case} {rest : String} (hbelow : case.fileName = "test/" ++ rest) :
    case.testName = rest := by
  have hstrip : Text.stripStart? "test/" case.fileName = some rest :=
    Text.stripStart?_eq_some_iff.mpr hbelow
  rw [testName, hstrip]
  rfl

theorem lowercase_fileName_eq_iff {left right : Case} {rest more : String}
    (hleft : left.fileName = "test/" ++ rest) (hright : right.fileName = "test/" ++ more) :
    Text.lowercase left.fileName = Text.lowercase right.fileName ↔
      Engine.caseName left = Engine.caseName right := by
  have hlowered (text : String) : Text.lowered ("test/" ++ text).toList =
      Text.lowered "test".toList ++ '/' :: Text.lowered text.toList := by
    rw [← Text.lowered_append_slash, String.toList_append]
    rfl
  simp only [Engine.caseName, testName_of_below hleft, testName_of_below hright, hleft, hright,
    Text.lowercase, String.ofList_inj, hlowered, List.append_cancel_left_eq, List.cons.injEq,
    true_and]

/-- A case below the test folder whose name is no glob and has no blank at its end. -/
structure Listable (case : Case) : Prop where
  arises : case.Arises
  below : ∃ rest, case.fileName = "test/" ++ rest
  plain : ∀ c ∈ case.fileName.toList, isGlobMark c = false
  ending : ∀ c, case.fileName.toList.getLast? = some c → Text.isBlank c = false

end Case

namespace Text

theorem trimmed_eq_self {text : List Char}
    (hfirst : ∀ c, text.head? = some c → isBlank c = false)
    (hlast : ∀ c, text.getLast? = some c → isBlank c = false) : trimmed text = text := by
  have hkept {chars : List Char} (h : ∀ c, chars.head? = some c → isBlank c = false) :
      chars.dropWhile isBlank = chars := by
    cases chars with
    | nil => rfl
    | cons c chars => exact List.dropWhile_cons_of_neg (by simp [h c rfl])
  rw [trimmed, trimEnd, trimStart, hkept hfirst, hkept (by simpa using hlast), List.reverse_reverse]

end Text

namespace Exclusion

variable {case : Case} {rest : String}

theorem splitScope_strict (name : List Char) :
    splitScope (name ++ "(strict mode)".toList) = (name, some true) := by
  rw [splitScope, Text.before?_eq_some_iff.mpr rfl]

theorem splitScope_default (name : List Char) :
    splitScope (name ++ "(default)".toList) = (name, some false) := by
  have hother : Text.before? "(strict mode)".toList (name ++ "(default)".toList) = none := by
    rw [Option.eq_none_iff_forall_ne_some]
    intro front hfront
    have hback := congrArg List.reverse (Text.before?_eq_some_iff.mp hfront)
    simp at hback
  rw [splitScope, hother, Text.before?_eq_some_iff.mpr rfl]

theorem splitScope_display (case : Case) :
    splitScope case.display.toList = (case.fileName.toList, some case.strict) := by
  rw [Case.display, String.toList_append]
  cases case.strict with
  | true => exact splitScope_strict _
  | false => exact splitScope_default _

theorem nameOf_of_listable (h : case.Listable) (hbelow : case.fileName = "test/" ++ rest) :
    nameOf case.fileName.toList = Text.lowered rest.toList := by
  obtain ⟨path, hpath⟩ := h.arises.exists_path
  have hchars : case.fileName.toList = 't' :: ("est/".toList ++ rest.toList) := by
    rw [hbelow, String.toList_append]
    rfl
  have htrimmed : Text.trimmed case.fileName.toList = case.fileName.toList := by
    refine Text.trimmed_eq_self ?_ h.ending
    rw [hchars]
    rintro c ⟨⟩
    decide
  have hnormal : Path.normalized case.fileName.toList = case.fileName.toList := by
    have hwithin : Path.isWithin "test" (Path.normalize path) = true :=
      Path.isWithin_iff.mpr (.inr ⟨rest, hpath ▸ hbelow⟩)
    rw [← Path.toList_normalize, hpath,
      Path.normalize_normalize_of_within (by decide) hwithin]
  have hafter : Text.after? "test/".toList case.fileName.toList = some rest.toList :=
    Text.after?_eq_some_iff.mpr (by rw [hbelow, String.toList_append])
  rw [nameOf, testRelative, htrimmed, hnormal, hafter]
  rfl

theorem ofText_display (h : case.Listable) :
    FileEntry.ofText case.display =
      ⟨case.display, (Engine.caseName case).toList, some case.strict⟩ := by
  obtain ⟨rest, hbelow⟩ := h.below
  have htrimmed : Text.trimmed case.display.toList = case.display.toList := by
    rw [Case.display, String.toList_append]
    apply Text.trimmed_eq_self
    · rw [hbelow, String.toList_append]
      rintro c ⟨⟩
      decide
    · obtain ⟨front, hfront⟩ : ∃ front,
          (if case.strict then "(strict mode)" else "(default)").toList = front ++ [')'] := by
        cases case.strict
        · exact ⟨"(default".toList, rfl⟩
        · exact ⟨"(strict mode".toList, rfl⟩
      rw [hfront, ← List.append_assoc, List.getLast?_concat]
      rintro c ⟨⟩
      decide
  simp only [FileEntry.ofText, htrimmed, splitScope_display, nameOf_of_listable h hbelow,
    Engine.caseName, Case.testName_of_below hbelow, Text.lowercase, String.toList_ofList,
    String.ofList_toList]

theorem isPattern_display (h : case.Listable) :
    (FileEntry.ofText case.display).isPattern = false := by
  rw [FileEntry.isPattern_ofText, hasGlobMark, List.any_eq_false]
  intro c hc hmark
  rw [Case.display, String.toList_append, List.mem_append] at hc
  rcases hc with hc | hc
  · rw [h.plain c hc] at hmark
    cases hmark
  · have hplain : (if case.strict then "(strict mode)" else "(default)").toList.all
        (fun c => !isGlobMark c) = true := by
      cases case.strict <;> decide
    rw [List.all_eq_true] at hplain
    simpa [hmark] using hplain c hc

theorem caseName_ne_empty (h : case.Listable) : (Engine.caseName case).toList ≠ [] := by
  obtain ⟨rest, hbelow⟩ := h.below
  obtain ⟨path, hpath⟩ := h.arises.exists_path
  intro hempty
  rw [Engine.caseName, Case.testName_of_below hbelow, String.toList_eq_nil_iff,
    Text.lowercase_eq_empty_iff] at hempty
  have hlast := Path.getLast?_normalized path.toList
  rw [← Path.toList_normalize, ← hpath, hbelow, hempty, String.toList_append] at hlast
  exact hlast rfl

theorem names_display_iff (h : case.Listable) {name : String} {strict : Bool} :
    (FileEntry.ofText case.display).Names name strict ↔
      Engine.caseName case = name ∧ case.strict = strict := by
  have hplain := isPattern_display h
  have hnamed := caseName_ne_empty h
  rw [ofText_display h] at hplain ⊢
  constructor
  · rintro ⟨-, -, hname, hcovers⟩
    exact ⟨by simpa using hname, by simpa [Scope.covers] using hcovers⟩
  · rintro ⟨hname, hstrict⟩
    exact ⟨hplain, by simpa using hnamed, by simpa using hname,
      by simpa [Scope.covers] using hstrict⟩

def ExactEntry.ofText? (entry : String) : Option ExactEntry :=
  let file := FileEntry.ofText entry
  if file.isPattern = false ∧ file.name ≠ [] then some ⟨file.written, String.ofList file.name⟩
  else none

namespace Engine

variable {engine next : Engine} {entry : String} {files : List String}

theorem exactEntries_added (hadded : engine.Added entry next) :
    next.exactEntries = engine.exactEntries ++ (ExactEntry.ofText? entry).toList := by
  cases hadded with
  | unnamed hname => simp [ExactEntry.ofText?, hname]
  | pattern pattern hpattern hread => simp [ExactEntry.ofText?, hpattern]
  | exact hname hplain => simp [ExactEntry.ofText?, hname, hplain]

theorem exactEntries_foldlM (hfold : files.foldlM addFile engine = .ok next) :
    next.exactEntries = engine.exactEntries ++ files.filterMap ExactEntry.ofText? := by
  induction files generalizing engine with
  | nil =>
      cases hfold
      simp
  | cons entry files ih =>
      rw [List.foldlM_cons] at hfold
      cases hadd : engine.addFile entry with
      | error problem =>
          rw [hadd] at hfold
          cases hfold
      | ok middle =>
          rw [hadd] at hfold
          rw [ih hfold, exactEntries_added (added_of_addFile hadd), List.append_assoc,
            List.filterMap_cons]
          cases ExactEntry.ofText? entry <;> rfl

theorem exactEntries_ofParts {features flags directories : List String}
    (hmade : ofParts files features flags directories = .ok engine) :
    engine.exactEntries = files.filterMap ExactEntry.ofText? := by
  unfold ofParts at hmade
  cases hfold : files.foldlM addFile {} with
  | error problem =>
      rw [hfold] at hmade
      cases hmade
  | ok read =>
      rw [hfold] at hmade
      cases hmade
      exact exactEntries_foldlM hfold

theorem unrecognized_eq_nil {cases : List Case}
    (hseen : ∀ entry ∈ engine.exactEntries, ∃ case ∈ cases, caseName case = entry.name) :
    engine.unrecognized cases = [] := by
  have hnone : (engine.exactEntries.filter fun entry =>
      !(Std.HashSet.ofList (cases.map caseName)).contains entry.name) = [] := by
    rw [List.filter_eq_nil_iff]
    intro entry hentry
    obtain ⟨case, hcase, hname⟩ := hseen entry hentry
    simpa using ⟨case, hcase, hname⟩
  have hsorted : Path.sortPaths [] = [] := List.mergeSort_nil
  rw [unrecognized, hnone, List.map_nil, hsorted, withoutRepeats]

end Engine

def listing (cases : List Case) : Parts where
  files := cases.map Case.display

variable {cases : List Case}

theorem accepted_listing (hlisted : ∀ case ∈ cases, case.Listable) :
    (listing cases).Accepted := by
  refine Parts.accepted_iff.mpr fun entry hentry => ?_
  obtain ⟨case, hcase, rfl⟩ := List.mem_map.mp hentry
  simp [Engine.globProblem?, isPattern_display (hlisted case hcase)]

theorem gives_listing_iff (hlisted : ∀ case ∈ cases, case.Listable) {kind : Kind} {other : Case} :
    (listing cases).Gives kind other ↔ kind = .file ∧ ∃ case ∈ cases,
      Engine.caseName case = Engine.caseName other ∧ case.strict = other.strict := by
  cases kind with
  | directory | feature | flag => simp [Parts.Gives, Parts.entries, listing]
  | file =>
      simp only [Parts.Gives, Parts.entries, listing, List.mem_map, exists_exists_and_eq_and,
        Kind.Takes, true_and]
      exact exists_congr fun case => and_congr_right fun hcase =>
        names_display_iff (hlisted case hcase)
  | pattern =>
      refine iff_of_false ?_ (by simp)
      rintro ⟨entry, hentry, made, hread, -⟩
      obtain ⟨case, hcase, rfl⟩ := List.mem_map.mp hentry
      simp [PatternEntry.ofText?, isPattern_display (hlisted case hcase)] at hread

/-- Cases written out exclude the cases of these names in these modes, by name, and each of them
is recognised. -/
theorem excludes_listing_iff (cases : List Case) (hlisted : ∀ case ∈ cases, case.Listable) :
    ∃ engine, Engine.ofParts (cases.map Case.display) [] [] [] = .ok engine ∧
      (∀ (other : Case) (rest : String), other.fileName = "test/" ++ rest →
        (engine.excludes other = true ↔ ∃ case ∈ cases,
          Text.lowercase case.fileName = Text.lowercase other.fileName ∧
            case.strict = other.strict) ∧
        ∀ reason, engine.resolve other = some reason → reason.kind = .file) ∧
      engine.unrecognized cases = [] := by
  obtain ⟨engine, hmade⟩ := accepted_listing hlisted
  refine ⟨engine, hmade, fun other rest hother => ⟨?_, fun reason hreason => ?_⟩, ?_⟩
  · rw [Parts.excludes_iff hmade]
    simp only [gives_listing_iff hlisted, exists_eq_left]
    refine exists_congr fun case => and_congr_right fun hcase => and_congr_left' ?_
    obtain ⟨more, hbelow⟩ := (hlisted case hcase).below
    exact (Case.lowercase_fileName_eq_iff hbelow hother).symm
  · have hkind : engine.kindOf? other = some reason.kind := congrArg (Option.map _) hreason
    rw [Engine.kindOf?_eq_find?] at hkind
    have hgives := (Parts.isSome_reason?_iff hmade).mp
      (List.find?_some (p := fun kind => (engine.reason? other kind).isSome) hkind)
    exact ((gives_listing_iff hlisted).mp hgives).1
  · refine Engine.unrecognized_eq_nil fun entry hentry => ?_
    rw [Engine.exactEntries_ofParts hmade, List.mem_filterMap] at hentry
    obtain ⟨written, hwritten, hentry⟩ := hentry
    obtain ⟨case, hcase, rfl⟩ := List.mem_map.mp hwritten
    rw [ExactEntry.ofText?, ofText_display (hlisted case hcase)] at hentry
    obtain ⟨-, hentry⟩ := Option.ite_none_right_eq_some.mp hentry
    cases hentry
    exact ⟨case, hcase, by simp⟩

/-- A name that looks like an entry itself. -/
def modelike : Case :=
  { tagged "test/test/A(default)" [] with program := "/*---\nx---*/" }

theorem excludes_listing_iff_modelike :
    ∃ engine, Engine.ofParts ["test/test/A(default)(default)"] [] [] [] = .ok engine ∧
      engine.excludes (tagged "test/test/a(DEFAULT)" []) = true ∧
      engine.excludes modelike.asStrict = false ∧ engine.unrecognized [modelike] = [] := by
  have hload : Case.load (fun _ => some (.mapping [])) "/*---\nx---*/" "./test/test/A(default)"
      false = .ok [modelike] := rfl
  have hplain : modelike.fileName.toList.all (fun c => !isGlobMark c) = true := by decide
  have hlistable : modelike.Listable := by
    refine ⟨.loaded hload (List.mem_singleton_self _), ⟨"test/A(default)", rfl⟩, ?_, ?_⟩
    · intro c hc
      simpa using List.all_eq_true.mp hplain c hc
    · rintro c ⟨⟩
      decide
  obtain ⟨engine, hmade, hexcludes, hunrecognized⟩ :=
    excludes_listing_iff [modelike] (List.forall_mem_singleton.mpr hlistable)
  refine ⟨engine, hmade, ?_, ?_, hunrecognized⟩
  · rw [(hexcludes (tagged "test/test/a(DEFAULT)" []) "test/a(DEFAULT)" rfl).1]
    exact ⟨modelike, List.mem_singleton_self _, by decide +kernel, rfl⟩
  · rw [Bool.eq_false_iff, Ne, (hexcludes modelike.asStrict "test/A(default)" rfl).1]
    rintro ⟨case, hcase, -, hstrict⟩
    obtain rfl := List.mem_singleton.mp hcase
    cases hstrict

end Exclusion

end Conformance
