import Conformance.Proofs.Case.Reading

namespace Conformance

open Yaml (Value Mapping)

namespace Metadata

/-! A mapping is read where each entry that matters can be, and what is read is
what it says. -/

variable {fileName key : String} {mapping left right : Mapping} {metadata : Metadata}

theorem bind_eq_ok_iff {α β : Type} {read : Read α} {next : α → Read β} {result : β} :
    (read >>= next) = .ok result ↔ ∃ value, read = .ok value ∧ next value = .ok result := by
  cases read with
  | error problem => simp [bind, Except.bind]
  | ok value => simp [bind, Except.bind]

theorem pure_eq_ok_iff {α : Type} {value result : α} :
    (pure value : Read α) = .ok result ↔ value = result := by
  simp [pure, Except.pure]

theorem expects_iff {entries : Mapping} {expectation : Expectation} :
    Expects entries expectation ↔ ∃ phase errorType, textAt entries "phase" = .ok phase ∧
      textAt entries "type" = .ok errorType ∧
        NegativeTexts.expectation ⟨phase, errorType⟩ = expectation := by
  simp only [textAt_eq_ok_iff]
  constructor
  · rintro ⟨⟨phase, hphase, hreadPhase⟩, errorType, herrorType, hreadType⟩
    refine ⟨phase, errorType, hphase, herrorType, ?_⟩
    rw [NegativeTexts.expectation, ← hreadPhase, ← hreadType]
  · rintro ⟨phase, errorType, hphase, herrorType, rfl⟩
    exact ⟨⟨phase, hphase, by simp only [NegativeTexts.expectation]⟩, errorType, herrorType,
      by simp only [NegativeTexts.expectation]⟩

theorem expectationOf_iff {expectation : Option Expectation} :
    ExpectationOf (mapping.get? "negative") expectation ↔
      ∃ texts, negativeTexts mapping = .ok texts ∧
        texts.map NegativeTexts.expectation = expectation := by
  unfold negativeTexts
  cases mapping.get? "negative" with
  | none =>
      constructor
      · rintro ⟨⟩
        exact ⟨none, rfl, rfl⟩
      · rintro ⟨texts, htexts, rfl⟩
        cases htexts
        exact .absent
  | some value =>
      cases value with
      | null =>
          constructor
          · rintro ⟨⟩
            exact ⟨none, rfl, rfl⟩
          · rintro ⟨texts, htexts, rfl⟩
            cases htexts
            exact .null
      | mapping entries =>
          simp only [bind_eq_ok_iff, pure_eq_ok_iff]
          constructor
          · rintro (_ | _ | hexpects)
            obtain ⟨phase, errorType, hphase, herrorType, rfl⟩ := expects_iff.mp hexpects
            exact ⟨_, ⟨phase, hphase, errorType, herrorType, rfl⟩, rfl⟩
          · rintro ⟨texts, ⟨phase, hphase, errorType, herrorType, rfl⟩, rfl⟩
            exact .expected (expects_iff.mpr ⟨phase, errorType, hphase, herrorType, rfl⟩)
      | bool | number | string | sequence | tagged =>
          constructor
          · rintro ⟨⟩
          · rintro ⟨texts, htexts, -⟩
            cases htexts

theorem exists_expectationOf_iff {entry : Option Value} :
    (∃ expectation, ExpectationOf entry expectation) ↔ ∀ value ∈ entry, IsExpectation value := by
  cases entry with
  | none => simpa using ⟨none, ExpectationOf.absent⟩
  | some value =>
      simp only [Option.mem_def, Option.some.injEq, forall_eq']
      cases value with
      | null => exact ⟨fun _ => trivial, fun _ => ⟨_, .null⟩⟩
      | mapping entries =>
          rw [IsExpectation, ← exists_textOf_iff, ← exists_textOf_iff]
          constructor
          · rintro ⟨expectation, h⟩
            cases h with
            | expected hexpects =>
                obtain ⟨phase, hphase, -⟩ := hexpects.phase
                obtain ⟨errorType, herrorType, -⟩ := hexpects.errorType
                exact ⟨⟨phase, hphase⟩, errorType, herrorType⟩
          · rintro ⟨⟨phase, hphase⟩, errorType, herrorType⟩
            rw [← textAt_eq_ok_iff] at hphase herrorType
            exact ⟨_, .expected (expects_iff.mpr ⟨phase, errorType, hphase, herrorType, rfl⟩)⟩
      | bool | number | string | sequence | tagged =>
          constructor
          · rintro ⟨expectation, h⟩
            cases h
          · exact False.elim

theorem programTypeOf_eq_module_iff {flags : List String} :
    programTypeOf flags = .module ↔ "module" ∈ flags := by
  unfold programTypeOf
  split
  · rename_i hflag
    simpa using hflag
  · rename_i hflag
    simpa using hflag

theorem eq_programTypeOf {flags : List String} {programType : ProgramType}
    (h : programType = .module ↔ "module" ∈ flags) : programType = programTypeOf flags := by
  rw [← programTypeOf_eq_module_iff] at h
  cases programType <;> cases hflags : programTypeOf flags <;> simp_all

theorem ofMapping_eq_ok_iff :
    ofMapping fileName mapping = .ok metadata ↔ Describes fileName mapping metadata := by
  simp only [ofMapping, front, bind_eq_ok_iff, pure_eq_ok_iff, textAt_eq_ok_iff,
    listAt_eq_ok_iff, sectionId_eq_ok_iff]
  constructor
  · rintro ⟨_, ⟨esid, hesid, flags, hflags, negative, hnegative, rfl⟩, author, hauthor,
      description, hdescription, info, hinfo, locale, hlocale, features, hfeatures, includes,
      hincludes, rfl⟩
    exact ⟨rfl, hesid, hauthor, hdescription, hinfo, hlocale, hfeatures, hflags, hincludes,
      expectationOf_iff.mpr ⟨negative, hnegative, rfl⟩, programTypeOf_eq_module_iff⟩
  · rintro ⟨hfile, hesid, hauthor, hdescription, hinfo, hlocale, hfeatures, hflags, hincludes,
      hnegative, hprogram⟩
    obtain ⟨negative, hread, hexpectation⟩ := expectationOf_iff.mp hnegative
    refine ⟨_, ⟨_, hesid, _, hflags, negative, hread, rfl⟩, _, hauthor, _, hdescription, _, hinfo,
      _, hlocale, _, hfeatures, _, hincludes, ?_⟩
    rw [hexpectation, ← eq_programTypeOf hprogram, ← hfile]

theorem exists_describes_iff (fileName : String) :
    (∃ metadata, Describes fileName mapping metadata) ↔ IsReadable mapping := by
  constructor
  · rintro ⟨metadata, h⟩
    refine ⟨exists_textOf_iff.mp ⟨_, h.esid⟩, ?_, ?_, exists_expectationOf_iff.mp ⟨_, h.negative⟩⟩
    · simp only [textKeys, List.forall_mem_cons]
      exact ⟨exists_textOf_iff.mp ⟨_, h.author⟩, exists_textOf_iff.mp ⟨_, h.description⟩,
        exists_textOf_iff.mp ⟨_, h.info⟩, by simp⟩
    · simp only [listKeys, List.forall_mem_cons]
      exact ⟨exists_listOf_iff.mp ⟨_, h.locale⟩, exists_listOf_iff.mp ⟨_, h.features⟩,
        exists_listOf_iff.mp ⟨_, h.flags⟩, exists_listOf_iff.mp ⟨_, h.includes⟩, by simp⟩
  · rintro ⟨hid, htexts, hlists, hnegative⟩
    have htext (key : String) (hkey : key ∈ textKeys) :=
      exists_textOf_iff.mpr (htexts key hkey)
    have hlist (key : String) (hkey : key ∈ listKeys) :=
      exists_listOf_iff.mpr (hlists key hkey)
    obtain ⟨esid, hesid⟩ := exists_textOf_iff.mpr hid
    obtain ⟨author, hauthor⟩ := htext "author" (by simp [textKeys])
    obtain ⟨description, hdescription⟩ := htext "description" (by simp [textKeys])
    obtain ⟨info, hinfo⟩ := htext "info" (by simp [textKeys])
    obtain ⟨locale, hlocale⟩ := hlist "locale" (by simp [listKeys])
    obtain ⟨features, hfeatures⟩ := hlist "features" (by simp [listKeys])
    obtain ⟨flags, hflags⟩ := hlist "flags" (by simp [listKeys])
    obtain ⟨includes, hincludes⟩ := hlist "includes" (by simp [listKeys])
    obtain ⟨negative, hexpectation⟩ := exists_expectationOf_iff.mpr hnegative
    exact ⟨⟨fileName, esid, author, description, info, locale, features, flags, includes, negative,
      programTypeOf flags⟩, rfl, hesid, hauthor, hdescription, hinfo, hlocale, hfeatures, hflags,
      hincludes, hexpectation, programTypeOf_eq_module_iff⟩

/-- What is told of an expectation is the same. -/
def AlikeExpectations (left right : Option Value) : Prop :=
  left = right ∨ ∃ entries others : Mapping, left = some (.mapping entries) ∧
    right = some (.mapping others) ∧ entries.get? "phase" = others.get? "phase" ∧
      entries.get? "type" = others.get? "type"

/-- What is read of two mappings is the same in both. -/
structure Alike (left right : Mapping) : Prop where
  id : sectionEntry left = sectionEntry right
  entries : ∀ key ∈ textKeys ++ listKeys, left.get? key = right.get? key
  negative : AlikeExpectations (left.get? "negative") (right.get? "negative")

theorem textAt_congr (h : left.get? key = right.get? key) : textAt left key = textAt right key := by
  rw [textAt, textAt, h]

theorem listAt_congr (h : left.get? key = right.get? key) : listAt left key = listAt right key := by
  rw [listAt, listAt, h]

theorem negativeTexts_congr
    (h : AlikeExpectations (left.get? "negative") (right.get? "negative")) :
    negativeTexts left = negativeTexts right := by
  unfold negativeTexts
  rcases h with h | ⟨entries, others, hleft, hright, hphase, htype⟩
  · rw [h]
  · simp only [hleft, hright, textAt_congr hphase, textAt_congr htype]

theorem ofMapping_congr (h : Alike left right) :
    ofMapping fileName left = ofMapping fileName right := by
  have htext (key : String) (hkey : key ∈ textKeys ++ listKeys) :
      textAt left key = textAt right key :=
    textAt_congr (h.entries key hkey)
  have hlist (key : String) (hkey : key ∈ textKeys ++ listKeys) :
      listAt left key = listAt right key :=
    listAt_congr (h.entries key hkey)
  have hid : sectionId left = sectionId right := by
    rw [sectionId_eq, sectionId_eq, h.id]
  simp only [ofMapping, front, hid, negativeTexts_congr h.negative,
    htext "author" (by decide), htext "description" (by decide), htext "info" (by decide),
    hlist "locale" (by decide), hlist "features" (by decide), hlist "flags" (by decide),
    hlist "includes" (by decide)]

end Metadata

namespace Stream

open Metadata

variable {loader other : Metadata.Loader} {text path : String} {expand : Bool}
  {cases : List Case}

/-- The mapping that a loader finds in the block of a text. -/
def IsRoot (loader : Metadata.Loader) (text : String) (mapping : Mapping) : Prop :=
  ∃ body, Block.IsBody text.toList body ∧ loader body = some (.mapping mapping)

theorem root_eq_ok_iff {mapping : Mapping} :
    root loader text.toList = .ok mapping ↔ IsRoot loader text mapping := by
  unfold root IsRoot
  simp only [← Block.body_eq_ok_iff]
  cases Block.body text.toList with
  | error problem => simp
  | ok body =>
      simp only [Except.ok.injEq, exists_eq_left']
      split
      · rename_i hnone
        simp [hnone]
      · rename_i found hfound
        simp [hfound]
      · rename_i value hother hvalue
        simp only [hvalue, reduceCtorEq, Option.some.injEq, false_iff]
        rintro rfl
        exact hother _ rfl

theorem casesOf_eq_ok_iff_variants :
    casesOf loader text path expand = .ok cases ↔
      ∃ metadata, ofContents loader (Path.normalize path) text.toList = .ok metadata ∧
        cases = Case.variants expand ⟨metadata, text, false⟩ := by
  have hmap : ∀ {result : Read (List Case)},
      result.mapError (Error.format (Path.normalize path)) = .ok cases ↔ result = .ok cases := by
    rintro (_ | _) <;> simp [Except.mapError]
  simp only [casesOf, hmap, Case.load, bind_eq_ok_iff, pure_eq_ok_iff, @eq_comm _ cases]

theorem casesOf_eq_ok_iff :
    casesOf loader text path expand = .ok cases ↔
      ∃ mapping metadata, IsRoot loader text mapping ∧
        Describes (Path.normalize path) mapping metadata ∧
          cases = Case.variants expand ⟨metadata, text, false⟩ := by
  simp only [casesOf_eq_ok_iff_variants, ofContents, bind_eq_ok_iff, root_eq_ok_iff,
    ofMapping_eq_ok_iff]
  constructor
  · rintro ⟨metadata, ⟨mapping, hroot, hdescribes⟩, rfl⟩
    exact ⟨mapping, metadata, hroot, hdescribes, rfl⟩
  · rintro ⟨mapping, metadata, hroot, hdescribes, rfl⟩
    exact ⟨metadata, ⟨mapping, hroot, hdescribes⟩, rfl⟩

theorem metadata_of_mem_variants {base case : Case} (h : case ∈ Case.variants expand base) :
    case.metadata = base.metadata := by
  rcases Case.eq_of_mem_variants h with rfl | rfl
  · rfl
  · exact Case.metadata_asStrict base

theorem casesOf_congr {left right : Mapping} (hleft : IsRoot loader text left)
    (hright : IsRoot other text right) (halike : Alike left right) :
    casesOf loader text path expand = casesOf other text path expand := by
  rw [← root_eq_ok_iff] at hleft hright
  have hcontents : ofContents loader (Path.normalize path) text.toList =
      ofContents other (Path.normalize path) text.toList := by
    rw [ofContents, ofContents, hleft, hright]
    exact ofMapping_congr halike
  rw [casesOf, casesOf, Case.load, Case.load, hcontents]

/-- A text is accepted where it has a block that is not blank and a mapping in it
whose entries can be read. Its cases then say of themselves what the mapping says,
and nothing else in the mapping matters; any other text is not in the format. -/
theorem casesOf_ok_iff_readable (loader : Metadata.Loader) (text path : String) (expand : Bool) :
    ((∃ cases, casesOf loader text path expand = .ok cases) ↔
        ∃ mapping, IsRoot loader text mapping ∧ IsReadable mapping) ∧
      (∀ error, casesOf loader text path expand = .error error →
        ∃ problem, error = .format (Path.normalize path) problem) ∧
      (∀ cases, casesOf loader text path expand = .ok cases →
        cases ≠ [] ∧ ∃ mapping, IsRoot loader text mapping ∧
          ∀ case ∈ cases, Describes (Path.normalize path) mapping case.metadata) ∧
      ∀ other left right, IsRoot loader text left → IsRoot other text right → Alike left right →
        casesOf loader text path expand = casesOf other text path expand := by
  refine ⟨?_, ?_, ?_, fun other left right => casesOf_congr⟩
  · simp only [casesOf_eq_ok_iff, ← exists_describes_iff (Path.normalize path)]
    constructor
    · rintro ⟨-, mapping, metadata, hroot, hdescribes, -⟩
      exact ⟨mapping, hroot, metadata, hdescribes⟩
    · rintro ⟨mapping, hroot, metadata, hdescribes⟩
      exact ⟨_, mapping, metadata, hroot, hdescribes, rfl⟩
  · intro error herror
    unfold casesOf at herror
    cases hload : Case.load loader text path expand with
    | ok cases =>
        rw [hload] at herror
        cases herror
    | error problem =>
        rw [hload] at herror
        cases herror
        exact ⟨problem, rfl⟩
  · intro cases hcases
    obtain ⟨mapping, metadata, hroot, hdescribes, rfl⟩ := casesOf_eq_ok_iff.mp hcases
    refine ⟨Case.variants_ne_nil _ _, mapping, hroot, fun case hcase => ?_⟩
    rwa [metadata_of_mem_variants hcase]

def marked (older : Value) : Mapping :=
  [(.string "es5id", older), (.string "esid", .string "sec-if"), (.string "flags", .string "raw"),
    (.string "negative", .mapping [(.string "phase", .string "compile"), (.string "type", .null)])]

/-- The older key may hold anything, as long as the newer one is there. -/
theorem casesOf_ok_iff_readable_marked :
    IsRoot (fun _ => some (.mapping (marked .null))) "---*/ /*---\nx---*/---*/" (marked .null) ∧
      IsReadable (marked (.sequence [])) ∧ Alike (marked .null) (marked (.sequence [])) ∧
        ∃ cases, casesOf (fun _ => some (.mapping (marked .null))) "---*/ /*---\nx---*/---*/"
          "./a.js" true = .ok cases := by
  have hbody : Block.IsBody "---*/ /*---\nx---*/---*/".toList "\nx".toList :=
    Block.body_eq_ok_iff.mp (by decide +kernel)
  have hreadable : IsReadable (marked (.sequence [])) := by
    refine ⟨by simp [marked, sectionEntry, Mapping.get?, IsScalar], ?_, ?_, ?_⟩
    · simp [marked, textKeys, Mapping.get?]
    · simp [marked, listKeys, Mapping.get?, IsList]
    · simp [marked, Mapping.get?, IsExpectation, IsScalar]
  have halike : Alike (marked .null) (marked (.sequence [])) := by
    refine ⟨by simp [marked, sectionEntry, Mapping.get?], ?_, .inl ?_⟩
    · simp [marked, textKeys, listKeys, Mapping.get?]
    · simp [marked, Mapping.get?]
  obtain ⟨haccepted, -, -, hsame⟩ := casesOf_ok_iff_readable
    (fun _ => some (.mapping (marked (.sequence [])))) "---*/ /*---\nx---*/---*/" "./a.js" true
  obtain ⟨cases, hcases⟩ := haccepted.mpr ⟨_, ⟨_, hbody, rfl⟩, hreadable⟩
  refine ⟨⟨_, hbody, rfl⟩, hreadable, halike, cases, ?_⟩
  rw [← hcases]
  refine (hsame _ _ _ ⟨_, hbody, rfl⟩ ⟨_, hbody, rfl⟩ ?_).symm
  exact ⟨halike.id.symm, fun key hkey => (halike.entries key hkey).symm, .inl rfl⟩

end Stream

end Conformance
