import Conformance.Corpus.Stream
import Conformance.Proofs.Case.Block
import Mathlib.Data.List.Forall2

namespace Conformance

open Yaml (Value Mapping)

namespace Metadata

/-! What the metadata of a file say, and which mappings can be read. -/

/-- The text of a scalar; a null has none. -/
inductive ScalarText : Value → String → Prop where
  | null : ScalarText .null ""
  | truth : ScalarText (.bool true) "true"
  | falsehood : ScalarText (.bool false) "false"
  | number (number : Yaml.Number) : ScalarText (.number number) number.toText
  | string (text : String) : ScalarText (.string text) text

def IsScalar : Value → Prop
  | .null | .bool _ | .number _ | .string _ => True
  | .sequence _ | .mapping _ | .tagged _ _ => False

/-- The texts of a list: of its items, or the one of a lone string. -/
inductive ListTexts : Value → List String → Prop where
  | null : ListTexts .null []
  | single (text : String) : ListTexts (.string text) [text]
  | items {items : List Value} {texts : List String} (h : List.Forall₂ ScalarText items texts) :
      ListTexts (.sequence items) texts

def IsList : Value → Prop
  | .null | .string _ => True
  | .sequence items => ∀ item ∈ items, IsScalar item
  | .bool _ | .number _ | .mapping _ | .tagged _ _ => False

/-- Where nothing is said of a text or a list, it is empty. -/
def TextOf (entry : Option Value) (text : String) : Prop :=
  entry.elim (text = "") (ScalarText · text)

def ListOf (entry : Option Value) (texts : List String) : Prop :=
  entry.elim (texts = []) (ListTexts · texts)

/-- A phase or a constructor that its text does not name is unknown. -/
structure Expects (entries : Mapping) (expectation : Expectation) : Prop where
  phase : ∃ text, TextOf (entries.get? "phase") text ∧
    expectation.phase = (Phase.ofText? text).getD .unknown
  errorType : ∃ text, TextOf (entries.get? "type") text ∧
    expectation.errorType = (ErrorType.ofText? text).getD .unknown

inductive ExpectationOf : Option Value → Option Expectation → Prop where
  | absent : ExpectationOf none none
  | null : ExpectationOf (some .null) none
  | expected {entries : Mapping} {expectation : Expectation}
      (h : Expects entries expectation) :
      ExpectationOf (some (.mapping entries)) (some expectation)

def IsExpectation : Value → Prop
  | .null => True
  | .mapping entries =>
    (∀ value ∈ Mapping.get? entries "phase", IsScalar value) ∧
      ∀ value ∈ Mapping.get? entries "type", IsScalar value
  | .bool _ | .number _ | .string _ | .sequence _ | .tagged _ _ => False

def sectionEntry (mapping : Mapping) : Option Value :=
  (mapping.get? "esid").or ((mapping.get? "es5id").or (mapping.get? "es6id"))

def textKeys : List String := ["author", "description", "info"]

def listKeys : List String := ["locale", "features", "flags", "includes"]

/-- Every entry that is read has a shape that can be. -/
structure IsReadable (mapping : Mapping) : Prop where
  id : ∀ value ∈ sectionEntry mapping, IsScalar value
  texts : ∀ key ∈ textKeys, ∀ value ∈ mapping.get? key, IsScalar value
  lists : ∀ key ∈ listKeys, ∀ value ∈ mapping.get? key, IsList value
  negative : ∀ value ∈ mapping.get? "negative", IsExpectation value

/-- The metadata of a file are those that its mapping tells. -/
structure Describes (fileName : String) (mapping : Mapping) (metadata : Metadata) : Prop where
  fileName : metadata.fileName = fileName
  esid : TextOf (sectionEntry mapping) metadata.esid
  author : TextOf (mapping.get? "author") metadata.author
  description : TextOf (mapping.get? "description") metadata.description
  info : TextOf (mapping.get? "info") metadata.info
  locale : ListOf (mapping.get? "locale") metadata.locale
  features : ListOf (mapping.get? "features") metadata.features
  flags : ListOf (mapping.get? "flags") metadata.flags
  includes : ListOf (mapping.get? "includes") metadata.includes
  negative : ExpectationOf (mapping.get? "negative") metadata.negative
  programType : metadata.programType = .module ↔ "module" ∈ metadata.flags

variable {key text : String} {texts : List String} {value : Value} {items : List Value}
  {mapping left right : Mapping}

theorem scalar_eq_ok_iff : scalar key value = .ok text ↔ ScalarText value text := by
  constructor
  · intro h
    cases value with
    | null => cases h; exact .null
    | bool value => cases value <;> cases h <;> constructor
    | number number => cases h; exact .number number
    | string text => cases h; exact .string text
    | sequence | mapping | tagged => cases h
  · intro h
    cases h <;> rfl

theorem isScalar_iff : IsScalar value ↔ ∃ text, ScalarText value text := by
  constructor
  · intro h
    cases value with
    | null => exact ⟨_, .null⟩
    | bool value => cases value <;> exact ⟨_, by constructor⟩
    | number number => exact ⟨_, .number number⟩
    | string text => exact ⟨_, .string text⟩
    | sequence | mapping | tagged => exact h.elim
  · rintro ⟨text, h⟩
    cases h <;> trivial

theorem scalars_eq_ok_iff :
    scalars key items = .ok texts ↔ List.Forall₂ ScalarText items texts := by
  induction items generalizing texts with
  | nil => simp [scalars, eq_comm]
  | cons item items ih =>
      rw [scalars]
      cases hitem : scalar key item with
      | error problem =>
          simp only [bind, Except.bind, reduceCtorEq, false_iff]
          rintro (_ | ⟨hhead, -⟩)
          rw [scalar_eq_ok_iff.mpr hhead] at hitem
          cases hitem
      | ok text =>
          cases hitems : scalars key items with
          | error problem =>
              simp only [bind, Except.bind, reduceCtorEq, false_iff]
              rintro (_ | ⟨-, htail⟩)
              rw [ih.mpr htail] at hitems
              cases hitems
          | ok rest =>
              simp only [bind, Except.bind, pure, Except.pure, Except.ok.injEq]
              constructor
              · rintro rfl
                exact .cons (scalar_eq_ok_iff.mp hitem) (ih.mp hitems)
              · rintro (_ | ⟨hhead, htail⟩)
                rw [scalar_eq_ok_iff.mpr hhead] at hitem
                rw [ih.mpr htail] at hitems
                cases hitem
                cases hitems
                rfl

theorem forall_isScalar_iff :
    (∀ item ∈ items, IsScalar item) ↔ ∃ texts, List.Forall₂ ScalarText items texts := by
  induction items with
  | nil => simp
  | cons item items ih =>
      rw [List.forall_mem_cons, ih, isScalar_iff]
      constructor
      · rintro ⟨⟨text, htext⟩, texts, htexts⟩
        exact ⟨text :: texts, .cons htext htexts⟩
      · rintro ⟨_, _ | ⟨htext, htexts⟩⟩
        exact ⟨⟨_, htext⟩, _, htexts⟩

theorem textAt_eq_ok_iff : textAt mapping key = .ok text ↔ TextOf (mapping.get? key) text := by
  unfold textAt TextOf
  cases mapping.get? key with
  | none => simp [eq_comm]
  | some value => exact scalar_eq_ok_iff

theorem listAt_eq_ok_iff : listAt mapping key = .ok texts ↔ ListOf (mapping.get? key) texts := by
  unfold listAt ListOf
  cases mapping.get? key with
  | none => simp [eq_comm]
  | some value =>
      simp only [Option.elim]
      cases value with
      | null =>
          constructor
          · intro h; cases h; exact .null
          · intro h; cases h; rfl
      | string text =>
          constructor
          · intro h; cases h; exact .single text
          · intro h; cases h; rfl
      | sequence items =>
          refine scalars_eq_ok_iff.trans ⟨.items, ?_⟩
          rintro (_ | _ | hitems)
          exact hitems
      | bool | number | mapping | tagged =>
          constructor
          · intro h; cases h
          · intro h; cases h

theorem sectionId_eq :
    sectionId mapping = (sectionEntry mapping).elim (.ok "") (scalar "esid") := by
  have hfirst : ["esid", "es5id", "es6id"].findSome? mapping.get? = sectionEntry mapping := by
    simp only [List.findSome?, sectionEntry]
    cases mapping.get? "esid" <;> cases mapping.get? "es5id" <;> cases mapping.get? "es6id" <;> rfl
  rw [sectionId, hfirst]
  cases sectionEntry mapping <;> rfl

theorem sectionId_eq_ok_iff :
    sectionId mapping = .ok text ↔ TextOf (sectionEntry mapping) text := by
  rw [sectionId_eq, TextOf]
  cases sectionEntry mapping with
  | none => simp [eq_comm]
  | some value => exact scalar_eq_ok_iff

theorem exists_textOf_iff {entry : Option Value} :
    (∃ text, TextOf entry text) ↔ ∀ value ∈ entry, IsScalar value := by
  cases entry with
  | none => simp [TextOf]
  | some value => simp [TextOf, isScalar_iff]

theorem exists_listOf_iff {entry : Option Value} :
    (∃ texts, ListOf entry texts) ↔ ∀ value ∈ entry, IsList value := by
  cases entry with
  | none => simp [ListOf]
  | some value =>
      simp only [ListOf, Option.elim, Option.mem_def, Option.some.injEq, forall_eq']
      cases value with
      | null => exact ⟨fun _ => trivial, fun _ => ⟨_, .null⟩⟩
      | string text => exact ⟨fun _ => trivial, fun _ => ⟨_, .single text⟩⟩
      | sequence items =>
          refine Iff.trans ⟨?_, ?_⟩ forall_isScalar_iff.symm
          · rintro ⟨texts, _ | _ | hitems⟩
            exact ⟨texts, hitems⟩
          · rintro ⟨texts, hitems⟩
            exact ⟨texts, .items hitems⟩
      | bool | number | mapping | tagged =>
          constructor
          · rintro ⟨texts, h⟩
            cases h
          · exact False.elim

end Metadata

end Conformance
