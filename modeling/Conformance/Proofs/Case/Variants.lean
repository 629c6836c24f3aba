import Conformance.Proofs.Case.Acceptance

namespace Conformance

/-! Which variants a file has. Its flags decide, wherever and however often they stand. -/

namespace Case

variable {metadata : Metadata} {contents : String} {cases : List Case}

def plainOf (metadata : Metadata) (contents : String) : Case := ⟨metadata, contents, false⟩

/-- A file behind the line that asks for strict mode. -/
def strictOf (metadata : Metadata) (contents : String) : Case :=
  ⟨metadata, "\x22use strict\x22;\n" ++ contents, true⟩

@[simp] theorem asStrict_plainOf :
    (plainOf metadata contents).asStrict = strictOf metadata contents := rfl

@[simp] theorem asStrict_strictOf :
    (strictOf metadata contents).asStrict = strictOf metadata contents := rfl

/-- A module is strict by itself, and is never run behind the line; what asks for
strict mode goes before what refuses it. -/
inductive Expands (metadata : Metadata) (contents : String) : List Case → Prop where
  | module (hmodule : "module" ∈ metadata.flags) (htype : metadata.programType = .module) :
      Expands metadata contents [plainOf metadata contents]
  | strictAlone (hmodule : "module" ∉ metadata.flags) (hstrict : "onlyStrict" ∈ metadata.flags) :
      Expands metadata contents [strictOf metadata contents]
  | plainAlone (hmodule : "module" ∉ metadata.flags) (hstrict : "onlyStrict" ∉ metadata.flags)
      (hplain : "noStrict" ∈ metadata.flags ∨ "raw" ∈ metadata.flags) :
      Expands metadata contents [plainOf metadata contents]
  | both (hmodule : "module" ∉ metadata.flags) (hstrict : "onlyStrict" ∉ metadata.flags)
      (hplain : ¬ ("noStrict" ∈ metadata.flags ∨ "raw" ∈ metadata.flags)) :
      Expands metadata contents [plainOf metadata contents, strictOf metadata contents]

theorem Expands.ne_nil (h : Expands metadata contents cases) : cases ≠ [] := by
  cases h <;> exact List.cons_ne_nil _ _

theorem Expands.metadata_eq (h : Expands metadata contents cases) :
    ∀ case ∈ cases, case.metadata = metadata := by
  cases h <;> simp [plainOf, strictOf]

theorem Expands.asStrict_eq (h : Expands metadata contents cases) :
    ∀ case ∈ cases, case.asStrict = strictOf metadata contents := by
  cases h <;> simp

theorem Expands.pairwise (h : Expands metadata contents cases) :
    cases.Pairwise fun left right => left.same right = false := by
  have hmodes : (plainOf metadata contents).same (strictOf metadata contents) = false := by
    simp [same, identity, plainOf, strictOf]
  cases h with
  | both => simpa using hmodes
  | _ => exact List.pairwise_singleton _ _

theorem Expands.unique {others : List Case} (h : Expands metadata contents cases)
    (h' : Expands metadata contents others) : cases = others := by
  cases h with
  | module =>
      cases h' with
      | module => rfl
      | _ => contradiction
  | strictAlone =>
      cases h' with
      | strictAlone => rfl
      | _ => contradiction
  | plainAlone =>
      cases h' with
      | plainAlone => rfl
      | _ => contradiction
  | both =>
      cases h' with
      | both => rfl
      | _ => contradiction

theorem hasFlag_iff {base : Case} {flag : String} :
    base.hasFlag flag = true ↔ flag ∈ base.metadata.flags := by
  simp [hasFlag]

theorem expands_variants (htype : metadata.programType = .module ↔ "module" ∈ metadata.flags) :
    Expands metadata contents (variants true (plainOf metadata contents)) := by
  unfold variants
  split
  · rename_i hmodule
    exact .module (htype.mp hmodule) hmodule
  · rename_i hmodule
    have hscript : "module" ∉ metadata.flags := fun hflag => hmodule (htype.mpr hflag)
    split
    · rename_i hstrict
      exact .strictAlone hscript (hasFlag_iff.mp hstrict)
    · rename_i hstrict
      have hloose : "onlyStrict" ∉ metadata.flags := fun hflag => hstrict (hasFlag_iff.mpr hflag)
      split
      · rename_i hplain
        simp only [Bool.not_true, Bool.or_false, Bool.or_eq_true, hasFlag_iff] at hplain
        exact .plainAlone hscript hloose hplain
      · rename_i hplain
        simp only [Bool.not_true, Bool.or_false, Bool.or_eq_true, hasFlag_iff] at hplain
        exact .both hscript hloose hplain

theorem variants_unexpanded (base : Case) : variants false base = (variants true base).take 1 := by
  unfold variants
  split
  · rfl
  · split
    · rfl
    · simp only [Bool.not_false, Bool.or_true, if_true, Bool.not_true, Bool.or_false]
      split <;> rfl

end Case

namespace Stream

variable {loader : Metadata.Loader} {text path : String} {expand : Bool} {cases : List Case}

theorem casesOf_eq_map (loader : Metadata.Loader) (text path : String) (expand : Bool) :
    casesOf loader text path expand =
      ((Metadata.ofContents loader (Path.normalize path) text.toList).map fun metadata =>
        Case.variants expand (Case.plainOf metadata text)).mapError
          (.format (Path.normalize path)) := by
  rw [casesOf, Case.load]
  cases Metadata.ofContents loader (Path.normalize path) text.toList <;> rfl

theorem casesOf_unexpanded (loader : Metadata.Loader) (text path : String) :
    casesOf loader text path false = (casesOf loader text path true).map (List.take 1) := by
  simp only [casesOf_eq_map, Case.variants_unexpanded]
  cases Metadata.ofContents loader (Path.normalize path) text.toList <;> rfl

theorem casesOf_eq_ok_iff_expands :
    casesOf loader text path true = .ok cases ↔
      ∃ metadata, Metadata.ofContents loader (Path.normalize path) text.toList = .ok metadata ∧
        Case.Expands metadata text cases := by
  have hvariants {metadata : Metadata}
      (hread : Metadata.ofContents loader (Path.normalize path) text.toList = .ok metadata) :
      Case.Expands metadata text (Case.variants true (Case.plainOf metadata text)) := by
    obtain ⟨mapping, -, hmapping⟩ := Metadata.bind_eq_ok_iff.mp hread
    exact Case.expands_variants (Metadata.ofMapping_eq_ok_iff.mp hmapping).programType
  rw [casesOf_eq_ok_iff_variants]
  constructor
  · rintro ⟨metadata, hread, rfl⟩
    exact ⟨metadata, hread, hvariants hread⟩
  · rintro ⟨metadata, hread, hexpands⟩
    exact ⟨metadata, hread, hexpands.unique (hvariants hread)⟩

/-- Whether a file is to be expanded or not, it is accepted, or refused with the same
error; not expanded it gives the first of its variants. These are told by its flags,
share its metadata, and are all different. -/
theorem casesOf_expanded (loader : Metadata.Loader) (text path : String) :
    (∀ error, casesOf loader text path false = .error error ↔
        casesOf loader text path true = .error error) ∧
      (∀ cases, casesOf loader text path false = .ok cases ↔
        ∃ first others, casesOf loader text path true = .ok (first :: others) ∧
          cases = [first]) ∧
      (∀ cases, casesOf loader text path true = .ok cases ↔
        ∃ metadata, Metadata.ofContents loader (Path.normalize path) text.toList = .ok metadata ∧
          Case.Expands metadata text cases) ∧
      ∀ cases, casesOf loader text path true = .ok cases →
        (∃ metadata, ∀ case ∈ cases, case.metadata = metadata ∧
          case.asStrict = Case.strictOf metadata text ∧ case.asStrict.asStrict = case.asStrict) ∧
        cases.Pairwise fun left right => left.same right = false := by
  refine ⟨fun error => ?_, fun cases => ?_, fun cases => casesOf_eq_ok_iff_expands,
    fun cases hcases => ?_⟩
  · rw [casesOf_unexpanded]
    cases casesOf loader text path true <;> simp [Except.map]
  · rw [casesOf_unexpanded]
    cases hall : casesOf loader text path true with
    | error error => simp [Except.map]
    | ok variants =>
        obtain ⟨metadata, -, hexpands⟩ := casesOf_eq_ok_iff_expands.mp hall
        obtain ⟨first, others, rfl⟩ := List.exists_cons_of_ne_nil hexpands.ne_nil
        simp [Except.map, eq_comm]
  · obtain ⟨metadata, -, hexpands⟩ := casesOf_eq_ok_iff_expands.mp hcases
    refine ⟨⟨metadata, fun case hcase => ?_⟩, hexpands.pairwise⟩
    exact ⟨hexpands.metadata_eq case hcase, hexpands.asStrict_eq case hcase,
      Case.asStrict_asStrict case⟩

/-- A loader that finds no more than these flags in a block, whatever stands in it. -/
def flagged (flags : List String) : Metadata.Loader :=
  fun _ => some (.mapping [(.string "flags", .sequence (flags.map .string))])

/-- What asks for strict mode wins over what refuses it, also where it comes later. -/
theorem casesOf_expanded_strictAlone :
    ∃ metadata, metadata.flags = ["raw", "async", "onlyStrict", "raw"] ∧
      casesOf (flagged ["raw", "async", "onlyStrict", "raw"]) "/*---\nx---*/" "./a.js" false =
        .ok [Case.strictOf metadata "/*---\nx---*/"] := by
  let metadata : Metadata :=
    ⟨"a.js", "", "", "", "", [], [], ["raw", "async", "onlyStrict", "raw"], [], none, .script⟩
  have hread : Metadata.ofContents (flagged metadata.flags) (Path.normalize "./a.js")
      "/*---\nx---*/".toList = .ok metadata := by
    decide +kernel
  obtain ⟨-, hunexpanded, hexpanded, -⟩ :=
    casesOf_expanded (flagged metadata.flags) "/*---\nx---*/" "./a.js"
  have hall := (hexpanded [Case.strictOf metadata "/*---\nx---*/"]).mpr
    ⟨metadata, hread, .strictAlone (by decide) (by decide)⟩
  exact ⟨metadata, rfl, (hunexpanded _).mpr ⟨_, _, hall, rfl⟩⟩

end Stream

end Conformance
