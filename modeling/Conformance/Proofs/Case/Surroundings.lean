import Conformance.Proofs.Case.Offsets
import Conformance.Proofs.Case.Variants

namespace Conformance

/-! What stands around the block of a file does not matter for its metadata. -/

namespace Block

variable {front contents other : List Char} {parts others : Parts}

theorem exists_eq_append {text left right : List Char} (h : front ++ text = left ++ right)
    (hlength : front.length ≤ left.length) :
    ∃ rest, left = front ++ rest ∧ text = rest ++ right := by
  have hprefix : front <+: left :=
    List.prefix_of_prefix_length_le ⟨text, h⟩ (List.prefix_append left right) hlength
  obtain ⟨rest, rfl⟩ := hprefix
  rw [List.append_assoc] at h
  exact ⟨rest, rfl, List.append_cancel_left h⟩

/-- The first opening of a text, and the first closing that starts where the opening has
ended, or later. -/
structure Marks (contents : List Char) (parts : Parts) : Prop where
  whole : contents = parts.before ++ opening ++ parts.body ++ closing ++ parts.after
  first : ∀ front back, contents = front ++ opening ++ back → parts.before.length ≤ front.length
  next : ∀ front back, contents = front ++ closing ++ back →
    (parts.before ++ opening).length ≤ front.length →
      (parts.before ++ opening ++ parts.body).length ≤ front.length

theorem marks_iff : Marks contents parts ↔ IsSplit contents parts := by
  constructor
  · intro h
    refine ⟨parts.body ++ closing ++ parts.after, ⟨by simpa using h.whole, h.first⟩, rfl, ?_⟩
    intro front back hback
    have hlater := h.next (parts.before ++ opening ++ front) back
      (by rw [h.whole]; simpa using hback) (by simp)
    simpa using hlater
  · rintro ⟨rest, hopen, hclose⟩
    have hwhole : contents = parts.before ++ opening ++ rest := hopen.whole
    refine ⟨by rw [hwhole, hclose.whole]; simp, hopen.first, fun front back hback hlength => ?_⟩
    rw [hwhole, List.append_assoc front] at hback
    obtain ⟨passed, rfl, hrest⟩ := exists_eq_append hback hlength
    have hlater := hclose.first passed back (by simpa using hrest)
    simpa using hlater

theorem Marks.unique (h : Marks contents parts) (h' : Marks contents others) : parts = others := by
  rw [marks_iff, ← split_eq_ok_iff] at h h'
  rw [h] at h'
  exact Except.ok.inj h'

theorem split_eq_error {problem : Problem} (h : split contents = .error problem) :
    problem = .noStart ∨ problem = .noEnd := by
  unfold split at h
  split at h
  · cases h
    exact .inl rfl
  · split at h
    · cases h
      exact .inr rfl
    · cases h

theorem body_congr (h : Marks contents parts) (h' : Marks other others)
    (hbody : parts.body = others.body) : Block.body contents = Block.body other := by
  rw [marks_iff, ← split_eq_ok_iff] at h h'
  simp only [Block.body, h, h', hbody]

theorem Marks.behind (h : Marks contents parts) (hfront : '/' ∉ front) :
    Marks (front ++ contents) { parts with before := front ++ parts.before } := by
  refine ⟨by simp [h.whole], fun left right hright => ?_, fun left right hright hlength => ?_⟩
  · rw [List.append_assoc left] at hright
    rcases Nat.lt_or_ge left.length front.length with hshort | hlong
    · obtain ⟨rest, rfl, hrest⟩ := exists_eq_append hright.symm hshort.le
      cases rest with
      | nil => simp at hshort
      | cons c rest =>
          have hslash : '/' = c := (List.cons.inj hrest).1
          exact absurd (hslash ▸ by simp) hfront
    · obtain ⟨rest, rfl, hrest⟩ := exists_eq_append hright hlong
      have hfirst := h.first rest right (by simpa using hrest)
      simpa using hfirst
  · rw [List.append_assoc left] at hright
    have hle : front.length ≤ left.length := by
      simp only [List.length_append] at hlength
      omega
    obtain ⟨rest, rfl, hrest⟩ := exists_eq_append hright hle
    have hnext := h.next rest right (by simpa using hrest)
    simp only [List.length_append] at hlength hnext ⊢
    omega

end Block

namespace Metadata

variable {loader : Loader} {fileName : String} {contents other : List Char}
  {parts others : Block.Parts}

theorem root_congr (h : Block.Marks contents parts) (h' : Block.Marks other others)
    (hbody : parts.body = others.body) : root loader contents = root loader other := by
  rw [root, root, Block.body_congr h h' hbody]

theorem ofContents_congr (h : Block.Marks contents parts) (h' : Block.Marks other others)
    (hbody : parts.body = others.body) :
    ofContents loader fileName contents = ofContents loader fileName other := by
  rw [ofContents, ofContents, root_congr h h' hbody]

theorem ofContents_of_split_error {problem : Block.Problem}
    (h : Block.split contents = .error problem) :
    ofContents loader fileName contents = .error (.block problem) := by
  simp only [ofContents, root, Block.body, h]
  rfl

theorem exists_marks_of_ofContents {metadata : Metadata}
    (h : ofContents loader fileName contents = .ok metadata) :
    ∃ parts, Block.Marks contents parts := by
  cases hsplit : Block.split contents with
  | error problem =>
      rw [ofContents_of_split_error hsplit] at h
      cases h
  | ok parts => exact ⟨parts, Block.marks_iff.mpr (Block.split_eq_ok_iff.mp hsplit)⟩

end Metadata

namespace Case

theorem map_metadata_variants (expand : Bool) (metadata : Metadata) (text other : String) :
    (variants expand (plainOf metadata text)).map Case.metadata =
      (variants expand (plainOf metadata other)).map Case.metadata := by
  simp only [variants, apply_ite (List.map Case.metadata), List.map_cons, List.map_nil,
    metadata_asStrict]
  rfl

end Case

namespace Stream

open Block (Marks)

variable {loader : Metadata.Loader} {text other path : String} {expand : Bool}
  {cases : List Case}

theorem metadata_casesOf_congr {left right : Block.Parts} (hleft : Marks text.toList left)
    (hright : Marks other.toList right) (hbody : left.body = right.body) :
    (casesOf loader text path expand).map (List.map Case.metadata) =
      (casesOf loader other path expand).map (List.map Case.metadata) := by
  have hsame : Metadata.ofContents loader (Path.normalize path) text.toList =
      Metadata.ofContents loader (Path.normalize path) other.toList :=
    Metadata.ofContents_congr hleft hright hbody
  rw [casesOf_eq_map, casesOf_eq_map, hsame]
  cases Metadata.ofContents loader (Path.normalize path) other.toList with
  | error problem => rfl
  | ok metadata => exact congrArg Except.ok (Case.map_metadata_variants expand metadata text other)

theorem slash_not_mem_strictLine : '/' ∉ Case.strictLine.toList := by decide

theorem exists_marks_program (hcases : casesOf loader text path expand = .ok cases) {case : Case}
    (hcase : case ∈ cases) :
    ∃ left right, Marks text.toList left ∧ Marks case.program.toList right ∧
      left.body = right.body := by
  obtain ⟨metadata, hread, rfl⟩ := casesOf_eq_ok_iff_variants.mp hcases
  obtain ⟨parts, hparts⟩ := Metadata.exists_marks_of_ofContents hread
  rcases Case.eq_of_mem_variants hcase with rfl | rfl
  · exact ⟨parts, parts, hparts, hparts, rfl⟩
  · refine ⟨parts, { parts with before := Case.strictLine.toList ++ parts.before }, hparts, ?_, rfl⟩
    have hbehind := hparts.behind slash_not_mem_strictLine
    rwa [← String.toList_append] at hbehind

theorem casesOf_of_no_marks (h : ¬ ∃ parts, Marks text.toList parts) :
    ∃ problem, (problem = .noStart ∨ problem = .noEnd) ∧ ∀ expand,
      casesOf loader text path expand =
        .error (.format (Path.normalize path) (.block problem)) := by
  cases hsplit : Block.split text.toList with
  | error problem =>
      refine ⟨problem, Block.split_eq_error hsplit, fun expand => ?_⟩
      rw [casesOf_eq_map, Metadata.ofContents_of_split_error hsplit]
      rfl
  | ok parts => exact absurd ⟨parts, Block.marks_iff.mpr (Block.split_eq_ok_iff.mp hsplit)⟩ h

/-- A text has no block, and then no cases, or it has one place for it. What stands in front
of the block and behind it changes neither the metadata nor what is wrong with them, so that
each program has the metadata of its file. The bytes of a text can be sliced at its marks. -/
theorem casesOf_of_block (loader : Metadata.Loader) (text path : String) :
    (((¬ ∃ parts, Marks text.toList parts) ∧
        ∃ problem, (problem = .noStart ∨ problem = .noEnd) ∧ ∀ expand,
          casesOf loader text path expand =
            .error (.format (Path.normalize path) (.block problem))) ∨
      ∃! parts, Marks text.toList parts) ∧
      (∀ other left right, Marks text.toList left → Marks other.toList right →
        left.body = right.body →
          (∀ expand, (casesOf loader text path expand).map (List.map Case.metadata) =
            (casesOf loader other path expand).map (List.map Case.metadata)) ∧
          Metadata.fallbacksOf loader text.toList = Metadata.fallbacksOf loader other.toList) ∧
      (∀ expand cases, casesOf loader text path expand = .ok cases → ∀ case ∈ cases, ∀ again,
        ∃ others, casesOf loader case.program path again = .ok others ∧ others ≠ [] ∧
          ∀ other ∈ others, other.metadata = case.metadata) ∧
      Block.sliced? (Text.bytesOf text) =
        some ((Block.split text.toList).map fun parts => Text.encoded parts.body) := by
  refine ⟨?_, fun other left right hleft hright hbody => ⟨fun expand => ?_, ?_⟩, ?_, ?_⟩
  · by_cases h : ∃ parts, Marks text.toList parts
    · obtain ⟨parts, hparts⟩ := h
      exact .inr ⟨parts, hparts, fun others hothers => hothers.unique hparts⟩
    · exact .inl ⟨h, casesOf_of_no_marks h⟩
  · exact metadata_casesOf_congr hleft hright hbody
  · rw [Metadata.fallbacksOf, Metadata.fallbacksOf, Metadata.root_congr hleft hright hbody]
  · intro expand cases hcases case hcase again
    obtain ⟨left, right, hleft, hright, hbody⟩ := exists_marks_program hcases hcase
    obtain ⟨metadata, hread, rfl⟩ := casesOf_eq_ok_iff_variants.mp hcases
    have hagain : Metadata.ofContents loader (Path.normalize path) case.program.toList =
        .ok metadata :=
      (Metadata.ofContents_congr hright hleft hbody.symm).trans hread
    refine ⟨_, casesOf_eq_ok_iff_variants.mpr ⟨metadata, hagain, rfl⟩,
      Case.variants_ne_nil _ _, fun other hother => ?_⟩
    rw [metadata_of_mem_variants hother, metadata_of_mem_variants hcase]
  · rw [Text.bytesOf_eq_encoded, Block.sliced?_encoded]

/-- An end mark that shares the dashes of the start mark is none, and neither is one in front
of it. In strict mode such a file has the same metadata again. -/
theorem casesOf_of_block_overlapping :
    Marks "/*---*/ x ---*/é".toList ⟨[], "*/ x ".toList, "é".toList⟩ ∧
      Marks "é---*//*---*/ x ---*//*---".toList
        ⟨"é---*/".toList, "*/ x ".toList, "/*---".toList⟩ ∧
      (casesOf (flagged ["onlyStrict"]) "/*---*/ x ---*/é" "./a.js" true).map
          (List.map Case.metadata) =
        (casesOf (flagged ["onlyStrict"]) "é---*//*---*/ x ---*//*---" "./a.js" true).map
          (List.map Case.metadata) ∧
      ∃ case others, casesOf (flagged ["onlyStrict"]) "/*---*/ x ---*/é" "./a.js" true =
          .ok [case] ∧ case.strict = true ∧
        casesOf (flagged ["onlyStrict"]) case.program "./a.js" true = .ok others ∧
          ∀ other ∈ others, other.metadata = case.metadata := by
  have hleft : Marks "/*---*/ x ---*/é".toList ⟨[], "*/ x ".toList, "é".toList⟩ :=
    Block.marks_iff.mpr (Block.split_eq_ok_iff.mp (by decide +kernel))
  have hright : Marks "é---*//*---*/ x ---*//*---".toList
      ⟨"é---*/".toList, "*/ x ".toList, "/*---".toList⟩ :=
    Block.marks_iff.mpr (Block.split_eq_ok_iff.mp (by decide +kernel))
  obtain ⟨-, hsame, hagain, -⟩ :=
    casesOf_of_block (flagged ["onlyStrict"]) "/*---*/ x ---*/é" "./a.js"
  let metadata : Metadata :=
    ⟨"a.js", "", "", "", "", [], [], ["onlyStrict"], [], none, .script⟩
  have hread : Metadata.ofContents (flagged ["onlyStrict"]) (Path.normalize "./a.js")
      "/*---*/ x ---*/é".toList = .ok metadata := by
    decide +kernel
  have hcases := casesOf_eq_ok_iff_expands.mpr
    ⟨metadata, hread, .strictAlone (by decide) (by decide)⟩
  obtain ⟨others, hothers, -, hmetadata⟩ := hagain true _ hcases _ List.mem_cons_self true
  exact ⟨hleft, hright, (hsame _ _ _ hleft hright rfl).1 true, _, others, hcases, rfl, hothers,
    hmetadata⟩

end Stream

end Conformance
