import Conformance.Proofs.Exclusion.SameReading
import Conformance.Proofs.Exclusion.TestFolder

namespace Conformance

/-! A line in a list of files, against the same text among the rules. The list takes the test
folder off a line before its entry is read, and reading the entry takes off what it finds then. -/

namespace Text

theorem lines_single {line : List Char} (h : '\n' ∉ line) (hne : line ≠ []) :
    lines line = [line] := by
  rw [lines, List.splitOn_eq_singleton h, closedLines, if_neg hne]

theorem lines_ended {line : List Char} (h : '\n' ∉ line) :
    lines (line ++ ['\n']) = [withoutReturn line] := by
  have hrest : List.splitOn '\n' ([] : List Char) = [[]] := rfl
  rw [lines, List.splitOn_append_cons_self, List.splitOn_eq_singleton h, hrest,
    List.singleton_append, closedLines]
  rfl

theorem trimmed_withoutReturn (line : List Char) : trimmed (withoutReturn line) = trimmed line := by
  rw [withoutReturn]
  split
  · rename_i hlast
    obtain ⟨front, rfl⟩ := List.getLast?_eq_some_iff.mp hlast
    rw [List.dropLast_concat, trimmed_concat (by decide)]
  · rfl

theorem fromUTF8?_toUTF8 (text : String) : String.fromUTF8? text.toUTF8 = some text := by
  have hvalid : text.toUTF8.IsValidUTF8 := text.isValidUTF8
  rw [String.fromUTF8?, dif_pos hvalid]
  rfl

end Text

namespace Exclusion

def Rules.listed (rules : Rules) (read : String → Except Host.Fault ByteArray) :
    Except Error (List String) :=
  match rules.source with
  | none => .ok []
  | some path => ListFile.ofRead path (read path)

def Rules.parts (rules : Rules) (listed : List String) : Parts where
  files := rules.files ++ listed
  features := rules.features
  flags := rules.flags
  directories := rules.directories

namespace Engine

variable {rules : Rules} {engine : Engine} {read : String → Except Host.Fault ByteArray}

theorem ofRules_eq (rules : Rules) (read : String → Except Host.Fault ByteArray) :
    ofRules rules read = (rules.listed read).bind fun listed => (rules.parts listed).engine := by
  rw [ofRules, Rules.listed]
  cases rules.source <;> rfl

theorem ofRules_eq_ok_iff : ofRules rules read = .ok engine ↔
    ∃ listed, rules.listed read = .ok listed ∧ (rules.parts listed).engine = .ok engine := by
  rw [ofRules_eq]
  cases rules.listed read with
  | error error => simp [Except.bind]
  | ok listed => simp [Except.bind]

theorem ofRules_of_no_source (hsource : rules.source = none) :
    ofRules rules read = ofParts rules.files rules.features rules.flags rules.directories := by
  simp only [ofRules_eq, Rules.listed, hsource, Except.bind, Rules.parts, Parts.engine,
    List.append_nil]

end Engine

namespace ListFile

variable {line : List Char}

/-- A line that is not blank and no comment. -/
structure Counts (line : List Char) : Prop where
  spelled : Text.trimmed line ≠ []
  first : (Text.trimmed line).head? ≠ some '#'

def entryOf (line : List Char) : List Char :=
  (Text.after? "test/".toList (Text.trimmed line)).getD (Text.trimmed line)

theorem entryOf?_eq (h : Counts line) : entryOf? line = some (.ofList (entryOf line)) := by
  obtain ⟨hspelled, hfirst⟩ := h
  rw [entryOf?]
  split
  · contradiction
  · rename_i rest hcomment
    rw [hcomment] at hfirst
    exact absurd rfl hfirst
  · rfl

def ofLine (line : String) (ended : Bool) : String :=
  if ended then line ++ "\n" else line

theorem entries_ofLine {line : String} (hsingle : '\n' ∉ line.toList)
    (hcounts : Counts line.toList) (ended : Bool) :
    entries (ofLine line ended) = [.ofList (entryOf line.toList)] := by
  have hne : line.toList ≠ [] := by
    intro hempty
    exact hcounts.spelled (by rw [hempty]; rfl)
  cases ended with
  | false =>
      rw [entries, ofLine, if_neg Bool.false_ne_true, Text.lines_single hsingle hne,
        List.filterMap_cons, entryOf?_eq hcounts]
      rfl
  | true =>
      have hsame : entryOf? (Text.withoutReturn line.toList) = entryOf? line.toList := by
        rw [entryOf?, entryOf?, Text.trimmed_withoutReturn]
      rw [entries, ofLine, if_pos rfl, String.toList_append]
      change (Text.lines (line.toList ++ ['\n'])).filterMap entryOf? = _
      rw [Text.lines_ended hsingle, List.filterMap_cons, hsame, entryOf?_eq hcounts]
      rfl

theorem ofRules_list {path : String} {line : String}
    {read : String → Except Host.Fault ByteArray} {ended : Bool}
    (hread : read path = .ok (ofLine line ended).toUTF8) (hsingle : '\n' ∉ line.toList)
    (hcounts : Counts line.toList) :
    Engine.ofRules { source := some path } read =
      Parts.engine { files := [.ofList (entryOf line.toList)] } := by
  have hlisted : Rules.listed { source := some path } read =
      .ok [.ofList (entryOf line.toList)] := by
    simp only [Rules.listed, hread, ofRead, Text.fromUTF8?_toUTF8, entries_ofLine hsingle hcounts]
  simp only [Engine.ofRules_eq, hlisted, Except.bind, Rules.parts, List.nil_append]

end ListFile

theorem trimStart_append_mark (name : List Char) (scope : Scope) :
    Text.trimStart (name ++ scope.mark) = Text.trimStart name ++ scope.mark := by
  have hmark : scope.mark.dropWhile Text.isBlank = scope.mark := by
    match scope with
    | none | some false | some true => decide
  rw [Text.trimStart, Text.trimStart, List.dropWhile_append, hmark]
  split
  · rename_i hblank
    rw [List.isEmpty_iff.mp hblank, List.nil_append]
  · rfl

theorem splitScope_trimStart (entry : List Char) : splitScope (Text.trimStart entry) =
    (Text.trimStart (splitScope entry).1, (splitScope entry).2) := by
  obtain ⟨hentry, hnone⟩ := splitScope_eq_iff.mp (Prod.eta (splitScope entry)).symm
  refine splitScope_eq_iff.mpr ⟨?_, fun hscope mode hmark => hnone hscope mode ?_⟩
  · rw [← trimStart_append_mark, ← hentry]
  · exact hmark.trans (List.dropWhile_suffix _)

theorem splitScope_below (entry : List Char) : splitScope ("test/".toList ++ entry) =
    ("test/".toList ++ (splitScope entry).1, (splitScope entry).2) := by
  obtain ⟨hentry, hnone⟩ := splitScope_eq_iff.mp (Prod.eta (splitScope entry)).symm
  refine splitScope_eq_iff.mpr ⟨?_, fun hscope mode hmark => hnone hscope mode ?_⟩
  · rw [List.append_assoc, ← hentry]
  · rcases List.suffix_or_suffix_of_suffix hmark (List.suffix_append _ entry) with hin | hover
    · exact hin
    · obtain ⟨front, hfront⟩ := hover
      obtain ⟨before, hbefore⟩ := hmark
      rw [← hfront, ← List.append_assoc, List.append_cancel_right_eq] at hbefore
      cases front using List.reverseRecOn with
      | nil => exact hfront ▸ List.suffix_refl _
      | append_singleton front c =>
          have hlast := congrArg List.getLast? hbefore
          rw [← List.append_assoc, List.getLast?_concat] at hlast
          obtain rfl : c = '/' := Option.some.inj hlast
          exact absurd (hfront ▸ by simp) (slash_not_mem_mark (some mode))

/-- Behind the test folder of a line stands nothing that is taken off once the folder is. -/
def Steady (line : List Char) : Prop :=
  ∀ entry, Text.trimmed line = "test/".toList ++ entry → Kept (pathOf (splitScope entry).1)

section

variable {line : String} {entry : List Char}

theorem trimmed_of_below (h : Text.trimmed line.toList = "test/".toList ++ entry) :
    Text.trimmed entry = Text.trimStart entry := by
  have hend : (Text.trimmed line.toList).rdropWhile Text.isBlank = Text.trimmed line.toList :=
    List.rdropWhile_idempotent _ _
  have hfolder : ("test/".toList ++ entry).rdropWhile Text.isBlank =
      "test/".toList ++ entry.rdropWhile Text.isBlank :=
    Text.rdropWhile_append_cons (by decide) "test".toList entry
  rw [h, hfolder, List.append_cancel_left_eq] at hend
  rw [Text.trimmed_eq, hend, Text.trimStart]

theorem nameOf_trimStart (name : List Char) : nameOf (Text.trimStart name) = nameOf name := by
  rw [nameOf, nameOf, testRelative, testRelative, Text.trimmed_trimStart]

theorem nameOf_below_ne_nil (name : List Char) : nameOf ("test/".toList ++ name) ≠ [] := by
  rw [nameOf, Ne, Text.lowered_eq_nil_iff, testRelative_below]
  split
  · decide
  · assumption

theorem nameOf_below_iff (name : List Char) :
    nameOf name = nameOf ("test/".toList ++ name) ↔ Kept (pathOf name) := by
  rw [nameOf, nameOf, testRelative_below]
  split
  · rename_i hnone
    refine iff_of_false (fun h => ?_) fun h => h.named hnone
    have hempty := testRelative_suffix name
    rw [hnone, List.suffix_nil] at hempty
    rw [hempty, eq_comm] at h
    exact absurd (Text.lowered_eq_nil_iff.mp h) (by decide)
  · rename_i hsome
    rw [Text.lowered_eq_iff_of_suffix (testRelative_suffix name), testRelative_eq_iff hsome]

theorem sameReading_trimmed (entry : String) :
    (FileEntry.ofText (.ofList (Text.trimmed entry.toList))).SameReading
      (FileEntry.ofText entry) := by
  have hsame : FileEntry.ofText (.ofList (Text.trimmed entry.toList)) = FileEntry.ofText entry := by
    apply FileEntry.ofText_congr
    rw [Text.trim, String.toList_ofList, Text.trimmed_trimmed, Text.trim]
  rw [hsame]
  exact FileEntry.SameReading.refl _

theorem names_below (h : Text.trimmed line.toList = "test/".toList ++ entry) :
    (FileEntry.ofText (.ofList entry)).name = nameOf (splitScope entry).1 ∧
      (FileEntry.ofText line).name = nameOf ("test/".toList ++ (splitScope entry).1) ∧
      (FileEntry.ofText (.ofList entry)).scope = (FileEntry.ofText line).scope := by
  have hlisted : splitScope (Text.trimmed (String.ofList entry).toList) =
      (Text.trimStart (splitScope entry).1, (splitScope entry).2) := by
    rw [String.toList_ofList, trimmed_of_below h, splitScope_trimStart]
  have hdirect : splitScope (Text.trimmed line.toList) =
      ("test/".toList ++ (splitScope entry).1, (splitScope entry).2) := by
    rw [h, splitScope_below]
  refine ⟨?_, ?_, ?_⟩
  · rw [FileEntry.name_ofText, hlisted, nameOf_trimStart]
  · rw [FileEntry.name_ofText, hdirect]
  · rw [FileEntry.scope_ofText, FileEntry.scope_ofText, hlisted, hdirect]

theorem sameReading_below_iff (h : Text.trimmed line.toList = "test/".toList ++ entry) :
    (FileEntry.ofText (.ofList entry)).SameReading (FileEntry.ofText line) ↔
      Kept (pathOf (splitScope entry).1) := by
  obtain ⟨hname, hname', hscope⟩ := names_below h
  rw [← nameOf_below_iff, ← hname, ← hname']
  exact ⟨fun hsame => hsame.name, fun hsame => ⟨hsame, hscope⟩⟩

theorem entryOf_cases (line : List Char) : ListFile.entryOf line = Text.trimmed line ∧
      ¬ "test/".toList <+: Text.trimmed line ∨
    Text.trimmed line = "test/".toList ++ ListFile.entryOf line := by
  rw [ListFile.entryOf]
  cases hafter : Text.after? "test/".toList (Text.trimmed line) with
  | none =>
      refine .inl ⟨rfl, ?_⟩
      rw [← Text.isSome_after?_iff, hafter]
      exact Bool.false_ne_true
  | some entry => exact .inr (Text.after?_eq_some_iff.mp hafter)

theorem sameReading_entryOf_iff :
    (FileEntry.ofText (.ofList (ListFile.entryOf line.toList))).SameReading
      (FileEntry.ofText line) ↔ Steady line.toList := by
  rcases entryOf_cases line.toList with ⟨hentry, hfolder⟩ | hline
  · rw [hentry]
    exact iff_of_true (sameReading_trimmed line) fun entry hline =>
      (hfolder ⟨entry, hline.symm⟩).elim
  · rw [sameReading_below_iff hline]
    constructor
    · intro h entry hentry
      rw [hline, List.append_cancel_left_eq] at hentry
      exact hentry ▸ h
    · intro h
      exact h _ hline

theorem hasGlobMark_entryOf (line : String) :
    hasGlobMark (.ofList (ListFile.entryOf line.toList)) = hasGlobMark line := by
  have hmem {c : Char} (hc : isGlobMark c = true) :
      c ∈ ListFile.entryOf line.toList ↔ c ∈ line.toList := by
    have htrimmed : c ∈ Text.trimmed line.toList ↔ c ∈ line.toList :=
      Text.mem_trimmed_iff (isBlank_of_isGlobMark hc)
    rcases entryOf_cases line.toList with ⟨hentry, -⟩ | hline
    · rw [hentry, htrimmed]
    · rw [← htrimmed, hline, List.mem_append]
      exact (or_iff_right (not_mem_of_isGlobMark hc (by decide))).symm
  rw [Bool.eq_iff_iff]
  simp only [hasGlobMark, String.toList_ofList, List.any_eq_true]
  exact exists_congr fun c => and_congr_left hmem

theorem globProblem?_entryOf_iff (line : String) :
    Engine.globProblem? (.ofList (ListFile.entryOf line.toList)) = none ↔
      Engine.globProblem? line = none := by
  rcases entryOf_cases line.toList with ⟨hentry, -⟩ | hline
  · rw [hentry]
    exact Kind.ReadsAlike.globProblem?_iff (sameReading_trimmed line)
  · obtain ⟨hname, hname', -⟩ := names_below hline
    by_cases hnamed : testRelative (splitScope (ListFile.entryOf line.toList)).1 = []
    · have hplain : (FileEntry.ofText (.ofList (ListFile.entryOf line.toList))).isPattern =
          false := by
        rw [FileEntry.isPattern_eq, hname, nameOf, hnamed]
        rfl
      have hplain' : (FileEntry.ofText line).isPattern = false := by
        rw [FileEntry.isPattern_ofText, ← hasGlobMark_entryOf, ← FileEntry.isPattern_ofText,
          hplain]
      rw [Engine.globProblem?_eq_none_iff, Engine.globProblem?_eq_none_iff, hplain, hplain']
      exact iff_of_true (by simp) (by simp)
    · obtain ⟨front, hfront, hbelow⟩ := exists_front_below hnamed
      rw [← hname, ← hname'] at hbelow
      exact (Engine.globProblem?_iff_of_front hfront hbelow).symm

end

/-- A line stands in a list for what it stands for among the rules: either both can be read or
none, and then both exclude the same cases where the line is steady. A name that is not steady
excludes other cases in a list. -/
theorem excludes_listed {path line : String} {read : String → Except Host.Fault ByteArray}
    {ended : Bool} (hread : read path = .ok (ListFile.ofLine line ended).toUTF8)
    (hsingle : '\n' ∉ line.toList) (hcounts : ListFile.Counts line.toList) :
    ((∃ one, Engine.ofRules { source := some path } read = .ok one) ↔
      ∃ other, Engine.ofRules { files := [line] } read = .ok other) ∧
    ∀ one other, Engine.ofRules { source := some path } read = .ok one →
      Engine.ofRules { files := [line] } read = .ok other →
        (Steady line.toList → ∀ case, one.excludes case = other.excludes case) ∧
        (hasGlobMark line = false → (∀ case, one.excludes case = other.excludes case) →
          Steady line.toList) := by
  have hdirect : Engine.ofRules { files := [line] } read = Parts.engine { files := [line] } :=
    Engine.ofRules_of_no_source rfl
  rw [ListFile.ofRules_list hread hsingle hcounts, hdirect]
  refine ⟨Parts.accepted_congr (.cons (globProblem?_entryOf_iff line) .nil) fun _ _ h => h,
    fun one other hone hother => ⟨fun hsteady case => ?_, fun hplain hsame => ?_⟩⟩
  · exact (Parts.readsAlike_alone (sameReading_entryOf_iff.mpr hsteady)).excludes_eq hone hother
  · intro entry hline
    have hexact : (FileEntry.ofText line).IsExact := by
      refine ⟨(FileEntry.isPattern_ofText line).trans hplain, ?_⟩
      rw [(names_below hline).2.1]
      exact nameOf_below_ne_nil _
    have hplain' : (FileEntry.ofText (.ofList (ListFile.entryOf line.toList))).isPattern =
        false := by
      rw [FileEntry.isPattern_ofText, hasGlobMark_entryOf, hplain]
    have hreading := Parts.sameReading_of_excludes hexact hplain' hother hone fun case =>
      (hsame case).symm
    exact sameReading_entryOf_iff.mp hreading.symm entry hline

def readLine (line : String) : String → Except Host.Fault ByteArray :=
  fun _ => .ok (ListFile.ofLine line true).toUTF8

theorem steady_inner : Steady " test/inner/Test/a.js(default)".toList := by
  intro entry hentry
  have hline : Text.trimmed " test/inner/Test/a.js(default)".toList =
      "test/".toList ++ "inner/Test/a.js(default)".toList := by decide
  rw [hline, List.append_cancel_left_eq] at hentry
  subst hentry
  exact ⟨by decide, by rintro c ⟨⟩; decide, by decide, by decide⟩

/-- A test folder within a name stays where it is. -/
theorem excludes_listed_inner : ∃ one other,
    Engine.ofRules { source := some "list" } (readLine " test/inner/Test/a.js(default)") =
      .ok one ∧
    Engine.ofRules { files := [" test/inner/Test/a.js(default)"] }
      (readLine " test/inner/Test/a.js(default)") = .ok other ∧
    (∀ case, one.excludes case = other.excludes case) ∧
    other.excludes (tagged "test/inner/test/A.js" []) = true := by
  have hread : readLine " test/inner/Test/a.js(default)" "list" =
      .ok (ListFile.ofLine " test/inner/Test/a.js(default)" true).toUTF8 := rfl
  obtain ⟨hmade, hsame⟩ := excludes_listed hread (by decide) ⟨by decide, by decide⟩
  obtain ⟨other, hother⟩ : ∃ other,
      Parts.engine { files := [" test/inner/Test/a.js(default)"] } = .ok other := ⟨_, rfl⟩
  have hdirect : Engine.ofRules { files := [" test/inner/Test/a.js(default)"] }
      (readLine " test/inner/Test/a.js(default)") = .ok other :=
    (Engine.ofRules_of_no_source rfl).trans hother
  obtain ⟨one, hone⟩ := hmade.mpr ⟨other, hdirect⟩
  refine ⟨one, other, hone, hdirect, (hsame one other hone hdirect).1 steady_inner, ?_⟩
  have hplain : (FileEntry.ofText " test/inner/Test/a.js(default)").isPattern = false := by
    decide +kernel
  rw [Parts.excludes_alone_iff hplain hother]
  exact ⟨hplain, by decide +kernel, by decide +kernel, by decide +kernel⟩

/-- Two test folders are both taken off a line in a list, and one of them among the rules. -/
theorem excludes_listed_nested : ∃ one other,
    Engine.ofRules { source := some "list" } (readLine "test/test/a.js") = .ok one ∧
    Engine.ofRules { files := ["test/test/a.js"] } (readLine "test/test/a.js") = .ok other ∧
    one.excludes (tagged "test/a.js" []) = true ∧
    other.excludes (tagged "test/a.js" []) = false ∧
    one.excludes (tagged "test/test/a.js" []) = false ∧
    other.excludes (tagged "test/test/a.js" []) = true := by
  have hread : readLine "test/test/a.js" "list" =
      .ok (ListFile.ofLine "test/test/a.js" true).toUTF8 := rfl
  have hlist := ListFile.ofRules_list hread (by decide) ⟨by decide, by decide⟩
  have hentry : ListFile.entryOf "test/test/a.js".toList = "test/a.js".toList := by decide
  rw [hentry, String.ofList_toList] at hlist
  obtain ⟨one, hone⟩ : ∃ one, Parts.engine { files := ["test/a.js"] } = .ok one := ⟨_, rfl⟩
  obtain ⟨other, hother⟩ : ∃ other, Parts.engine { files := ["test/test/a.js"] } = .ok other :=
    ⟨_, rfl⟩
  have hplain : (FileEntry.ofText "test/a.js").isPattern = false := by decide +kernel
  have hplain' : (FileEntry.ofText "test/test/a.js").isPattern = false := by decide +kernel
  refine ⟨one, other, hlist.trans hone, (Engine.ofRules_of_no_source rfl).trans hother, ?_⟩
  simp only [← Bool.not_eq_true, Parts.excludes_alone_iff hplain hone,
    Parts.excludes_alone_iff hplain' hother, Engine.names_iff]
  decide +kernel

end Exclusion

end Conformance
