import Conformance.Proofs.Corpus.Content
import Conformance.Proofs.Revision.Tree

namespace Conformance

open Conformance.Path (Ordinary ofNames)

/-! Archives whose entries are called by where they stand below a root folder. -/

/-- The path of a file, or that of a folder, which ends with a slash. -/
def Path.spelled (names : List String) (isFolder : Bool) : String :=
  ofNames names ++ if isFolder then "/" else ""

/-- The name of an entry says where it stands, and is enclosed unchanged. -/
structure Zip.Entry.StandsAt (entry : Zip.Entry) (rootName : String)
    (location : Host.Location) : Prop where
  ordinary : ∀ name ∈ location, Ordinary name
  named : entry.name = Path.spelled (rootName :: location) entry.isFolder
  below : entry.isFolder = false → location ≠ []
  enclosed : entry.enclosed = some (rootName :: location)

namespace Path

variable {names : List String}

theorem spelled_file (names : List String) : spelled names false = ofNames names := by
  simp [spelled]

theorem spelled_folder (names : List String) : spelled names true = ofNames names ++ "/" := by
  simp [spelled]

theorem normalize_spelled (hnames : ∀ name ∈ names, Ordinary name) (hne : names ≠ [])
    (isFolder : Bool) : normalize (spelled names isFolder) = ofNames names := by
  cases isFolder with
  | false =>
      rw [spelled_file]
      exact normalize_ofNames hnames
  | true =>
      rw [spelled_folder]
      apply String.toList_injective
      rw [toList_normalize, String.toList_append]
      refine normalized_append_slash (backslash_not_mem_ofNames hnames) ?_ (head?_ofNames hnames)
        (getLast?_ofNames hnames) (by simpa using mt (ofNames_eq_empty_iff hnames).mp hne)
      rintro ⟨rest, hrest⟩
      have hsegments : segments (['.'] ++ '/' :: rest) =
          segments ((ofNames names).toList ++ ['/']) :=
        congrArg segments hrest
      rw [segments_append_slash, segments_append_slash, segments_ofNames hnames hne] at hsegments
      cases names with
      | nil => contradiction
      | cons name names =>
          injection hsegments with hdot _
          exact (hnames name List.mem_cons_self).ne_dot (String.toList_injective hdot.symm)

theorem segments_spelled (hnames : ∀ name ∈ names, Ordinary name) (hne : names ≠ [])
    (isFolder : Bool) :
    segments (spelled names isFolder).toList =
      names.map String.toList ++ if isFolder then [[]] else [] := by
  have hsegments := segments_ofNames hnames hne
  cases isFolder with
  | false =>
      rw [spelled_file, hsegments]
      simp
  | true =>
      rw [spelled_folder, String.toList_append]
      refine (segments_append_slash (ofNames names).toList []).trans ?_
      rw [hsegments]
      rfl

theorem spelled_cons {name : String} (hne : names ≠ []) (isFolder : Bool) :
    spelled (name :: names) isFolder = name ++ "/" ++ spelled names isFolder := by
  rw [spelled, spelled, ← List.singleton_append, ofNames_append (by simp) hne,
    ofNames_singleton, String.append_assoc]

end Path

theorem Zip.Entry.StandsAt.unique {entry : Zip.Entry} {rootName : String}
    {location other : List String} (hroot : Ordinary rootName)
    (hlocation : entry.StandsAt rootName location) (hother : entry.StandsAt rootName other) :
    location = other := by
  have hspelled := hlocation.named.symm.trans hother.named
  rw [Path.spelled, Path.spelled, String.append_left_inj] at hspelled
  have hnames := Path.ofNames_injective (List.forall_mem_cons.mpr ⟨hroot, hlocation.ordinary⟩)
    (List.forall_mem_cons.mpr ⟨hroot, hother.ordinary⟩) hspelled
  exact (List.cons.inj hnames).2

theorem Zip.Entry.StandsAt.isResolved {entry : Zip.Entry} {rootName : String}
    {location : List String} (h : entry.StandsAt rootName location) (hroot : Ordinary rootName) :
    entry.IsResolved := by
  intro segments hsegments
  obtain rfl := Option.some.inj (h.enclosed.symm.trans hsegments)
  exact List.forall_mem_cons.mpr ⟨hroot, h.ordinary⟩

theorem Zip.Entry.StandsAt.of_startsWith {entry : Zip.Entry} {rootName name : String}
    {location : List String} (h : entry.StandsAt rootName location) (hroot : Ordinary rootName)
    (hname : Ordinary name)
    (hstarts : Text.startsWith (rootName ++ "/" ++ name ++ "/") entry.name = true) :
    [name] <+: location ∧ (entry.isFolder = true ∨ [name] ≠ location) := by
  obtain ⟨rest, hrest⟩ := Text.startsWith_iff.mp hstarts
  have hsegments : Path.segments entry.name.toList =
      rootName.toList :: name.toList :: Path.segments rest := by
    have htext : entry.name.toList =
        rootName.toList ++ '/' :: (name.toList ++ '/' :: rest) := by
      rw [← hrest]
      simp
    rw [htext, Path.segments_name_slash hroot.no_slash, Path.segments_name_slash hname.no_slash]
  rw [h.named, Path.segments_spelled (List.forall_mem_cons.mpr ⟨hroot, h.ordinary⟩) (by simp),
    List.map_cons, List.cons_append] at hsegments
  injection hsegments with _ hsegments
  have hmore : Path.segments rest ≠ [] := List.splitOn_ne_nil '/' rest
  cases location with
  | nil =>
      cases hfolder : entry.isFolder with
      | false => exact absurd rfl (h.below hfolder)
      | true =>
          rw [hfolder] at hsegments
          injection hsegments with hempty _
          exact absurd (String.toList_eq_nil_iff.mp hempty.symm) hname.ne_empty
  | cons first names =>
      injection hsegments with hfirst hnames
      obtain rfl := String.toList_injective hfirst
      refine ⟨by simp, ?_⟩
      cases hfolder : entry.isFolder with
      | true => exact .inl rfl
      | false =>
          refine .inr ?_
          rintro heq
          obtain rfl : names = [] := (List.cons.inj heq).2.symm
          rw [hfolder] at hnames
          exact hmore hnames.symm

namespace Revision

variable {rootName : String} {names ahead location : List String}

theorem splitOnP_congr {left right : Char → Bool} {text : List Char}
    (h : ∀ c ∈ text, left c = right c) : text.splitOnP left = text.splitOnP right := by
  induction text with
  | nil => rfl
  | cons c text ih =>
      rw [List.forall_mem_cons] at h
      rw [List.splitOnP_cons_eq_if_modifyHead, List.splitOnP_cons_eq_if_modifyHead, h.1, ih h.2]

theorem follow_ordinary (hnames : ∀ name ∈ names, Ordinary name) (reached : List String)
    (hahead : ahead = [] ∨ ahead = [""]) :
    Zip.follow reached (names ++ ahead) = some (reached.reverse ++ names) := by
  induction names generalizing reached with
  | nil =>
      rcases hahead with rfl | rfl
      · simp [Zip.follow]
      · simp [Zip.follow]
  | cons name names ih =>
      rw [List.forall_mem_cons] at hnames
      obtain ⟨hname, hnames⟩ := hnames
      rw [List.cons_append, Zip.follow]
      · rw [ih hnames]
        simp
      · exact hname.ne_empty
      · exact hname.ne_dot
      · exact hname.ne_dots

theorem enclosed?_spelled (hnames : ∀ name ∈ names, Ordinary name) (hne : names ≠ [])
    (isFolder : Bool)
    (hdrive : Zip.hasDrive (Path.spelled names isFolder).toList = false) :
    Zip.enclosed? (Path.spelled names isFolder) = some names := by
  have hmark {c : Char} (hc : c ≠ '/') (hnone : ∀ name ∈ names, c ∉ name.toList) :
      c ∉ (Path.spelled names isFolder).toList := by
    have htext := Path.not_mem_ofNames hc hnone
    cases isFolder <;> simp [Path.spelled, htext, hc]
  have hnul := hmark (c := '\x00') (by decide) fun name hname => (hnames name hname).no_nul
  have hback := hmark (c := '\\') (by decide) fun name hname => (hnames name hname).no_backslash
  have hhead : (Path.spelled names isFolder).toList.head?.any Zip.isSeparator =
      false := by
    obtain ⟨c, rest, htext⟩ : ∃ c rest, (ofNames names).toList = c :: rest :=
      List.exists_cons_of_ne_nil (by simpa using mt (Path.ofNames_eq_empty_iff hnames).mp hne)
    have hslash : c ≠ '/' := by
      rintro rfl
      exact Path.ofNames_ne_slash_cons hnames rest htext
    have hother : c ≠ '\\' := by
      rintro rfl
      exact hback (by simp [Path.spelled, htext])
    simp [Path.spelled, htext, Zip.isSeparator, hslash, hother]
  have hsegments := Path.segments_spelled hnames hne isFolder
  have hsplit : (Path.spelled names isFolder).toList.splitOnP Zip.isSeparator =
      (Path.spelled names isFolder).toList.splitOnP (· == '/') := by
    refine splitOnP_congr fun c hc => ?_
    have hne : c ≠ '\\' := ne_of_mem_of_not_mem hc hback
    simp [Zip.isSeparator, hne]
  rw [Zip.enclosed?]
  rw [hsplit, if_neg (by simp [hnul, hhead, hdrive])]
  rw [Path.segments, List.splitOn] at hsegments
  rw [hsegments]
  cases isFolder with
  | false => simpa [Function.comp_def] using follow_ordinary hnames [] (.inl rfl)
  | true => simpa [Function.comp_def] using follow_ordinary hnames [] (.inr rfl)

theorem hasDrive_spelled (revision : Revision) (names : List String) (isFolder : Bool) :
    Zip.hasDrive (Path.spelled (revision.rootName :: names) isFolder).toList = false := by
  obtain ⟨more, hmore⟩ : ∃ more, Path.spelled (revision.rootName :: names) isFolder =
      revision.rootName ++ more := by
    by_cases hempty : names = []
    · subst hempty
      exact ⟨_, by rw [Path.spelled, Path.ofNames_singleton]⟩
    · exact ⟨_, by rw [Path.spelled_cons hempty, String.append_assoc]⟩
  rw [hmore, rootName_eq, String.toList_append, String.toList_append]
  rfl

theorem standsAt_of_enclosed? (revision : Revision) {entry : Zip.Entry}
    (hroot : Ordinary revision.rootName) (hlocation : ∀ name ∈ location, Ordinary name)
    (hnamed : entry.name = Path.spelled (revision.rootName :: location) entry.isFolder)
    (hbelow : entry.isFolder = false → location ≠ [])
    (henclosed : entry.enclosed = Zip.enclosed? entry.name) :
    entry.StandsAt revision.rootName location := by
  refine ⟨hlocation, hnamed, hbelow, ?_⟩
  rw [henclosed, hnamed]
  exact enclosed?_spelled (List.forall_mem_cons.mpr ⟨hroot, hlocation⟩) (by simp) _
    (hasDrive_spelled _ _ _)

theorem target?_of_standsAt {revision : Revision} {entry : Zip.Entry} {path : List String}
    (h : entry.StandsAt revision.rootName location) :
    target? revision.rootName entry = some path ↔ InCorpus location ∧ location = path := by
  rw [target?, h.enclosed]
  cases location with
  | nil => simp [InCorpus]
  | cons top rest => simp [InCorpus, Index.tops]

theorem placesFile_of_standsAt {revision : Revision} {entry : Zip.Entry} {path : List String}
    (h : entry.StandsAt revision.rootName location) :
    placesFile revision.rootName path entry = true ↔
      entry.isFolder = false ∧ InCorpus location ∧ location = path := by
  rw [placesFile_iff, target?_of_standsAt h]

theorem needsFolder_of_standsAt {revision : Revision} {entry : Zip.Entry} {path : List String}
    (h : entry.StandsAt revision.rootName location) :
    needsFolder revision.rootName path entry = true ↔
      InCorpus location ∧ path <+: location ∧ (entry.isFolder = true ∨ path ≠ location) := by
  rw [needsFolder_iff]
  simp only [target?_of_standsAt h]
  constructor
  · rintro ⟨target, ⟨hcorpus, rfl⟩, hprefix, hwhole⟩
    exact ⟨hcorpus, hprefix, hwhole⟩
  · rintro ⟨hcorpus, hprefix, hwhole⟩
    exact ⟨location, ⟨hcorpus, rfl⟩, hprefix, hwhole⟩

end Revision

namespace Index

variable {rootName : String} {location : List String}

theorem corpusPath?_of_standsAt {entry : Zip.Entry} {path : String} (hroot : rootName ≠ "")
    (h : entry.StandsAt rootName location) :
    corpusPath? (leadOf rootName) entry.name = some path ↔
      InCorpus location ∧ ofNames location = path := by
  have hlead : leadOf rootName = rootName ++ "/" := if_neg (by simpa using hroot)
  by_cases hempty : location = []
  · subst hempty
    have hfolder : entry.isFolder = true := by
      by_contra hfile
      exact h.below (Bool.eq_false_iff.mpr hfile) rfl
    have hstrip : Text.stripStart? (rootName ++ "/") (rootName ++ "/") = some "" :=
      Text.stripStart?_eq_some_iff.mpr String.append_empty.symm
    have hnone : isCorpusPath (Path.normalize "") = false := by decide
    rw [corpusPath?, h.named, hlead, hfolder, Path.spelled_folder, Path.ofNames_singleton, hstrip]
    simp [hnone, InCorpus]
  · have hstrip : Text.stripStart? (rootName ++ "/")
        (rootName ++ "/" ++ Path.spelled location entry.isFolder) =
          some (Path.spelled location entry.isFolder) :=
      Text.stripStart?_eq_some_iff.mpr rfl
    rw [← isCorpusPath_ofNames h.ordinary hempty, corpusPath?, h.named, hlead,
      Path.spelled_cons hempty, hstrip]
    simp [Path.normalize_spelled h.ordinary hempty]

theorem makesFolder_of_standsAt {entry : Zip.Entry} {names : List String} (hroot : rootName ≠ "")
    (h : entry.StandsAt rootName location) (hnames : ∀ name ∈ names, Ordinary name)
    (hne : names ≠ []) :
    MakesFolder (leadOf rootName) (entry.name, entry.isFolder) (ofNames names) ↔
      InCorpus location ∧ names <+: location ∧ (entry.isFolder = true ∨ names ≠ location) := by
  rw [MakesFolder]
  simp only [corpusPath?_of_standsAt hroot h]
  constructor
  · rintro ⟨-, _, ⟨hcorpus, rfl⟩, hwithin, hdiffer⟩
    refine ⟨hcorpus,
      (Path.within_ofNames_iff hnames h.ordinary hne hcorpus.ne_nil).mp hwithin, ?_⟩
    cases hfolder : entry.isFolder with
    | true => exact .inl rfl
    | false =>
        refine .inr ?_
        rintro rfl
        exact hdiffer hfolder rfl
  · rintro ⟨hcorpus, hprefix, hwhole⟩
    refine ⟨mt (Path.ofNames_eq_empty_iff hnames).mp hne, _, ⟨hcorpus, rfl⟩,
      (Path.within_ofNames_iff hnames h.ordinary hne hcorpus.ne_nil).mpr hprefix, ?_⟩
    intro hfile heq
    rcases hwhole with hfolder | hdiffer
    · exact absurd hfolder (by simp [hfile])
    · exact hdiffer (Path.ofNames_injective hnames h.ordinary heq)

end Index

end Conformance
