import Conformance.Proofs.Corpus.IndexView
import Conformance.Proofs.Path.Form
import Mathlib.Logic.Relation
import Mathlib.Order.Bounds.Basic

namespace Conformance

/-! What an index of an archive holds, said of the names of the entries alone. -/

namespace Path

/-- One path is what stands in front of the last slash of another one. -/
def CutTo (path front : String) : Prop :=
  ∃ last : String, '/' ∉ last.toList ∧ path = front ++ "/" ++ last

theorem cutTo_iff_parent? {path front : String} :
    CutTo path front ↔ parent? path.toList = some front.toList := by
  constructor
  · rintro ⟨last, hlast, rfl⟩
    have hstop : (last.toList.reverse ++ '/' :: front.toList.reverse).dropWhile (· != '/') =
        '/' :: front.toList.reverse := by
      rw [List.dropWhile_append_of_pos]
      · simp
      · intro c hc
        rw [List.mem_reverse] at hc
        simpa using ne_of_mem_of_not_mem hc hlast
    simp [parent?, hstop]
  · intro hparent
    refine ⟨.ofList (lastSegment path.toList), ?_, ?_⟩
    · rw [String.toList_ofList]
      exact slash_not_mem_lastSegment _
    · apply String.toList_injective
      simpa using parent?_eq_some hparent

theorem cuts_iff_within {path folder : String} :
    Relation.ReflTransGen CutTo path folder ↔
      within folder.toList path.toList = true := by
  constructor
  · intro hcuts
    induction hcuts with
    | refl => exact within_iff.mpr (.inl rfl)
    | tail _ hcut ih =>
        have hparent := cutTo_iff_parent?.mp hcut
        refine within_trans ?_ ih
        exact ((within_parent_iff hparent).mp (within_iff.mpr (.inl rfl))).1
  · intro hwithin
    induction hlength : path.toList.length using Nat.strong_induction_on generalizing path with
    | _ length ih =>
        cases hparent : parent? path.toList with
        | none =>
            have heq := (within_of_parent?_eq_none hparent).mp hwithin
            rw [String.toList_injective heq]
        | some front =>
            rcases (within_of_parent? hparent).mp hwithin with heq | hfront
            · rw [String.toList_injective heq]
            · have hshort := length_parent?_lt hparent
              have hcut : CutTo path (.ofList front) := by
                rw [cutTo_iff_parent?, hparent, String.toList_ofList]
              refine .head hcut (ih front.length (by omega) ?_ (by simp))
              rwa [String.toList_ofList]

def IsCorpus (path : String) : Prop :=
  ∃ top ∈ Index.tops, path = top ∨ ∃ rest, path = top ++ "/" ++ rest

theorem isCorpus_iff_within {path : String} :
    IsCorpus path ↔ ∃ top ∈ Index.tops, isWithin top path = true :=
  exists_congr fun _ => and_congr_right fun _ => isWithin_iff.symm

theorem IsCorpus.of_within {path folder : String} (h : IsCorpus path)
    (hwithin : isWithin folder path = true) : IsCorpus folder := by
  rw [isCorpus_iff_within] at h ⊢
  obtain ⟨top, htop, hfirst⟩ := h
  refine ⟨top, htop, ?_⟩
  have hsingle := segments_eq_singleton (Index.ordinary_of_mem_tops htop).no_slash
  have hfolder : segments folder.toList ≠ [] := List.splitOn_ne_nil '/' _
  rw [isWithin, within_iff_segments] at hfirst hwithin ⊢
  refine List.prefix_of_prefix_length_le hfirst hwithin ?_
  rw [hsingle]
  exact List.length_pos_iff.mpr hfolder

theorem IsCorpus.head? {path : String} (h : IsCorpus path) :
    path.toList.head? = some 't' ∨ path.toList.head? = some 'h' := by
  obtain ⟨top, htop, rfl | ⟨rest, rfl⟩⟩ := h
  all_goals
    simp only [Index.tops, List.mem_cons, List.not_mem_nil, or_false] at htop
    rcases htop with rfl | rfl <;> simp

theorem IsCorpus.cutTo_ne_empty {path front : String} (h : IsCorpus path)
    (hcut : CutTo path front) : front ≠ "" := by
  rintro rfl
  obtain ⟨last, -, rfl⟩ := hcut
  simpa using h.head?

theorem IsCorpus.normalize_eq_self {path : String} (h : IsCorpus (normalize path)) :
    normalize (normalize path) = normalize path := by
  obtain ⟨top, htop, hwithin⟩ := isCorpus_iff_within.mp h
  exact normalize_normalize_of_within (Index.ordinary_of_mem_tops htop) hwithin

end Path

namespace Index

open Conformance.Path (CutTo IsCorpus)

theorem isCorpusPath_iff {path : String} : isCorpusPath path = true ↔ IsCorpus path := by
  rw [isCorpusPath, List.any_eq_true, Path.isCorpus_iff_within]

theorem corpusPath?_eq_some_iff {lead name path : String} :
    corpusPath? lead name = some path ↔
      IsCorpus path ∧ ∃ rest, name = lead ++ rest ∧ Path.normalize rest = path := by
  rw [← isCorpusPath_iff, corpusPath?]
  constructor
  · intro h
    split at h
    · rename_i whole hwhole
      obtain ⟨rest, hrest, rfl⟩ := Option.map_eq_some_iff.mp hwhole
      rw [Option.ite_none_right_eq_some, Option.some.injEq] at h
      obtain ⟨hcorpus, rfl⟩ := h
      exact ⟨hcorpus, rest, Text.stripStart?_eq_some_iff.mp hrest, rfl⟩
    · cases h
  · rintro ⟨hcorpus, rest, rfl, rfl⟩
    have hstrip : Text.stripStart? lead (lead ++ rest) = some rest :=
      Text.stripStart?_eq_some_iff.mpr rfl
    simp [hstrip, hcorpus]

variable {lead : String} {listed : List (String × Bool)} {tables : Tables}

/-- The numbers of the file entries whose names, behind the lead, come to a path. -/
def fileNumbers (lead : String) (listed : List (String × Bool)) (path : String) : Set Nat :=
  {number | ∃ rest, listed[number]? = some (lead ++ rest, false) ∧ Path.normalize rest = path}

/-- The folders that are cut off a file of the tables, and those of the corpus that are
listed. -/
def Tables.IsOrigin (tables : Tables) (lead : String) (listed : List (String × Bool))
    (folder : String) : Prop :=
  (∃ path ∈ tables.files, CutTo path folder) ∨
    IsCorpus folder ∧ ∃ rest, (lead ++ rest, true) ∈ listed ∧ Path.normalize rest = folder

structure Tables.Mirror (tables : Tables) (lead : String) (listed : List (String × Bool)) :
    Prop where
  files : ∀ path number, tables.files[path]? = some number ↔
    IsCorpus path ∧ IsGreatest (fileNumbers lead listed path) number
  directories : ∀ folder, folder ∈ tables.directories ↔
    folder ≠ "" ∧ ∃ origin, tables.IsOrigin lead listed origin ∧
      Relation.ReflTransGen CutTo origin folder
  closed : ∀ folder ∈ tables.directories, ∀ front, CutTo folder front →
    front ∈ tables.directories
  normal : ∀ path ∈ tables.files, Path.normalize path = path

theorem exists_fileEntry_iff {path : String} {number : Nat} :
    (∃ entry, listed[number]? = some entry ∧ IsFileEntry lead entry path) ↔
      IsCorpus path ∧ number ∈ fileNumbers lead listed path := by
  simp only [IsFileEntry, corpusPath?_eq_some_iff]
  constructor
  · rintro ⟨⟨name, isFolder⟩, hentry, rfl, hcorpus, rest, rfl, hpath⟩
    exact ⟨hcorpus, rest, hentry, hpath⟩
  · rintro ⟨hcorpus, rest, hentry, hpath⟩
    exact ⟨_, hentry, rfl, hcorpus, rest, rfl, hpath⟩

theorem isLastFile_iff {path : String} {number : Nat} :
    IsLastFile lead listed path number ↔
      IsCorpus path ∧ IsGreatest (fileNumbers lead listed path) number := by
  rw [IsLastFile, exists_fileEntry_iff, and_assoc]
  refine and_congr_right fun hcorpus => and_congr_right fun _ => ?_
  constructor
  · intro hlater other hother
    by_contra hless
    obtain ⟨entry, hentry, hfile⟩ := exists_fileEntry_iff.mpr ⟨hcorpus, hother⟩
    exact hlater other entry (by omega) hentry hfile
  · intro hgreatest later entry hless hentry hfile
    have hbound := hgreatest (exists_fileEntry_iff.mp ⟨entry, hentry, hfile⟩).2
    omega

namespace Tables.Hold

theorem normalize_of_mem_files (hhold : tables.Hold lead listed) {path : String}
    (h : path ∈ tables.files) : Path.normalize path = path := by
  obtain ⟨entry, -, -, hpath⟩ := hhold.mem_files_iff.mp h
  obtain ⟨hcorpus, rest, -, rfl⟩ := corpusPath?_eq_some_iff.mp hpath
  exact hcorpus.normalize_eq_self

theorem mem_directories_iff (hhold : tables.Hold lead listed) {folder : String} :
    folder ∈ tables.directories ↔
      folder ≠ "" ∧ ∃ origin, tables.IsOrigin lead listed origin ∧
        Relation.ReflTransGen CutTo origin folder := by
  rw [Std.TreeSet.mem_iff_contains, hhold.directories]
  constructor
  · rintro ⟨⟨name, isFolder⟩, hentry, hne, path, hpath, hwithin, hdiffer⟩
    refine ⟨hne, ?_⟩
    cases isFolder with
    | true =>
        obtain ⟨hcorpus, rest, rfl, hrest⟩ := corpusPath?_eq_some_iff.mp hpath
        exact ⟨path, .inr ⟨hcorpus, rest, hentry, hrest⟩, Path.cuts_iff_within.mpr hwithin⟩
    | false =>
        have hfile : path ∈ tables.files := hhold.mem_files_iff.mpr ⟨_, hentry, rfl, hpath⟩
        rcases Path.cuts_iff_within.mpr hwithin |>.cases_head with heq | ⟨front, hcut, hcuts⟩
        · exact absurd heq.symm (hdiffer rfl)
        · exact ⟨front, .inl ⟨path, hfile, hcut⟩, hcuts⟩
  · rintro ⟨hne, origin, ⟨path, hfile, hcut⟩ | ⟨hcorpus, rest, hentry, hrest⟩, hcuts⟩
    · obtain ⟨entry, hentry, hplain, hpath⟩ := hhold.mem_files_iff.mp hfile
      have hwithin := Path.cuts_iff_within.mp hcuts
      rw [Path.within_parent_iff (Path.cutTo_iff_parent?.mp hcut)] at hwithin
      refine ⟨entry, hentry, hne, path, hpath, hwithin.1, fun _ heq => ?_⟩
      exact hwithin.2 (congrArg String.toList heq)
    · exact ⟨_, hentry, hne, origin, corpusPath?_eq_some_iff.mpr ⟨hcorpus, rest, rfl, hrest⟩,
        Path.cuts_iff_within.mp hcuts, by simp⟩

theorem isCorpus_of_mem_directories (hhold : tables.Hold lead listed) {folder : String}
    (h : folder ∈ tables.directories) : IsCorpus folder := by
  rw [Std.TreeSet.mem_iff_contains, hhold.directories] at h
  obtain ⟨entry, -, -, path, hpath, hwithin, -⟩ := h
  exact (corpusPath?_eq_some_iff.mp hpath).1.of_within hwithin

theorem mirror (hhold : tables.Hold lead listed) : tables.Mirror lead listed where
  files path number := (hhold.files path number).trans isLastFile_iff
  directories folder := hhold.mem_directories_iff
  closed := by
    intro folder hfolder front hcut
    have hne := (hhold.isCorpus_of_mem_directories hfolder).cutTo_ne_empty hcut
    obtain ⟨-, origin, horigin, hcuts⟩ := hhold.mem_directories_iff.mp hfolder
    exact hhold.mem_directories_iff.mpr ⟨hne, origin, horigin, hcuts.tail hcut⟩
  normal path := hhold.normalize_of_mem_files

end Tables.Hold

theorem mirror_tablesOf (lead : String) (listed : List (String × Bool)) :
    (tablesOf lead listed).Mirror lead listed :=
  (hold_tablesOf lead listed).mirror

variable {archive : Zip.Archive} {rootName : String} {index : Index}

theorem hasTop_iff {directories : Std.TreeSet String} :
    hasTop directories = true ↔ ∃ top ∈ tops, top ∈ directories := by
  simp only [hasTop, List.any_eq_true, Std.TreeSet.mem_iff_contains]

/-- Of each corpus path the tables of an archive name the last file entry that comes to it,
and they name the folders that lie around those files and around the listed folders, whatever
the entries are called. An index of these tables is made unless they have neither of the
corpus folders. -/
theorem ofArchive_mirrors (rootName : String) (archive : Zip.Archive)
    (hreadable : faultOf? archive = none) :
    let lead := leadOf (Path.normalize rootName)
    let tables := tablesOf lead archive.listed
    (∀ listed : List (String × Bool), (tablesOf lead listed).Mirror lead listed) ∧
      ((∃ problem, ofArchive archive rootName = .error (.invalidArgument problem)) ↔
        ∀ top ∈ tops, top ∉ tables.directories) ∧
      ((∃ top ∈ tops, top ∈ tables.directories) →
        ∃ index, ofArchive archive rootName = .ok index ∧
          index.files = tables.files ∧ index.directories = tables.directories ∧
            ∀ path number, index.files[path]? = some number →
              ∃ entry, archive[number]? = some entry ∧ index.read path = entry.read) := by
  intro lead tables
  have hmirror : tables.Mirror lead archive.listed := mirror_tablesOf lead archive.listed
  have hmade := ofArchive_eq hreadable rootName
  refine ⟨mirror_tablesOf lead, ?_, fun htop => ?_⟩
  · rw [hmade]
    constructor
    · rintro ⟨problem, hproblem⟩ top hmem htop
      rw [if_pos (hasTop_iff.mpr ⟨top, hmem, htop⟩)] at hproblem
      cases hproblem
    · intro hnone
      refine ⟨_, if_neg fun htop => ?_⟩
      obtain ⟨top, hmem, htop⟩ := hasTop_iff.mp htop
      exact hnone top hmem htop
  · rw [hmade, if_pos (hasTop_iff.mpr htop)]
    refine ⟨_, rfl, rfl, rfl, fun path number hnumber => ?_⟩
    obtain ⟨rest, hlisted, -⟩ := ((hmirror.files path number).mp hnumber).2.1
    rw [Zip.Archive.getElem?_listed, Option.map_eq_some_iff] at hlisted
    obtain ⟨entry, hentry, -⟩ := hlisted
    refine ⟨entry, hentry, read_of_getElem? rfl ?_ hnumber hentry⟩
    refine hmirror.normal path (Std.TreeMap.mem_iff_isSome_getElem?.mpr ?_)
    rw [hnumber, Option.isSome_some]

/-- Names with backslashes and more slashes than needed; two of them come to one path. -/
def oddlyNamed : Zip.Archive :=
  [.plain "corpus/test//a.js" (.mk #[1]), .plain "corpus/./test/b.js" (.mk #[2]),
    .plain "corpus/testing/c.js" (.mk #[3]), .plain "corpus//test\\b.js" (.mk #[4])]

theorem ofArchive_mirrors_oddlyNamed :
    faultOf? oddlyNamed = none ∧
      ∃ index, ofArchive oddlyNamed "./corpus/" = .ok index ∧
        "test" ∈ index.directories ∧ index.read "test/b.js" = .ok (.mk #[4]) := by
  have hreadable : faultOf? oddlyNamed = none := rfl
  obtain ⟨hmirrors, -, hmade⟩ := ofArchive_mirrors "./corpus/" oddlyNamed hreadable
  have hmirror := hmirrors oddlyNamed.listed
  have hlead : leadOf (Path.normalize "./corpus/") = "corpus/" := by decide
  rw [hlead] at hmirror hmade
  have hlast : (tablesOf "corpus/" oddlyNamed.listed).files["test/b.js"]? = some 3 := by
    refine (hmirror.files _ _).mpr ⟨⟨"test", by decide, .inr ⟨"b.js", by decide⟩⟩, ?_, ?_⟩
    · exact ⟨"/test\\b.js", by decide, by decide⟩
    · rintro number ⟨rest, hnumber, -⟩
      have hbound := (List.getElem?_eq_some_iff.mp hnumber).1
      exact Nat.le_of_lt_succ hbound
  have htop : "test" ∈ (tablesOf "corpus/" oddlyNamed.listed).directories := by
    refine (hmirror.directories _).mpr ⟨by decide, "test", .inl ⟨"test/b.js", ?_, ?_⟩, .refl⟩
    · rw [Std.TreeMap.mem_iff_isSome_getElem?, hlast, Option.isSome_some]
    · exact ⟨"b.js", by decide, by decide⟩
  obtain ⟨index, hindex, hfiles, hdirectories, hread⟩ := hmade ⟨"test", by decide, htop⟩
  refine ⟨hreadable, index, hindex, hdirectories ▸ htop, ?_⟩
  obtain ⟨entry, hentry, heq⟩ := hread "test/b.js" 3 (hfiles ▸ hlast)
  obtain rfl : Zip.Entry.plain "corpus//test\\b.js" (.mk #[4]) = entry :=
    Option.some.inj hentry
  rw [heq, Zip.Entry.read_plain]

end Index

end Conformance
