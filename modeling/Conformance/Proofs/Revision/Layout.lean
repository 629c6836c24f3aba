import Conformance.Proofs.Revision.Spelling

namespace Conformance

open Conformance.Path (Ordinary ofNames)

/-! Archives in which every entry has a place of its own. -/

namespace Zip.Archive

/-- Each entry is called by where it stands, and no two alike; no file is in another entry's
way; all can be read, and one is, or lies in, a folder of the corpus. -/
structure IsLaidOut (archive : Zip.Archive) (rootName : String) : Prop where
  named : ∀ entry ∈ archive, ∃ location, entry.StandsAt rootName location
  distinct : (archive.map (·.name)).Nodup
  apart : ∀ file ∈ archive, file.isFolder = false → ∀ other ∈ archive,
    Text.startsWith (file.name ++ "/") other.name = false
  readable : ∀ entry ∈ archive, ∃ bytes, entry.read = .ok bytes
  top : ∃ entry ∈ archive, ∃ top ∈ Index.tops,
    Text.startsWith (rootName ++ "/" ++ top ++ "/") entry.name = true

namespace IsLaidOut

open Conformance.Revision (placesFile needsFolder unpackedAt)

variable {archive : Zip.Archive} {revision : Revision} {entry file other : Zip.Entry}
  {location below path : List String} {rootName : String}

theorem eq_of_name (h : archive.IsLaidOut rootName) (hentry : entry ∈ archive)
    (hother : other ∈ archive) (hname : entry.name = other.name) : entry = other :=
  List.inj_on_of_nodup_map h.distinct hentry hother hname

theorem isResolved (h : archive.IsLaidOut rootName) (hroot : Ordinary rootName)
    (hentry : entry ∈ archive) : entry.IsResolved := by
  obtain ⟨location, hlocation⟩ := h.named entry hentry
  exact hlocation.isResolved hroot

theorem eq_of_prefix (h : archive.IsLaidOut rootName) (hfile : file ∈ archive)
    (hplain : file.isFolder = false) (hother : other ∈ archive)
    (hlocation : file.StandsAt rootName location) (hbelow : other.StandsAt rootName below)
    (hwithin : location <+: below) : other = file := by
  obtain ⟨more, rfl⟩ := hwithin
  have hname := hlocation.named
  rw [hplain, Path.spelled_file] at hname
  have hnone := h.apart file hfile hplain other hother
  rw [Bool.eq_false_iff, Ne, Text.startsWith_iff, hname, hbelow.named] at hnone
  by_cases hmore : more = []
  · subst hmore
    cases hfolder : other.isFolder with
    | true =>
        refine absurd ⟨[], ?_⟩ hnone
        simp [hfolder, Path.spelled]
    | false =>
        refine h.eq_of_name hother hfile ?_
        rw [hbelow.named, hfolder, Path.spelled_file, List.append_nil, hname]
  · refine absurd ⟨(Path.spelled more other.isFolder).toList, ?_⟩ hnone
    rw [Path.spelled, Path.spelled, ← List.cons_append, Path.ofNames_append (by simp) hmore]
    simp

section

variable (h : archive.IsLaidOut revision.rootName) (hroot : Ordinary revision.rootName)

include h

theorem eq_of_placesFile (hentry : entry ∈ archive) (hother : other ∈ archive)
    (hplaced : placesFile revision.rootName path entry = true)
    (hplaced' : placesFile revision.rootName path other = true) : other = entry := by
  obtain ⟨location, hlocation⟩ := h.named entry hentry
  obtain ⟨below, hbelow⟩ := h.named other hother
  obtain ⟨hplain, -, rfl⟩ := (Revision.placesFile_of_standsAt hlocation).mp hplaced
  obtain ⟨-, -, rfl⟩ := (Revision.placesFile_of_standsAt hbelow).mp hplaced'
  exact h.eq_of_prefix hentry hplain hother hlocation hbelow List.prefix_rfl

theorem find?_placesFile (hentry : entry ∈ archive)
    (hplaced : placesFile revision.rootName path entry = true) :
    archive.reverse.find? (placesFile revision.rootName path) = some entry := by
  obtain ⟨other, hother⟩ : ∃ other,
      archive.reverse.find? (placesFile revision.rootName path) = some other :=
    Option.isSome_iff_exists.mp
      (List.find?_isSome.mpr ⟨entry, List.mem_reverse.mpr hentry, hplaced⟩)
  have hmem := List.mem_reverse.mp (List.mem_of_find?_eq_some hother)
  rw [hother, h.eq_of_placesFile hentry hmem hplaced (List.find?_some hother)]

theorem unpackedAt_eq_file_iff {bytes : ByteArray} :
    unpackedAt revision.rootName archive path = some (.file bytes) ↔
      ∃ entry ∈ archive, placesFile revision.rootName path entry = true ∧
        entry.read = .ok bytes := by
  constructor
  · exact Revision.exists_placesFile
  · rintro ⟨entry, hentry, hplaced, hread⟩
    rw [unpackedAt, h.find?_placesFile hentry hplaced]
    dsimp only
    rw [hread]
    rfl

include hroot

theorem not_needsFolder (hentry : entry ∈ archive) (hother : other ∈ archive)
    (hplaced : placesFile revision.rootName path entry = true) :
    needsFolder revision.rootName path other = false := by
  obtain ⟨location, hlocation⟩ := h.named entry hentry
  obtain ⟨below, hbelow⟩ := h.named other hother
  obtain ⟨hplain, -, rfl⟩ := (Revision.placesFile_of_standsAt hlocation).mp hplaced
  rw [Bool.eq_false_iff, Ne, Revision.needsFolder_of_standsAt hbelow]
  rintro ⟨-, hprefix, hwhole⟩
  obtain rfl := h.eq_of_prefix hentry hplain hother hlocation hbelow hprefix
  rcases hwhole with hfolder | hdiffer
  · rw [hplain] at hfolder
    cases hfolder
  · exact hdiffer (hlocation.unique hroot hbelow)

theorem unpackedAt_eq_folder_iff :
    unpackedAt revision.rootName archive path = some .folder ↔
      ∃ entry ∈ archive, needsFolder revision.rootName path entry = true := by
  constructor
  · exact Revision.exists_needsFolder
  · rintro ⟨entry, hentry, hneeds⟩
    have hnone : archive.reverse.find? (placesFile revision.rootName path) = none := by
      rw [List.find?_eq_none]
      intro file hfile hplaced
      rw [h.not_needsFolder hroot (List.mem_reverse.mp hfile) hentry hplaced] at hneeds
      cases hneeds
    rw [unpackedAt, hnone]
    exact if_pos (List.any_eq_true.mpr ⟨entry, hentry, hneeds⟩)

theorem exists_top : ∃ entry ∈ archive, ∃ top ∈ Index.tops,
    needsFolder revision.rootName [top] entry = true := by
  obtain ⟨entry, hentry, top, htop, hstarts⟩ := h.top
  obtain ⟨location, hlocation⟩ := h.named entry hentry
  obtain ⟨hfirst, hwhole⟩ :=
    hlocation.of_startsWith hroot (Index.ordinary_of_mem_tops htop) hstarts
  exact ⟨entry, hentry, top, htop, (Revision.needsFolder_of_standsAt hlocation).mpr
    ⟨⟨top, htop, hfirst⟩, hfirst, hwhole⟩⟩

theorem exists_location {found : Host.Entry}
    (hfound : unpackedAt revision.rootName archive path = some found) :
    ∃ entry ∈ archive, ∃ location, entry.StandsAt revision.rootName location ∧
      InCorpus location ∧ path <+: location := by
  cases found with
  | file bytes =>
      obtain ⟨entry, hentry, hplaced, -⟩ := h.unpackedAt_eq_file_iff.mp hfound
      obtain ⟨location, hlocation⟩ := h.named entry hentry
      obtain ⟨-, hcorpus, rfl⟩ := (Revision.placesFile_of_standsAt hlocation).mp hplaced
      exact ⟨entry, hentry, location, hlocation, hcorpus, List.prefix_rfl⟩
  | folder =>
      obtain ⟨entry, hentry, hneeds⟩ := (h.unpackedAt_eq_folder_iff hroot).mp hfound
      obtain ⟨location, hlocation⟩ := h.named entry hentry
      obtain ⟨hcorpus, hprefix, -⟩ :=
        (Revision.needsFolder_of_standsAt hlocation).mp hneeds
      exact ⟨entry, hentry, location, hlocation, hcorpus, hprefix⟩
  | link target => exact absurd hfound (Revision.unpackedAt_ne_link target)

theorem ordinary_of_unpackedAt {found : Host.Entry}
    (hfound : unpackedAt revision.rootName archive path = some found) :
    ∀ name ∈ path, Ordinary name := by
  obtain ⟨entry, -, location, hlocation, -, hprefix⟩ := h.exists_location hroot hfound
  exact fun name hname => hlocation.ordinary name (List.IsPrefix.subset hprefix hname)

theorem unpackedAt_front {front : List String} {found : Host.Entry}
    (hfound : unpackedAt revision.rootName archive path = some found) (hfront : front <+: path)
    (hwhole : front ≠ path) : unpackedAt revision.rootName archive front = some .folder := by
  obtain ⟨entry, hentry, location, hlocation, hcorpus, hprefix⟩ := h.exists_location hroot hfound
  refine (h.unpackedAt_eq_folder_iff hroot).mpr ⟨entry, hentry, ?_⟩
  refine (Revision.needsFolder_of_standsAt hlocation).mpr
    ⟨hcorpus, hfront.trans hprefix, .inr ?_⟩
  rintro rfl
  exact hwhole (hfront.eq_of_length_le hprefix.length_le)

theorem unpackedAt_root : unpackedAt revision.rootName archive [] = some .folder := by
  obtain ⟨entry, hentry, top, -, hneeds⟩ := h.exists_top hroot
  obtain ⟨location, hlocation⟩ := h.named entry hentry
  obtain ⟨hcorpus, -, -⟩ := (Revision.needsFolder_of_standsAt hlocation).mp hneeds
  refine (h.unpackedAt_eq_folder_iff hroot).mpr ⟨entry, hentry, ?_⟩
  exact (Revision.needsFolder_of_standsAt hlocation).mpr
    ⟨hcorpus, List.nil_prefix, .inr hcorpus.ne_nil.symm⟩

theorem isFileEntry_iff {path : String} :
    (∃ entry ∈ archive.listed,
        Index.IsFileEntry (Index.leadOf revision.rootName) entry path) ↔
      ∃ names bytes, unpackedAt revision.rootName archive names = some (.file bytes) ∧
        ofNames names = path := by
  constructor
  · rintro ⟨_, hmem, hplain, hpath⟩
    obtain ⟨entry, hentry, rfl⟩ := List.mem_map.mp hmem
    obtain ⟨location, hlocation⟩ := h.named entry hentry
    obtain ⟨bytes, hread⟩ := h.readable entry hentry
    obtain ⟨hcorpus, hpath⟩ :=
      (Index.corpusPath?_of_standsAt hroot.ne_empty hlocation).mp hpath
    refine ⟨location, bytes, h.unpackedAt_eq_file_iff.mpr ⟨entry, hentry, ?_, hread⟩, hpath⟩
    exact (Revision.placesFile_of_standsAt hlocation).mpr ⟨hplain, hcorpus, rfl⟩
  · rintro ⟨names, bytes, hfile, rfl⟩
    obtain ⟨entry, hentry, hplaced, -⟩ := h.unpackedAt_eq_file_iff.mp hfile
    obtain ⟨location, hlocation⟩ := h.named entry hentry
    obtain ⟨hplain, hcorpus, rfl⟩ := (Revision.placesFile_of_standsAt hlocation).mp hplaced
    exact ⟨_, List.mem_map_of_mem hentry, hplain,
      (Index.corpusPath?_of_standsAt hroot.ne_empty hlocation).mpr ⟨hcorpus, rfl⟩⟩

theorem makesFolder_iff {names : List String} (hnames : ∀ name ∈ names, Ordinary name)
    (hne : names ≠ []) :
    (∃ entry ∈ archive.listed,
        Index.MakesFolder (Index.leadOf revision.rootName) entry (ofNames names)) ↔
      unpackedAt revision.rootName archive names = some .folder := by
  rw [h.unpackedAt_eq_folder_iff hroot, Zip.Archive.listed]
  simp only [List.mem_map, exists_exists_and_eq_and]
  refine exists_congr fun entry => and_congr_right fun hentry => ?_
  obtain ⟨location, hlocation⟩ := h.named entry hentry
  rw [Index.makesFolder_of_standsAt hroot.ne_empty hlocation hnames hne,
    Revision.needsFolder_of_standsAt hlocation]

theorem bears {index : Index} (hknows : index.Knows archive revision.rootName) :
    index.Bears (unpackedAt revision.rootName archive) where
  root := h.unpackedAt_root hroot
  directories names hnames hne :=
    (hknows.tables.directories _).trans (h.makesFolder_iff hroot hnames hne)
  files path := by
    rw [Std.TreeMap.mem_keys, ← h.isFileEntry_iff hroot]
    exact hknows.tables.mem_files_iff
  ordinary names bytes hfile := h.ordinary_of_unpackedAt hroot hfile
  read := by
    intro names bytes hfile
    have hnames := h.ordinary_of_unpackedAt hroot hfile
    have hmem := hknows.tables.mem_files_iff.mpr
      ((h.isFileEntry_iff hroot).mpr ⟨names, bytes, hfile, rfl⟩)
    obtain ⟨number, hnumber⟩ :=
      Option.isSome_iff_exists.mp (Std.TreeMap.mem_iff_isSome_getElem?.mp hmem)
    obtain ⟨⟨_, hlisted, hplain, hpath⟩, -⟩ := (hknows.tables.files _ number).mp hnumber
    rw [Zip.Archive.getElem?_listed, Option.map_eq_some_iff] at hlisted
    obtain ⟨entry, hentry, rfl⟩ := hlisted
    obtain ⟨location, hlocation⟩ := h.named entry (List.mem_of_getElem? hentry)
    obtain ⟨hcorpus, hpath⟩ :=
      (Index.corpusPath?_of_standsAt hroot.ne_empty hlocation).mp hpath
    have hplaced := (Revision.placesFile_of_standsAt hlocation).mpr
      ⟨hplain, hcorpus, Path.ofNames_injective hlocation.ordinary hnames hpath⟩
    obtain ⟨other, hother, hplaced', hread⟩ := h.unpackedAt_eq_file_iff.mp hfile
    obtain rfl := h.eq_of_placesFile hother (List.mem_of_getElem? hentry) hplaced' hplaced
    rw [Index.read_of_getElem? hknows.entries (Path.normalize_ofNames hnames) hnumber hentry]
    exact hread

theorem exists_knows :
    ∃ index, Index.ofArchive archive revision.rootName = .ok index ∧
      index.Knows archive revision.rootName := by
  have hnormal : Path.normalize revision.rootName = revision.rootName := by
    have hnames : ∀ name ∈ [revision.rootName], Ordinary name := by simpa using hroot
    have hself := Path.normalize_ofNames hnames
    rwa [Path.ofNames_singleton] at hself
  have hmade : Index.hasTop (Index.tablesOf (Index.leadOf (Path.normalize revision.rootName))
      archive.listed).directories = true → _ :=
    Index.exists_knows (Index.faultOf?_eq_none_of_read h.readable)
  rw [hnormal] at hmade
  refine hmade ?_
  obtain ⟨entry, hentry, top, htop, hneeds⟩ := h.exists_top hroot
  have hfolder := (h.unpackedAt_eq_folder_iff hroot).mpr ⟨entry, hentry, hneeds⟩
  have hmakes :=
    (h.makesFolder_iff hroot (h.ordinary_of_unpackedAt hroot hfolder) (by simp)).mpr hfolder
  rw [Path.ofNames_singleton] at hmakes
  exact List.any_eq_true.mpr ⟨top, htop, ((Index.hold_tablesOf _ _).directories top).mpr hmakes⟩

end

end IsLaidOut

end Zip.Archive

end Conformance
