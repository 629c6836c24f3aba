import Conformance.Proofs.Corpus.Tables
import Conformance.Proofs.Corpus.Tree

namespace Conformance

open Conformance.Path (Ordinary ofNames)

/-! An archive of the files of a tree shows it. -/

namespace Index

theorem list_toCorpus (index : Index) : index.toCorpus.list = index.list := by
  rw [toCorpus]

theorem read_toCorpus (index : Index) : index.toCorpus.read = index.read := by
  rw [toCorpus]

theorem keys_pairwise (files : Std.TreeMap String Nat) : files.keys.Pairwise (· < ·) := by
  refine files.ordered_keys.imp ?_
  intro left right hlt
  exact compare_lt_iff_lt.mp hlt

theorem startingWith_eq_filter (index : Index) (lead : String) :
    index.startingWith lead = index.files.keys.filter (Text.startsWith lead) :=
  Text.takeWhile_dropWhile_startsWith (keys_pairwise index.files) lead

variable {names folder rest : List String} {lead : String}
  {content : Host.Location → Option Host.Entry}

theorem ordinary_of_mem_tops {top : String} (htop : top ∈ tops) : Ordinary top := by
  simp only [tops, List.mem_cons, List.not_mem_nil, or_false] at htop
  rcases htop with rfl | rfl <;> decide

theorem isCorpusPath_ofNames (hnames : ∀ name ∈ names, Ordinary name) (hne : names ≠ []) :
    isCorpusPath (ofNames names) = true ↔ InCorpus names := by
  have hwithin : ∀ top ∈ tops, (Path.isWithin top (ofNames names) = true ↔ [top] <+: names) := by
    intro top htop
    have hordinary : ∀ name ∈ [top], Ordinary name :=
      List.forall_mem_singleton.mpr (ordinary_of_mem_tops htop)
    have hsegments := Path.segments_ofNames hordinary (by simp)
    rw [Path.ofNames_singleton] at hsegments
    rw [Path.isWithin, Path.within_iff_segments, hsegments, Path.segments_ofNames hnames hne]
    exact List.prefix_map_iff_of_injective fun _ _ => String.toList_injective
  rw [isCorpusPath, List.any_eq_true]
  constructor
  · rintro ⟨top, htop, h⟩
    exact ⟨top, htop, (hwithin top htop).mp h⟩
  · rintro ⟨top, htop, h⟩
    exact ⟨top, htop, (hwithin top htop).mpr h⟩

theorem corpusPath?_append (hnames : ∀ name ∈ names, Ordinary name) (hne : names ≠ [])
    {path : String} :
    corpusPath? lead (lead ++ ofNames names) = some path ↔
      InCorpus names ∧ ofNames names = path := by
  have hstrip : Text.stripStart? lead (lead ++ ofNames names) = some (ofNames names) :=
    Text.stripStart?_eq_some_iff.mpr rfl
  rw [← isCorpusPath_ofNames hnames hne, corpusPath?, hstrip]
  simp [Path.normalize_ofNames hnames]

theorem isDirectlyBelow_append (hnames : ∀ name ∈ rest, Ordinary name) (hrest : rest ≠ []) :
    isDirectlyBelow lead (lead ++ ofNames rest) = (rest.length == 1) := by
  have hstrip : Text.stripStart? lead (lead ++ ofNames rest) = some (ofNames rest) :=
    Text.stripStart?_eq_some_iff.mpr rfl
  rw [isDirectlyBelow, hstrip]
  simp only [Path.contains_slash_ofNames hnames hrest]
  simp [bne]

theorem ofNames_append_eq (hnames : ∀ name ∈ names, Ordinary name) (hrest : rest ≠ []) :
    ofNames (names ++ rest) = leadOf (ofNames names) ++ ofNames rest := by
  by_cases hne : names = []
  · subst hne
    simp [leadOf]
  · have hempty : ofNames names ≠ "" := mt (Path.ofNames_eq_empty_iff hnames).mp hne
    have hlead : leadOf (ofNames names) = ofNames names ++ "/" :=
      if_neg (by simpa using hempty)
    rw [hlead, Path.ofNames_append hne hrest]

theorem startsWith_leadOf_iff {path : List String} (hnames : ∀ name ∈ names, Ordinary name)
    (hpath : ∀ name ∈ path, Ordinary name) (hne : path ≠ []) :
    Text.startsWith (leadOf (ofNames names)) (ofNames path) = true ↔
      ∃ rest, rest ≠ [] ∧ path = names ++ rest := by
  by_cases hroot : names = []
  · subst hroot
    simpa [leadOf, Text.startsWith_iff] using hne
  · have hempty : ofNames names ≠ "" := mt (Path.ofNames_eq_empty_iff hnames).mp hroot
    have hlead : leadOf (ofNames names) = ofNames names ++ "/" :=
      if_neg (by simpa using hempty)
    rw [hlead]
    exact Path.startsWith_folder_iff hnames hpath hroot

theorem listingIn {index : Index} (hnames : ∀ name ∈ names, Ordinary name)
    (hkeys : ∀ path ∈ index.files.keys, ∃ location, location ≠ [] ∧
      (∀ name ∈ location, Ordinary name) ∧ ofNames location = path)
    (hfiles : ∀ rest, rest ≠ [] → (∀ name ∈ names ++ rest, Ordinary name) →
      (ofNames (names ++ rest) ∈ index.files.keys ↔
        ∃ bytes, content (names ++ rest) = some (.file bytes)))
    (hordinary : ∀ rest bytes, content rest = some (.file bytes) → ∀ name ∈ rest, Ordinary name)
    (recursive : Bool) (test : String → Bool) :
    ListingIn content names recursive test
      ((index.startingWith (leadOf (ofNames names))).filter fun path =>
        (recursive || isDirectlyBelow (leadOf (ofNames names)) path) && test path) := by
  have hdirect : ∀ rest, rest ≠ [] → (∀ name ∈ names ++ rest, Ordinary name) →
      isDirectlyBelow (leadOf (ofNames names)) (ofNames (names ++ rest)) =
        (rest.length == 1) := by
    intro rest hrest hall
    rw [ofNames_append_eq hnames hrest]
    exact isDirectlyBelow_append (List.forall_mem_append.mp hall).2 hrest
  rw [startingWith_eq_filter]
  refine ⟨((keys_pairwise _).filter _).filter _, fun path => ?_⟩
  simp only [List.mem_filter, Bool.and_eq_true, Bool.or_eq_true]
  constructor
  · rintro ⟨⟨hkey, hstarts⟩, hdepth, htest⟩
    obtain ⟨location, hne, hall, rfl⟩ := hkeys path hkey
    obtain ⟨rest, hrest, rfl⟩ := (startsWith_leadOf_iff hnames hall hne).mp hstarts
    obtain ⟨bytes, hfile⟩ := (hfiles rest hrest hall).mp hkey
    rw [hdirect rest hrest hall] at hdepth
    exact ⟨rest, bytes, hrest, hfile, by simpa using hdepth, rfl, htest⟩
  · rintro ⟨rest, bytes, hrest, hfile, hdepth, rfl, htest⟩
    have hall := hordinary _ _ hfile
    refine ⟨⟨(hfiles rest hrest hall).mpr ⟨bytes, hfile⟩, ?_⟩, ?_, htest⟩
    · exact (startsWith_leadOf_iff hnames hall (by simp [hrest])).mpr ⟨rest, hrest, rfl⟩
    · rw [hdirect rest hrest hall]
      simpa using hdepth

theorem faultOf?_eq_none_of_read {archive : Zip.Archive}
    (hread : ∀ entry ∈ archive, ∃ bytes, entry.read = .ok bytes) : faultOf? archive = none := by
  rw [faultOf?, List.findSome?_eq_none_iff]
  intro entry hentry
  obtain ⟨bytes, hbytes⟩ := hread entry hentry
  cases hbody : entry.body with
  | ok held => rfl
  | error problem =>
      have hopened : ∃ problem, entry.opened = .error problem := by
        rw [Zip.Entry.opened, hbody]
        split
        · exact ⟨_, rfl⟩
        · exact ⟨_, rfl⟩
      obtain ⟨other, hother⟩ := hopened
      rw [Zip.Entry.read, hother] at hbytes
      cases hbytes

end Index

/-- The entries of an archive are the files of a tree, below a root folder. -/
def Zip.Archive.Packs (archive : Zip.Archive) (root : String) (tree : FileTree) : Prop :=
  (archive.map fun entry => (entry.name, entry.read)).Perm
    (tree.files.map fun file => (Index.leadOf root ++ ofNames file.1, .ok file.2))

def Zip.Archive.listed (archive : Zip.Archive) : List (String × Bool) :=
  archive.map fun entry => (entry.name, entry.isFolder)

namespace Zip.Archive.Packs

variable {archive : Zip.Archive} {root : String} {tree : FileTree} {names : List String}
  {bytes : ByteArray}

theorem file_of_entry (hpacks : archive.Packs root tree) {entry : Zip.Entry}
    (hentry : entry ∈ archive) :
    ∃ names bytes, (names, bytes) ∈ tree.files ∧
      entry.name = Index.leadOf root ++ ofNames names ∧ entry.read = .ok bytes := by
  have hmem := hpacks.mem_iff.mp (List.mem_map_of_mem hentry)
  obtain ⟨⟨names, bytes⟩, hfile, heq⟩ := List.mem_map.mp hmem
  injection heq with hname hread
  exact ⟨names, bytes, hfile, hname.symm, hread.symm⟩

theorem entry_of_file (hpacks : archive.Packs root tree) (hfile : (names, bytes) ∈ tree.files) :
    ∃ entry ∈ archive, entry.name = Index.leadOf root ++ ofNames names ∧
      entry.read = .ok bytes := by
  have hmem := hpacks.mem_iff.mpr (List.mem_map_of_mem hfile)
  obtain ⟨entry, hentry, heq⟩ := List.mem_map.mp hmem
  injection heq with hname hread
  exact ⟨entry, hentry, hname, hread⟩

theorem isFolder_eq_false (hpacks : archive.Packs root tree) {entry : Zip.Entry}
    (hentry : entry ∈ archive) : entry.isFolder = false := by
  obtain ⟨names, bytes, hfile, hname, -⟩ := hpacks.file_of_entry hentry
  have hnames := tree.ordinary _ hfile
  rw [Zip.Entry.isFolder, hname,
    Path.getLast?_append_ofNames _ hnames (tree.named _ hfile)]
  split
  · rename_i hslash
    obtain ⟨front, hfront⟩ := List.getLast?_eq_some_iff.mp hslash
    exact absurd hfront (Path.ofNames_ne_append_slash hnames front)
  · rename_i hslash
    refine absurd (List.mem_of_getLast? hslash) ?_
    exact Path.not_mem_ofNames (by decide) fun name hname => (hnames name hname).no_backslash
  · rfl

theorem faultOf?_eq_none (hpacks : archive.Packs root tree) : Index.faultOf? archive = none := by
  refine Index.faultOf?_eq_none_of_read fun entry hentry => ?_
  obtain ⟨names, bytes, -, -, hread⟩ := hpacks.file_of_entry hentry
  exact ⟨bytes, hread⟩

theorem exists_mem_listed {holds : String × Bool → Prop} (hpacks : archive.Packs root tree) :
    (∃ entry ∈ archive.listed, holds entry) ↔
      ∃ file ∈ tree.files, holds (Index.leadOf root ++ ofNames file.1, false) := by
  constructor
  · rintro ⟨_, hmem, hentry⟩
    obtain ⟨entry, hentryMem, rfl⟩ := List.mem_map.mp hmem
    obtain ⟨names, bytes, hfile, hname, -⟩ := hpacks.file_of_entry hentryMem
    rw [hname, hpacks.isFolder_eq_false hentryMem] at hentry
    exact ⟨_, hfile, hentry⟩
  · rintro ⟨file, hfile, hentry⟩
    obtain ⟨entry, hentryMem, hname, -⟩ := hpacks.entry_of_file hfile
    refine ⟨_, List.mem_map_of_mem hentryMem, ?_⟩
    rw [hname, hpacks.isFolder_eq_false hentryMem]
    exact hentry

theorem isFileEntry_iff (hpacks : archive.Packs root tree) {path : String} :
    (∃ entry ∈ archive.listed, Index.IsFileEntry (Index.leadOf root) entry path) ↔
      ∃ file ∈ tree.files, InCorpus file.1 ∧ ofNames file.1 = path := by
  rw [hpacks.exists_mem_listed]
  refine exists_congr fun file => and_congr_right fun hfile => ?_
  rw [Index.IsFileEntry, Index.corpusPath?_append (tree.ordinary _ hfile) (tree.named _ hfile)]
  simp

theorem makesFolder_iff (hpacks : archive.Packs root tree)
    (hnames : ∀ name ∈ names, Ordinary name) (htop : InCorpus names) :
    (∃ entry ∈ archive.listed, Index.MakesFolder (Index.leadOf root) entry (ofNames names)) ↔
      tree.IsFolder names := by
  have hne := htop.ne_nil
  rw [hpacks.exists_mem_listed]
  refine exists_congr fun file => and_congr_right fun hfile => ?_
  have hfileNames := tree.ordinary _ hfile
  have hfileNe := tree.named _ hfile
  rw [Index.MakesFolder]
  simp only [Index.corpusPath?_append hfileNames hfileNe]
  constructor
  · rintro ⟨-, _, ⟨-, rfl⟩, hwithin, hdiffer⟩
    refine ⟨(Path.within_ofNames_iff hnames hfileNames hne hfileNe).mp hwithin, ?_⟩
    rintro rfl
    exact hdiffer trivial rfl
  · rintro ⟨hbegin, hdiffer⟩
    refine ⟨mt (Path.ofNames_eq_empty_iff hnames).mp hne, _, ⟨htop.mono hbegin, rfl⟩,
      (Path.within_ofNames_iff hnames hfileNames hne hfileNe).mpr hbegin, ?_⟩
    exact fun _ heq => hdiffer (Path.ofNames_injective hnames hfileNames heq)

end Zip.Archive.Packs

/-- An index knows the entries of an archive below a root folder. -/
structure Index.Knows (index : Index) (archive : Zip.Archive) (root : String) : Prop where
  entries : index.entries = archive.toArray
  tables : Tables.Hold ⟨index.files, index.directories⟩ (Index.leadOf root) archive.listed

theorem Index.ofArchive_eq {archive : Zip.Archive} (hreadable : faultOf? archive = none)
    (rootName : String) :
    ofArchive archive rootName =
      if hasTop (tablesOf (leadOf (Path.normalize rootName)) archive.listed).directories then
        .ok
          { entries := archive.toArray
            files := (tablesOf (leadOf (Path.normalize rootName)) archive.listed).files
            directories :=
              (tablesOf (leadOf (Path.normalize rootName)) archive.listed).directories
            label := s!"zip archive (root \x60{Path.normalize rootName}\x60)" }
      else .error (.invalidArgument (.noCorpusFolder (leadOf (Path.normalize rootName)))) := by
  rw [ofArchive, hreadable]
  rfl

theorem Index.exists_knows {archive : Zip.Archive} {rootName : String}
    (hreadable : faultOf? archive = none)
    (htop : hasTop (tablesOf (leadOf (Path.normalize rootName)) archive.listed).directories =
      true) :
    ∃ index, ofArchive archive rootName = .ok index ∧
      index.Knows archive (Path.normalize rootName) := by
  rw [ofArchive_eq hreadable, if_pos htop]
  exact ⟨_, rfl, rfl, hold_tablesOf _ _⟩

theorem Index.read_of_getElem? {index : Index} {archive : Zip.Archive}
    (hentries : index.entries = archive.toArray) {path : String} {number : Nat}
    {entry : Zip.Entry} (hnormal : Path.normalize path = path)
    (hnumber : index.files[path]? = some number) (hentry : archive[number]? = some entry) :
    index.read path = entry.read := by
  rw [read, hnormal]
  simp only [hnumber, Option.bind_some, hentries, List.getElem?_toArray, hentry]

theorem Zip.Archive.getElem?_listed (archive : Zip.Archive) (number : Nat) :
    archive.listed[number]? =
      archive[number]?.map fun entry => (entry.name, entry.isFolder) := by
  rw [listed, List.getElem?_map]

/-- A file of the tree lies in the test folder or in the harness folder. -/
def FileTree.HasTop (tree : FileTree) : Prop :=
  ∃ top ∈ Index.tops, tree.IsFolder [top]

namespace Zip.Archive.Packs

variable {archive : Zip.Archive} {root : String} {tree : FileTree} {names : List String}
  {bytes : ByteArray} {index : Index}

theorem knows_ofArchive {rootName : String}
    (hpacks : archive.Packs (Path.normalize rootName) tree) (htop : tree.HasTop) :
    ∃ index, Index.ofArchive archive rootName = .ok index ∧
      index.Knows archive (Path.normalize rootName) := by
  have hhold := Index.hold_tablesOf (Index.leadOf (Path.normalize rootName)) archive.listed
  refine Index.exists_knows hpacks.faultOf?_eq_none ?_
  obtain ⟨top, hmem, hfolder⟩ := htop
  refine List.any_eq_true.mpr ⟨top, hmem, ?_⟩
  have hmakes := (hpacks.makesFolder_iff (FileTree.ordinary_of_isFolder hfolder)
    ⟨top, hmem, List.prefix_rfl⟩).mpr hfolder
  rw [Path.ofNames_singleton] at hmakes
  exact (hhold.directories top).mpr hmakes

theorem contains_iff (hpacks : archive.Packs root tree) (hknows : index.Knows archive root)
    (hnames : ∀ name ∈ names, Ordinary name) (htop : InCorpus names) :
    index.directories.contains (ofNames names) = true ↔ tree.IsFolder names :=
  (hknows.tables.directories _).trans (hpacks.makesFolder_iff hnames htop)

theorem mem_keys_iff (hpacks : archive.Packs root tree) (hknows : index.Knows archive root)
    {path : String} :
    path ∈ index.files.keys ↔ ∃ file ∈ tree.files, InCorpus file.1 ∧ ofNames file.1 = path := by
  rw [Std.TreeMap.mem_keys, ← hpacks.isFileEntry_iff]
  exact hknows.tables.mem_files_iff

theorem listing (hpacks : archive.Packs root tree) (hknows : index.Knows archive root)
    (hnames : ∀ name ∈ names, Ordinary name) (htop : InCorpus names) (recursive : Bool)
    (test : String → Bool) :
    tree.Listing names recursive test
      ((index.startingWith (Index.leadOf (ofNames names))).filter fun path =>
        (recursive || Index.isDirectlyBelow (Index.leadOf (ofNames names)) path) &&
          test path) := by
  refine FileTree.listing_iff.mpr (Index.listingIn hnames ?_ ?_ ?_ recursive test)
  · intro path hkey
    obtain ⟨file, hfile, -, rfl⟩ := (hpacks.mem_keys_iff hknows).mp hkey
    exact ⟨file.1, tree.named _ hfile, tree.ordinary _ hfile, rfl⟩
  · intro rest hrest hall
    rw [hpacks.mem_keys_iff hknows]
    simp only [FileTree.get?_eq_file_iff]
    constructor
    · rintro ⟨⟨location, bytes⟩, hfile, -, heq⟩
      obtain rfl := Path.ofNames_injective (tree.ordinary _ hfile) hall heq
      exact ⟨bytes, hfile⟩
    · rintro ⟨bytes, hfile⟩
      exact ⟨_, hfile, htop.mono (List.prefix_append names rest), rfl⟩
  · exact fun rest bytes hfile => tree.ordinary _ (FileTree.get?_eq_file_iff.mp hfile)

theorem read_file (hpacks : archive.Packs root tree) (hknows : index.Knows archive root)
    (hfile : (names, bytes) ∈ tree.files) (htop : InCorpus names) :
    index.read (ofNames names) = .ok bytes := by
  have hnames := tree.ordinary _ hfile
  have hmem := (hpacks.mem_keys_iff hknows).mpr ⟨_, hfile, htop, rfl⟩
  rw [Std.TreeMap.mem_keys, Std.TreeMap.mem_iff_isSome_getElem?] at hmem
  obtain ⟨number, hnumber⟩ := Option.isSome_iff_exists.mp hmem
  obtain ⟨⟨_, hlisted, -, hpath⟩, -⟩ := (hknows.tables.files _ number).mp hnumber
  rw [Zip.Archive.getElem?_listed, Option.map_eq_some_iff] at hlisted
  obtain ⟨entry, hentry, rfl⟩ := hlisted
  obtain ⟨others, otherBytes, hother, hname, hread⟩ :=
    hpacks.file_of_entry (List.mem_of_getElem? hentry)
  have hotherNames := tree.ordinary _ hother
  rw [hname, Index.corpusPath?_append hotherNames (tree.named _ hother)] at hpath
  obtain rfl := Path.ofNames_injective hotherNames hnames hpath.2
  obtain rfl := FileTree.eq_of_mem_files hother hfile
  rw [Index.read_of_getElem? hknows.entries (Path.normalize_ofNames hnames) hnumber hentry]
  exact hread

theorem list_of_isFolder (hpacks : archive.Packs root tree) (hknows : index.Knows archive root)
    {asked : String} (hasked : Path.normalize asked = ofNames names) (htop : InCorpus names)
    (hfolder : tree.IsFolder names) (recursive : Bool) (test : String → Bool) :
    ∃ paths, index.list asked recursive test = .ok paths ∧
      tree.Listing names recursive test paths := by
  have hnames := FileTree.ordinary_of_isFolder hfolder
  have hthere := (hpacks.contains_iff hknows hnames htop).mpr hfolder
  refine ⟨_, ?_, hpacks.listing hknows hnames htop recursive test⟩
  rw [Index.list, hasked, if_neg (by simp [hthere])]

theorem list_of_not_isFolder (hpacks : archive.Packs root tree)
    (hknows : index.Knows archive root) {asked : String}
    (hasked : Path.normalize asked = ofNames names) (hnames : ∀ name ∈ names, Ordinary name)
    (htop : InCorpus names) (hfolder : ¬ tree.IsFolder names) (recursive : Bool)
    (test : String → Bool) :
    index.list asked recursive test = .error (.notFound (ofNames names)) := by
  have hne : ofNames names ≠ "" := mt (Path.ofNames_eq_empty_iff hnames).mp htop.ne_nil
  have hmissing := mt (hpacks.contains_iff hknows hnames htop).mp hfolder
  rw [Index.list, hasked, if_pos (by simp [hne, hmissing])]

theorem shows (hpacks : archive.Packs root tree) (hknows : index.Knows archive root) :
    index.toCorpus.Shows tree := by
  constructor
  · intro asked names recursive test hnames htop hasked hfolder
    rw [Index.list_toCorpus]
    exact hpacks.list_of_isFolder hknows hasked htop hfolder recursive test
  · intro asked names recursive test hnames htop hasked hfolder
    rw [Index.list_toCorpus]
    exact hpacks.list_of_not_isFolder hknows hasked hnames htop hfolder recursive test
  · intro names bytes hfile htop
    rw [Index.read_toCorpus]
    exact hpacks.read_file hknows hfile htop

end Zip.Archive.Packs

end Conformance
