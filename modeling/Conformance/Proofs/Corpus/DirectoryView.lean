import Conformance.Corpus.Directory
import Conformance.Proofs.Corpus.Tree
import Conformance.Proofs.Host.Change

namespace Conformance

open Conformance.Path (Ordinary ofNames)

/-! A folder of the host that holds a tree shows it. -/

namespace Directory

variable {host : Host} {base root : String} {location names rest : Host.Location}
  {content : Host.Location → Option Host.Entry}

theorem mem_filesBelow_iff :
    rest ∈ filesBelow host location ↔
      rest ≠ [] ∧ ∃ bytes, host.get? (location ++ rest) = some (.file bytes) := by
  rw [filesBelow, List.mem_filterMap]
  constructor
  · rintro ⟨⟨other, entry⟩, hmem, hfile⟩
    cases entry with
    | file bytes =>
        cases hfile
        obtain ⟨hrest, hget⟩ := Host.mem_contents_iff.mp hmem
        exact ⟨hrest, bytes, hget⟩
    | folder => cases hfile
    | link target => cases hfile
  · rintro ⟨hrest, bytes, hget⟩
    exact ⟨(rest, .file bytes), Host.mem_contents_iff.mpr ⟨hrest, hget⟩, rfl⟩

theorem nodup_filesBelow (host : Host) (location : Host.Location) :
    (filesBelow host location).Nodup := by
  refine List.pairwise_filterMap.mpr ((Host.contents_pairwise host location).imp ?_)
  intro left right hdistinct first hfirst second hsecond
  split at hfirst
  · split at hsecond
    · cases hfirst
      cases hsecond
      exact hdistinct
    · cases hsecond
  · cases hfirst

theorem listedPath_eq (hnames : ∀ name ∈ names ++ rest, Ordinary name) (hne : names ≠ [])
    (hrest : rest ≠ []) : listedPath (ofNames names) rest = ofNames (names ++ rest) := by
  have hempty : ofNames names ≠ "" := by
    rw [Ne, Path.ofNames_eq_empty_iff (List.forall_mem_append.mp hnames).1]
    exact hne
  rw [listedPath]
  simp only [String.isEmpty_iff, hempty]
  change Path.normalize (ofNames names ++ "/" ++ ofNames rest) = _
  rw [← Path.ofNames_append hne hrest, Path.normalize_ofNames hnames]

theorem listedPath_ofNames (hnames : ∀ name ∈ names ++ rest, Ordinary name) (hrest : rest ≠ []) :
    listedPath (ofNames names) rest = ofNames (names ++ rest) := by
  by_cases hne : names = []
  · subst hne
    exact Path.normalize_ofNames hnames
  · exact listedPath_eq hnames hne hrest

theorem listingIn (hbelow : ∀ rest, rest ≠ [] → host.get? (location ++ rest) = content rest)
    (hordinary : ∀ rest bytes, content rest = some (.file bytes) → ∀ name ∈ rest, Ordinary name)
    (names : Host.Location) (recursive : Bool) (test : String → Bool) :
    ListingIn content names recursive test
      (Path.sortPaths
        ((((filesBelow host (location ++ names)).filter fun rest =>
          recursive || rest.length == 1).map (listedPath (ofNames names))).filter test)) := by
  have hfiles : ∀ rest, rest ∈ filesBelow host (location ++ names) ↔
      rest ≠ [] ∧ ∃ bytes, content (names ++ rest) = some (.file bytes) := by
    intro rest
    rw [mem_filesBelow_iff, List.append_assoc]
    refine and_congr_right fun hrest => ?_
    rw [hbelow _ (by simp [hrest])]
  have hlisted : ∀ rest ∈ filesBelow host (location ++ names),
      (∀ name ∈ names ++ rest, Ordinary name) ∧
        listedPath (ofNames names) rest = ofNames (names ++ rest) := by
    intro rest hmem
    obtain ⟨hrest, bytes, hfile⟩ := (hfiles rest).mp hmem
    have hnames := hordinary _ _ hfile
    exact ⟨hnames, listedPath_ofNames hnames hrest⟩
  refine ⟨Path.sortPaths_pairwise (List.Nodup.filter test ?_), fun path => ?_⟩
  · refine List.Nodup.map_on ?_ ((nodup_filesBelow host _).filter _)
    intro left hleft right hright heq
    obtain ⟨hleftNames, hleftPath⟩ := hlisted left (List.mem_filter.mp hleft).1
    obtain ⟨hrightNames, hrightPath⟩ := hlisted right (List.mem_filter.mp hright).1
    rw [hleftPath, hrightPath] at heq
    exact List.append_cancel_left (Path.ofNames_injective hleftNames hrightNames heq)
  · rw [(Path.sortPaths_perm _).mem_iff, List.mem_filter, List.mem_map]
    simp only [List.mem_filter, Bool.or_eq_true, beq_iff_eq]
    constructor
    · rintro ⟨⟨rest, ⟨hmem, hdepth⟩, rfl⟩, htest⟩
      obtain ⟨hrest, bytes, hfile⟩ := (hfiles rest).mp hmem
      exact ⟨rest, bytes, hrest, hfile, hdepth, (hlisted rest hmem).2, htest⟩
    · rintro ⟨rest, bytes, hrest, hfile, hdepth, rfl, htest⟩
      have hmem := (hfiles rest).mpr ⟨hrest, bytes, hfile⟩
      exact ⟨⟨rest, ⟨hmem, hdepth⟩, (hlisted rest hmem).2⟩, htest⟩

theorem isPlain_ofNames (hnames : ∀ name ∈ names, Ordinary name) :
    isPlain (ofNames names).toList = true := by
  by_cases hempty : names = []
  · subst hempty
    decide
  · have hdots : ∀ segment ∈ names.map String.toList, segment ≠ ['.'] ∧ segment ≠ ['.', '.'] := by
      intro segment hsegment
      obtain ⟨name, hname, rfl⟩ := List.mem_map.mp hsegment
      refine ⟨fun heq => (hnames name hname).ne_dot (String.toList_injective heq), fun heq => ?_⟩
      exact (hnames name hname).ne_dots (String.toList_injective heq)
    rw [isPlain, Path.segments_ofNames hnames hempty]
    simp only [Bool.and_eq_true, bne_iff_ne, Bool.not_eq_true', Bool.eq_false_iff, ne_eq,
      List.contains_iff_mem]
    refine ⟨fun hhead => ?_, fun hmem => ?_⟩
    · exact (hdots _ (List.mem_of_head? hhead)).1 rfl
    · exact (hdots _ hmem).2 rfl

theorem locate_eq {directory : Directory} (hnames : ∀ name ∈ names, Ordinary name)
    (hroot : Path.normalize root = ofNames names) :
    directory.locate root = .ok (Host.join directory.base (ofNames names)) := by
  rw [locate]
  simp only [hroot, isPlain_ofNames hnames, if_true]

end Directory

theorem Host.IsBase.ofPath {host : Host} {base : String} {location : Host.Location}
    (hbase : host.IsBase base location) : Directory.ofPath host base = .ok ⟨host, base⟩ := by
  have hfolder : host.isFolder base = true := by
    rw [Host.isFolder, hbase.resolved]
  rw [Directory.ofPath, if_neg (by simpa using hbase.ne_empty), if_pos hfolder]

theorem Host.read_eq_ok_iff {host : Host} {path : String} {bytes : ByteArray} :
    host.read path = .ok bytes ↔ ∃ location, host.resolve path = .ok (location, .file bytes) := by
  unfold Host.read
  cases host.resolve path with
  | error fault => simp [bind, Except.bind]
  | ok found =>
      obtain ⟨location, entry⟩ := found
      cases entry <;> simp [bind, Except.bind]

/-- A path of the host leads to a folder that holds the files of a tree, and
these can be read. -/
structure Host.Holds (host : Host) (base : String) (location : Host.Location)
    (tree : FileTree) : Prop where
  resolved : host.resolve base = .ok (location, .folder)
  below : ∀ rest, rest ≠ [] → host.get? (location ++ rest) = tree.get? rest
  read : ∀ file ∈ tree.files, host.read (Host.join base (ofNames file.1)) = .ok file.2

namespace Host.Holds

variable {host : Host} {base : String} {location names : Host.Location} {tree : FileTree}

theorem isBase_of_below (hresolved : host.resolve base = .ok (location, .folder))
    (hbelow : ∀ rest, rest ≠ [] → host.get? (location ++ rest) = tree.get? rest) :
    host.IsBase base location := by
  refine ⟨hresolved, ?_⟩
  intro rest target hrest
  rw [hbelow rest hrest]
  exact FileTree.get?_ne_link target

theorem isBase (hholds : host.Holds base location tree) : host.IsBase base location :=
  isBase_of_below hholds.resolved hholds.below

theorem of_lengths (hresolved : host.resolve base = .ok (location, .folder))
    (hbelow : ∀ rest, rest ≠ [] → host.get? (location ++ rest) = tree.get? rest)
    (hlengths : ∀ file ∈ tree.files, (∀ name ∈ file.1, name.utf8ByteSize ≤ Host.longestName) ∧
      (Host.join base (ofNames file.1)).utf8ByteSize < Host.pathLimit) :
    host.Holds base location tree := by
  have hbase := isBase_of_below hresolved hbelow
  refine ⟨hresolved, hbelow, ?_⟩
  rintro ⟨path, bytes⟩ hfile
  have hnames := tree.ordinary _ hfile
  have hne := tree.named _ hfile
  obtain ⟨fewer, hfind⟩ := hbase.find_join
  have hentry : host.get? (location ++ path) = some (.file bytes) := by
    rw [hbelow path hne, FileTree.get?_of_mem hfile]
  have hfolders : ∀ front, front <+: path → front ≠ path →
      host.get? (location ++ front) = some .folder := by
    intro front hfront hdiffer
    by_cases hempty : front = []
    · rw [hempty, List.append_nil]
      exact (Host.resolve_eq_ok_iff.mp hresolved).2
    · rw [hbelow front hempty]
      exact FileTree.get?_eq_folder_iff.mpr ⟨_, hfile, hfront, hdiffer⟩
  have hleads : host.Leads fewer location path (location ++ path) :=
    .down (fun name hname => ⟨hnames name hname, (hlengths _ hfile).1 name hname⟩) hfolders hentry
      (by simp)
  have hresolve : host.resolve (Host.join base (ofNames path)) =
      .ok (location ++ path, .file bytes) :=
    Host.resolve_eq_ok_iff.mpr ⟨(hfind hnames hne).mpr ⟨(hlengths _ hfile).2, hleads⟩, hentry⟩
  rw [Host.read, hresolve]
  rfl

theorem resolve_file (hholds : host.Holds base location tree) {bytes : ByteArray}
    (hfile : (names, bytes) ∈ tree.files) :
    host.resolve (Host.join base (ofNames names)) = .ok (location ++ names, .file bytes) := by
  have hnames := tree.ordinary _ hfile
  have hne := tree.named _ hfile
  obtain ⟨found, hresolve⟩ := Host.read_eq_ok_iff.mp (hholds.read _ hfile)
  obtain ⟨rfl, -⟩ := hholds.isBase.eq_of_resolve_join hnames hne hresolve
  exact hresolve

theorem resolve_eq_folder_iff (hholds : host.Holds base location tree) {found : Host.Location}
    (hnames : ∀ name ∈ names, Ordinary name) (hne : names ≠ []) :
    host.resolve (Host.join base (ofNames names)) = .ok (found, .folder) ↔
      found = location ++ names ∧ tree.IsFolder names := by
  constructor
  · intro hresolve
    obtain ⟨rfl, hget⟩ := hholds.isBase.eq_of_resolve_join hnames hne hresolve
    rw [hholds.below names hne] at hget
    exact ⟨rfl, FileTree.get?_eq_folder_iff.mp hget⟩
  · rintro ⟨rfl, hfolder⟩
    obtain ⟨rest, bytes, hrest, hfile⟩ := FileTree.isFolder_iff.mp hfolder
    have hrestNames := (List.forall_mem_append.mp (tree.ordinary _ hfile)).2
    exact hholds.isBase.resolve_join_front hnames hrestNames hne hrest (hholds.resolve_file hfile)

theorem ofPath (hholds : host.Holds base location tree) :
    Directory.ofPath host base = .ok ⟨host, base⟩ :=
  hholds.isBase.ofPath

theorem listing (hholds : host.Holds base location tree) (recursive : Bool)
    (test : String → Bool) :
    tree.Listing names recursive test
      (Path.sortPaths
        ((((Directory.filesBelow host (location ++ names)).filter fun rest =>
          recursive || rest.length == 1).map (Directory.listedPath (ofNames names))).filter
            test)) := by
  refine FileTree.listing_iff.mpr (Directory.listingIn hholds.below ?_ names recursive test)
  exact fun rest bytes hfile => tree.ordinary _ (FileTree.get?_eq_file_iff.mp hfile)

theorem list_of_isFolder (hholds : host.Holds base location tree) {root : String}
    (hroot : Path.normalize root = ofNames names) (hne : names ≠ [])
    (hfolder : tree.IsFolder names) (recursive : Bool) (test : String → Bool) :
    ∃ paths, Directory.list ⟨host, base⟩ root recursive test = .ok paths ∧
      tree.Listing names recursive test paths := by
  have hnames := FileTree.ordinary_of_isFolder hfolder
  have hresolve := (hholds.resolve_eq_folder_iff hnames hne).mpr ⟨rfl, hfolder⟩
  refine ⟨_, ?_, hholds.listing recursive test⟩
  rw [Directory.list, Directory.locate_eq hnames hroot]
  simp only [bind, Except.bind, hresolve, hroot]
  rfl

theorem list_of_not_isFolder (hholds : host.Holds base location tree) {root : String}
    (hroot : Path.normalize root = ofNames names) (hnames : ∀ name ∈ names, Ordinary name)
    (hne : names ≠ []) (hfolder : ¬ tree.IsFolder names) (recursive : Bool)
    (test : String → Bool) :
    Directory.list ⟨host, base⟩ root recursive test = .error (.notFound (ofNames names)) := by
  rw [Directory.list, Directory.locate_eq hnames hroot]
  simp only [bind, Except.bind, hroot]
  split
  · rename_i found hresolve
    exact absurd ((hholds.resolve_eq_folder_iff hnames hne).mp hresolve).2 hfolder
  · rfl

theorem read_file (hholds : host.Holds base location tree) {bytes : ByteArray}
    (hfile : (names, bytes) ∈ tree.files) :
    Directory.read ⟨host, base⟩ (ofNames names) = .ok bytes := by
  have hnames := tree.ordinary _ hfile
  have hresolve := hholds.resolve_file hfile
  have hfolder : host.isFolder (Host.join base (ofNames names)) = false := by
    rw [Host.isFolder, hresolve]
  rw [Directory.read, Directory.locate_eq hnames (Path.normalize_ofNames hnames)]
  simp only [bind, Except.bind, hfolder, hholds.read _ hfile]
  rfl

theorem shows (hholds : host.Holds base location tree) :
    (Directory.toCorpus ⟨host, base⟩).Shows tree where
  listed recursive test _ htop hroot hfolder :=
    hholds.list_of_isFolder hroot htop.ne_nil hfolder recursive test
  missing recursive test hnames htop hroot hfolder :=
    hholds.list_of_not_isFolder hroot hnames htop.ne_nil hfolder recursive test
  read hfile _ := hholds.read_file hfile

end Host.Holds

end Conformance
