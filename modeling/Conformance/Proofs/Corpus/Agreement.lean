import Conformance.Corpus.Walk
import Conformance.Proofs.Corpus.DirectoryView
import Conformance.Proofs.Corpus.IndexView

namespace Conformance

open Conformance.Path (Ordinary ofNames)

/-! Corpora that answer alike give streams of the same cases. -/

/-- Two corpora answer alike for some roots, and for what they list there. -/
structure Corpus.Agree (left right : Corpus) (asked : String → Prop) : Prop where
  list : ∀ {root : String} (recursive : Bool) (test : String → Bool), asked root →
    left.list root recursive test = right.list root recursive test
  read : ∀ {root : String} {recursive : Bool} {test : String → Bool} {paths : List String},
    asked root → left.list root recursive test = .ok paths →
      ∀ path ∈ paths, left.read path = right.read path

/-- A root that leads through ordinary names into a folder of the corpus. -/
def IsCorpusRoot (root : String) : Prop :=
  ∃ names, (∀ name ∈ names, Ordinary name) ∧ InCorpus names ∧
    Path.normalize root = ofNames names

theorem Corpus.Shows.agree {left right : Corpus} {tree : FileTree} (hleft : left.Shows tree)
    (hright : right.Shows tree) : left.Agree right IsCorpusRoot where
  list := by
    rintro root recursive test ⟨names, hnames, htop, hroot⟩
    by_cases hfolder : tree.IsFolder names
    · obtain ⟨paths, hpaths, hlisting⟩ := hleft.listed recursive test hnames htop hroot hfolder
      obtain ⟨others, hothers, hlisting'⟩ := hright.listed recursive test hnames htop hroot hfolder
      rw [hpaths, hothers, hlisting.unique hlisting']
    · rw [hleft.missing recursive test hnames htop hroot hfolder,
        hright.missing recursive test hnames htop hroot hfolder]
  read := by
    rintro root recursive test paths ⟨names, hnames, htop, hroot⟩ hpaths path hpath
    by_cases hfolder : tree.IsFolder names
    · obtain ⟨others, hothers, hlisting⟩ := hleft.listed recursive test hnames htop hroot hfolder
      rw [hpaths] at hothers
      cases hothers
      obtain ⟨rest, bytes, -, hfile, -, rfl, -⟩ := (hlisting.mem_iff path).mp hpath
      have hbelow : InCorpus (names ++ rest) := htop.mono (List.prefix_append names rest)
      rw [hleft.read hfile hbelow, hright.read hfile hbelow]
    · rw [hleft.missing recursive test hnames htop hroot hfolder] at hpaths
      cases hpaths

namespace Stream

variable {left right : Corpus} {options : StreamOptions} {path : String}

theorem load_congr (hread : left.read path = right.read path) (expand : Bool) :
    load left expand path = load right expand path := by
  rw [load, load, hread]

theorem helper_congr (hread : left.read path = right.read path) :
    helper left path = helper right path := by
  rw [helper, helper, loadNotices, loadNotices, load_congr hread, hread]

theorem helpers_congr {asked : String → Prop} (hagree : left.Agree right asked)
    (hharness : asked "harness") : helpers ⟨left, options⟩ = helpers ⟨right, options⟩ := by
  have hlist := hagree.list false (Text.endsWith ".js") hharness
  rw [helpers, helpers]
  cases hpaths : left.list "harness" false (Text.endsWith ".js") with
  | error error =>
      rw [← hlist, hpaths]
      rfl
  | ok paths =>
      have hmap : paths.map (helper left) = paths.map (helper right) :=
        List.map_congr_left fun path hpath => helper_congr (hagree.read hharness hpaths path hpath)
      rw [← hlist, hpaths]
      simp only [bind, Except.bind, hmap]

end Stream

namespace Walk

variable {left right : Corpus} {options : StreamOptions} {asked : String → Prop}

/-- All that a walk still asks for gets the same answers from two corpora. -/
structure Answered (left right : Corpus) (asked : String → Prop) (walk : Walk) : Prop where
  directories : ∀ directory ∈ walk.directories, asked (Stream.rootOf directory)
  files : ∀ path ∈ walk.files, left.read path = right.read path

theorem nextOfFiles_congr {directories files : List String} {otherwise others : Unit → Next}
    (hfiles : ∀ path ∈ files, left.read path = right.read path)
    (hotherwise : otherwise () = others ()) :
    nextOfFiles ⟨left, options⟩ directories otherwise files =
      nextOfFiles ⟨right, options⟩ directories others files := by
  induction files with
  | nil => exact hotherwise
  | cons path files ih =>
      rw [List.forall_mem_cons] at hfiles
      rw [nextOfFiles, nextOfFiles, Stream.load_congr hfiles.1, ih hfiles.2]

theorem nextOfDirectories_congr (hagree : left.Agree right asked) {directories : List String}
    (hdirectories : ∀ directory ∈ directories, asked (Stream.rootOf directory)) :
    nextOfDirectories ⟨left, options⟩ directories =
      nextOfDirectories ⟨right, options⟩ directories := by
  induction directories with
  | nil => rfl
  | cons directory directories ih =>
      rw [List.forall_mem_cons] at hdirectories
      have hlist := hagree.list true Stream.isTestFile hdirectories.1
      rw [nextOfDirectories, nextOfDirectories]
      cases hfiles : left.list (Stream.rootOf directory) true Stream.isTestFile with
      | error error =>
          simp only [← hlist, hfiles]
      | ok files =>
          simp only [← hlist, hfiles]
          exact congrArg (Next.after _)
            (nextOfFiles_congr (hagree.read hdirectories.1 hfiles) (ih hdirectories.2))

theorem next_congr (hagree : left.Agree right asked) {walk : Walk}
    (hwalk : walk.Answered left right asked) :
    walk.next ⟨left, options⟩ = walk.next ⟨right, options⟩ := by
  rw [next, next]
  split
  · rfl
  · exact nextOfFiles_congr hwalk.files (nextOfDirectories_congr hagree hwalk.directories)

theorem answered_nextOfFiles {directories files : List String} {otherwise : Unit → Next}
    (hdirectories : ∀ directory ∈ directories, asked (Stream.rootOf directory))
    (hfiles : ∀ path ∈ files, left.read path = right.read path)
    (hotherwise : (otherwise ()).walk.Answered left right asked) :
    (nextOfFiles ⟨left, options⟩ directories otherwise files).walk.Answered left right asked := by
  induction files with
  | nil => exact hotherwise
  | cons path files ih =>
      rw [List.forall_mem_cons] at hfiles
      rw [nextOfFiles]
      cases Stream.load left options.expandStrict path with
      | error error => exact ⟨hdirectories, hfiles.2⟩
      | ok cases =>
          cases hready : cases.filter options.filter with
          | nil =>
              simp only [hready]
              exact ih hfiles.2
          | cons case ready =>
              simp only [hready]
              exact ⟨hdirectories, hfiles.2⟩

theorem answered_nextOfDirectories (hagree : left.Agree right asked) {directories : List String}
    (hdirectories : ∀ directory ∈ directories, asked (Stream.rootOf directory)) :
    (nextOfDirectories ⟨left, options⟩ directories).walk.Answered left right asked := by
  induction directories with
  | nil => exact ⟨hdirectories, by simp [nextOfDirectories]⟩
  | cons directory directories ih =>
      rw [List.forall_mem_cons] at hdirectories
      rw [nextOfDirectories]
      cases hfiles : left.list (Stream.rootOf directory) true Stream.isTestFile with
      | error error => exact ⟨hdirectories.2, by simp [Next.after]⟩
      | ok files =>
          exact answered_nextOfFiles hdirectories.2 (hagree.read hdirectories.1 hfiles)
            (ih hdirectories.2)

theorem answered_next (hagree : left.Agree right asked) {walk : Walk}
    (hwalk : walk.Answered left right asked) :
    (walk.next ⟨left, options⟩).walk.Answered left right asked := by
  rw [next]
  split
  · exact ⟨hwalk.directories, hwalk.files⟩
  · exact answered_nextOfFiles hwalk.directories hwalk.files
      (answered_nextOfDirectories hagree hwalk.directories)

theorem calls_congr (hagree : left.Agree right asked) {walk : Walk}
    (hwalk : walk.Answered left right asked) (count : Nat) :
    calls ⟨left, options⟩ walk count = calls ⟨right, options⟩ walk count := by
  induction count generalizing walk with
  | zero => rfl
  | succ count ih =>
      rw [calls, calls, ih (answered_next hagree hwalk), next_congr hagree hwalk]

end Walk

theorem isCorpusRoot_rootOf {directory : String} {names : List String}
    (hnames : ∀ name ∈ names, Ordinary name)
    (hdirectory : Path.normalize directory = ofNames names) :
    IsCorpusRoot (Stream.rootOf directory) := by
  have hall : ∀ name ∈ "test" :: names, Ordinary name :=
    List.forall_mem_cons.mpr ⟨by decide, hnames⟩
  refine ⟨"test" :: names, hall, ⟨"test", by decide, by simp⟩, ?_⟩
  rw [Stream.rootOf, hdirectory]
  by_cases hempty : names = []
  · subst hempty
    decide
  · have happend : ofNames (["test"] ++ names) = ofNames ["test"] ++ "/" ++ ofNames names :=
      Path.ofNames_append (by simp) hempty
    rw [List.singleton_append, Path.ofNames_singleton] at happend
    rw [← Path.normalize_ofNames hall, happend]
    rfl

theorem isCorpusRoot_harness : IsCorpusRoot "harness" :=
  ⟨["harness"], by decide, ⟨"harness", by decide, by simp⟩, by decide⟩

/-- A directory and an archive with the same files give the same stream: call by
call the same items, for the same operations, and the same helper scripts. -/
theorem stream_directory_eq_archive {tree : FileTree} (htop : tree.HasTop) {host : Host}
    {base : String} {location : Host.Location} (hholds : host.Holds base location tree)
    {archive : Zip.Archive} {rootName : String}
    (hpacks : archive.Packs (Path.normalize rootName) tree) (options : StreamOptions)
    (hfolders : ∀ folder ∈ options.subDirectories,
      ∃ names, (∀ name ∈ names, Ordinary name) ∧ Path.normalize folder = ofNames names) :
    ∃ directory index, Directory.ofPath host base = .ok directory ∧
      Index.ofArchive archive rootName = .ok index ∧
      (∀ count,
        Walk.calls ⟨directory.toCorpus, options⟩ (.start ⟨directory.toCorpus, options⟩) count =
          Walk.calls ⟨index.toCorpus, options⟩ (.start ⟨index.toCorpus, options⟩) count) ∧
      Stream.helpers ⟨directory.toCorpus, options⟩ = Stream.helpers ⟨index.toCorpus, options⟩ := by
  obtain ⟨index, hindex, hknows⟩ := hpacks.knows_ofArchive htop
  have hagree := hholds.shows.agree (hpacks.shows hknows)
  refine ⟨⟨host, base⟩, index, hholds.ofPath, hindex, ?_, ?_⟩
  · intro count
    simp only [Walk.start]
    refine Walk.calls_congr hagree ⟨?_, by simp⟩ count
    intro folder hfolder
    obtain ⟨names, hnames, hnormal⟩ := hfolders folder hfolder
    exact isCorpusRoot_rootOf hnames hnormal
  · exact Stream.helpers_congr hagree isCorpusRoot_harness

def twoFiles : FileTree where
  files := [(["test", "a", "b.js"], "/*---\ndescription: d\n---*/\n".toUTF8),
    (["harness", "c.js"], .empty)]
  named := by simp
  ordinary := by
    simp only [List.forall_mem_cons, List.not_mem_nil, false_imp_iff, implies_true, and_true]
    decide
  distinct := by simp
  apart := by simp

theorem isFolder_twoFiles_iff (location : Host.Location) :
    twoFiles.IsFolder location ↔ location ∈ [["test"], ["test", "a"], ["harness"], []] := by
  simp [FileTree.IsFolder, twoFiles, List.prefix_cons_iff]
  grind

def hostOfTwo : Host :=
  let folders := [["c"], ["c", "test"], ["c", "test", "a"], ["c", "harness"]]
  let host := folders.foldl (fun host folder => host.put folder .folder) (Host.empty [])
  twoFiles.files.foldl (fun host file => host.put ("c" :: file.1) (.file file.2)) host

theorem get?_hostOfTwo (location : Host.Location) :
    hostOfTwo.get? location =
      if location = ["c", "harness", "c.js"] then some (.file .empty)
      else if location = ["c", "test", "a", "b.js"] then
        some (.file "/*---\ndescription: d\n---*/\n".toUTF8)
      else if location ∈ [["c"], ["c", "test"], ["c", "test", "a"], ["c", "harness"], []] then
        some .folder
      else none := by
  have hempty : (Host.empty []).get? location = if location = [] then some .folder else none := by
    simp [Host.get?, Host.empty]
  simp only [hostOfTwo, twoFiles, List.foldl_cons, List.foldl_nil]
  repeat rw [Host.get?_put _ _ _ _ (by simp)]
  rw [hempty]
  grind

theorem holds_hostOfTwo : hostOfTwo.Holds "/c" ["c"] twoFiles := by
  apply Host.Holds.of_lengths
  · have hfolders : ∀ front, front <+: ["c"] → front ≠ ["c"] →
        hostOfTwo.get? ([] ++ front) = some .folder := by
      intro front hfront hne
      obtain rfl : front = [] := by simpa [List.prefix_cons_iff, hne] using hfront
      exact get?_hostOfTwo []
    have hleads : hostOfTwo.Leads 40 [] ["c"] ["c"] :=
      .down (by decide) hfolders (get?_hostOfTwo ["c"]) (by simp)
    refine Host.resolve_eq_ok_iff.mpr ⟨Host.find_eq_ok_iff.mpr ?_, get?_hostOfTwo ["c"]⟩
    exact ⟨by decide, by decide, by decide, hleads⟩
  · intro rest hrest
    rw [get?_hostOfTwo, FileTree.get?]
    simp only [isFolder_twoFiles_iff]
    simp [twoFiles, List.find?_cons, hrest]
    grind
  · simp only [twoFiles, List.forall_mem_cons, List.not_mem_nil, false_imp_iff, implies_true,
      and_true]
    decide

def archiveOfTwo : Zip.Archive :=
  twoFiles.files.reverse.map fun file => .plain ("x/" ++ ofNames file.1) file.2

theorem packs_archiveOfTwo : archiveOfTwo.Packs (Path.normalize "./x/") twoFiles := by
  have hlead : Index.leadOf (Path.normalize "./x/") = "x/" := by decide
  rw [Zip.Archive.Packs, archiveOfTwo, hlead, List.map_map]
  simp only [Function.comp_def, Zip.Entry.read_plain]
  exact (List.reverse_perm _).map _

def wholeAndMissing : StreamOptions where
  subDirectories := ["/", "missing"]

theorem stream_directory_eq_archive_two :
    twoFiles.HasTop ∧ hostOfTwo.Holds "/c" ["c"] twoFiles ∧
      archiveOfTwo.Packs (Path.normalize "./x/") twoFiles ∧
      ∃ directory index, Directory.ofPath hostOfTwo "/c" = .ok directory ∧
        Index.ofArchive archiveOfTwo "./x/" = .ok index ∧
        (∀ count,
          Walk.calls ⟨directory.toCorpus, wholeAndMissing⟩
              (.start ⟨directory.toCorpus, wholeAndMissing⟩) count =
            Walk.calls ⟨index.toCorpus, wholeAndMissing⟩
              (.start ⟨index.toCorpus, wholeAndMissing⟩) count) ∧
        Stream.helpers ⟨directory.toCorpus, wholeAndMissing⟩ =
          Stream.helpers ⟨index.toCorpus, wholeAndMissing⟩ := by
  have htop : twoFiles.HasTop :=
    ⟨"test", by decide, (isFolder_twoFiles_iff ["test"]).mpr (by simp)⟩
  have hfolders : ∀ folder ∈ wholeAndMissing.subDirectories,
      ∃ names, (∀ name ∈ names, Ordinary name) ∧ Path.normalize folder = ofNames names := by
    simp only [wholeAndMissing, List.forall_mem_cons, List.not_mem_nil, false_imp_iff,
      implies_true, and_true]
    exact ⟨⟨[], by simp, by decide⟩, ⟨["missing"], by decide, by decide⟩⟩
  exact ⟨htop, holds_hostOfTwo, packs_archiveOfTwo,
    stream_directory_eq_archive htop holds_hostOfTwo packs_archiveOfTwo wholeAndMissing hfolders⟩

end Conformance
