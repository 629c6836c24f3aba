import Conformance.Proofs.Corpus.Agreement

namespace Conformance

open Conformance.Path (Ordinary ofNames)

/-! Corpora told by what stands at each location below their roots. Two of them that show
the same answer alike. -/

variable {content : Host.Location → Option Host.Entry} {names : List String}

/-- A path that leads through ordinary names, or none. -/
def IsPlainPath (path : String) : Prop :=
  ∃ names, (∀ name ∈ names, Ordinary name) ∧ Path.normalize path = ofNames names

namespace Corpus

/-- A corpus shows all of what there is. -/
structure Presents (corpus : Corpus) (content : Host.Location → Option Host.Entry) : Prop where
  listed : ∀ {root : String} {names : List String} (recursive : Bool) (test : String → Bool),
    (∀ name ∈ names, Ordinary name) → Path.normalize root = ofNames names →
      content names = some .folder →
        ∃ paths, corpus.list root recursive test = .ok paths ∧
          ListingIn content names recursive test paths
  missing : ∀ {root : String} {names : List String} (recursive : Bool) (test : String → Bool),
    (∀ name ∈ names, Ordinary name) → Path.normalize root = ofNames names →
      content names ≠ some .folder →
        corpus.list root recursive test = .error (.notFound (ofNames names))
  read : ∀ {path : String} {names : List String} (bytes : ByteArray),
    (∀ name ∈ names, Ordinary name) → Path.normalize path = ofNames names →
      (corpus.read path = .ok bytes ↔ content names = some (.file bytes))

/-- Two corpora list the same paths for a plain root, or neither finds it; and they have the
same files with the same bytes, those that are listed among them. -/
structure Alike (left right : Corpus) : Prop where
  list : ∀ {root : String} (recursive : Bool) (test : String → Bool), IsPlainPath root →
    (∃ paths, left.list root recursive test = .ok paths ∧
        right.list root recursive test = .ok paths) ∨
      left.list root recursive test = .error (.notFound (Path.normalize root)) ∧
        right.list root recursive test = .error (.notFound (Path.normalize root))
  read : ∀ {path : String} (bytes : ByteArray), IsPlainPath path →
    (left.read path = .ok bytes ↔ right.read path = .ok bytes)
  listed : ∀ {root : String} {recursive : Bool} {test : String → Bool} {paths : List String},
    IsPlainPath root → left.list root recursive test = .ok paths →
      ∀ path ∈ paths, IsPlainPath path ∧ ∃ bytes, left.read path = .ok bytes

theorem Presents.alike {left right : Corpus} (hleft : left.Presents content)
    (hright : right.Presents content)
    (hordinary : ∀ rest entry, content rest = some entry → ∀ name ∈ rest, Ordinary name) :
    left.Alike right where
  list := by
    rintro root recursive test ⟨names, hnames, hroot⟩
    by_cases hfolder : content names = some .folder
    · obtain ⟨paths, hpaths, hlisting⟩ := hleft.listed recursive test hnames hroot hfolder
      obtain ⟨others, hothers, hlisting'⟩ := hright.listed recursive test hnames hroot hfolder
      obtain rfl := hlisting.unique hlisting'
      exact .inl ⟨paths, hpaths, hothers⟩
    · rw [hroot]
      exact .inr ⟨hleft.missing recursive test hnames hroot hfolder,
        hright.missing recursive test hnames hroot hfolder⟩
  read := by
    rintro path bytes ⟨names, hnames, hpath⟩
    rw [hleft.read bytes hnames hpath, hright.read bytes hnames hpath]
  listed := by
    rintro root recursive test paths ⟨names, hnames, hroot⟩ hpaths path hpath
    by_cases hfolder : content names = some .folder
    · obtain ⟨others, hothers, hlisting⟩ := hleft.listed recursive test hnames hroot hfolder
      rw [hpaths] at hothers
      cases hothers
      obtain ⟨rest, bytes, -, hfile, -, rfl, -⟩ := (hlisting.mem_iff path).mp hpath
      have hall := hordinary _ _ hfile
      have hself := Path.normalize_ofNames hall
      exact ⟨⟨_, hall, hself⟩, bytes, (hleft.read bytes hall hself).mpr hfile⟩
    · rw [hleft.missing recursive test hnames hroot hfolder] at hpaths
      cases hpaths

end Corpus

/-- A path of the host leads to a folder; what there is stands below it, and is reached
behind the path. -/
structure Host.Bears (host : Host) (base : String) (location : Host.Location)
    (content : Host.Location → Option Host.Entry) : Prop where
  isBase : host.IsBase base location
  below : ∀ rest, host.get? (location ++ rest) = content rest
  ordinary : ∀ rest entry, content rest = some entry → ∀ name ∈ rest, Ordinary name
  reached : ∀ rest entry, content rest = some entry →
    host.resolve (Host.join base (ofNames rest)) = .ok (location ++ rest, entry)

namespace Host.Bears

variable {host : Host} {base : String} {location : Host.Location}

theorem resolve_eq_ok_iff (hbears : host.Bears base location content) {found : Host.Location}
    {entry : Host.Entry} (hnames : ∀ name ∈ names, Ordinary name) :
    host.resolve (Host.join base (ofNames names)) = .ok (found, entry) ↔
      found = location ++ names ∧ content names = some entry := by
  constructor
  · intro hresolve
    by_cases hne : names = []
    · subst hne
      have hroot : content [] = some .folder := by
        rw [← hbears.below, List.append_nil]
        exact (Host.resolve_eq_ok_iff.mp hbears.isBase.resolved).2
      rw [hbears.reached [] .folder hroot] at hresolve
      cases hresolve
      exact ⟨rfl, hroot⟩
    · obtain ⟨rfl, hget⟩ := hbears.isBase.eq_of_resolve_join hnames hne hresolve
      rw [hbears.below] at hget
      exact ⟨rfl, hget⟩
  · rintro ⟨rfl, hentry⟩
    exact hbears.reached names entry hentry

theorem read_eq_ok_iff (hbears : host.Bears base location content) {path : String}
    (bytes : ByteArray) (hnames : ∀ name ∈ names, Ordinary name)
    (hpath : Path.normalize path = ofNames names) :
    Directory.read ⟨host, base⟩ path = .ok bytes ↔ content names = some (.file bytes) := by
  have hhost : host.read (Host.join base (ofNames names)) = .ok bytes ↔
      content names = some (.file bytes) := by
    rw [Host.read_eq_ok_iff]
    simp only [hbears.resolve_eq_ok_iff hnames, exists_and_right, exists_eq, true_and]
  rw [← hhost, Directory.read, Directory.locate_eq hnames hpath]
  simp only [bind, Except.bind]
  constructor
  · intro hread
    split at hread
    · cases hread
    · split at hread
      · rename_i other hother
        cases hread
        exact hother
      · cases hread
      · cases hread
  · intro hread
    have hresolve := hbears.reached _ _ (hhost.mp hread)
    have hfolder : host.isFolder (Host.join base (ofNames names)) = false := by
      rw [Host.isFolder, hresolve]
    simp only [hfolder, hread]
    rfl

theorem presents (hbears : host.Bears base location content) :
    (Directory.toCorpus ⟨host, base⟩).Presents content where
  listed := by
    intro root names recursive test hnames hroot hfolder
    have hresolve := (hbears.resolve_eq_ok_iff hnames).mpr ⟨rfl, hfolder⟩
    refine ⟨_, ?_, Directory.listingIn (fun rest _ => hbears.below rest)
      (fun rest bytes => hbears.ordinary rest (.file bytes)) names recursive test⟩
    show Directory.list ⟨host, base⟩ root recursive test = _
    rw [Directory.list, Directory.locate_eq hnames hroot]
    simp only [bind, Except.bind, hresolve, hroot]
    rfl
  missing := by
    intro root names recursive test hnames hroot hfolder
    show Directory.list ⟨host, base⟩ root recursive test = _
    rw [Directory.list, Directory.locate_eq hnames hroot]
    simp only [bind, Except.bind, hroot]
    split
    · rename_i found hresolve
      exact absurd ((hbears.resolve_eq_ok_iff hnames).mp hresolve).2 hfolder
    · rfl
  read := hbears.read_eq_ok_iff

end Host.Bears

/-- The tables of an index name what there is, and its files can be read. -/
structure Index.Bears (index : Index) (content : Host.Location → Option Host.Entry) : Prop where
  root : content [] = some .folder
  directories : ∀ names, (∀ name ∈ names, Ordinary name) → names ≠ [] →
    (index.directories.contains (ofNames names) = true ↔ content names = some .folder)
  files : ∀ path, path ∈ index.files.keys ↔
    ∃ names bytes, content names = some (.file bytes) ∧ ofNames names = path
  ordinary : ∀ names bytes, content names = some (.file bytes) → ∀ name ∈ names, Ordinary name
  read : ∀ names bytes, content names = some (.file bytes) →
    index.read (ofNames names) = .ok bytes

namespace Index

variable {index : Index}

theorem Bears.listingIn (hbears : index.Bears content) (hnames : ∀ name ∈ names, Ordinary name)
    (recursive : Bool) (test : String → Bool) :
    ListingIn content names recursive test
      ((index.startingWith (leadOf (ofNames names))).filter fun path =>
        (recursive || isDirectlyBelow (leadOf (ofNames names)) path) && test path) := by
  refine Index.listingIn hnames ?_ ?_ hbears.ordinary recursive test
  · intro path hkey
    obtain ⟨location, bytes, hfile, rfl⟩ := (hbears.files path).mp hkey
    refine ⟨location, ?_, hbears.ordinary _ _ hfile, rfl⟩
    rintro rfl
    rw [hbears.root] at hfile
    cases hfile
  · intro rest hrest hall
    rw [hbears.files]
    constructor
    · rintro ⟨location, bytes, hfile, heq⟩
      obtain rfl := Path.ofNames_injective (hbears.ordinary _ _ hfile) hall heq
      exact ⟨bytes, hfile⟩
    · rintro ⟨bytes, hfile⟩
      exact ⟨_, bytes, hfile, rfl⟩

theorem Bears.isMissing_iff (hbears : index.Bears content)
    (hnames : ∀ name ∈ names, Ordinary name) :
    (!(ofNames names).isEmpty && !index.directories.contains (ofNames names)) = true ↔
      content names ≠ some .folder := by
  by_cases hne : names = []
  · subst hne
    simp [hbears.root]
  · have hempty : (ofNames names).isEmpty = false := by
      simpa using mt (Path.ofNames_eq_empty_iff hnames).mp hne
    rw [hempty, Bool.not_false, Bool.true_and, Bool.not_eq_true', Ne,
      ← hbears.directories names hnames hne, Bool.not_eq_true]

theorem Bears.presents (hbears : index.Bears content) : index.toCorpus.Presents content where
  listed := by
    intro root names recursive test hnames hroot hfolder
    refine ⟨_, ?_, hbears.listingIn hnames recursive test⟩
    rw [list_toCorpus, list, hroot]
    exact if_neg fun hmissing => (hbears.isMissing_iff hnames).mp hmissing hfolder
  missing := by
    intro root names recursive test hnames hroot hfolder
    rw [list_toCorpus, list, hroot]
    exact if_pos ((hbears.isMissing_iff hnames).mpr hfolder)
  read := by
    intro path names bytes hnames hpath
    have hself := Path.normalize_ofNames hnames
    have hsame : index.read path = index.read (ofNames names) := by
      rw [Index.read, Index.read, hpath, hself]
    rw [read_toCorpus, hsame]
    refine ⟨fun hread => ?_, hbears.read names bytes⟩
    have hknown : ofNames names ∈ index.files.keys := by
      unfold Index.read at hread
      rw [Std.TreeMap.mem_keys, Std.TreeMap.mem_iff_isSome_getElem?]
      dsimp only at hread
      rw [hself] at hread
      cases hnumber : index.files[ofNames names]? with
      | some number => rfl
      | none =>
          rw [hnumber] at hread
          cases hread
    obtain ⟨others, found, hfile, heq⟩ := (hbears.files _).mp hknown
    obtain rfl := Path.ofNames_injective (hbears.ordinary _ _ hfile) hnames heq
    rw [hbears.read _ _ hfile] at hread
    cases hread
    exact hfile

end Index

end Conformance
