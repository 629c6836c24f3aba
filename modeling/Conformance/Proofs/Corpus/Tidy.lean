import Conformance.Proofs.Corpus.Refusal

namespace Conformance

open Conformance.Path (Ordinary ofNames)

/-! The paths that a directory gives to its files, however the folder is spelled that they are
listed for. -/

namespace Directory

variable {host : Host} {base root path : String} {home location rest : Host.Location}
  {recursive : Bool} {test : String → Bool} {paths all : List String}

/-- A path through its names alone, without a dot among them. -/
def tidied (path : String) : String := ofNames (Host.steps (Host.parts path))

theorem steps_of_ordinary {names : List String} (hnames : ∀ name ∈ names, Ordinary name) :
    Host.steps names = names :=
  Host.steps_eq_self fun hdot => (hnames "." hdot).ne_dot rfl

theorem tidied_ofNames {names : List String} (hnames : ∀ name ∈ names, Ordinary name) :
    tidied (ofNames names) = ofNames names := by
  rw [tidied, Host.parts_ofNames hnames, steps_of_ordinary hnames]

def listedAt (host : Host) (location : Host.Location) (root : String) (recursive : Bool)
    (test : String → Bool) : List String :=
  Path.sortPaths ((((filesBelow host location).filter fun rest =>
    recursive || rest.length == 1).map (listedPath (Path.normalize root))).filter test)

theorem list_eq_ok_iff :
    list ⟨host, base⟩ root recursive test = .ok paths ↔
      isPlain (Path.normalize root).toList = true ∧ ∃ location,
        host.resolve (Host.join base (Path.normalize root)) = .ok (location, .folder) ∧
          listedAt host location root recursive test = paths := by
  cases hplain : isPlain (Path.normalize root).toList with
  | false =>
      rw [list_of_leadsAside (isPlain_eq_false_iff.mp hplain)]
      simp
  | true =>
      rw [list, locate_of_isPlain hplain]
      simp only [bind, Except.bind]
      split
      · rename_i location hresolve
        simp [hresolve, listedAt, pure, Except.pure]
      · rename_i hother
        constructor
        · intro h
          cases h
        · rintro ⟨-, location, hresolve, -⟩
          exact absurd hresolve (hother location)

theorem mem_listedAt_iff :
    path ∈ listedAt host location root recursive test ↔
      ∃ rest bytes, rest ≠ [] ∧ host.get? (location ++ rest) = some (.file bytes) ∧
        (recursive = true ∨ rest.length = 1) ∧ path = listedPath (Path.normalize root) rest ∧
          test path = true := by
  rw [listedAt, (Path.sortPaths_perm _).mem_iff, List.mem_filter, List.mem_map]
  simp only [List.mem_filter, mem_filesBelow_iff, Bool.or_eq_true, beq_iff_eq]
  constructor
  · rintro ⟨⟨rest, ⟨⟨hrest, bytes, hfile⟩, hdepth⟩, rfl⟩, htest⟩
    exact ⟨rest, bytes, hrest, hfile, hdepth, rfl, htest⟩
  · rintro ⟨rest, bytes, hrest, hfile, hdepth, rfl, htest⟩
    exact ⟨⟨rest, ⟨⟨hrest, bytes, hfile⟩, hdepth⟩, rfl⟩, htest⟩

section

variable (hbase : host.IsBase base home)
  (hplain : isPlain (Path.normalize root).toList = true)
  (hresolve : host.resolve (Host.join base (Path.normalize root)) = .ok (location, .folder))

include hbase hplain hresolve

theorem eq_of_resolve_root : location = home ++ Host.steps (namesOf root) := by
  refine hbase.eq_of_find_join (Path.isAbsolute_normalize root) ?_ (dots_not_mem_parts hplain)
    (Host.resolve_eq_ok_iff.mp hresolve).1
  rw [Path.toList_normalize]
  exact Path.getLast?_normalized root.toList

theorem resolve_whole :
    host.resolve (Host.join base (Path.normalize "")) = .ok (home, .folder) := by
  have hempty : Path.normalize "" = "" := by decide
  by_cases hroot : Path.normalize root = ""
  · rw [hempty, ← hroot, hresolve, eq_of_resolve_root hbase hplain hresolve, namesOf, hroot]
    simp
  · obtain ⟨-, -, hlimit, -⟩ := Host.find_eq_ok_iff.mp (Host.resolve_eq_ok_iff.mp hresolve).1
    obtain ⟨before, hjoin, ⟨hnone, -⟩ | ⟨-, rfl⟩⟩ :=
      Host.join_eq_append base (Path.isAbsolute_normalize root)
    · exact absurd hnone hbase.ne_empty
    · rw [hempty]
      apply hbase.resolve_join_empty
      have hlead : base.utf8ByteSize ≤ (Host.lead base).utf8ByteSize := by
        rw [Host.lead]
        split
        · exact Nat.le_refl _
        · rw [String.utf8ByteSize_append]
          omega
      have hsize : 0 < (Path.normalize root).utf8ByteSize := by
        rw [Nat.pos_iff_ne_zero, Ne, String.utf8ByteSize_eq_zero_iff]
        exact hroot
      rw [hjoin, String.utf8ByteSize_append] at hlimit
      omega

end

theorem head?_segments_append (text rest : List Char) :
    (Path.segments (text ++ '/' :: rest)).head? = (Path.segments text).head? := by
  rw [Path.segments_append_slash]
  exact List.head?_append_of_ne_nil _ (List.splitOn_ne_nil '/' text)

theorem normalize_append_ofNames {front : String} (hplain : isPlain front.toList = true)
    (hback : '\\' ∉ front.toList) (hhead : front.toList.head? ≠ some '/') (hfront : front ≠ "")
    (hrest : ∀ name ∈ rest, Ordinary name) (hne : rest ≠ []) :
    Path.normalize (front ++ "/" ++ ofNames rest) = front ++ "/" ++ ofNames rest := by
  have htext : (front ++ "/" ++ ofNames rest).toList =
      front.toList ++ '/' :: (ofNames rest).toList := by simp
  apply String.toList_injective
  rw [Path.toList_normalize]
  apply Path.normalized_eq_self
  · have hback' := Path.backslash_not_mem_ofNames hrest
    simp [hback, hback']
  · rintro ⟨more, hmore⟩
    have hsegments := head?_segments_append front.toList (ofNames rest).toList
    rw [← htext, ← hmore] at hsegments
    have haside : LeadsAside front :=
      .inr (hsegments.symm.trans (head?_segments_append ['.'] more))
    rw [isPlain_eq_false_iff.mpr haside] at hplain
    contradiction
  · rw [htext, List.head?_append_of_ne_nil _ (by simpa using hfront)]
    exact hhead
  · rw [Path.getLast?_append_ofNames _ hrest hne]
    exact Path.getLast?_ofNames hrest

theorem listedPath_normalize (hplain : isPlain (Path.normalize root).toList = true)
    (hroot : Path.normalize root ≠ "") (hrest : ∀ name ∈ rest, Ordinary name) (hne : rest ≠ []) :
    listedPath (Path.normalize root) rest = Path.normalize root ++ "/" ++ ofNames rest := by
  rw [listedPath]
  simp only [String.isEmpty_iff, hroot, if_false]
  apply normalize_append_ofNames hplain ?_ ?_ hroot hrest hne
  · rw [Path.toList_normalize]
    exact Path.backslash_not_mem_normalized root.toList
  · rw [Path.toList_normalize]
    exact Path.head?_normalized root.toList

theorem listedPath_tidied (hplain : isPlain (Path.normalize root).toList = true)
    (hrest : ∀ name ∈ rest, Ordinary name) (hne : rest ≠ []) :
    tidied (listedPath (Path.normalize root) rest) = ofNames (Host.steps (namesOf root) ++ rest) ∧
      (tidied (Path.normalize root) = Path.normalize root →
        listedPath (Path.normalize root) rest = ofNames (Host.steps (namesOf root) ++ rest)) ∧
      ∀ names, (∀ name ∈ names, Ordinary name) →
        listedPath (Path.normalize root) rest = ofNames names →
          tidied (Path.normalize root) = Path.normalize root := by
  by_cases hroot : Path.normalize root = ""
  · have hlisted : listedPath (Path.normalize root) rest = ofNames rest := by
      rw [hroot]
      exact Path.normalize_ofNames hrest
    have hnone : Host.steps (namesOf root) = [] := by
      rw [namesOf, hroot]
      rfl
    rw [hlisted, hnone, List.nil_append, hroot]
    exact ⟨tidied_ofNames hrest, fun _ => rfl, fun _ _ _ => rfl⟩
  · rw [listedPath_normalize hplain hroot hrest hne]
    have hparts : Host.parts (Path.normalize root ++ "/" ++ ofNames rest) =
        namesOf root ++ rest := by
      rw [Host.parts_append_slash, Host.parts_ofNames hrest, namesOf]
    refine ⟨?_, fun htidy => ?_, fun names hnames hlisted => ?_⟩
    · rw [tidied, hparts, Host.steps_append, steps_of_ordinary hrest]
    · have hsteps : Host.steps (namesOf root) ≠ [] := by
        intro hnone
        rw [tidied, ← namesOf, hnone] at htidy
        exact hroot htidy.symm
      rw [Path.ofNames_append hsteps hne]
      exact congrArg (· ++ "/" ++ ofNames rest) htidy.symm
    · rw [hlisted, Host.parts_ofNames hnames] at hparts
      rw [hparts] at hnames hlisted
      have hfront := (List.forall_mem_append.mp hnames).1
      have hsome : namesOf root ≠ [] := by
        intro hnone
        rw [hnone, List.nil_append] at hlisted
        have hlength := congrArg (·.toList.length) hlisted
        simp only [String.toList_append, List.length_append] at hlength
        have hslash : "/".toList.length = 1 := rfl
        omega
      rw [Path.ofNames_append hsome hne] at hlisted
      have hsame : Path.normalize root = ofNames (namesOf root) := by
        have hlists := congrArg String.toList hlisted
        simp only [String.toList_append] at hlists
        exact String.toList_injective
          (List.append_cancel_right (List.append_cancel_right hlists))
      rw [tidied, ← namesOf, steps_of_ordinary hfront, hsame]

theorem mem_whole_iff
    (hordinary : ∀ rest bytes, host.get? (home ++ rest) = some (.file bytes) →
      ∀ name ∈ rest, Ordinary name) :
    path ∈ listedAt host home "" true (fun _ => true) ↔
      ∃ rest bytes, rest ≠ [] ∧ host.get? (home ++ rest) = some (.file bytes) ∧
        path = ofNames rest := by
  rw [mem_listedAt_iff]
  constructor
  · rintro ⟨rest, bytes, hne, hfile, -, rfl, -⟩
    exact ⟨rest, bytes, hne, hfile, Path.normalize_ofNames (hordinary rest bytes hfile)⟩
  · rintro ⟨rest, bytes, hne, hfile, rfl⟩
    exact ⟨rest, bytes, hne, hfile, .inl rfl,
      (Path.normalize_ofNames (hordinary rest bytes hfile)).symm, rfl⟩

/-- However the folder of a listing is spelled: each file is listed below it under the path
that it has in a listing of the whole corpus, tidied; and under this path itself if and only
if there is nothing to be tidied in the spelling of the folder, once it is in corpus form. -/
theorem tidied_mem_whole (hbase : host.IsBase base home)
    (hordinary : ∀ rest bytes, host.get? (home ++ rest) = some (.file bytes) →
      ∀ name ∈ rest, Ordinary name)
    (hlist : list ⟨host, base⟩ root recursive test = .ok paths) :
    ∃ all, list ⟨host, base⟩ "" true (fun _ => true) = .ok all ∧
      ∀ path ∈ paths, tidied path ∈ all ∧
        (path ∈ all ↔ tidied (Path.normalize root) = Path.normalize root) := by
  obtain ⟨hplain, location, hresolve, rfl⟩ := list_eq_ok_iff.mp hlist
  obtain rfl := eq_of_resolve_root hbase hplain hresolve
  refine ⟨_, list_eq_ok_iff.mpr
    ⟨by decide, home, resolve_whole hbase hplain hresolve, rfl⟩, fun path hpath => ?_⟩
  obtain ⟨rest, bytes, hne, hfile, -, rfl, -⟩ := mem_listedAt_iff.mp hpath
  rw [List.append_assoc] at hfile
  have hall := hordinary _ bytes hfile
  obtain ⟨htidied, hself, hnames⟩ :=
    listedPath_tidied hplain (List.forall_mem_append.mp hall).2 hne
  have hmem : ofNames (Host.steps (namesOf root) ++ rest) ∈
      listedAt host home "" true (fun _ => true) :=
    (mem_whole_iff hordinary).mpr ⟨_, bytes, by simp [hne], hfile, rfl⟩
  refine ⟨htidied ▸ hmem, fun hthere => ?_, fun htidy => hself htidy ▸ hmem⟩
  obtain ⟨others, found, -, hother, hlisted⟩ := (mem_whole_iff hordinary).mp hthere
  exact hnames others (hordinary _ found hother) hlisted

theorem ordinary_hostOfTwo (rest : Host.Location) (bytes : ByteArray)
    (hfile : hostOfTwo.get? (["c"] ++ rest) = some (.file bytes)) :
    ∀ name ∈ rest, Ordinary name := by
  by_cases hne : rest = []
  · simp [hne]
  · rw [holds_hostOfTwo.below rest hne, FileTree.get?_eq_file_iff] at hfile
    exact twoFiles.ordinary _ hfile

theorem list_hostOfTwo {names : List String} (hnul : '\x00' ∉ root.toList)
    (hlooked : IsLookedUp "/c" root) (hnames : namesOf root = names)
    (hlong : ∀ name ∈ names, name.utf8ByteSize ≤ Host.longestName)
    (hway : hostOfTwo.IsWay ["c"] names) (hsteps : Host.steps names = ["test", "a"]) :
    ∃ paths, list ⟨hostOfTwo, "/c"⟩ root true (fun _ => true) = .ok paths ∧
      listedPath (Path.normalize root) ["b.js"] ∈ paths := by
  subst hnames
  have hfolder : hostOfTwo.get? (["c"] ++ Host.steps (namesOf root)) = some .folder := by
    rw [hsteps, get?_hostOfTwo]
    simp
  have hresolve := resolve_of_way holds_hostOfTwo.isBase hnul hlong hlooked hway hfolder
  refine ⟨_, list_eq_ok_iff.mpr ⟨hlooked.plain, _, hresolve, rfl⟩, mem_listedAt_iff.mpr ?_⟩
  refine ⟨["b.js"], "/*---\ndescription: d\n---*/\n".toUTF8, by simp, ?_, .inl rfl, rfl, rfl⟩
  rw [hsteps, get?_hostOfTwo]
  simp

/-- Backslashes and a slash at the end are no spelling of their own. -/
theorem tidied_mem_whole_backslashes : ∃ paths all,
    list ⟨hostOfTwo, "/c"⟩ ".\\test\\a/" true (fun _ => true) = .ok paths ∧
      list ⟨hostOfTwo, "/c"⟩ "" true (fun _ => true) = .ok all ∧
      "test/a/b.js" ∈ paths ∧ ∀ path ∈ paths, path ∈ all := by
  have hnames : namesOf ".\\test\\a/" = ["test", "a"] := by decide
  have hway : hostOfTwo.IsWay ["c"] ["test", "a"] := by
    simp [Host.isWay_cons, Host.isWay_nil, Host.steps, get?_hostOfTwo]
  obtain ⟨paths, hpaths, hmem⟩ :=
    list_hostOfTwo (by decide) ⟨by decide, by decide⟩ hnames (by decide) hway (by decide)
  obtain ⟨all, hall, htidied⟩ :=
    tidied_mem_whole holds_hostOfTwo.isBase ordinary_hostOfTwo hpaths
  refine ⟨paths, all, hpaths, hall, hmem, fun path hpath => ?_⟩
  exact (htidied path hpath).2.mpr (by decide)

/-- A dot on the way stays in the paths, which are none of the whole listing. -/
theorem list_keeps_dot : ∃ paths all,
    list ⟨hostOfTwo, "/c"⟩ "test/./a" true (fun _ => true) = .ok paths ∧
      list ⟨hostOfTwo, "/c"⟩ "" true (fun _ => true) = .ok all ∧
      "test/./a/b.js" ∈ paths ∧ "test/./a/b.js" ∉ all := by
  have hnames : namesOf "test/./a" = ["test", ".", "a"] := by decide
  have hway : hostOfTwo.IsWay ["c"] ["test", ".", "a"] := by
    simp [Host.isWay_cons, Host.isWay_nil, Host.steps, get?_hostOfTwo]
  obtain ⟨paths, hpaths, hmem⟩ :=
    list_hostOfTwo (by decide) ⟨by decide, by decide⟩ hnames (by decide) hway (by decide)
  have hwhole : Host.resolve hostOfTwo (Host.join "/c" (Path.normalize "")) =
      .ok (["c"], .folder) :=
    holds_hostOfTwo.isBase.resolve_join_empty (by decide)
  refine ⟨paths, _, hpaths, list_eq_ok_iff.mpr ⟨by decide, _, hwhole, rfl⟩, hmem, fun hthere => ?_⟩
  obtain ⟨rest, bytes, -, hfile, hpath⟩ := (mem_whole_iff ordinary_hostOfTwo).mp hthere
  have hrest := ordinary_hostOfTwo rest bytes hfile
  have hparts : Host.parts "test/./a/b.js" = ["test", ".", "a", "b.js"] := by decide
  rw [hpath, Host.parts_ofNames hrest] at hparts
  exact (hrest "." (by simp [hparts])).ne_dot rfl

end Directory

end Conformance
