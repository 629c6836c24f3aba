import Conformance.Proofs.Corpus.Enclosed
import Conformance.Proofs.Host.Descent

namespace Conformance

/-! What a directory makes of a path. It reads the file that the path names or finds nothing,
unless the host refuses to look the path up. -/

theorem Index.read_of_not_mem {index : Index} {path : String}
    (hmissing : Path.normalize path ∉ index.files) :
    index.read path = .error (.notFound (Path.normalize path)) := by
  rw [Index.read]
  simp [Std.TreeMap.getElem?_eq_none hmissing]

namespace Directory

variable {host : Host} {base path : String} {home : Host.Location} {bytes : ByteArray}
  {fault : Host.Fault} {result : Except Host.Fault Host.Location}

def namesOf (path : String) : List String := Host.parts (Path.normalize path)

/-- A path is looked up behind a base unless it leads aside or is too long there. -/
structure IsLookedUp (base path : String) : Prop where
  plain : isPlain (Path.normalize path).toList = true
  fits : (Host.join base (Path.normalize path)).utf8ByteSize < Host.pathLimit

/-- Folders lead to the file that a path names. -/
structure Finds (host : Host) (base : String) (home : Host.Location) (path : String)
    (bytes : ByteArray) : Prop where
  lookedUp : IsLookedUp base path
  way : host.IsWay home (namesOf path)
  file : host.get? (home ++ Host.steps (namesOf path)) = some (.file bytes)

/-- The host refuses a path that is too long as a whole, and one that goes on behind a file. -/
inductive Refuses (host : Host) (base : String) (home : Host.Location) (path : String) :
    Host.Fault → Prop
  | tooLong (hplain : isPlain (Path.normalize path).toList = true)
      (hlong : Host.pathLimit ≤ (Host.join base (Path.normalize path)).utf8ByteSize) :
      Refuses host base home path .nameTooLong
  | behindFile {bytes : ByteArray} (hlooked : IsLookedUp base path)
      (hstop : host.StopsAt home (namesOf path) (some (.file bytes))) :
      Refuses host base home path .notDirectory

section

variable (hplain : isPlain (Path.normalize path).toList = true)

include hplain

theorem read_of_file {location : Host.Location}
    (h : host.resolve (Host.join base (Path.normalize path)) = .ok (location, .file bytes)) :
    read ⟨host, base⟩ path = .ok bytes := by
  have hfolder : host.isFolder (Host.join base (Path.normalize path)) = false := by
    rw [Host.isFolder, h]
  have hread := Host.read_eq_ok_iff.mpr ⟨location, h⟩
  rw [read, locate_of_isPlain hplain]
  simp only [bind, Except.bind, hfolder, hread]
  rfl

theorem read_of_folder {location : Host.Location}
    (h : host.resolve (Host.join base (Path.normalize path)) = .ok (location, .folder)) :
    read ⟨host, base⟩ path = .error (.notFound (Path.normalize path)) := by
  have hfolder : host.isFolder (Host.join base (Path.normalize path)) = true := by
    rw [Host.isFolder, h]
  rw [read, locate_of_isPlain hplain]
  simp only [bind, Except.bind, hfolder, if_true]
  rfl

theorem read_of_fault (h : host.resolve (Host.join base (Path.normalize path)) = .error fault) :
    read ⟨host, base⟩ path =
      .error (if fault = .noEntry then .notFound (Path.normalize path) else .host fault) := by
  have hfolder : host.isFolder (Host.join base (Path.normalize path)) = false := by
    rw [Host.isFolder, h]
  have hread : host.read (Host.join base (Path.normalize path)) = .error fault := by
    rw [Host.read, h]
    rfl
  rw [read, locate_of_isPlain hplain]
  simp only [bind, Except.bind, hfolder, hread]
  cases fault <;> rfl

end

/-- No name of the path is longer than the host allows. -/
def NamesFit (path : String) : Prop :=
  ∀ name ∈ namesOf path, name.utf8ByteSize ≤ Host.longestName

section

variable (hbase : host.IsBase base home) (hnul : '\x00' ∉ path.toList) (hlong : NamesFit path)

include hbase hnul hlong

theorem exists_follows (hplain : isPlain (Path.normalize path).toList = true) :
    ∃ result, host.Follows home (namesOf path) result ∧
      host.find (Host.join base (Path.normalize path)) =
        if Host.pathLimit ≤ (Host.join base (Path.normalize path)).utf8ByteSize then
          .error .nameTooLong
        else result := by
  have hends : (Path.normalize path).toList.getLast? ≠ some '/' := by
    rw [Path.toList_normalize]
    exact Path.getLast?_normalized path.toList
  have hnormal : '\x00' ∉ (Path.normalize path).toList := by
    rw [Path.toList_normalize]
    exact Path.nul_not_mem_normalized hnul
  obtain ⟨result, hfollows, hfind⟩ := hbase.exists_follows (Path.isAbsolute_normalize path) hends
    (dots_not_mem_parts hplain) hlong
  refine ⟨result, hfollows, ?_⟩
  rw [hfind, Host.refusal?_join hbase.no_nul hnormal]
  by_cases hsize : Host.pathLimit ≤ (Host.join base (Path.normalize path)).utf8ByteSize
  · simp only [hsize, if_true]
  · simp only [hsize, if_false]

theorem read_of_tooLong (hplain : isPlain (Path.normalize path).toList = true)
    (hsize : Host.pathLimit ≤ (Host.join base (Path.normalize path)).utf8ByteSize) :
    read ⟨host, base⟩ path = .error (.host .nameTooLong) := by
  obtain ⟨result, -, hfind⟩ := exists_follows hbase hnul hlong hplain
  have hresolve : host.resolve (Host.join base (Path.normalize path)) = .error .nameTooLong := by
    rw [Host.resolve, hfind, if_pos hsize]
    rfl
  exact read_of_fault hplain hresolve

theorem find_of_follows (hlooked : IsLookedUp base path)
    (hfollows : host.Follows home (namesOf path) result) :
    host.find (Host.join base (Path.normalize path)) = result := by
  obtain ⟨other, hother, hfind⟩ := exists_follows hbase hnul hlong hlooked.plain
  rw [hfind, if_neg (Nat.not_le.mpr hlooked.fits), hother.unique hfollows]

theorem resolve_of_way {entry : Host.Entry} (hlooked : IsLookedUp base path)
    (hway : host.IsWay home (namesOf path))
    (hentry : host.get? (home ++ Host.steps (namesOf path)) = some entry) :
    host.resolve (Host.join base (Path.normalize path)) =
      .ok (home ++ Host.steps (namesOf path), entry) :=
  Host.resolve_eq_ok_iff.mpr
    ⟨find_of_follows hbase hnul hlong hlooked (.through hway), hentry⟩

theorem read_of_error (hlooked : IsLookedUp base path)
    (hfollows : host.Follows home (namesOf path) (.error fault)) :
    read ⟨host, base⟩ path =
      .error (if fault = .noEntry then .notFound (Path.normalize path) else .host fault) := by
  apply read_of_fault hlooked.plain
  rw [Host.resolve, find_of_follows hbase hnul hlong hlooked hfollows]
  rfl

theorem read_of_way (hlooked : IsLookedUp base path) (hway : host.IsWay home (namesOf path))
    (hfile : ∀ bytes, host.get? (home ++ Host.steps (namesOf path)) ≠ some (.file bytes)) :
    read ⟨host, base⟩ path = .error (.notFound (Path.normalize path)) := by
  cases hentry : host.get? (home ++ Host.steps (namesOf path)) with
  | none =>
      have hmissing : host.resolve (Host.join base (Path.normalize path)) = .error .noEntry := by
        rw [Host.resolve, find_of_follows hbase hnul hlong hlooked (.through hway)]
        simp only [bind, Except.bind, hentry]
      exact read_of_fault hlooked.plain hmissing
  | some entry =>
      have hresolve := resolve_of_way hbase hnul hlong hlooked hway hentry
      cases entry with
      | file bytes => exact absurd hentry (hfile bytes)
      | folder => exact read_of_folder hlooked.plain hresolve
      | link target =>
          by_cases hempty : Host.steps (namesOf path) = []
          · rw [hempty, List.append_nil, hbase.get?_eq_folder] at hentry
            cases hentry
          · exact absurd hentry (hbase.linkFree _ target hempty)

theorem read_of_finds (hfinds : Finds host base home path bytes) :
    read ⟨host, base⟩ path = .ok bytes :=
  read_of_file hfinds.lookedUp.plain
    (resolve_of_way hbase hnul hlong hfinds.lookedUp hfinds.way hfinds.file)

theorem read_of_refuses (hrefuses : Refuses host base home path fault) :
    read ⟨host, base⟩ path = .error (.host fault) := by
  cases hrefuses with
  | tooLong hplain hsize => exact read_of_tooLong hbase hnul hlong hplain hsize
  | behindFile hlooked hstop => exact read_of_error hbase hnul hlong hlooked (.stopped hstop)

theorem read_cases :
    (∃ bytes, Finds host base home path bytes ∧ read ⟨host, base⟩ path = .ok bytes) ∨
      (∃ fault, Refuses host base home path fault ∧
        read ⟨host, base⟩ path = .error (.host fault)) ∨
      read ⟨host, base⟩ path = .error (.notFound (Path.normalize path)) := by
  cases hplain : isPlain (Path.normalize path).toList with
  | false => exact .inr (.inr (read_of_leadsAside (isPlain_eq_false_iff.mp hplain)))
  | true =>
      by_cases hsize : Host.pathLimit ≤ (Host.join base (Path.normalize path)).utf8ByteSize
      · have hrefuses : Refuses host base home path .nameTooLong := .tooLong hplain hsize
        exact .inr (.inl ⟨_, hrefuses, read_of_refuses hbase hnul hlong hrefuses⟩)
      · have hlooked : IsLookedUp base path := ⟨hplain, Nat.not_le.mp hsize⟩
        obtain ⟨result, hfollows, -⟩ := exists_follows hbase hnul hlong hplain
        cases hfollows with
        | stopped hstop =>
            have hrefuses : Refuses host base home path .notDirectory :=
              .behindFile hlooked hstop
            exact .inr (.inl ⟨_, hrefuses, read_of_refuses hbase hnul hlong hrefuses⟩)
        | lost hstop =>
            exact .inr (.inr (read_of_error hbase hnul hlong hlooked (.lost hstop)))
        | through hway =>
            by_cases hfile : ∃ bytes,
                host.get? (home ++ Host.steps (namesOf path)) = some (.file bytes)
            · obtain ⟨bytes, hfile⟩ := hfile
              have hfinds : Finds host base home path bytes := ⟨hlooked, hway, hfile⟩
              exact .inl ⟨bytes, hfinds, read_of_finds hbase hnul hlong hfinds⟩
            · rw [not_exists] at hfile
              exact .inr (.inr (read_of_way hbase hnul hlong hlooked hway hfile))

end

/-- For a path whose names are not too long, a directory gives the bytes of the file that it
names, or finds nothing; a path that goes on behind a file, or that is too long as a whole, is
refused by the host instead, and that for no other reason. An archive finds nothing under
any path that is not that of a file. -/
theorem read_outcomes (hbase : host.IsBase base home) (hnul : '\x00' ∉ path.toList)
    (hlong : NamesFit path) :
    (∀ bytes, read ⟨host, base⟩ path = .ok bytes ↔ Finds host base home path bytes) ∧
      (∀ fault, read ⟨host, base⟩ path = .error (.host fault) ↔
        Refuses host base home path fault) ∧
      (∀ error, read ⟨host, base⟩ path = .error error →
        error = .notFound (Path.normalize path) ∨ ∃ fault, error = .host fault) ∧
      ∀ index : Index, Path.normalize path ∉ index.files →
        index.read path = .error (.notFound (Path.normalize path)) := by
  have hcases := read_cases hbase hnul hlong
  refine ⟨fun bytes => ⟨fun hread => ?_, read_of_finds hbase hnul hlong⟩,
    fun fault => ⟨fun hread => ?_, read_of_refuses hbase hnul hlong⟩, fun error hread => ?_,
    fun index => Index.read_of_not_mem⟩
  · simp only [hread] at hcases
    rcases hcases with ⟨found, hfinds, hfound⟩ | ⟨fault, -, hfault⟩ | hmissing
    · cases hfound
      exact hfinds
    · cases hfault
    · cases hmissing
  · simp only [hread] at hcases
    rcases hcases with ⟨found, -, hfound⟩ | ⟨other, hrefuses, hother⟩ | hmissing
    · cases hfound
    · cases hother
      exact hrefuses
    · cases hmissing
  · simp only [hread] at hcases
    rcases hcases with ⟨found, -, hfound⟩ | ⟨other, -, hother⟩ | hmissing
    · cases hfound
    · cases hother
      exact .inr ⟨other, rfl⟩
    · cases hmissing
      exact .inl rfl

/-- Repeated slashes and dots in a path do not keep its file from being found. -/
theorem read_outcomes_dotted :
    hostOfTwo.IsBase "/c" ["c"] ∧ NamesFit "test//./a/b.js/" ∧
      read ⟨hostOfTwo, "/c"⟩ "test//./a/b.js/" =
        .ok "/*---\ndescription: d\n---*/\n".toUTF8 := by
  have hbase := holds_hostOfTwo.isBase
  have hnames : namesOf "test//./a/b.js/" = ["test", ".", "a", "b.js"] := by decide
  have hfits : NamesFit "test//./a/b.js/" := by
    rw [NamesFit, hnames]
    decide
  obtain ⟨hfound, -⟩ := read_outcomes hbase (by decide) hfits
  refine ⟨hbase, hfits, (hfound _).mpr ⟨⟨by decide, by decide⟩, ?_, ?_⟩⟩
  · rw [hnames]
    simp [Host.isWay_cons, Host.isWay_nil, Host.steps, get?_hostOfTwo]
  · rw [hnames]
    simp [Host.steps, get?_hostOfTwo]

/-- A name behind a file is refused, where an archive of the same files finds nothing. -/
theorem read_refused_behind_file :
    hostOfTwo.IsBase "/c" ["c"] ∧ NamesFit "harness/c.js/d.js" ∧
      read ⟨hostOfTwo, "/c"⟩ "harness/c.js/d.js" = .error (.host .notDirectory) ∧
      ∃ index, Index.ofArchive archiveOfTwo "./x/" = .ok index ∧
        index.read "harness/c.js/d.js" = .error (.notFound "harness/c.js/d.js") := by
  have hbase := holds_hostOfTwo.isBase
  have hnormal : Path.normalize "harness/c.js/d.js" = "harness/c.js/d.js" := by decide
  have hnames : namesOf "harness/c.js/d.js" = ["harness", "c.js", "d.js"] := by decide
  have hfits : NamesFit "harness/c.js/d.js" := by
    rw [NamesFit, hnames]
    decide
  have hstop : hostOfTwo.StopsAt ["c"] ["harness", "c.js", "d.js"] (some (.file .empty)) := by
    refine ⟨["harness", "c.js"], by simp, by simp, ?_, ?_⟩
    · simp [Host.isWay_cons, Host.isWay_nil, Host.steps, get?_hostOfTwo]
    · simp [Host.steps, get?_hostOfTwo]
  obtain ⟨index, hindex, hknows⟩ := packs_archiveOfTwo.knows_ofArchive
    ⟨"test", by decide, (isFolder_twoFiles_iff ["test"]).mpr (by simp)⟩
  have hmissing : Path.normalize "harness/c.js/d.js" ∉ index.files := by
    rw [hknows.tables.mem_files_iff]
    unfold Index.IsFileEntry
    decide
  have harchive := Index.read_of_not_mem hmissing
  rw [hnormal] at harchive
  exact ⟨hbase, hfits, read_of_refuses hbase (by decide) hfits
    (.behindFile ⟨by decide, by decide⟩ (hnames ▸ hstop)), index, hindex, harchive⟩

end Directory

end Conformance
