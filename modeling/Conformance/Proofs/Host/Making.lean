import Conformance.Proofs.Host.Confined

namespace Conformance.Host

open Conformance.Path (Ordinary ofNames)

/-! What can be made below a folder: all that is not too long, where nothing but folders is in
the way. -/

variable {host next : Host} {folder : String} {path front rest : List String}
  {home location : Location} {last : Bool} {links : Nat} {bytes : ByteArray}

theorem utf8ByteSize_join_le (folder : String) (hfront : ∀ name ∈ front, Ordinary name)
    (hrest : ∀ name ∈ rest, Ordinary name) (hne : front ≠ []) :
    (join folder (ofNames front)).utf8ByteSize ≤
      (join folder (ofNames (front ++ rest))).utf8ByteSize := by
  by_cases hempty : rest = []
  · rw [hempty, List.append_nil]
  · rw [join_append folder hfront hrest hne hempty, String.utf8ByteSize_append,
      String.utf8ByteSize_append]
    omega

theorem Fits.of_append (h : Fits folder (front ++ rest)) (hfront : ∀ name ∈ front, Ordinary name)
    (hrest : ∀ name ∈ rest, Ordinary name) (hne : front ≠ []) : Fits folder front := by
  have hle := utf8ByteSize_join_le folder hfront hrest hne
  have hlimit := h.limit
  exact ⟨by omega, fun name hname => h.short name (List.mem_append_left rest hname)⟩

theorem Fits.slash_lt (h : Fits folder (front ++ rest)) (hfront : ∀ name ∈ front, Ordinary name)
    (hrest : ∀ name ∈ rest, Ordinary name) (hne : front ≠ []) (hmore : rest ≠ []) :
    (join folder (ofNames front)).utf8ByteSize + 1 < pathLimit := by
  have hlimit := h.limit
  have htext : 0 < (ofNames rest).utf8ByteSize := by
    rw [Nat.pos_iff_ne_zero, Ne, String.utf8ByteSize_eq_zero_iff]
    exact mt (Path.ofNames_eq_empty_iff hrest).mp hmore
  have hslash : "/".utf8ByteSize = 1 := rfl
  rw [join_append folder hfront hrest hne hmore, String.utf8ByteSize_append,
    String.utf8ByteSize_append] at hlimit
  omega

theorem Fits.of_shorter {name shorter : String} (h : Fits folder (name :: rest))
    (hname : Ordinary name) (hshorter : Ordinary shorter) (hrest : ∀ name ∈ rest, Ordinary name)
    (hsize : shorter.utf8ByteSize ≤ name.utf8ByteSize) : Fits folder (shorter :: rest) := by
  have hlimit := h.limit
  have hshort := List.forall_mem_cons.mp h.short
  refine ⟨?_, List.forall_mem_cons.mpr ⟨hsize.trans hshort.1, hshort.2⟩⟩
  have hmono := utf8ByteSize_join_mono folder (isAbsolute_of_no_slash hname.no_slash)
    (isAbsolute_of_no_slash hshorter.no_slash) hsize
  by_cases hempty : rest = []
  · subst hempty
    rw [Path.ofNames_singleton] at hlimit ⊢
    omega
  · have hjoin {first : String} (hfirst : Ordinary first) : join folder (ofNames (first :: rest)) =
        join folder first ++ "/" ++ ofNames rest := by
      have happend := join_append folder (List.forall_mem_singleton.mpr hfirst) hrest
        (List.cons_ne_nil _ _) hempty
      rwa [Path.ofNames_singleton] at happend
    rw [hjoin hname, String.utf8ByteSize_append] at hlimit
    rw [hjoin hshorter, String.utf8ByteSize_append]
    rw [String.utf8ByteSize_append] at hlimit ⊢
    omega

/-- On a path there is nothing but folders, if there is anything. -/
def IsOpen (host : Host) (home : Location) (path : List String) : Prop :=
  ∀ front, front ≠ [] → front <+: path →
    host.get? (home ++ front) = none ∨ host.get? (home ++ front) = some .folder

theorem IsOpen.tail {name : String} (h : host.IsOpen home (name :: path)) :
    host.IsOpen (home ++ [name]) path := by
  intro front _ hfront
  rw [List.append_assoc]
  exact h (name :: front) (by simp) (by simpa using hfront)

theorem IsOpen.of_prefix (h : host.IsOpen home path) (hfront : front <+: path) :
    host.IsOpen home front :=
  fun shorter hne hshorter => h shorter hne (hshorter.trans hfront)

theorem IsOpen.isClear (h : host.IsOpen home path) : host.IsClear home path := by
  intro front hne hfront target hlink
  rcases h front hne hfront with hnone | hfolder
  · rw [hnone] at hlink
    cases hlink
  · rw [hfolder] at hlink
    cases hlink

theorem follow_paved (hpath : ∀ name ∈ path, Ordinary name ∧ name.utf8ByteSize ≤ longestName)
    (hpaved : host.IsPaved home path)
    (hplain : ∀ target, host.get? (home ++ path) ≠ some (.link target)) :
    host.follow last links home path = .ok (home ++ path) := by
  induction path generalizing home with
  | nil =>
      rw [follow, List.append_nil]
  | cons name path ih =>
      rw [List.forall_mem_cons] at hpath
      obtain ⟨⟨hname, hshort⟩, hpath⟩ := hpath
      have hfolder : host.isFolderAt home = true := by
        simpa using hpaved [] List.nil_prefix (by simp)
      have happend : home ++ name :: path = home ++ [name] ++ path := by simp
      rw [happend] at hplain ⊢
      have hrest := ih hpath hpaved.tail hplain
      rw [follow]
      simp only [hfolder, hname.ne_dot, hname.ne_dots, Nat.not_lt.mpr hshort, if_false,
        Bool.not_true, Bool.false_eq_true]
      by_cases hempty : path = []
      · subst hempty
        cases hget : host.get? (home ++ [name]) with
        | none => simp
        | some entry =>
            cases entry with
            | file bytes => exact hrest
            | folder => exact hrest
            | link target => exact absurd hget (by simpa using hplain target)
      · have hnext := hpaved [name] (by simp) (by simpa using Ne.symm hempty)
        rw [isFolderAt_iff.mp hnext]
        exact hrest

theorem follow_missing (hpath : ∀ name ∈ path, Ordinary name ∧ name.utf8ByteSize ≤ longestName)
    (hfolder : host.isFolderAt home = true) (hopen : host.IsOpen home path)
    (hmissing : ¬ host.IsPaved home path) :
    host.follow last links home path = .error .noEntry := by
  induction path generalizing home with
  | nil => exact absurd (isPaved_nil host home) hmissing
  | cons name path ih =>
      rw [List.forall_mem_cons] at hpath
      obtain ⟨⟨hname, hshort⟩, hpath⟩ := hpath
      have hempty : path ≠ [] := by
        rintro rfl
        exact hmissing ((isPaved_nil host _).cons hfolder)
      rw [follow]
      simp only [hfolder, hname.ne_dot, hname.ne_dots, Nat.not_lt.mpr hshort, if_false,
        Bool.not_true, Bool.false_eq_true]
      rcases hopen [name] (by simp) (by simp) with hnone | hnext
      · simp [hnone, hempty]
      · rw [hnext]
        exact ih hpath (isFolderAt_iff.mpr hnext) hopen.tail
          fun hpaved => hmissing (hpaved.cons hfolder)

theorem Opens.isFolderAt_of_isPresent (hopens : host.Opens folder home)
    (hpath : ∀ name ∈ path, Ordinary name) (hne : path ≠ []) (hopen : host.IsOpen home path)
    (hpresent : host.isPresent (join folder (ofNames path)) = true) (hfront : front <+: path) :
    host.isFolderAt (home ++ front) = true := by
  unfold isPresent at hpresent
  split at hpresent
  · rename_i found hresolve
    obtain ⟨hfind, hthere⟩ := resolve_eq_ok_iff.mp hresolve
    obtain ⟨hfound, -, hpaved⟩ := hopens.eq_append_of_find hpath hne hopen.isClear hfind
    by_cases hwhole : front = path
    · subst hwhole
      rcases hopen _ hne List.prefix_rfl with hnone | hfolder
      · rw [← hfound, hthere] at hnone
        cases hnone
      · exact isFolderAt_iff.mpr hfolder
    · exact hpaved front hfront hwhole
  · cases hpresent

section

variable (hopens : host.Opens folder home) (hnul : '\x00' ∉ folder.toList)
  (hpath : ∀ name ∈ path, Ordinary name) (hne : path ≠ []) (hfits : Fits folder path)

include hnul hpath hfits in
theorem refusal?_eq_none : refusal? (join folder (ofNames path)) = none := by
  have hjoin : '\x00' ∉ (join folder (ofNames path)).toList := by
    by_cases hempty : folder = ""
    · subst hempty
      rw [join_empty hpath]
      exact Path.not_mem_ofNames (by decide) fun name hname => (hpath name hname).no_nul
    · rw [join_eq hpath hempty]
      exact not_mem_lead_append hpath hnul
  simp [refusal?, hjoin, Nat.not_le.mpr hfits.limit]

include hopens hnul hpath hne hfits

theorem find_paved (hpaved : host.IsPaved home path)
    (hplain : ∀ target, host.get? (home ++ path) ≠ some (.link target)) :
    host.find (join folder (ofNames path)) last = .ok (home ++ path) := by
  obtain ⟨fewer, hfind⟩ := hopens.find
  rw [hfind last path hpath hne, refusal?_eq_none hnul hpath hfits]
  exact follow_paved (fun name hname => ⟨hpath name hname, hfits.short name hname⟩) hpaved hplain

theorem find_missing (hopen : host.IsOpen home path) (hmissing : ¬ host.IsPaved home path) :
    host.find (join folder (ofNames path)) last = .error .noEntry := by
  obtain ⟨fewer, hfind⟩ := hopens.find
  rw [hfind last path hpath hne, refusal?_eq_none hnul hpath hfits]
  exact follow_missing (fun name hname => ⟨hpath name hname, hfits.short name hname⟩)
    hopens.isFolderAt hopen hmissing

theorem resolve_paved (hpaved : host.IsPaved home path) {entry : Entry}
    (hentry : host.get? (home ++ path) = some entry) (hplain : ∀ target, entry ≠ .link target) :
    host.resolve (join folder (ofNames path)) = .ok (home ++ path, entry) := by
  refine resolve_eq_ok_iff.mpr ⟨find_paved hopens hnul hpath hne hfits hpaved ?_, hentry⟩
  intro target hlink
  rw [hentry] at hlink
  exact hplain target (Option.some.inj hlink)

theorem write_paved (hpaved : host.IsPaved home path)
    (hfree : host.get? (home ++ path) ≠ some .folder)
    (hplain : ∀ target, host.get? (home ++ path) ≠ some (.link target)) :
    host.write (join folder (ofNames path)) bytes =
      .ok (host.put (home ++ path) (.file bytes)) := by
  rw [write, find_paved hopens hnul hpath hne hfits hpaved hplain]
  simp only [bind, Except.bind]

theorem createFolder_paved (hpaved : host.IsPaved home path) (hopen : host.IsOpen home path) :
    (∃ next, host.createFolder (join folder (ofNames path)) = .ok next) ∨
      host.createFolder (join folder (ofNames path)) = .error .fileExists ∧
        host.isFolder (join folder (ofNames path)) = true := by
  have hplain := hopen.isClear path hne List.prefix_rfl
  have hfind : host.find (join folder (ofNames path)) false = .ok (home ++ path) :=
    find_paved hopens hnul hpath hne hfits hpaved hplain
  rw [createFolder, hfind]
  rcases hopen path hne List.prefix_rfl with hnone | hfolder
  · refine .inl ⟨host.put (home ++ path) .folder, ?_⟩
    simp only [bind, Except.bind, hnone]
  · refine .inr ⟨?_, ?_⟩
    · simp only [bind, Except.bind, hfolder]
    · rw [isFolder, resolve_paved hopens hnul hpath hne hfits hpaved hfolder (by simp)]

theorem createFolder_missing (hopen : host.IsOpen home path)
    (hmissing : ¬ host.IsPaved home path) :
    host.createFolder (join folder (ofNames path)) = .error .noEntry := by
  rw [createFolder, find_missing hopens hnul hpath hne hfits hopen hmissing]
  rfl

theorem createFoldersFrom_paved (hpaved : host.IsPaved home path)
    (hopen : host.IsOpen home path) (fuel : Nat) :
    (host.createFoldersFrom fuel (join folder (ofNames path))).2 = none := by
  rw [createFoldersFrom.eq_def]
  dsimp only
  rw [if_neg (by simpa using join_ne_empty hpath folder hne)]
  rcases createFolder_paved hopens hnul hpath hne hfits hpaved hopen with
    ⟨next, hmade⟩ | ⟨hexists, hfolder⟩
  · rw [hmade]
  · rw [hexists]
    simp [hfolder]

end

theorem Grown.isOpen (h : host.Grown other home path) (hopen : host.IsOpen home path) :
    other.IsOpen home path := by
  intro front hne hfront
  rcases h.get? (home ++ front) with hsame | ⟨-, longer, -, -, heq, hfolders⟩
  · rw [hsame]
    exact hopen front hne hfront
  · rw [List.append_cancel_left heq]
    exact .inr (hfolders longer List.prefix_rfl)

theorem createFoldersFrom_open (hopens : host.Opens folder home) (hnul : '\x00' ∉ folder.toList)
    (hpath : ∀ name ∈ path, Ordinary name) (hne : path ≠ []) (hfits : Fits folder path)
    (hopen : host.IsOpen home path) {fuel : Nat} (hfuel : path.length ≤ fuel + 1) :
    (host.createFoldersFrom fuel (join folder (ofNames path))).2 = none := by
  induction fuel generalizing path with
  | zero =>
      refine createFoldersFrom_paved hopens hnul hpath hne hfits ?_ hopen 0
      intro front hfront hwhole
      obtain rfl : front = [] := by
        have hlength := hfront.length_le
        have hdiffer : front.length ≠ path.length := mt hfront.eq_of_length hwhole
        exact List.length_eq_zero_iff.mp (by omega)
      rw [List.append_nil]
      exact hopens.isFolderAt
  | succ fuel ih =>
      by_cases hpaved : host.IsPaved home path
      · exact createFoldersFrom_paved hopens hnul hpath hne hfits hpaved hopen _
      · have hmissing := createFolder_missing hopens hnul hpath hne hfits hopen hpaved
        obtain ⟨front, name, hfrontNe, rfl⟩ := hopens.two_of_noEntry hne hpath hmissing
        obtain ⟨hfront, hname⟩ := List.forall_mem_append.mp hpath
        have hprefix : front <+: front ++ [name] := List.prefix_append front [name]
        have hopenFront := hopen.of_prefix hprefix
        rw [List.length_append, List.length_singleton] at hfuel
        have hmade := ih hfront hfrontNe (hfits.of_append hfront hname hfrontNe) hopenFront
          (by omega)
        obtain ⟨hgrown, hfolders⟩ :=
          hopens.makes_createFoldersFrom hfront hfrontNe hopenFront.isClear fuel
        rw [createFoldersFrom.eq_def]
        dsimp only
        rw [if_neg (by simpa using join_ne_empty hpath folder hne), hmissing,
          parentPath?_join_append folder hfront (hname name (by simp)) hfrontNe]
        dsimp only
        generalize host.createFoldersFrom fuel (join folder (ofNames front)) = outcome
          at hmade hgrown hfolders ⊢
        obtain ⟨between, fault?⟩ := outcome
        obtain rfl : fault? = none := hmade
        dsimp only
        have hpavedNow : between.IsPaved home (front ++ [name]) := by
          intro shorter hshorter hwhole
          rcases List.prefix_concat_iff.mp hshorter with rfl | hwithin
          · exact absurd rfl hwhole
          · exact (hfolders rfl).folders shorter hwithin
        rcases createFolder_paved (hgrown.opens hopens) hnul hpath hne hfits hpavedNow
          ((hgrown.longer hprefix).isOpen hopen) with ⟨next, hlast⟩ | ⟨hexists, hfolder⟩
        · rw [hlast]
        · rw [hexists]
          simp [hfolder]

theorem length_le_length_ofNames (hpath : ∀ name ∈ path, Ordinary name) :
    path.length ≤ (ofNames path).length := by
  induction path with
  | nil => exact Nat.zero_le _
  | cons name path ih =>
      rw [List.forall_mem_cons] at hpath
      have hname : 0 < name.length := by
        rw [Nat.pos_iff_ne_zero, Ne, String.length_eq_zero_iff]
        exact hpath.1.ne_empty
      by_cases hempty : path = []
      · subst hempty
        rw [Path.ofNames_singleton]
        exact hname
      · have hrest := ih hpath.2
        rw [← List.singleton_append, Path.ofNames_append (by simp) hempty, Path.ofNames_singleton,
          String.length_append, String.length_append, List.length_append, List.length_singleton]
        omega

theorem createFolders_open (hopens : host.Opens folder home) (hnul : '\x00' ∉ folder.toList)
    (hpath : ∀ name ∈ path, Ordinary name) (hne : path ≠ []) (hfits : Fits folder path)
    (hopen : host.IsOpen home path) :
    (host.createFolders (join folder (ofNames path))).2 = none := by
  obtain ⟨before, hbefore, -⟩ := join_eq_append folder (isAbsolute_ofNames hpath)
  have hlength := length_le_length_ofNames hpath
  refine createFoldersFrom_open hopens hnul hpath hne hfits hopen ?_
  rw [hbefore, String.length_append]
  omega

end Conformance.Host
