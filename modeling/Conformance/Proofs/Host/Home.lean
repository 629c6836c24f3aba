import Conformance.Proofs.Host.Behind

namespace Conformance.Host

open Conformance.Path (Ordinary ofNames)

/-! What is reached from a folder by names, as long as no link stands in the way, and
what becomes of it when folders are made. -/

variable {host other next : Host} {folder name : String} {path front rest : List String}
  {home location found reached : Location} {last : Bool} {links : Nat} {bytes : ByteArray}

def refusal? (path : String) : Option Fault :=
  if path.toList.contains '\x00' then some .nulInName
  else if pathLimit ≤ path.utf8ByteSize then some .nameTooLong
  else none

def reach (folder name : String) (home : Location) : Except Fault Location :=
  match refusal? (join folder name) with
  | some fault => .error fault
  | none => if longestName < name.utf8ByteSize then .error .nameTooLong else .ok (home ++ [name])

theorem reach_eq_ok (h : reach folder name home = .ok found) : found = home ++ [name] := by
  unfold reach at h
  split at h
  · cases h
  · split at h
    · cases h
    · cases h
      rfl

theorem refusal?_ne_noEntry {text : String} : refusal? text ≠ some .noEntry := by
  unfold refusal?
  split
  · simp
  · split <;> simp

theorem reach_ne_noEntry : reach folder name home ≠ .error .noEntry := by
  unfold reach
  split
  · rename_i fault hfault
    intro h
    cases h
    exact refusal?_ne_noEntry hfault
  · split <;> simp

theorem reach_eq_ok_iff :
    reach folder name home = .ok (home ++ [name]) ↔
      '\x00' ∉ (join folder name).toList ∧ (join folder name).utf8ByteSize < pathLimit ∧
        name.utf8ByteSize ≤ longestName := by
  unfold reach refusal?
  by_cases hnul : '\x00' ∈ (join folder name).toList
  · simp [hnul]
  · by_cases hlimit : pathLimit ≤ (join folder name).utf8ByteSize
    · simp [hnul, hlimit, Nat.not_lt.mpr hlimit]
    · by_cases hlong : longestName < name.utf8ByteSize
      · simp [hnul, hlimit, hlong, Nat.not_le.mpr hlong]
      · simp [hnul, hlimit, hlong, Nat.not_le.mp hlimit, Nat.not_lt.mp hlong]

theorem refusal?_eq_none_iff {text : String} :
    refusal? text = none ↔ '\x00' ∉ text.toList ∧ text.utf8ByteSize < pathLimit := by
  unfold refusal?
  by_cases hnul : '\x00' ∈ text.toList
  · simp [hnul]
  · simp [hnul]

theorem refusal?_parentPath {text parent : String}
    (hparent : parentPath? text = some parent) (htext : refusal? text = none) :
    refusal? parent = none := by
  obtain ⟨hnul, hlimit⟩ := refusal?_eq_none_iff.mp htext
  have hfront : parent = "/" ∨ parent.toList <+: text.toList := by
    rw [parentPath?_eq] at hparent
    split at hparent
    · cases hparent
    · dsimp only at hparent
      split at hparent
      · cases hparent
        exact .inl rfl
      · cases hparent
        rw [String.toList_ofList]
        exact .inr ((List.rdropWhile_prefix _ _).trans
          ((List.rdropWhile_prefix _ _).trans (List.rdropWhile_prefix _ _)))
  rcases hfront with rfl | ⟨rest, hrest⟩
  · decide
  · have happend : text = parent ++ String.ofList rest := String.toList_injective (by simp [hrest])
    refine refusal?_eq_none_iff.mpr ⟨fun hmem => hnul (hrest ▸ List.mem_append_left _ hmem), ?_⟩
    rw [happend, String.utf8ByteSize_append] at hlimit
    omega

theorem isFolderAt_iff : host.isFolderAt location = true ↔ host.get? location = some .folder := by
  unfold isFolderAt
  split
  · rename_i hget
    simp [hget]
  · rename_i hother
    simp only [Bool.false_eq_true, false_iff]
    exact hother

/-- Neither a name behind a location nor one in front of it is a link. -/
def IsClear (host : Host) (home : Location) (path : List String) : Prop :=
  ∀ front, front ≠ [] → front <+: path → ∀ target, host.get? (home ++ front) ≠ some (.link target)

theorem IsClear.of_prefix (hclear : host.IsClear home path) (hfront : front <+: path) :
    host.IsClear home front :=
  fun _ hne hshorter => hclear _ hne (hshorter.trans hfront)

theorem IsClear.tail {name : String} (hclear : host.IsClear home (name :: path)) :
    host.IsClear (home ++ [name]) path := by
  intro front _ hfront target
  rw [List.append_assoc]
  exact hclear (name :: front) (by simp) (by simpa using hfront) target

/-- In front of the end of a path there are folders. -/
def IsPaved (host : Host) (home : Location) (path : List String) : Prop :=
  ∀ front, front <+: path → front ≠ path → host.isFolderAt (home ++ front) = true

theorem isPaved_nil (host : Host) (home : Location) : host.IsPaved home [] :=
  fun _ hfront hne => absurd (List.prefix_nil.mp hfront) hne

theorem IsPaved.cons (hfolder : host.isFolderAt home = true)
    (hpaved : host.IsPaved (home ++ [name]) path) : host.IsPaved home (name :: path) := by
  intro front hfront hne
  cases front with
  | nil => simpa using hfolder
  | cons first front =>
      obtain ⟨rfl, hmore⟩ := List.cons_prefix_cons.mp hfront
      simpa using hpaved front hmore (by simpa using hne)

theorem IsPaved.tail (hpaved : host.IsPaved home (name :: path)) :
    host.IsPaved (home ++ [name]) path := by
  intro front hfront hne
  rw [List.append_assoc]
  exact hpaved (name :: front) (by simpa using hfront) (by simpa using hne)

theorem eq_append_of_follow (hpath : ∀ name ∈ path, Ordinary name) (hclear : host.IsClear home path)
    (h : host.follow last links home path = .ok found) :
    found = home ++ path ∧ (∀ name ∈ path, name.utf8ByteSize ≤ longestName) ∧
      host.IsPaved home path := by
  induction path generalizing home with
  | nil =>
      rw [follow] at h
      cases h
      exact ⟨by simp, by simp, isPaved_nil host _⟩
  | cons name path ih =>
      rw [List.forall_mem_cons] at hpath
      have hlink := hclear [name] (by simp) (by simp)
      rw [follow] at h
      split at h
      · cases h
      · rename_i hfolder
        rw [Bool.not_eq_true', Bool.not_eq_false] at hfolder
        rw [if_neg hpath.1.ne_dot, if_neg hpath.1.ne_dots] at h
        split at h
        · cases h
        · rename_i hlong
          have hstep : found = home ++ [name] ++ path ∧
              (∀ name ∈ path, name.utf8ByteSize ≤ longestName) ∧
                host.IsPaved (home ++ [name]) path := by
            dsimp only at h
            split at h
            · split at h
              · rename_i hempty
                cases h
                rw [List.isEmpty_iff] at hempty
                subst hempty
                exact ⟨by simp, by simp, isPaved_nil host _⟩
              · cases h
            · rename_i target hget
              exact absurd hget (hlink target)
            · exact ih hpath.2 hclear.tail h
          obtain ⟨hfound, hshort, hpaved⟩ := hstep
          exact ⟨by simpa using hfound, List.forall_mem_cons.mpr ⟨by omega, hshort⟩,
            hpaved.cons hfolder⟩

theorem follow_singleton (hfolder : host.isFolderAt home = true) (hname : Ordinary name)
    (hlast : last = false ∨ ∀ target, host.get? (home ++ [name]) ≠ some (.link target)) :
    host.follow last links home [name] =
      if longestName < name.utf8ByteSize then .error .nameTooLong else .ok (home ++ [name]) := by
  rw [follow]
  by_cases hlong : longestName < name.utf8ByteSize
  · simp [hfolder, hname.ne_dot, hname.ne_dots, hlong]
  · simp only [hfolder, hname.ne_dot, hname.ne_dots, hlong, if_false, Bool.not_true,
      Bool.false_eq_true]
    cases hget : host.get? (home ++ [name]) with
    | none => rfl
    | some entry =>
        cases entry with
        | file bytes => simp [follow]
        | folder => simp [follow]
        | link target =>
            rcases hlast with rfl | hplain
            · rfl
            · exact absurd hget (hplain target)

/-- The host takes the names of a path, and the path behind a folder. -/
structure Fits (folder : String) (path : List String) : Prop where
  limit : (join folder (ofNames path)).utf8ByteSize < pathLimit
  short : ∀ name ∈ path, name.utf8ByteSize ≤ longestName

/-- A path behind a folder is that of a folder. -/
structure HasFolder (host : Host) (folder : String) (home : Location) (path : List String) :
    Prop where
  fits : Fits folder path
  folders : ∀ front, front <+: path → host.isFolderAt (home ++ front) = true

/-- The names of a path lead to a folder. -/
structure Opens (host : Host) (folder : String) (home : Location) : Prop where
  isFolderAt : host.isFolderAt home = true
  leads : host.Leads 40 (host.origin folder) (parts folder) home

theorem find_eq_of_ne_empty (host : Host) (last : Bool) {path : String} (hne : path ≠ "") :
    host.find path last =
      match refusal? path with
      | some fault => .error fault
      | none => host.follow last 40 (host.origin path) (names path) := by
  unfold Host.find refusal?
  by_cases hnul : '\x00' ∈ path.toList
  · simp [hnul]
  · by_cases hlimit : pathLimit ≤ path.utf8ByteSize
    · simp [hnul, hne, hlimit]
    · simp [hnul, hne, hlimit]

theorem find_eq_of_mem_nul {path : String} (hnul : '\x00' ∈ path.toList) :
    host.find path last = .error .nulInName := by
  simp [find, hnul]

namespace Opens

variable (hopens : host.Opens folder home)

include hopens

theorem find : ∃ fewer, ∀ last path, (∀ name ∈ path, Ordinary name) → path ≠ [] →
    host.find (join folder (ofNames path)) last =
      match refusal? (join folder (ofNames path)) with
      | some fault => .error fault
      | none => host.follow last fewer home path := by
  obtain ⟨fewer, hfollow⟩ := hopens.leads.follow_behind hopens.isFolderAt
  refine ⟨fewer, fun last path hpath hne => ?_⟩
  have hnames := hfollow last path (.inr hne)
  rw [← names_behind hpath folder hne, ← origin_behind hpath host folder] at hnames
  rw [find_eq_of_ne_empty host last (join_ne_empty hpath folder hne), hnames]

theorem eq_append_of_find (hpath : ∀ name ∈ path, Ordinary name) (hne : path ≠ [])
    (hclear : host.IsClear home path)
    (h : host.find (join folder (ofNames path)) last = .ok found) :
    found = home ++ path ∧ Fits folder path ∧ host.IsPaved home path := by
  obtain ⟨fewer, hfind⟩ := hopens.find
  rw [hfind last path hpath hne] at h
  split at h
  · cases h
  · rename_i hrefusal
    obtain ⟨hfound, hshort, hpaved⟩ := eq_append_of_follow hpath hclear h
    refine ⟨hfound, ⟨?_, hshort⟩, hpaved⟩
    unfold refusal? at hrefusal
    split at hrefusal
    · cases hrefusal
    · split at hrefusal
      · cases hrefusal
      · omega

theorem find_name (hname : '\x00' ∉ name.toList → Ordinary name)
    (hlast : last = false ∨ ∀ target, host.get? (home ++ [name]) ≠ some (.link target)) :
    host.find (join folder name) last = reach folder name home := by
  by_cases hnul : '\x00' ∈ name.toList
  · have hmem := mem_join folder hnul
    rw [find_eq_of_mem_nul hmem]
    simp [reach, refusal?, hmem]
  · obtain ⟨fewer, hfind⟩ := hopens.find
    have hpath : ∀ other ∈ [name], Ordinary other := by simpa using hname hnul
    have h := hfind last [name] hpath (by simp)
    rw [Path.ofNames_singleton] at h
    rw [h, reach, follow_singleton hopens.isFolderAt (hname hnul) hlast]

theorem hasFolder_of_isFolder (hpath : ∀ name ∈ path, Ordinary name) (hne : path ≠ [])
    (hclear : host.IsClear home path)
    (h : host.isFolder (join folder (ofNames path)) = true) :
    host.HasFolder folder home path := by
  unfold isFolder at h
  split at h
  · rename_i location hresolve
    obtain ⟨hfind, hget⟩ := resolve_eq_ok_iff.mp hresolve
    obtain ⟨rfl, hfits, hpaved⟩ := hopens.eq_append_of_find hpath hne hclear hfind
    refine ⟨hfits, fun front hfront => ?_⟩
    by_cases hsame : front = path
    · rw [hsame, Host.isFolderAt, hget]
    · exact hpaved front hfront hsame
  · cases h

end Opens

/-- Folders were made where nothing was, each inside of a folder, at the location of
some names and in front of them. -/
structure Grown (host other : Host) (home : Location) (path : List String) : Prop where
  workingFolder : other.workingFolder = host.workingFolder
  get? : ∀ location, other.get? location = host.get? location ∨
    host.get? location = none ∧ ∃ front, front ≠ [] ∧ front <+: path ∧ location = home ++ front ∧
      ∀ shorter, shorter <+: front → other.get? (home ++ shorter) = some .folder

namespace Grown

theorem refl (host : Host) (home : Location) (path : List String) : host.Grown host home path :=
  ⟨rfl, fun _ => .inl rfl⟩

theorem get?_of_some (h : host.Grown other home path) {entry : Entry}
    (hentry : host.get? location = some entry) : other.get? location = some entry := by
  rcases h.get? location with hsame | ⟨hnone, -⟩
  · rw [hsame, hentry]
  · rw [hnone] at hentry
    cases hentry

theorem trans (h : host.Grown other home path) (h' : other.Grown next home path) :
    host.Grown next home path := by
  refine ⟨h'.workingFolder.trans h.workingFolder, fun location => ?_⟩
  rcases h.get? location with hsame | ⟨hnone, front, hne, hfront, rfl, hfolders⟩
  · rw [← hsame]
    exact h'.get? location
  · exact .inr ⟨hnone, front, hne, hfront, rfl,
      fun shorter hshorter => h'.get?_of_some (hfolders shorter hshorter)⟩

theorem longer (h : host.Grown other home front) (hfront : front <+: path) :
    host.Grown other home path :=
  ⟨h.workingFolder, fun location => (h.get? location).imp_right
    fun ⟨hnone, shorter, hne, hshorter, hmade⟩ =>
      ⟨hnone, shorter, hne, hshorter.trans hfront, hmade⟩⟩

theorem isFolderAt (h : host.Grown other home path) (hfolder : host.isFolderAt location = true) :
    other.isFolderAt location = true :=
  isFolderAt_iff.mpr (h.get?_of_some (isFolderAt_iff.mp hfolder))

theorem origin (h : host.Grown other home path) (folder : String) :
    other.origin folder = host.origin folder := by
  rw [Host.origin, Host.origin, h.workingFolder]

theorem ne_link (h : host.Grown other home path)
    (hplain : ∀ target, host.get? location ≠ some (.link target)) (target : String) :
    other.get? location ≠ some (.link target) := by
  rcases h.get? location with hsame | ⟨-, front, -, -, rfl, hfolders⟩
  · rw [hsame]
    exact hplain target
  · simp [hfolders front List.prefix_rfl]

theorem leads (h : host.Grown other home path) {ahead : List String}
    (hleads : host.Leads links reached ahead found) : other.Leads links reached ahead found := by
  induction hleads with
  | here => exact .here
  | dot hfolder hrest ih => exact .dot (h.isFolderAt hfolder) ih
  | dots hfolder hrest ih => exact .dots (h.isFolderAt hfolder) ih
  | @free links reached name hfolder hdot hdots hlong hfree =>
      rcases h.get? (reached ++ [name]) with hsame | ⟨-, front, -, -, heq, hfolders⟩
      · exact .free (h.isFolderAt hfolder) hdot hdots hlong (hsame.trans hfree)
      · have hmade := hfolders front List.prefix_rfl
        rw [← heq] at hmade
        exact .into (h.isFolderAt hfolder) hdot hdots hlong hmade (by simp) .here
  | link hfolder hdot hdots hlong hlink hrest ih =>
      exact .link (h.isFolderAt hfolder) hdot hdots hlong (h.get?_of_some hlink) ih
  | into hfolder hdot hdots hlong hentry hplain hrest ih =>
      exact .into (h.isFolderAt hfolder) hdot hdots hlong (h.get?_of_some hentry) hplain ih

theorem opens (h : host.Grown other home path) (hopens : host.Opens folder location) :
    other.Opens folder location :=
  ⟨h.isFolderAt hopens.isFolderAt, h.origin folder ▸ h.leads hopens.leads⟩

end Grown

theorem grown_put (hpath : path ≠ []) (hfree : host.get? (home ++ path) = none)
    (hpaved : host.IsPaved home path) :
    host.Grown (host.put (home ++ path) .folder) home path := by
  have hput := fun location => get?_put host (home ++ path) location .folder (by simp [hpath])
  refine ⟨rfl, fun location => ?_⟩
  by_cases hsame : location = home ++ path
  · subst hsame
    refine .inr ⟨hfree, path, hpath, List.prefix_rfl, rfl, fun shorter hshorter => ?_⟩
    rw [hput]
    by_cases hwhole : shorter = path
    · rw [if_pos (by rw [hwhole])]
    · rw [if_neg (by simpa using hwhole)]
      exact isFolderAt_iff.mp (hpaved shorter hshorter hwhole)
  · exact .inl (by rw [hput, if_neg hsame])

section

variable (hpath : ∀ name ∈ path, Ordinary name) (hne : path ≠ [])

include hpath hne

theorem Opens.createFolder (hopens : host.Opens folder home) (hclear : host.IsClear home path)
    (h : host.createFolder (join folder (ofNames path)) = .ok next) :
    host.Grown next home path ∧ next.HasFolder folder home path := by
  obtain ⟨location, hfind, hfree, rfl⟩ := createFolder_eq_ok h
  obtain ⟨rfl, hfits, hpaved⟩ := hopens.eq_append_of_find hpath hne hclear hfind
  refine ⟨grown_put hne hfree hpaved, hfits, fun front hfront => ?_⟩
  by_cases hsame : front = path
  · rw [hsame, Host.isFolderAt, get?_put host _ _ _ (by simp [hne]), if_pos rfl]
  · exact (grown_put hne hfree hpaved).isFolderAt (hpaved front hfront hsame)

omit hpath in
theorem Opens.two_of_noEntry (hopens : host.Opens folder home)
    (hpath : ∀ name ∈ path, Ordinary name)
    (h : host.createFolder (join folder (ofNames path)) = .error .noEntry) :
    ∃ front name, front ≠ [] ∧ path = front ++ [name] := by
  obtain ⟨front, name, rfl⟩ := (List.eq_nil_or_concat' path).resolve_left hne
  refine ⟨front, name, ?_, rfl⟩
  rintro rfl
  have hname : Ordinary name := hpath name (by simp)
  have hfind : host.find (join folder name) false = reach folder name home :=
    hopens.find_name (fun _ => hname) (.inl rfl)
  rw [List.nil_append, Path.ofNames_singleton, Host.createFolder, hfind] at h
  cases hreach : reach folder name home with
  | error fault =>
      rw [hreach] at h
      cases h
      exact reach_ne_noEntry hreach
  | ok location =>
      simp only [hreach, bind, Except.bind] at h
      split at h <;> cases h

/-- What comes of making folders, whatever it ends with: nothing but folders came up,
and where it ends well they all are there. -/
def Makes (host : Host) (outcome : Host × Option Fault) (folder : String) (home : Location)
    (path : List String) : Prop :=
  host.Grown outcome.1 home path ∧ (outcome.2 = none → outcome.1.HasFolder folder home path)

theorem Opens.makes_tried (hopens : host.Opens folder home) (hclear : host.IsClear home path)
    (fault : Fault) :
    host.Makes (host, if host.isFolder (join folder (ofNames path)) then none else some fault)
      folder home path := by
  refine ⟨.refl host home path, fun hnone => ?_⟩
  by_cases hfolder : host.isFolder (join folder (ofNames path)) = true
  · exact hopens.hasFolder_of_isFolder hpath hne hclear hfolder
  · simp [hfolder] at hnone

theorem Opens.makes_createFoldersFrom (hopens : host.Opens folder home)
    (hclear : host.IsClear home path) (fuel : Nat) :
    host.Makes (host.createFoldersFrom fuel (join folder (ofNames path))) folder home path := by
  induction fuel generalizing path with
  | zero =>
      rw [createFoldersFrom.eq_def]
      dsimp only
      rw [if_neg (by simpa using join_ne_empty hpath folder hne)]
      split
      · rename_i next hmade
        obtain ⟨hgrown, hfolders⟩ := hopens.createFolder hpath hne hclear hmade
        exact ⟨hgrown, fun _ => hfolders⟩
      · exact ⟨.refl host home path, nofun⟩
      · exact hopens.makes_tried hpath hne hclear _
  | succ fuel ih =>
      rw [createFoldersFrom.eq_def]
      dsimp only
      rw [if_neg (by simpa using join_ne_empty hpath folder hne)]
      split
      · rename_i next hmade
        obtain ⟨hgrown, hfolders⟩ := hopens.createFolder hpath hne hclear hmade
        exact ⟨hgrown, fun _ => hfolders⟩
      · rename_i hmissing
        obtain ⟨front, name, hfrontNe, rfl⟩ := hopens.two_of_noEntry hne hpath hmissing
        have hfront := (List.forall_mem_append.mp hpath).1
        have hprefix : front <+: front ++ [name] := List.prefix_append front [name]
        obtain ⟨hgrown, hfolders⟩ := ih hfront hfrontNe (hclear.of_prefix hprefix)
        rw [parentPath?_join_append folder hfront (hpath name (by simp)) hfrontNe]
        dsimp only
        generalize host.createFoldersFrom fuel (join folder (ofNames front)) = outcome
          at hgrown hfolders ⊢
        obtain ⟨between, fault?⟩ := outcome
        cases fault? with
        | some fault => exact ⟨hgrown.longer hprefix, nofun⟩
        | none =>
            have hbetween : between.IsClear home (front ++ [name]) := fun first hfirst hmore =>
              hgrown.ne_link (hclear first hfirst hmore)
            have hopensBetween := hgrown.opens hopens
            dsimp only
            split
            · rename_i next hmade
              obtain ⟨hlast, hall⟩ := hopensBetween.createFolder hpath hne hbetween hmade
              exact ⟨(hgrown.longer hprefix).trans hlast, fun _ => hall⟩
            · rename_i fault _
              obtain ⟨-, hall⟩ := hopensBetween.makes_tried hpath hne hbetween fault
              exact ⟨hgrown.longer hprefix, hall⟩
      · exact hopens.makes_tried hpath hne hclear _

theorem Opens.makes_createFolders (hopens : host.Opens folder home)
    (hclear : host.IsClear home path) :
    host.Makes (host.createFolders (join folder (ofNames path))) folder home path :=
  hopens.makes_createFoldersFrom hpath hne hclear _

end

theorem Leads.exists_follow_false {ahead : List String} (h : host.Leads links reached ahead found)
    (hfound : host.get? found ≠ none) :
    ∃ location, host.follow false links reached ahead = .ok location ∧
      host.get? location ≠ none := by
  induction h with
  | here => exact ⟨_, by rw [follow], hfound⟩
  | dot hfolder hrest ih => rw [follow_dot hfolder]; exact ih hfound
  | dots hfolder hrest ih => rw [follow_dots hfolder]; exact ih hfound
  | free hfolder hdot hdots hlong hfree => exact absurd hfree hfound
  | @link links reached found name target ahead hfolder hdot hdots hlong hlink hrest ih =>
      by_cases hempty : ahead = []
      · subst hempty
        refine ⟨reached ++ [name], ?_, by simp [hlink]⟩
        rw [follow]
        simp [hfolder, hdot, hdots, hlink, Nat.not_lt.mpr hlong]
      · rw [follow_link hfolder hdot hdots hlong hlink (.inr hempty)]
        exact ih hfound
  | into hfolder hdot hdots hlong hentry hplain hrest ih =>
      rw [follow_into hfolder hdot hdots hlong hentry hplain]
      exact ih hfound

theorem createFolders_of_refusal {path : String} {fault : Fault} (hempty : path ≠ "")
    (hrefusal : refusal? path = some fault) : host.createFolders path = (host, some fault) := by
  have hfind := fun last => find_eq_of_ne_empty host last hempty
  simp only [hrefusal] at hfind
  have hcreate : host.createFolder path = .error fault := by
    rw [createFolder, hfind]
    rfl
  have hnone : host.isFolder path = false := by
    rw [isFolder, resolve, hfind]
    rfl
  rw [createFolders, createFoldersFrom.eq_def]
  dsimp only
  rw [if_neg (by simpa using hempty), hcreate, hnone]
  cases fault with
  | noEntry => exact absurd hrefusal refusal?_ne_noEntry
  | _ => rfl

theorem createFolders_of_leads {path : String}
    (hleads : host.Leads 40 (host.origin path) (names path) home)
    (hhome : host.isFolderAt home = true) :
    host.createFolders path = (host, if path = "" then none else refusal? path) := by
  have hfolder := isFolderAt_iff.mp hhome
  by_cases hempty : path = ""
  · rw [createFolders, createFoldersFrom.eq_def]
    simp [hempty]
  · rw [if_neg hempty]
    cases hrefusal : refusal? path with
    | some fault => exact createFolders_of_refusal hempty hrefusal
    | none =>
        have hfind := fun last => find_eq_of_ne_empty host last hempty
        simp only [hrefusal] at hfind
        obtain ⟨location, hfollow, hlocation⟩ := hleads.exists_follow_false (by simp [hfolder])
        obtain ⟨entry, hentry⟩ := Option.ne_none_iff_exists'.mp hlocation
        have hcreate : host.createFolder path = .error .fileExists := by
          rw [createFolder, hfind, hfollow]
          simp only [bind, Except.bind, hentry]
        have hthere : host.isFolder path = true := by
          rw [isFolder, resolve, hfind, follow_of_leads hleads]
          simp only [bind, Except.bind, hfolder]
        rw [createFolders, createFoldersFrom.eq_def]
        dsimp only
        rw [if_neg (by simpa using hempty), hcreate, hthere]
        rfl

end Conformance.Host
