import Conformance.Proofs.Host.SameBelow

namespace Conformance.Host

/-! What a path that does not lead up comes to behind a folder below which there are no
links: what it names, unless something stands in its way. -/

variable {host : Host} {home : Location} {name base path : String}
  {names front rest : List String} {found other : Option Entry} {result : Except Fault Location}

def steps (names : List String) : Location := names.filter (· != ".")

@[simp] theorem steps_nil : steps [] = [] := rfl

@[simp] theorem steps_dot (names : List String) : steps ("." :: names) = steps names := rfl

theorem steps_cons (hdot : name ≠ ".") (names : List String) :
    steps (name :: names) = name :: steps names :=
  List.filter_cons_of_pos (by simpa using hdot)

theorem steps_append (front rest : List String) :
    steps (front ++ rest) = steps front ++ steps rest :=
  List.filter_append ..

theorem steps_eq_self (hdot : "." ∉ names) : steps names = names := by
  refine List.filter_eq_self.mpr fun name hname => bne_iff_ne.mpr ?_
  rintro rfl
  exact hdot hname

/-- Folders stand all along in front of the last of some names. -/
def IsWay (host : Host) (home : Location) (names : List String) : Prop :=
  ∀ front, front <+: names → front ≠ names → host.get? (home ++ steps front) = some .folder

theorem isWay_nil (host : Host) (home : Location) : host.IsWay home [] := by
  intro front hfront hne
  exact absurd (List.prefix_nil.mp hfront) hne

theorem isWay_cons (name : String) (names : List String) :
    host.IsWay home (name :: names) ↔
      host.get? home = some .folder ∧ host.IsWay (home ++ steps [name]) names := by
  have hsteps (front : List String) :
      home ++ steps [name] ++ steps front = home ++ steps (name :: front) := by
    rw [List.append_assoc, ← steps_append, List.singleton_append]
  constructor
  · intro hway
    refine ⟨?_, fun front hfront hne => ?_⟩
    · simpa using hway [] List.nil_prefix (by simp)
    · rw [hsteps]
      exact hway (name :: front) (List.cons_prefix_cons.mpr ⟨rfl, hfront⟩) (by simpa using hne)
  · rintro ⟨hfolder, hway⟩ front hfront hne
    cases front with
    | nil => simpa using hfolder
    | cons first front =>
        obtain ⟨rfl, hmore⟩ := List.cons_prefix_cons.mp hfront
        rw [← hsteps]
        exact hway front hmore (by simpa using hne)

/-- Some names lead through folders to something, and go on behind it. -/
def StopsAt (host : Host) (home : Location) (names : List String) (found : Option Entry) : Prop :=
  ∃ front, front <+: names ∧ front ≠ names ∧ host.IsWay home front ∧
    host.get? (home ++ steps front) = found

theorem StopsAt.cons (hfolder : host.get? home = some .folder)
    (h : host.StopsAt (home ++ steps [name]) names found) :
    host.StopsAt home (name :: names) found := by
  obtain ⟨front, hfront, hne, hway, hfound⟩ := h
  refine ⟨name :: front, List.cons_prefix_cons.mpr ⟨rfl, hfront⟩, by simpa using hne,
    (isWay_cons name front).mpr ⟨hfolder, hway⟩, ?_⟩
  rwa [List.append_assoc, ← steps_append, List.singleton_append] at hfound

theorem StopsAt.not_isWay (h : host.StopsAt home names found) (hfound : found ≠ some .folder) :
    ¬ host.IsWay home names := by
  obtain ⟨front, hfront, hne, -, rfl⟩ := h
  exact fun hway => hfound (hway front hfront hne)

theorem StopsAt.unique (h : host.StopsAt home names found) (h' : host.StopsAt home names other)
    (hfound : found ≠ some .folder) (hother : other ≠ some .folder) : found = other := by
  obtain ⟨front, hfront, -, hway, rfl⟩ := h
  obtain ⟨more, hmore, -, hway', rfl⟩ := h'
  by_cases hsame : front = more
  · rw [hsame]
  · rcases List.prefix_or_prefix_of_prefix hfront hmore with hshorter | hshorter
    · exact absurd (hway' front hshorter hsame) hfound
    · exact absurd (hway more hshorter (Ne.symm hsame)) hother

/-- What becomes of some names. They lead to a location, free or not, unless a file or
nothing at all stands in front of the last one. -/
inductive Follows (host : Host) (home : Location) (names : List String) :
    Except Fault Location → Prop
  | through (hway : host.IsWay home names) : Follows host home names (.ok (home ++ steps names))
  | stopped {bytes : ByteArray} (hstop : host.StopsAt home names (some (.file bytes))) :
      Follows host home names (.error .notDirectory)
  | lost (hstop : host.StopsAt home names none) : Follows host home names (.error .noEntry)

theorem Follows.cons (hfolder : host.get? home = some .folder)
    (h : host.Follows (home ++ steps [name]) names result) :
    host.Follows home (name :: names) result := by
  cases h with
  | through hway =>
      rw [List.append_assoc, ← steps_append, List.singleton_append]
      exact .through ((isWay_cons name names).mpr ⟨hfolder, hway⟩)
  | stopped hstop => exact .stopped (hstop.cons hfolder)
  | lost hstop => exact .lost (hstop.cons hfolder)

theorem Follows.unique {results : Except Fault Location} (h : host.Follows home names result)
    (h' : host.Follows home names results) : result = results := by
  cases h with
  | through hway =>
      cases h' with
      | through => rfl
      | stopped hstop => exact absurd hway (hstop.not_isWay (by simp))
      | lost hstop => exact absurd hway (hstop.not_isWay (by simp))
  | stopped hstop =>
      cases h' with
      | through hway => exact absurd hway (hstop.not_isWay (by simp))
      | stopped => rfl
      | lost hstop' => exact absurd (hstop.unique hstop' (by simp) (by simp)) (by simp)
  | lost hstop =>
      cases h' with
      | through hway => exact absurd hway (hstop.not_isWay (by simp))
      | stopped hstop' => exact absurd (hstop.unique hstop' (by simp) (by simp)) (by simp)
      | lost => rfl

theorem follow_free {last : Bool} {links : Nat} {ahead : List String}
    (hfolder : host.isFolderAt home = true) (hdot : name ≠ ".") (hdots : name ≠ "..")
    (hlong : name.utf8ByteSize ≤ longestName) (hfree : host.get? (home ++ [name]) = none) :
    host.follow last links home (name :: ahead) =
      if ahead = [] then .ok (home ++ [name]) else .error .noEntry := by
  rw [follow]
  simp [hfolder, hdot, hdots, Nat.not_lt.mpr hlong, hfree]

theorem follows_free (hfree : host.get? home = none) :
    host.Follows home names (if names = [] then .ok home else .error .noEntry) := by
  split
  · rename_i hempty
    rw [hempty]
    simpa using Follows.through (isWay_nil host home)
  · rename_i hne
    exact .lost ⟨[], List.nil_prefix, Ne.symm hne, isWay_nil host home, by simpa⟩

theorem follows_file {bytes : ByteArray} (hfile : host.get? home = some (.file bytes))
    (links : Nat) : host.Follows home names (host.follow true links home names) := by
  rw [follow.eq_def]
  cases names with
  | nil => simpa using Follows.through (isWay_nil host home)
  | cons name names =>
      have hnone : host.isFolderAt home = false := by simp [isFolderAt, hfile]
      simp only [hnone, Bool.not_false, if_true]
      exact .stopped ⟨[], List.nil_prefix, by simp, isWay_nil host home, by simpa⟩

theorem follows_follow (hfolder : host.get? home = some .folder) (hfree : host.IsLinkFree home)
    (hup : ".." ∉ names) (hlong : ∀ name ∈ names, name.utf8ByteSize ≤ longestName) (links : Nat) :
    host.Follows home names (host.follow true links home names) := by
  induction names generalizing home with
  | nil =>
      rw [follow]
      simpa using Follows.through (isWay_nil host home)
  | cons name names ih =>
      rw [List.mem_cons, not_or] at hup
      rw [List.forall_mem_cons] at hlong
      have hreached := isFolderAt_iff.mpr hfolder
      by_cases hdot : name = "."
      · subst hdot
        rw [follow_dot hreached]
        refine Follows.cons hfolder ?_
        simpa using ih hfolder hfree hup.2 hlong.2
      · have hstep : home ++ steps [name] = home ++ [name] := by rw [steps_cons hdot, steps_nil]
        have hplain := fun target => hfree [name] target (by simp)
        cases hentry : host.get? (home ++ [name]) with
        | none =>
            rw [follow_free hreached hdot (Ne.symm hup.1) hlong.1 hentry, ← hstep]
            exact Follows.cons hfolder (follows_free (hstep ▸ hentry))
        | some entry =>
            rw [follow_into hreached hdot (Ne.symm hup.1) hlong.1 hentry
              (fun target heq => hplain target (heq ▸ hentry)), ← hstep]
            refine Follows.cons hfolder ?_
            rw [hstep]
            cases entry with
            | folder => exact ih hentry (hfree.below [name]) hup.2 hlong.2
            | link target => exact absurd hentry (hplain target)
            | file bytes => exact follows_file hentry links

theorem Leads.eq_steps {links : Nat} {location : Location} (hup : ".." ∉ names)
    (hfree : host.IsLinkFree home) (h : host.Leads links home names location) :
    location = home ++ steps names := by
  induction h with
  | here => simp
  | dot hfolder hrest ih => exact ih (mt (List.mem_cons_of_mem _) hup) hfree
  | dots => exact absurd List.mem_cons_self hup
  | free hfolder hdot => rw [steps_cons hdot, steps_nil]
  | link hfolder hdot hdots hlong hlink => exact absurd hlink (hfree _ _ (by simp))
  | into hfolder hdot hdots hlong hentry hplain hrest ih =>
      rw [ih (mt (List.mem_cons_of_mem _) hup) (hfree.below _), steps_cons hdot, List.append_assoc,
        List.singleton_append]

theorem refusal?_join (hbase : '\x00' ∉ base.toList) (hpath : '\x00' ∉ path.toList) :
    refusal? (join base path) =
      if pathLimit ≤ (join base path).utf8ByteSize then some .nameTooLong else none := by
  have hnul : '\x00' ∉ (join base path).toList := by
    unfold join
    split
    · exact hpath
    · split
      · simp [hbase, hpath]
      · simp [hbase, hpath]
  simp [refusal?, hnul]

namespace IsBase

theorem get?_eq_folder (hbase : host.IsBase base home) : host.get? home = some .folder :=
  (resolve_eq_ok_iff.mp hbase.resolved).2

theorem no_nul (hbase : host.IsBase base home) : '\x00' ∉ base.toList :=
  (find_eq_ok_iff.mp (resolve_eq_ok_iff.mp hbase.resolved).1).1

theorem exists_follows (hbase : host.IsBase base home) (hpath : isAbsolute path = false)
    (hends : path.toList.getLast? ≠ some '/') (hup : ".." ∉ parts path)
    (hlong : ∀ name ∈ parts path, name.utf8ByteSize ≤ longestName) :
    ∃ result, host.Follows home (parts path) result ∧
      host.find (join base path) =
        match refusal? (join base path) with
        | some fault => .error fault
        | none => result := by
  obtain ⟨tail, hnames, htail⟩ := exists_names_join hbase.ne_empty hpath hends
  obtain ⟨links, hfind⟩ := hbase.find_behind hpath hnames
  refine ⟨_, ?_, hfind⟩
  rcases htail with rfl | ⟨rfl, rfl⟩
  · exact follows_follow hbase.get?_eq_folder hbase.linkFree hup hlong links
  · rw [follow_dot hbase.isFolderAt, follow]
    simpa using Follows.through (isWay_nil host home)

theorem eq_of_find_join {location : Location} (hbase : host.IsBase base home)
    (hpath : isAbsolute path = false) (hends : path.toList.getLast? ≠ some '/')
    (hup : ".." ∉ parts path) (h : host.find (join base path) = .ok location) :
    location = home ++ steps (parts path) := by
  obtain ⟨tail, hnames, htail⟩ := exists_names_join hbase.ne_empty hpath hends
  obtain ⟨links, hfind⟩ := hbase.find_behind hpath hnames
  have hsteps : ".." ∉ tail ∧ steps tail = steps (parts path) := by
    rcases htail with rfl | ⟨rfl, rfl⟩
    · exact ⟨hup, rfl⟩
    · exact ⟨by decide, rfl⟩
  rw [hfind] at h
  split at h
  · cases h
  · rw [← hsteps.2]
    exact (leads_of_follow h).eq_steps hsteps.1 hbase.linkFree

end IsBase

end Conformance.Host
