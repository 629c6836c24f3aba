import Conformance.Proofs.Host.Home

namespace Conformance.Host

variable {host other : Host} {home away : Location} {base path : String}

/-- The same stands at one location of a host and below it as at one of another host. -/
def SameBelow (host : Host) (home : Location) (other : Host) (away : Location) : Prop :=
  ∀ rest, host.get? (home ++ rest) = other.get? (away ++ rest)

namespace SameBelow

theorem isFolderAt (hsame : host.SameBelow home other away) (front : Location) :
    host.isFolderAt (home ++ front) = other.isFolderAt (away ++ front) := by
  rw [Host.isFolderAt, Host.isFolderAt, hsame front]

theorem contents_perm (hsame : host.SameBelow home other away) (front : Location) :
    (host.contents (home ++ front)).Perm (other.contents (away ++ front)) := by
  have hnodup (host : Host) (folder : Location) : (host.contents folder).Nodup := by
    apply (contents_pairwise host folder).imp
    intro left right hdistinct heq
    exact hdistinct (congrArg Prod.fst heq)
  apply (List.perm_ext_iff_of_nodup (hnodup _ _) (hnodup _ _)).mpr
  intro entry
  rw [mem_contents_iff, mem_contents_iff, List.append_assoc, List.append_assoc, hsame]

/-- Names that do not lead up go the same way from both locations, however many links may
still be followed. -/
theorem follow_eq (hsame : host.SameBelow home other away) (hfree : host.IsLinkFree home)
    {ahead : List String} (hup : ".." ∉ ahead) (links fewer : Nat) (front : Location) :
    ∃ found : Except Fault Location,
      host.follow true links (home ++ front) ahead = found.map (home ++ ·) ∧
        other.follow true fewer (away ++ front) ahead = found.map (away ++ ·) := by
  induction ahead generalizing front with
  | nil =>
      refine ⟨.ok front, ?_, ?_⟩
      · rw [follow, Except.map]
      · rw [follow, Except.map]
  | cons name ahead ih =>
      rw [List.mem_cons, not_or] at hup
      have hnext := hsame (front ++ [name])
      have hplain := hfree (front ++ [name])
      simp only [← List.append_assoc] at hnext hplain
      rw [follow, follow, ← hsame.isFolderAt front]
      by_cases hfolder : host.isFolderAt (home ++ front) = true
      · by_cases hdot : name = "."
        · simpa [hfolder, hdot] using ih hup.2 front
        · by_cases hlong : longestName < name.utf8ByteSize
          · refine ⟨.error .nameTooLong, ?_, ?_⟩
            · simp [hfolder, hdot, Ne.symm hup.1, hlong, Except.map]
            · simp [hfolder, hdot, Ne.symm hup.1, hlong, Except.map]
          · simp only [hfolder, hdot, Ne.symm hup.1, hlong, Bool.not_true, Bool.false_eq_true,
              if_false]
            rw [← hnext]
            cases hentry : host.get? (home ++ front ++ [name]) with
            | none =>
                by_cases hempty : ahead = []
                · refine ⟨.ok (front ++ [name]), ?_, ?_⟩
                  · simp [hempty, Except.map]
                  · simp [hempty, Except.map]
                · refine ⟨.error .noEntry, ?_, ?_⟩
                  · simp [hempty, Except.map]
                  · simp [hempty, Except.map]
            | some entry =>
                cases entry with
                | link target => exact absurd hentry (hplain target (by simp))
                | file bytes => simpa using ih hup.2 (front ++ [name])
                | folder => simpa using ih hup.2 (front ++ [name])
      · refine ⟨.error .notDirectory, ?_, ?_⟩
        · simp [hfolder, Except.map]
        · simp [hfolder, Except.map]

end SameBelow

theorem exists_names_join (hbase : base ≠ "") (hpath : isAbsolute path = false)
    (hends : path.toList.getLast? ≠ some '/') :
    ∃ tail, names (join base path) = parts base ++ tail ∧
      (tail = parts path ∨ path = "" ∧ tail = ["."]) := by
  obtain ⟨before, hjoin, ⟨hempty, -⟩ | ⟨-, rfl⟩⟩ := join_eq_append base hpath
  · exact absurd hempty hbase
  · obtain ⟨front, hfront, hlead⟩ := lead_eq base
    have hparts : parts base = parts front := by
      rcases hfront with rfl | rfl
      · exact parts_append_slash_empty front
      · rfl
    rw [hjoin, names_eq, hlead, parts_append_slash, ← hparts]
    by_cases hempty : path = ""
    · subst hempty
      rw [parts_empty, List.append_nil]
      split
      · exact ⟨["."], rfl, .inr ⟨rfl, rfl⟩⟩
      · exact ⟨[], by simp, .inl rfl⟩
    · have hslash : Text.endsWith "/" (front ++ "/" ++ path) = false := by
        rw [Bool.eq_false_iff]
        intro hslash
        obtain ⟨text, htext⟩ := endsWith_slash_iff.mp hslash
        have hlast : path.toList.getLast? = (text ++ "/").toList.getLast? := by
          rw [← htext, String.toList_append,
            List.getLast?_append_of_ne_nil _ (by simpa using hempty)]
        rw [hlast] at hends
        simp at hends
      rw [hslash, Bool.false_and, if_neg (by decide)]
      exact ⟨parts path, rfl, .inl rfl⟩

theorem IsBase.find_behind (hbase : host.IsBase base home) (hpath : isAbsolute path = false)
    {tail : List String} (hnames : names (join base path) = parts base ++ tail) :
    ∃ fewer, host.find (join base path) =
      match refusal? (join base path) with
      | some fault => .error fault
      | none => host.follow true fewer home tail := by
  obtain ⟨fewer, hfollow⟩ := hbase.leads.follow_append hbase.isFolderAt
  have horigin : host.origin (join base path) = host.origin base := by
    obtain ⟨c, rest, htext⟩ :=
      List.exists_cons_of_ne_nil (mt String.toList_eq_nil_iff.mp hbase.ne_empty)
    have habsolute : isAbsolute (join base path) = isAbsolute base := by
      obtain ⟨before, hjoin, ⟨hempty, -⟩ | ⟨-, rfl⟩⟩ := join_eq_append base hpath
      · exact absurd hempty hbase.ne_empty
      · rw [Bool.eq_iff_iff, isAbsolute_iff, isAbsolute_iff, hjoin, lead, htext]
        split
        · simp [htext]
        · simp [htext]
    rw [origin, origin, habsolute]
  have hjoined : join base path ≠ "" := by
    obtain ⟨before, hjoin, ⟨hempty, -⟩ | ⟨-, rfl⟩⟩ := join_eq_append base hpath
    · exact absurd hempty hbase.ne_empty
    · simp [hjoin, lead_ne_empty hbase.ne_empty]
  have hfind := find_eq_of_ne_empty host true hjoined
  rw [horigin, hnames, hfollow] at hfind
  exact ⟨fewer, hfind⟩

theorem SameBelow.resolve_join (hsame : host.SameBelow home other away)
    (hhome : host.IsBase base home) (haway : other.IsBase base away)
    (hpath : isAbsolute path = false) (hends : path.toList.getLast? ≠ some '/')
    (hup : ".." ∉ parts path) :
    ∃ found : Except Fault (Location × Entry),
      host.resolve (join base path) = found.map (fun at' => (home ++ at'.1, at'.2)) ∧
        other.resolve (join base path) = found.map (fun at' => (away ++ at'.1, at'.2)) := by
  obtain ⟨tail, hnames, htail⟩ := exists_names_join hhome.ne_empty hpath hends
  have hdown : ".." ∉ tail := by
    rcases htail with rfl | ⟨-, rfl⟩
    · exact hup
    · decide
  obtain ⟨links, hfind⟩ := hhome.find_behind hpath hnames
  obtain ⟨fewer, hfind'⟩ := haway.find_behind hpath hnames
  have hroot := hsame.follow_eq hhome.linkFree hdown links fewer []
  rw [List.append_nil, List.append_nil] at hroot
  obtain ⟨found, hfollow, hfollow'⟩ := hroot
  rw [hfollow] at hfind
  rw [hfollow'] at hfind'
  rw [resolve, resolve, hfind, hfind']
  cases refusal? (join base path) with
  | some fault => exact ⟨.error fault, rfl, rfl⟩
  | none =>
      cases found with
      | error fault => exact ⟨.error fault, rfl, rfl⟩
      | ok rest =>
          simp only [Except.map, bind, Except.bind]
          rw [← hsame rest]
          cases host.get? (home ++ rest) with
          | none => exact ⟨.error .noEntry, rfl, rfl⟩
          | some entry => exact ⟨.ok (rest, entry), rfl, rfl⟩

end Conformance.Host
