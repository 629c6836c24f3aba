import Conformance.Proofs.Host.Follow
import Conformance.Proofs.Text.Search

namespace Conformance.Host

open Conformance.Path (Ordinary ofNames)

/-! Paths that go on behind a folder of the host, by ordinary names. -/

variable {host : Host} {location found : Location}

def parts (path : String) : List String :=
  ((path.toList.splitOn '/').filter (!·.isEmpty)).map String.ofList

theorem names_eq (path : String) :
    names path = if Text.endsWith "/" path && !(parts path).isEmpty then parts path ++ ["."]
      else parts path := rfl

theorem parts_append_slash (front rest : String) :
    parts (front ++ "/" ++ rest) = parts front ++ parts rest := by
  have htext : (front ++ "/" ++ rest).toList = front.toList ++ '/' :: rest.toList := by simp
  rw [parts, htext, List.splitOn_append_cons_self, List.filter_append, List.map_append]
  rfl

theorem parts_ofNames {names : List String} (hnames : ∀ name ∈ names, Ordinary name) :
    parts (ofNames names) = names := by
  by_cases hempty : names = []
  · subst hempty
    rfl
  · have hsegments := Path.segments_ofNames hnames hempty
    rw [Path.segments] at hsegments
    rw [parts, hsegments, List.filter_eq_self.mpr, List.map_map]
    · simp
    · intro segment hsegment
      obtain ⟨name, hname, rfl⟩ := List.mem_map.mp hsegment
      simpa using (hnames name hname).ne_empty

theorem endsWith_slash_iff {text : String} :
    Text.endsWith "/" text = true ↔ ∃ front, text = front ++ "/" :=
  Text.endsWith_iff

def lead (base : String) : String :=
  if Text.endsWith "/" base then base else base ++ "/"

theorem lead_eq (base : String) :
    ∃ front, (base = front ++ "/" ∨ base = front) ∧ lead base = front ++ "/" := by
  by_cases hends : Text.endsWith "/" base = true
  · obtain ⟨front, rfl⟩ := endsWith_slash_iff.mp hends
    exact ⟨front, .inl rfl, if_pos hends⟩
  · exact ⟨base, .inr rfl, if_neg hends⟩

theorem lead_ne_empty {base : String} (hbase : base ≠ "") : lead base ≠ "" := by
  rw [lead]
  split
  · exact hbase
  · simp

section

variable {base : String} {path : List String} (hpath : ∀ name ∈ path, Ordinary name)

include hpath

theorem isAbsolute_ofNames : isAbsolute (ofNames path) = false := by
  rw [Bool.eq_false_iff]
  intro habsolute
  obtain ⟨rest, hrest⟩ := Text.startsWith_iff.mp habsolute
  exact Path.ofNames_ne_slash_cons hpath rest hrest.symm

theorem join_eq (hbase : base ≠ "") : join base (ofNames path) = lead base ++ ofNames path := by
  rw [join, isAbsolute_ofNames hpath, if_neg (by decide), lead]
  by_cases hends : Text.endsWith "/" base = true
  · simp [hends]
  · simp [hends, hbase]

theorem parts_join (hbase : base ≠ "") :
    parts (join base (ofNames path)) = parts base ++ path := by
  obtain ⟨front, hfront, hlead⟩ := lead_eq base
  have hparts : parts base = parts front := by
    rcases hfront with rfl | rfl
    · have hslash := parts_append_slash front ""
      rw [String.append_empty] at hslash
      rw [hslash]
      exact List.append_nil _
    · rfl
  rw [join_eq hpath hbase, hlead, parts_append_slash, parts_ofNames hpath, hparts]

theorem names_join (hbase : base ≠ "") (hne : path ≠ []) :
    names (join base (ofNames path)) = parts base ++ path := by
  have hends : Text.endsWith "/" (join base (ofNames path)) = false := by
    rw [Bool.eq_false_iff]
    intro hends
    obtain ⟨other, hother⟩ := endsWith_slash_iff.mp hends
    have hlast : (ofNames path).toList.getLast? = some '/' := by
      rw [← Path.getLast?_append_ofNames (lead base) hpath hne, ← join_eq hpath hbase, hother]
      simp
    obtain ⟨more, hmore⟩ := List.getLast?_eq_some_iff.mp hlast
    exact Path.ofNames_ne_append_slash hpath more hmore
  rw [names_eq, hends, parts_join hpath hbase]
  simp

theorem not_mem_lead_append (hbase : '\x00' ∉ base.toList) :
    '\x00' ∉ (lead base ++ ofNames path).toList := by
  have hlead : '\x00' ∉ (lead base).toList := by
    rw [lead]
    split
    · exact hbase
    · simpa using hbase
  have hnames : '\x00' ∉ (ofNames path).toList :=
    Path.not_mem_ofNames (by decide) fun name hname => (hpath name hname).no_nul
  simpa [hlead] using hnames

theorem isAbsolute_join (hbase : base ≠ "") :
    isAbsolute (join base (ofNames path)) = isAbsolute base := by
  obtain ⟨c, rest, hrest⟩ : ∃ c rest, base.toList = c :: rest :=
    List.exists_cons_of_ne_nil (by simpa using hbase)
  have hlead : ∃ more, (lead base).toList = c :: more := by
    rw [lead]
    split
    · exact ⟨rest, hrest⟩
    · exact ⟨rest ++ ['/'], by simp [hrest]⟩
  obtain ⟨more, hmore⟩ := hlead
  have hhead : ∀ text : String, ∀ rest, text.toList = c :: rest →
      (isAbsolute text = true ↔ '/' = c) := by
    intro text rest htext
    rw [isAbsolute, Text.startsWith_iff, htext]
    change ['/'] <+: c :: rest ↔ '/' = c
    simp
  rw [Bool.eq_iff_iff, join_eq hpath hbase, hhead base rest hrest,
    hhead (lead base ++ ofNames path) (more ++ (ofNames path).toList) (by simp [hmore])]

end

theorem find_eq_ok_iff {path : String} :
    host.find path = .ok found ↔
      '\x00' ∉ path.toList ∧ path ≠ "" ∧ path.utf8ByteSize < pathLimit ∧
        host.Leads 40 (host.origin path) (names path) found := by
  rw [leads_iff_follow, find]
  by_cases hnul : '\x00' ∈ path.toList
  · simp [hnul]
  · by_cases hempty : path = ""
    · simp [hempty]
    · by_cases hlong : path.utf8ByteSize < pathLimit
      · simp [hnul, hempty, hlong, Nat.not_le.mpr hlong]
      · simp [hnul, hempty, hlong, Nat.not_lt.mp hlong]

theorem resolve_eq_ok_iff {path : String} {entry : Entry} :
    host.resolve path = .ok (found, entry) ↔
      host.find path = .ok found ∧ host.get? found = some entry := by
  rw [resolve]
  cases hfind : host.find path with
  | error fault => simp [bind, Except.bind]
  | ok location =>
      cases hentry : host.get? location with
      | none =>
          simp only [bind, Except.bind, hentry]
          constructor
          · intro h
            cases h
          · rintro ⟨hfound, hget⟩
            cases hfound
            rw [hentry] at hget
            cases hget
      | some other =>
          simp only [bind, Except.bind, hentry, Except.ok.injEq, Prod.mk.injEq]
          constructor
          · rintro ⟨rfl, rfl⟩
            exact ⟨rfl, hentry⟩
          · rintro ⟨rfl, hget⟩
            rw [hentry] at hget
            exact ⟨rfl, Option.some.inj hget⟩

/-- A path leads to a folder below which there are no links. -/
structure IsBase (host : Host) (base : String) (location : Location) : Prop where
  resolved : host.resolve base = .ok (location, .folder)
  linkFree : host.IsLinkFree location

namespace IsBase

variable {base : String} {path front rest : List String} {entry : Entry}

theorem ne_empty (hbase : host.IsBase base location) : base ≠ "" :=
  (find_eq_ok_iff.mp (resolve_eq_ok_iff.mp hbase.resolved).1).2.1

theorem isFolderAt (hbase : host.IsBase base location) : host.isFolderAt location = true := by
  simp [Host.isFolderAt, (resolve_eq_ok_iff.mp hbase.resolved).2]

theorem leads (hbase : host.IsBase base location) :
    host.Leads 40 (host.origin base) (parts base) location := by
  have hleads := (find_eq_ok_iff.mp (resolve_eq_ok_iff.mp hbase.resolved).1).2.2.2
  rw [names_eq] at hleads
  split at hleads
  · exact leads_of_append_dot hleads
  · exact hleads

theorem find_join (hbase : host.IsBase base location) :
    ∃ fewer, ∀ {path : List String} {found : Location}, (∀ name ∈ path, Ordinary name) →
      path ≠ [] →
        (host.find (join base (ofNames path)) = .ok found ↔
          (join base (ofNames path)).utf8ByteSize < pathLimit ∧
            host.Leads fewer location path found) := by
  have hnul := (find_eq_ok_iff.mp (resolve_eq_ok_iff.mp hbase.resolved).1).1
  have hempty := hbase.ne_empty
  -- the way to the base uses up the same links, whatever comes behind it
  obtain ⟨fewer, hfollow⟩ := hbase.leads.follow_append hbase.isFolderAt
  refine ⟨fewer, ?_⟩
  intro path found hpath hne
  have horigin : host.origin (join base (ofNames path)) = host.origin base := by
    rw [origin, origin, isAbsolute_join hpath hempty]
  have hjoin : '\x00' ∉ (join base (ofNames path)).toList ∧ join base (ofNames path) ≠ "" := by
    rw [join_eq hpath hempty]
    exact ⟨not_mem_lead_append hpath hnul, by simp [lead_ne_empty hempty]⟩
  rw [find_eq_ok_iff, horigin, names_join hpath hempty hne, leads_iff_follow, hfollow,
    ← leads_iff_follow]
  constructor
  · rintro ⟨-, -, hlimit, hfound⟩
    exact ⟨hlimit, hfound⟩
  · rintro ⟨hlimit, hfound⟩
    exact ⟨hjoin.1, hjoin.2, hlimit, hfound⟩

theorem eq_of_resolve_join (hbase : host.IsBase base location)
    (hpath : ∀ name ∈ path, Ordinary name) (hne : path ≠ [])
    (h : host.resolve (join base (ofNames path)) = .ok (found, entry)) :
    found = location ++ path ∧ host.get? (location ++ path) = some entry := by
  obtain ⟨fewer, hfind⟩ := hbase.find_join
  obtain ⟨hfound, hget⟩ := resolve_eq_ok_iff.mp h
  obtain ⟨-, hleads⟩ := (hfind hpath hne).mp hfound
  obtain rfl := hleads.eq_append hpath hbase.linkFree
  exact ⟨rfl, hget⟩

theorem resolve_join_front (hbase : host.IsBase base location)
    (hfront : ∀ name ∈ front, Ordinary name) (hrest : ∀ name ∈ rest, Ordinary name)
    (hfrontNe : front ≠ []) (hrestNe : rest ≠ [])
    (h : host.resolve (join base (ofNames (front ++ rest))) = .ok (found, entry)) :
    host.resolve (join base (ofNames front)) = .ok (location ++ front, .folder) := by
  obtain ⟨fewer, hfind⟩ := hbase.find_join
  have hall := List.forall_mem_append.mpr ⟨hfront, hrest⟩
  obtain ⟨hlimit, hleads⟩ :=
    (hfind hall (by simp [hfrontNe])).mp (resolve_eq_ok_iff.mp h).1
  obtain ⟨hbefore, hfolder⟩ := hleads.front hfront hbase.linkFree hrestNe
  refine resolve_eq_ok_iff.mpr ⟨(hfind hfront hfrontNe).mpr ⟨?_, hbefore⟩, ?_⟩
  · have hsize := Path.utf8ByteSize_le_append rest hfrontNe
    rw [join_eq hall hbase.ne_empty, String.utf8ByteSize_append] at hlimit
    rw [join_eq hfront hbase.ne_empty, String.utf8ByteSize_append]
    omega
  · unfold Host.isFolderAt at hfolder
    split at hfolder
    · assumption
    · cases hfolder

end IsBase

end Conformance.Host
