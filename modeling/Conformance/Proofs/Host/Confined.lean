import Conformance.Proofs.Host.Home

namespace Conformance.Host

open Conformance.Path (Ordinary ofNames)

/-! Changes that stay at and below some names in a folder. -/

variable {host other next : Host} {home location : Location} {name source target : String}
  {names more : List String} {rest : Location} {entry : Entry}

/-- A location at or below what one of the names stands for. -/
def Under (home : Location) (names : List String) (location : Location) : Prop :=
  ∃ name ∈ names, home ++ [name] <+: location

theorem Under.mono (hlocation : Under home names location) (hmore : names ⊆ more) :
    Under home more location := by
  obtain ⟨name, hname, hbehind⟩ := hlocation
  exact ⟨name, hmore hname, hbehind⟩

theorem under_append (hname : name ∈ names) (rest : Location) :
    Under home names (home ++ name :: rest) :=
  ⟨name, hname, rest, by simp⟩

theorem Under.exists_rest (h : Under home names location) :
    ∃ name ∈ names, ∃ rest, location = home ++ name :: rest := by
  obtain ⟨name, hname, rest, rfl⟩ := h
  exact ⟨name, hname, rest, by simp⟩

theorem not_under_home : ¬ Under home names home := by
  rintro ⟨name, -, hbehind⟩
  have hlength := hbehind.length_le
  simp at hlength

theorem not_under_append (hname : name ∉ names) (rest : Location) :
    ¬ Under home names (home ++ name :: rest) := by
  rintro ⟨other, hother, more, heq⟩
  rw [List.append_assoc] at heq
  have hsame := List.append_cancel_left heq
  rw [List.singleton_append, List.cons_eq_cons] at hsame
  exact hname (hsame.1 ▸ hother)

/-- No link stands at or below what one of the names stands for. -/
def Linkless (host : Host) (home : Location) (names : List String) : Prop :=
  ∀ location, Under home names location → ∀ target, host.get? location ≠ some (.link target)

theorem Linkless.mono (hlinkless : host.Linkless home more) (hmore : names ⊆ more) :
    host.Linkless home names :=
  fun location hlocation => hlinkless location (hlocation.mono hmore)

theorem Linkless.ne_link (hlinkless : host.Linkless home names) (hname : name ∈ names)
    (target : String) : host.get? (home ++ [name]) ≠ some (.link target) :=
  hlinkless _ (under_append hname []) target

theorem Linkless.isClear (hlinkless : host.Linkless home names) (hname : name ∈ names)
    (rest : List String) : host.IsClear home (name :: rest) := by
  intro front hne hfront target
  cases front with
  | nil => contradiction
  | cons first front =>
      obtain ⟨rfl, -⟩ := List.cons_prefix_cons.mp hfront
      exact hlinkless _ (under_append hname front) target

theorem IsLinkFree.linkless (hfree : host.IsLinkFree home) (names : List String) :
    host.Linkless home names := by
  intro location hlocation target
  obtain ⟨name, -, rest, rfl⟩ := hlocation.exists_rest
  exact hfree _ target (by simp)

/-- A change that concerns only what the names stand for and brings no link there. -/
structure Confined (host next : Host) (home : Location) (names : List String) : Prop where
  same : host.SameBut (Under home names) next
  linkless : host.Linkless home names → next.Linkless home names

namespace Confined

theorem refl (host : Host) (home : Location) (names : List String) :
    host.Confined host home names :=
  ⟨.refl _ host, id⟩

theorem trans (h : host.Confined other home names) (h' : other.Confined next home names) :
    host.Confined next home names :=
  ⟨h.same.trans h'.same, h'.linkless ∘ h.linkless⟩

theorem get?_append (h : host.Confined next home names) (hname : name ∉ names) (rest : Location) :
    next.get? (home ++ name :: rest) = host.get? (home ++ name :: rest) :=
  h.same.get? _ (not_under_append hname rest)

theorem mono (h : host.Confined next home names) (hmore : names ⊆ more) :
    host.Confined next home more := by
  refine ⟨h.same.mono fun location hlocation => hlocation.mono hmore, fun hlinkless => ?_⟩
  intro location hlocation target
  obtain ⟨name, hname, rest, rfl⟩ := hlocation.exists_rest
  by_cases hinside : name ∈ names
  · exact h.linkless (hlinkless.mono hmore) _ (under_append hinside rest) target
  · rw [h.get?_append hinside]
    exact hlinkless _ (under_append hname rest) target

theorem isLinkFree (h : host.Confined next home names) (hfree : host.IsLinkFree home) :
    next.IsLinkFree home := by
  intro rest target hrest
  by_cases hunder : Under home names (home ++ rest)
  · exact h.linkless (hfree.linkless names) _ hunder target
  · rw [h.same.get? _ hunder]
    exact hfree rest target hrest

end Confined

theorem confined_put (hname : name ∈ names) (hplain : ∀ target, entry ≠ .link target)
    (rest : Location) (host : Host) :
    host.Confined (host.put (home ++ name :: rest) entry) home names := by
  have hroot : home ++ name :: rest ≠ [] := by simp
  refine ⟨(sameBut_put host entry hroot).mono ?_, fun hlinkless location hlocation target => ?_⟩
  · rintro location rfl
    exact under_append hname rest
  · rw [get?_put host _ location entry hroot]
    split
    · simpa using hplain target
    · exact hlinkless location hlocation target

theorem confined_drop (hname : name ∈ names) (host : Host) :
    host.Confined (host.drop (home ++ [name])) home names := by
  have hroot : home ++ [name] ≠ [] := by simp
  refine ⟨(sameBut_drop host hroot).mono ?_, fun hlinkless location hlocation target => ?_⟩
  · rintro location rfl
    exact under_append hname []
  · rw [get?_drop hroot]
    split
    · simp
    · exact hlinkless location hlocation target

theorem confined_dropTree (hname : name ∈ names) (host : Host) :
    host.Confined (host.dropTree (home ++ [name])) home names := by
  have hroot : home ++ [name] ≠ [] := by simp
  refine ⟨(sameBut_dropTree host hroot).mono fun location hlocation => ⟨name, hname, hlocation⟩,
    fun hlinkless location hlocation target => ?_⟩
  rw [get?_dropTree hroot]
  split
  · simp
  · exact hlinkless location hlocation target

theorem confined_moveTree (hsource : source ∈ names) (htarget : target ∈ names) (host : Host) :
    host.Confined (host.moveTree (home ++ [source]) (home ++ [target])) home names := by
  have hroot (name : String) : home ++ [name] ≠ [] := by simp
  obtain ⟨hmoved, hleft⟩ := get?_moveTree host (hroot source) (hroot target)
  refine ⟨(sameBut_moveTree host (hroot source) (hroot target)).mono ?_,
    fun hlinkless location hlocation link => ?_⟩
  · rintro location (hlocation | hlocation)
    · exact ⟨source, hsource, hlocation⟩
    · exact ⟨target, htarget, hlocation⟩
  · by_cases hbehind : home ++ [target] <+: location
    · obtain ⟨rest, rfl⟩ := hbehind
      rw [hmoved, List.append_assoc]
      exact hlinkless _ (under_append hsource rest) link
    · rw [hleft location hbehind]
      split
      · simp
      · exact hlinkless location hlocation link

theorem Grown.confined (h : host.Grown next home (name :: rest)) (hname : name ∈ names) :
    host.Confined next home names := by
  refine ⟨⟨h.workingFolder, fun location hlocation => ?_⟩, fun hlinkless location hlocation =>
    h.ne_link (hlinkless location hlocation)⟩
  rcases h.get? location with hsame | ⟨-, front, hne, hfront, rfl, -⟩
  · exact hsame
  · cases front with
    | nil => contradiction
    | cons first front =>
        obtain ⟨rfl, -⟩ := List.cons_prefix_cons.mp hfront
        exact absurd (under_append hname front) hlocation

namespace Opens

variable {folder : String} {bytes : ByteArray} (hopens : host.Opens folder home)
  (hname : '\x00' ∉ name.toList → Ordinary name)

include hopens hname

theorem write_name (hplain : ∀ target, host.get? (home ++ [name]) ≠ some (.link target))
    (h : host.write (join folder name) bytes = .ok next) :
    host.get? (home ++ [name]) ≠ some .folder ∧
      next = host.put (home ++ [name]) (.file bytes) := by
  obtain ⟨location, hfind, hfile, rfl⟩ := write_eq_ok h
  rw [hopens.find_name hname (.inr hplain)] at hfind
  rw [← reach_eq_ok hfind]
  exact ⟨hfile, rfl⟩

theorem resolve_name (hplain : ∀ target, host.get? (home ++ [name]) ≠ some (.link target)) :
    host.resolve (join folder name) = .ok (location, entry) ↔
      reach folder name home = .ok (home ++ [name]) ∧ location = home ++ [name] ∧
        host.get? (home ++ [name]) = some entry := by
  rw [resolve_eq_ok_iff, hopens.find_name hname (.inr hplain)]
  constructor
  · rintro ⟨hreach, hentry⟩
    obtain rfl := reach_eq_ok hreach
    exact ⟨hreach, rfl, hentry⟩
  · rintro ⟨hreach, rfl, hentry⟩
    exact ⟨hreach, hentry⟩

theorem isPresent_name (hplain : ∀ target, host.get? (home ++ [name]) ≠ some (.link target)) :
    host.isPresent (join folder name) = true ↔
      reach folder name home = .ok (home ++ [name]) ∧ host.get? (home ++ [name]) ≠ none := by
  unfold isPresent
  split
  · rename_i found hfound
    obtain ⟨hreach, -, hentry⟩ := (hopens.resolve_name hname hplain).mp hfound
    simp [hreach, hentry]
  · rename_i fault hfault
    simp only [Bool.false_eq_true, false_iff, not_and, not_not]
    intro hreach
    by_contra hentry
    obtain ⟨entry, hentry⟩ := Option.ne_none_iff_exists'.mp hentry
    rw [(hopens.resolve_name hname hplain).mpr ⟨hreach, rfl, hentry⟩] at hfault
    cases hfault

theorem isFolder_name (hplain : ∀ target, host.get? (home ++ [name]) ≠ some (.link target)) :
    host.isFolder (join folder name) = true ↔
      reach folder name home = .ok (home ++ [name]) ∧
        host.get? (home ++ [name]) = some .folder := by
  unfold isFolder
  split
  · rename_i location hfound
    obtain ⟨hreach, -, hentry⟩ := (hopens.resolve_name hname hplain).mp hfound
    simp [hreach, hentry]
  · rename_i hother
    simp only [Bool.false_eq_true, false_iff]
    rintro ⟨hreach, hentry⟩
    exact hother _ ((hopens.resolve_name hname hplain).mpr ⟨hreach, rfl, hentry⟩)

theorem read_name (hplain : ∀ target, host.get? (home ++ [name]) ≠ some (.link target)) :
    host.read (join folder name) = .ok bytes ↔
      reach folder name home = .ok (home ++ [name]) ∧
        host.get? (home ++ [name]) = some (.file bytes) := by
  constructor
  · intro h
    unfold read at h
    cases hfound : host.resolve (join folder name) with
    | error fault =>
        rw [hfound] at h
        cases h
    | ok found =>
        obtain ⟨location, entry⟩ := found
        obtain ⟨hreach, -, hentry⟩ := (hopens.resolve_name hname hplain).mp hfound
        simp only [hfound, bind, Except.bind] at h
        split at h
        · rename_i location' bytes' heq
          cases heq
          cases h
          exact ⟨hreach, hentry⟩
        · cases h
        · cases h
  · rintro ⟨hreach, hentry⟩
    rw [read, (hopens.resolve_name hname hplain).mpr ⟨hreach, rfl, hentry⟩]
    rfl

theorem remove_name (h : host.remove (join folder name) = .ok next) :
    next = host.drop (home ++ [name]) := by
  obtain ⟨location, hfind, -, rfl⟩ := remove_eq_ok h
  rw [hopens.find_name hname (.inl rfl)] at hfind
  rw [reach_eq_ok hfind]

theorem removeTree_name (h : host.removeTree (join folder name) = .ok next) :
    (∃ target, host.get? (home ++ [name]) = some (.link target)) ∧
        next = host.drop (home ++ [name]) ∨
      host.get? (home ++ [name]) = some .folder ∧ next = host.dropTree (home ++ [name]) := by
  obtain ⟨location, hfind, hremoved⟩ := removeTree_eq_ok h
  rw [hopens.find_name hname (.inl rfl)] at hfind
  rwa [reach_eq_ok hfind] at hremoved

end Opens

theorem Opens.write_name_eq {folder : String} (hopens : host.Opens folder home)
    (hname : Ordinary name) (hreach : reach folder name home = .ok (home ++ [name]))
    (hplain : ∀ target, host.get? (home ++ [name]) ≠ some (.link target))
    (hfile : host.get? (home ++ [name]) ≠ some .folder) (bytes : ByteArray) :
    host.write (join folder name) bytes = .ok (host.put (home ++ [name]) (.file bytes)) := by
  rw [write, hopens.find_name (fun _ => hname) (.inr hplain), hreach]
  simp only [bind, Except.bind]

theorem Opens.remove_name_eq {folder : String} (hopens : host.Opens folder home)
    (hname : Ordinary name) (hreach : reach folder name home = .ok (home ++ [name]))
    (hentry : host.get? (home ++ [name]) = some entry) (hfile : entry ≠ .folder) :
    host.remove (join folder name) = .ok (host.drop (home ++ [name])) := by
  rw [remove, hopens.find_name (fun _ => hname) (.inl rfl), hreach]
  simp only [bind, Except.bind, hentry]

theorem Opens.rename_names_eq {folder : String} (hopens : host.Opens folder home)
    (hsource : Ordinary source) (htarget : Ordinary target)
    (hreach : reach folder source home = .ok (home ++ [source]))
    (hreach' : reach folder target home = .ok (home ++ [target]))
    (hentry : host.get? (home ++ [source]) = some entry)
    (hfree : host.get? (home ++ [target]) = none) :
    host.rename (join folder source) (join folder target) =
      .ok (host.moveTree (home ++ [source]) (home ++ [target])) := by
  rw [rename, hopens.find_name (fun _ => hsource) (.inl rfl),
    hopens.find_name (fun _ => htarget) (.inl rfl), hreach, hreach']
  simp only [bind, Except.bind, hentry, hfree]

theorem Opens.rename_names {folder : String} (hopens : host.Opens folder home)
    (hsource : '\x00' ∉ source.toList → Ordinary source)
    (htarget : '\x00' ∉ target.toList → Ordinary target) (hne : source ≠ target)
    (h : host.rename (join folder source) (join folder target) = .ok next) :
    reach folder source home = .ok (home ++ [source]) ∧ host.get? (home ++ [source]) ≠ none ∧
      next = host.moveTree (home ++ [source]) (home ++ [target]) := by
  obtain ⟨old, new, entry, hold, hnew, hentry, hmoved⟩ := rename_eq_ok h
  rw [hopens.find_name hsource (.inl rfl)] at hold
  rw [hopens.find_name htarget (.inl rfl)] at hnew
  obtain rfl := reach_eq_ok hold
  obtain rfl := reach_eq_ok hnew
  refine ⟨hold, by simp [hentry], ?_⟩
  rcases hmoved with rfl | ⟨hsame, -⟩
  · rfl
  · simp [hne] at hsame

end Conformance.Host
