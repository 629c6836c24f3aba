import Conformance.Proofs.Host.Base

namespace Conformance.Host

/-! What a change of the host leaves as it was, and what it puts in place. -/

variable {host other next : Host} {location folder source target rest : Location} {entry : Entry}
  {path : String}

theorem below?_eq_some_iff :
    below? folder location = some rest ↔ rest ≠ [] ∧ location = folder ++ rest := by
  induction folder generalizing location with
  | nil =>
      rw [below?, List.nil_append]
      split
      · rename_i hempty
        subst hempty
        simp [eq_comm]
      · rename_i hne
        rw [Option.some.injEq]
        constructor
        · rintro rfl
          exact ⟨hne, rfl⟩
        · rintro ⟨-, heq⟩
          exact heq
  | cons name folder ih =>
      cases location with
      | nil => simp [below?]
      | cons other location =>
          by_cases hsame : name = other
          · subst hsame
            simp [below?, ih]
          · simp [below?, hsame, Ne.symm hsame]

theorem mem_contents_iff :
    (rest, entry) ∈ host.contents folder ↔
      rest ≠ [] ∧ host.get? (folder ++ rest) = some entry := by
  simp only [contents, List.mem_filterMap, Option.map_eq_some_iff, Prod.mk.injEq,
    below?_eq_some_iff]
  constructor
  · rintro ⟨⟨_, _⟩, hmem, _, ⟨hrest, rfl⟩, rfl, rfl⟩
    refine ⟨hrest, ?_⟩
    rw [get?, if_neg (by simp [hrest])]
    exact Std.TreeMap.mem_toList_iff_getElem?_eq_some.mp hmem
  · rintro ⟨hrest, hget⟩
    rw [get?, if_neg (by simp [hrest])] at hget
    exact ⟨(folder ++ rest, entry), Std.TreeMap.mem_toList_iff_getElem?_eq_some.mpr hget,
      rest, ⟨hrest, rfl⟩, rfl, rfl⟩

theorem contents_pairwise (host : Host) (folder : Location) :
    (host.contents folder).Pairwise fun left right => left.1 ≠ right.1 := by
  refine List.pairwise_filterMap.mpr (host.entries.distinct_keys_toList.imp ?_)
  rintro left right hdistinct first hfirst second hsecond hsame
  obtain ⟨rest, hrest, rfl⟩ := Option.map_eq_some_iff.mp hfirst
  obtain ⟨other, hother, rfl⟩ := Option.map_eq_some_iff.mp hsecond
  have hleft := (below?_eq_some_iff.mp hrest).2
  have hright := (below?_eq_some_iff.mp hother).2
  refine hdistinct (Std.LawfulEqCmp.compare_eq_iff_eq.mpr ?_)
  rw [hleft, hright]
  exact congrArg (folder ++ ·) hsame

theorem within_iff : within folder location = true ↔ folder <+: location := by
  rw [within, isBelow, Bool.or_eq_true, beq_iff_eq, Option.isSome_iff_exists]
  constructor
  · rintro (rfl | ⟨rest, hrest⟩)
    · exact List.prefix_rfl
    · rw [(below?_eq_some_iff.mp hrest).2]
      exact List.prefix_append folder rest
  · rintro ⟨rest, rfl⟩
    by_cases hrest : rest = []
    · exact .inl (by simp [hrest])
    · exact .inr ⟨rest, below?_eq_some_iff.mpr ⟨hrest, rfl⟩⟩

theorem get?_drop (hne : location ≠ []) (other : Location) :
    (host.drop location).get? other = if other = location then none else host.get? other := by
  unfold get? drop
  by_cases hroot : other = []
  · subst hroot
    simp [Ne.symm hne]
  · simp only [hroot, if_false, Std.TreeMap.getElem?_erase, Std.LawfulEqCmp.compare_eq_iff_eq]
    simp only [eq_comm]

theorem get?_dropTree (hne : location ≠ []) (other : Location) :
    (host.dropTree location).get? other =
      if location <+: other then none else host.get? other := by
  unfold get? dropTree
  by_cases hroot : other = []
  · subst hroot
    simp [hne]
  · simp only [hroot, if_false, Std.TreeMap.getElem?_filter']
    by_cases hwithin : location <+: other
    · rw [if_pos hwithin]
      cases host.entries[other]? with
      | none => rfl
      | some entry => simp [Option.filter, within_iff.mpr hwithin]
    · rw [if_neg hwithin]
      have hoff : within location other = false := by
        rw [Bool.eq_false_iff, Ne, within_iff]
        exact hwithin
      cases host.entries[other]? with
      | none => rfl
      | some entry => simp [Option.filter, hoff]

theorem getElem?_foldl_insert {moved : List (Location × Entry)}
    (hmoved : moved.Pairwise fun left right => left.1 ≠ right.1)
    (entries : Std.TreeMap Location Entry) (location : Location) :
    (∀ entry, (location, entry) ∈ moved →
      (moved.foldl (fun entries entry => entries.insert entry.1 entry.2) entries)[location]? =
        some entry) ∧
      ((∀ entry, (location, entry) ∉ moved) →
        (moved.foldl (fun entries entry => entries.insert entry.1 entry.2) entries)[location]? =
          entries[location]?) := by
  induction moved generalizing entries with
  | nil => simp
  | cons first moved ih =>
      obtain ⟨hfirst, hmoved⟩ := List.pairwise_cons.mp hmoved
      obtain ⟨hfound, hleft⟩ := ih hmoved (entries.insert first.1 first.2)
      rw [List.foldl_cons]
      constructor
      · intro entry hentry
        rcases List.mem_cons.mp hentry with rfl | hentry
        · rw [hleft fun other hother => hfirst _ hother rfl]
          simp
        · exact hfound entry hentry
      · intro hnone
        rw [hleft fun entry hentry => hnone entry (List.mem_cons_of_mem _ hentry),
          Std.TreeMap.getElem?_insert, if_neg]
        rw [Std.LawfulEqCmp.compare_eq_iff_eq]
        rintro rfl
        exact hnone first.2 List.mem_cons_self

theorem mem_moved_iff :
    (location, entry) ∈ ((host.get? source).toList.map fun entry => (target, entry)) ++
        ((host.contents source).map fun entry => (target ++ entry.1, entry.2)) ↔
      ∃ rest, location = target ++ rest ∧ host.get? (source ++ rest) = some entry := by
  simp only [List.mem_append, List.mem_map, Prod.mk.injEq, Option.mem_toList]
  constructor
  · rintro (⟨entry, hentry, rfl, rfl⟩ | ⟨⟨rest, entry⟩, hentry, rfl, rfl⟩)
    · exact ⟨[], by simp, by simpa using hentry⟩
    · exact ⟨rest, rfl, (mem_contents_iff.mp hentry).2⟩
  · rintro ⟨rest, rfl, hentry⟩
    by_cases hrest : rest = []
    · subst hrest
      exact .inl ⟨entry, by simpa using hentry, by simp, rfl⟩
    · exact .inr ⟨(rest, entry), mem_contents_iff.mpr ⟨hrest, hentry⟩, rfl, rfl⟩

theorem moved_pairwise (host : Host) (source target : Location) :
    (((host.get? source).toList.map fun entry => (target, entry)) ++
      ((host.contents source).map fun entry => (target ++ entry.1, entry.2))).Pairwise
        fun left right => left.1 ≠ right.1 := by
  rw [List.pairwise_append]
  refine ⟨?_, List.pairwise_map.mpr ((contents_pairwise host source).imp ?_), ?_⟩
  · cases host.get? source <;> simp
  · intro left right hdistinct hsame
    exact hdistinct (List.append_cancel_left hsame)
  · intro left hleft right hright hsame
    obtain ⟨_, -, rfl⟩ := List.mem_map.mp hleft
    obtain ⟨⟨rest, _⟩, hrest, rfl⟩ := List.mem_map.mp hright
    exact (mem_contents_iff.mp hrest).1 (by simpa using hsame)

theorem get?_moveTree (host : Host) (hsource : source ≠ []) (htarget : target ≠ []) :
    (∀ rest, (host.moveTree source target).get? (target ++ rest) = host.get? (source ++ rest)) ∧
      ∀ other, ¬ target <+: other → (host.moveTree source target).get? other =
        if source <+: other then none else host.get? other := by
  have hcleared (other : Location) : ((host.dropTree source).dropTree target).get? other =
      if target <+: other then none else if source <+: other then none else host.get? other := by
    rw [get?_dropTree htarget, get?_dropTree hsource]
  have hmoved (other : Location) (hother : other ≠ []) := getElem?_foldl_insert
    (moved_pairwise host source target) ((host.dropTree source).dropTree target).entries other
  constructor
  · intro rest
    have hne : target ++ rest ≠ [] := by simp [htarget]
    rw [get?, if_neg hne]
    cases hget : host.get? (source ++ rest) with
    | some entry => exact (hmoved _ hne).1 entry (mem_moved_iff.mpr ⟨rest, rfl, hget⟩)
    | none =>
        refine ((hmoved _ hne).2 fun entry hentry => ?_).trans ?_
        · obtain ⟨other, hother, hfound⟩ := mem_moved_iff.mp hentry
          rw [← List.append_cancel_left hother, hget] at hfound
          cases hfound
        · have h := hcleared (target ++ rest)
          rwa [get?, if_neg hne, if_pos (List.prefix_append target rest)] at h
  · intro other hother
    by_cases hroot : other = []
    · subst hroot
      simp [get?, hsource]
    · have h := hcleared other
      rw [get?, if_neg hroot, if_neg hother] at h
      rw [get?, if_neg hroot, ← h]
      refine (hmoved _ hroot).2 fun entry hentry => hother ?_
      obtain ⟨rest, rfl, -⟩ := mem_moved_iff.mp hentry
      exact List.prefix_append target rest

structure SameBut (away : Location → Prop) (host other : Host) : Prop where
  workingFolder : other.workingFolder = host.workingFolder
  get? : ∀ location, ¬ away location → other.get? location = host.get? location

namespace SameBut

variable {away wider : Location → Prop}

theorem refl (away : Location → Prop) (host : Host) : host.SameBut away host :=
  ⟨rfl, fun _ _ => rfl⟩

theorem trans (h : host.SameBut away other) (h' : other.SameBut away next) :
    host.SameBut away next :=
  ⟨h'.workingFolder.trans h.workingFolder,
    fun location hlocation => (h'.get? location hlocation).trans (h.get? location hlocation)⟩

theorem symm (h : host.SameBut away other) : other.SameBut away host :=
  ⟨h.workingFolder.symm, fun location hlocation => (h.get? location hlocation).symm⟩

theorem mono (h : host.SameBut away other) (hwider : ∀ location, away location → wider location) :
    host.SameBut wider other :=
  ⟨h.workingFolder, fun location hlocation => h.get? location (mt (hwider location) hlocation)⟩

theorem isFolderAt (h : host.SameBut away other) (hlocation : ¬ away location) :
    other.isFolderAt location = host.isFolderAt location := by
  rw [Host.isFolderAt, Host.isFolderAt, h.get? location hlocation]

theorem origin (h : host.SameBut away other) (path : String) :
    other.origin path = host.origin path := by
  rw [Host.origin, Host.origin, h.workingFolder]

end SameBut

theorem sameBut_put (host : Host) (entry : Entry) (hne : location ≠ []) :
    host.SameBut (· = location) (host.put location entry) :=
  ⟨rfl, fun other hother => by rw [get?_put host location other entry hne, if_neg hother]⟩

theorem sameBut_drop (host : Host) (hne : location ≠ []) :
    host.SameBut (· = location) (host.drop location) :=
  ⟨rfl, fun other hother => by rw [get?_drop hne, if_neg hother]⟩

theorem sameBut_dropTree (host : Host) (hne : location ≠ []) :
    host.SameBut (location <+: ·) (host.dropTree location) :=
  ⟨rfl, fun other hother => by rw [get?_dropTree hne, if_neg hother]⟩

theorem sameBut_moveTree (host : Host) (hsource : source ≠ []) (htarget : target ≠ []) :
    host.SameBut (fun other => source <+: other ∨ target <+: other)
      (host.moveTree source target) := by
  refine ⟨rfl, fun other hother => ?_⟩
  rw [not_or] at hother
  rw [(get?_moveTree host hsource htarget).2 other hother.2, if_neg hother.1]

theorem createFolder_eq_ok (h : host.createFolder path = .ok next) :
    ∃ location, host.find path false = .ok location ∧ host.get? location = none ∧
      next = host.put location .folder := by
  unfold createFolder at h
  cases hfind : host.find path false with
  | error fault =>
      rw [hfind] at h
      cases h
  | ok location =>
      simp only [hfind, bind, Except.bind] at h
      split at h
      · cases h
      · rename_i hnone
        cases h
        exact ⟨location, rfl, hnone, rfl⟩

theorem write_eq_ok {bytes : ByteArray} (h : host.write path bytes = .ok next) :
    ∃ location, host.find path = .ok location ∧ host.get? location ≠ some .folder ∧
      next = host.put location (.file bytes) := by
  unfold write at h
  cases hfind : host.find path with
  | error fault =>
      rw [hfind] at h
      cases h
  | ok location =>
      simp only [hfind, bind, Except.bind] at h
      split at h
      · cases h
      · cases h
      · rename_i hfolder hlink
        cases h
        exact ⟨location, rfl, hfolder, rfl⟩

theorem remove_eq_ok (h : host.remove path = .ok next) :
    ∃ location, host.find path false = .ok location ∧ host.get? location ≠ some .folder ∧
      next = host.drop location := by
  unfold remove at h
  cases hfind : host.find path false with
  | error fault =>
      rw [hfind] at h
      cases h
  | ok location =>
      simp only [hfind, bind, Except.bind] at h
      split at h
      · cases h
      · cases h
      · rename_i hplain hget
        cases h
        have hfile : host.get? location ≠ some .folder := fun hfolder =>
          hplain (Option.some.inj (hget.symm.trans hfolder))
        exact ⟨location, rfl, hfile, rfl⟩

theorem removeTree_eq_ok (h : host.removeTree path = .ok next) :
    ∃ location, host.find path false = .ok location ∧
      ((∃ target, host.get? location = some (.link target)) ∧ next = host.drop location ∨
        host.get? location = some .folder ∧ next = host.dropTree location) := by
  unfold removeTree at h
  cases hfind : host.find path false with
  | error fault =>
      rw [hfind] at h
      cases h
  | ok location =>
      simp only [hfind, bind, Except.bind] at h
      split at h
      · cases h
      · cases h
      · rename_i target hlink
        cases h
        exact ⟨location, rfl, .inl ⟨⟨target, hlink⟩, rfl⟩⟩
      · rename_i hfolder
        cases h
        exact ⟨location, rfl, .inr ⟨hfolder, rfl⟩⟩

theorem rename_eq_ok {sourcePath targetPath : String}
    (h : host.rename sourcePath targetPath = .ok next) :
    ∃ old new entry, host.find sourcePath false = .ok old ∧ host.find targetPath false = .ok new ∧
      host.get? old = some entry ∧ (next = host.moveTree old new ∨ old = new ∧ next = host) := by
  unfold rename at h
  cases hold : host.find sourcePath false with
  | error fault =>
      rw [hold] at h
      cases h
  | ok old =>
      cases hnew : host.find targetPath false with
      | error fault =>
          rw [hold, hnew] at h
          cases h
      | ok new =>
          simp only [hold, hnew, bind, Except.bind] at h
          refine ⟨old, new, ?_⟩
          split at h
          · cases h
          · rename_i hget _
            cases h
            exact ⟨_, rfl, rfl, hget, .inl rfl⟩
          · rename_i hget _
            split at h
            · rename_i hsame
              cases h
              exact ⟨_, rfl, rfl, hget, .inr ⟨hsame, rfl⟩⟩
            · split at h
              · cases h
                exact ⟨_, rfl, rfl, hget, .inl rfl⟩
              · cases h
          · cases h
          · cases h
          · rename_i hget _
            split at h
            · rename_i hsame
              cases h
              exact ⟨_, rfl, rfl, hget, .inr ⟨hsame, rfl⟩⟩
            · cases h
              exact ⟨_, rfl, rfl, hget, .inl rfl⟩

end Conformance.Host
