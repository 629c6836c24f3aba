import Conformance.Proofs.Revision.Unpacking

namespace Conformance.Revision

open Conformance.Host (Location)

/-! The tree that an archive unpacks to. -/

variable {rootName : String} {path target : List String} {entry : Zip.Entry} {entries : Zip.Archive}
  {before after : Location → Option Host.Entry}

def placesFile (rootName : String) (path : Location) (entry : Zip.Entry) : Bool :=
  !entry.isFolder && target? rootName entry == some path

def needsFolder (rootName : String) (path : Location) (entry : Zip.Entry) : Bool :=
  match target? rootName entry with
  | none => false
  | some target => path.isPrefixOf target && (entry.isFolder || path != target)

/-- What all entries together put at a path: of the files that go there the last one, and
else a folder where one is needed. -/
def unpackedAt (rootName : String) (entries : Zip.Archive) (path : Location) :
    Option Host.Entry :=
  match entries.reverse.find? (placesFile rootName path) with
  | some entry => entry.read.toOption.map .file
  | none => if entries.any (needsFolder rootName path) then some .folder else none

/-- The entries could all be opened, the files among them read, and what they put in
place is all there is. -/
structure IsUnpacked (rootName : String) (entries : Zip.Archive)
    (content : Location → Option Host.Entry) : Prop where
  opened : ∀ entry ∈ entries, ∃ held, entry.opened = .ok held
  readable : ∀ entry ∈ entries, ∀ path, placesFile rootName path entry = true →
    ∃ bytes, entry.read = .ok bytes
  content : ∀ path, content path = unpackedAt rootName entries path

theorem placesFile_iff : placesFile rootName path entry = true ↔
    entry.isFolder = false ∧ target? rootName entry = some path := by
  simp [placesFile]

theorem needsFolder_iff : needsFolder rootName path entry = true ↔
    ∃ target, target? rootName entry = some target ∧ path <+: target ∧
      (entry.isFolder = true ∨ path ≠ target) := by
  unfold needsFolder
  split
  · rename_i hnone
    simp [hnone]
  · rename_i target htarget
    simp [htarget]

theorem exists_placesFile {bytes : ByteArray}
    (h : unpackedAt rootName entries path = some (.file bytes)) :
    ∃ entry ∈ entries, placesFile rootName path entry = true ∧ entry.read = .ok bytes := by
  unfold unpackedAt at h
  split at h
  · rename_i entry hfound
    refine ⟨entry, List.mem_reverse.mp (List.mem_of_find?_eq_some hfound),
      List.find?_some hfound, ?_⟩
    cases hread : entry.read with
    | ok other =>
        rw [hread] at h
        cases h
        rfl
    | error error =>
        rw [hread] at h
        cases h
  · split at h <;> cases h

theorem exists_needsFolder (h : unpackedAt rootName entries path = some .folder) :
    ∃ entry ∈ entries, needsFolder rootName path entry = true := by
  unfold unpackedAt at h
  split at h
  · rename_i entry _
    cases hread : entry.read <;> rw [hread] at h <;> cases h
  · split at h
    · rename_i hneeds
      exact List.any_eq_true.mp hneeds
    · cases h

theorem unpackedAt_ne_link (target : String) :
    unpackedAt rootName entries path ≠ some (.link target) := by
  unfold unpackedAt
  split
  · rename_i entry _
    cases entry.read <;> simp [Except.toOption]
  · split <;> simp

theorem isUnpacked_nil (hempty : ∀ path, before path = none) : IsUnpacked rootName [] before :=
  ⟨by simp, by simp, hempty⟩

theorem IsUnpacked.find?_eq_none (h : IsUnpacked rootName entries before)
    (hfree : before path = none ∨ before path = some .folder) :
    entries.reverse.find? (placesFile rootName path) = none := by
  rw [Option.eq_none_iff_forall_not_mem]
  intro entry hfound
  have hmem := List.mem_reverse.mp (List.mem_of_find?_eq_some hfound)
  obtain ⟨bytes, hbytes⟩ := h.readable entry hmem path (List.find?_some hfound)
  have hcontent := h.content path
  unfold unpackedAt at hcontent
  rw [hfound] at hcontent
  dsimp only at hcontent
  rw [hbytes] at hcontent
  rcases hfree with hnone | hfolder
  · rw [hnone] at hcontent
    cases hcontent
  · rw [hfolder] at hcontent
    cases hcontent

theorem unpackedAt_concat (rootName : String) (entries : Zip.Archive) (entry : Zip.Entry)
    (path : Location) : unpackedAt rootName (entries ++ [entry]) path =
      if placesFile rootName path entry then entry.read.toOption.map .file
      else
        match entries.reverse.find? (placesFile rootName path) with
        | some entry => entry.read.toOption.map .file
        | none =>
          if entries.any (needsFolder rootName path) || needsFolder rootName path entry
          then some .folder else none := by
  unfold unpackedAt
  rw [List.reverse_append, List.reverse_singleton, List.singleton_append, List.find?_cons,
    List.any_append, List.any_cons, List.any_nil, Bool.or_false]
  cases placesFile rootName path entry <;> rfl

theorem unpackedAt_concat_of_none (hnone : target? rootName entry = none) (path : Location) :
    unpackedAt rootName (entries ++ [entry]) path = unpackedAt rootName entries path := by
  have hfile : placesFile rootName path entry = false := by simp [placesFile, hnone]
  have hfolder : needsFolder rootName path entry = false := by simp [needsFolder, hnone]
  rw [unpackedAt_concat, hfile, hfolder, Bool.or_false]
  rfl

theorem unpackedAt_eq_none (hnone : ∀ entry ∈ entries, target? rootName entry = none)
    (path : Location) : unpackedAt rootName entries path = none := by
  induction entries using List.reverseRecOn with
  | nil => rfl
  | append_singleton entries entry ih =>
      obtain ⟨hbefore, hlast⟩ := List.forall_mem_append.mp hnone
      rw [unpackedAt_concat_of_none (hlast entry (List.mem_singleton_self entry))]
      exact ih hbefore

theorem unpackedAt_concat_of_not_prefix (htarget : target? rootName entry = some target)
    (hpath : ¬ path <+: target) :
    unpackedAt rootName (entries ++ [entry]) path = unpackedAt rootName entries path := by
  have hfile : placesFile rootName path entry = false := by
    rw [Bool.eq_false_iff, Ne, placesFile_iff, htarget]
    rintro ⟨-, hsame⟩
    cases hsame
    exact hpath List.prefix_rfl
  have hfolder : needsFolder rootName path entry = false := by
    rw [Bool.eq_false_iff, Ne, needsFolder_iff, htarget]
    rintro ⟨other, hother, hprefix, -⟩
    cases hother
    exact hpath hprefix
  rw [unpackedAt_concat, hfile, hfolder, Bool.or_false]
  rfl

theorem unpackedAt_concat_of_needsFolder (hfolder : needsFolder rootName path entry = true)
    (hfile : placesFile rootName path entry = false)
    (hfree : entries.reverse.find? (placesFile rootName path) = none) :
    unpackedAt rootName (entries ++ [entry]) path = some .folder := by
  rw [unpackedAt_concat, hfile, hfree, hfolder]
  simp

theorem IsUnpacked.content_concat {leaf : Host.Entry} (h : IsUnpacked rootName entries before)
    (htarget : target? rootName entry = some target) (hlays : Lays target leaf before after)
    (hleaf : if entry.isFolder then leaf = .folder
      else ∃ bytes, entry.read = .ok bytes ∧ leaf = .file bytes) (path : Location) :
    after path = unpackedAt rootName (entries ++ [entry]) path := by
  by_cases hprefix : path <+: target
  · by_cases hwhole : path = target
    · subst hwhole
      rw [hlays.there]
      split at hleaf
      · rename_i hfolder
        subst hleaf
        refine (unpackedAt_concat_of_needsFolder ?_ ?_ (h.find?_eq_none ?_)).symm
        · exact needsFolder_iff.mpr ⟨path, htarget, hprefix, .inl hfolder⟩
        · simp [placesFile, hfolder]
        · cases hbefore : before path with
          | none => exact .inl rfl
          | some other => exact .inr (by rw [(hlays.fits other hbefore).mpr rfl])
      · rename_i hfolder
        obtain ⟨bytes, hbytes, rfl⟩ := hleaf
        have hfile : placesFile rootName path entry = true :=
          placesFile_iff.mpr ⟨by simpa using hfolder, htarget⟩
        rw [unpackedAt_concat, if_pos hfile, hbytes]
        rfl
    · obtain ⟨hfolder, hfree⟩ := hlays.inFront path hprefix hwhole
      rw [hfolder]
      refine (unpackedAt_concat_of_needsFolder ?_ ?_ (h.find?_eq_none hfree)).symm
      · exact needsFolder_iff.mpr ⟨target, htarget, hprefix, .inr hwhole⟩
      · rw [Bool.eq_false_iff, Ne, placesFile_iff, htarget]
        rintro ⟨-, hsame⟩
        cases hsame
        exact hwhole rfl
  · rw [hlays.elsewhere path hprefix, h.content path,
      unpackedAt_concat_of_not_prefix htarget hprefix]

theorem IsUnpacked.concat (h : IsUnpacked rootName entries before)
    (hopened : ∃ held, entry.opened = .ok held)
    (hreadable : ∀ path, placesFile rootName path entry = true → ∃ bytes, entry.read = .ok bytes)
    (hcontent : ∀ path, after path = unpackedAt rootName (entries ++ [entry]) path) :
    IsUnpacked rootName (entries ++ [entry]) after := by
  refine ⟨fun other hother => ?_, fun other hother => ?_, hcontent⟩
  · rcases List.mem_append.mp hother with hbefore | hlast
    · exact h.opened other hbefore
    · rw [List.mem_singleton.mp hlast]
      exact hopened
  · rcases List.mem_append.mp hother with hbefore | hlast
    · exact h.readable other hbefore
    · rw [List.mem_singleton.mp hlast]
      exact hreadable

theorem IsUnpacked.root (h : IsUnpacked rootName entries before) (hthere : before [] ≠ none) :
    before [] = some .folder := by
  have hfree : entries.reverse.find? (placesFile rootName []) = none := by
    rw [List.find?_eq_none]
    intro entry _ hfile
    obtain ⟨top, rest, hnil, -⟩ := exists_of_target? (placesFile_iff.mp hfile).2
    cases hnil
  have hcontent := h.content []
  unfold unpackedAt at hcontent
  rw [hfree] at hcontent
  dsimp only at hcontent
  split at hcontent
  · exact hcontent
  · exact absurd hcontent hthere

end Conformance.Revision
