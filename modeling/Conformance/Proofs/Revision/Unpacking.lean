import Conformance.Proofs.Revision.Place
import Conformance.Proofs.Zip.Enclosing

namespace Conformance.Revision

open Conformance.Path (Ordinary ofNames)
open Conformance.Host (Location Under Linkless Confined Grown)

/-! Unpacking an archive's entries into the scratch folder: each goes where its name says,
and none out of the folder. -/

variable {revision : Revision} {host next : Host} {home : Location} {name : String}
  {entry : Zip.Entry} {target rest : List String} {held : Except Host.Fault ByteArray}
  {failure : Option Error}

theorem exists_of_target? {rootName : String} (h : target? rootName entry = some target) :
    ∃ top rest, target = top :: rest ∧ entry.enclosed = some (rootName :: target) ∧
      (top = "test" ∨ top = "harness") := by
  unfold target? at h
  split at h
  · rename_i root top rest henclosed
    split at h
    · rename_i hplace
      cases h
      exact ⟨top, rest, rfl, hplace.1 ▸ henclosed, hplace.2⟩
    · cases h
  · cases h

theorem ordinary_of_target? {rootName : String} (hresolved : entry.IsResolved)
    (h : target? rootName entry = some target) :
    target ≠ [] ∧ ∀ segment ∈ target, Ordinary segment := by
  obtain ⟨top, rest, rfl, henclosed, -⟩ := exists_of_target? h
  exact ⟨by simp, (List.forall_mem_cons.mp (hresolved _ henclosed)).2⟩

example : target? "test262-a" (.plain "test262-a/test/x/../a.js" .empty) =
    some ["test", "a.js"] := by
  decide +kernel

example : target? "test262-a" (.plain "test262-a/test/../../a.js" .empty) = none := by
  decide +kernel

/-- What stands at a name in a folder, and below it. -/
def treeAt (host : Host) (home : Location) (name : String) (rest : Location) : Option Host.Entry :=
  host.get? (home ++ name :: rest)

/-- Nothing stands below the scratch folder where it is missing itself. -/
def Rooted (revision : Revision) (host : Host) (home : Location) : Prop :=
  treeAt host home revision.scratchName [] = none →
    ∀ rest, treeAt host home revision.scratchName rest = none

/-- A change of what is in the scratch folder. -/
structure Fills (revision : Revision) (host next : Host) (home : Location) : Prop where
  confined : host.Confined next home [revision.scratchName]
  rooted : revision.Rooted host home → revision.Rooted next home

theorem Fills.refl (revision : Revision) (host : Host) (home : Location) :
    revision.Fills host host home :=
  ⟨.refl host home _, id⟩

theorem Fills.trans {middle : Host} (h : revision.Fills host middle home)
    (h' : revision.Fills middle next home) : revision.Fills host next home :=
  ⟨h.confined.trans h'.confined, h'.rooted ∘ h.rooted⟩

theorem fills_of_grown (h : host.Grown next home (revision.scratchName :: rest)) :
    revision.Fills host next home := by
  refine ⟨h.confined (List.mem_singleton_self _), fun hrooted hnone location => ?_⟩
  have hbefore : treeAt host home revision.scratchName [] = none := by
    by_contra hsome
    obtain ⟨entry, hentry⟩ := Option.ne_none_iff_exists'.mp hsome
    have hafter := h.get?_of_some hentry
    rw [treeAt, hafter] at hnone
    cases hnone
  rcases h.get? (home ++ revision.scratchName :: location) with
    hsame | ⟨-, front, hne, hfront, heq, hfolders⟩
  · exact hsame.trans (hrooted hbefore location)
  · cases front with
    | nil => contradiction
    | cons first front =>
        obtain ⟨rfl, -⟩ := List.cons_prefix_cons.mp hfront
        have hroot := hfolders [revision.scratchName] (by simp)
        rw [treeAt, hroot] at hnone
        cases hnone

/-- An entry was laid down at its target, in folders, in the place of nothing else than
a file by a file. -/
structure Lays (target : Location) (leaf : Host.Entry)
    (before after : Location → Option Host.Entry) : Prop where
  there : after target = some leaf
  fits : ∀ other, before target = some other → (other = .folder ↔ leaf = .folder)
  inFront : ∀ front, front <+: target → front ≠ target →
    after front = some .folder ∧ (before front = none ∨ before front = some .folder)
  elsewhere : ∀ rest, ¬ rest <+: target → after rest = before rest

theorem Grown.treeAt_eq_of_not_prefix (h : host.Grown next home (revision.scratchName :: target))
    (hrest : ¬ rest <+: target) :
    treeAt next home revision.scratchName rest = treeAt host home revision.scratchName rest := by
  rcases h.get? (home ++ revision.scratchName :: rest) with hsame | ⟨-, front, -, hfront, heq, -⟩
  · exact hsame
  · rw [← List.append_cancel_left heq] at hfront
    exact absurd (List.cons_prefix_cons.mp hfront).2 hrest

theorem Grown.treeAt_eq_none_or_folder
    (h : host.Grown next home (revision.scratchName :: target)) {path : List String}
    (hfolder : treeAt next home revision.scratchName path = some .folder) :
    treeAt host home revision.scratchName path = none ∨
      treeAt host home revision.scratchName path = some .folder := by
  rcases h.get? (home ++ revision.scratchName :: path) with hsame | ⟨hnone, -⟩
  · exact .inr (hsame.symm.trans hfolder)
  · exact .inl hnone

theorem lays_folder (hgrown : host.Grown next home (revision.scratchName :: target))
    (hfolders : ∀ front, front <+: target →
      treeAt next home revision.scratchName front = some .folder) :
    Lays target .folder (treeAt host home revision.scratchName)
      (treeAt next home revision.scratchName) where
  there := hfolders target List.prefix_rfl
  fits other hother := by
    have htarget := hfolders target List.prefix_rfl
    rcases Grown.treeAt_eq_none_or_folder hgrown htarget with hnone | hfolder
    · rw [hnone] at hother
      cases hother
    · rw [hfolder] at hother
      cases hother
      rfl
  inFront front hfront _ :=
    ⟨hfolders front hfront, Grown.treeAt_eq_none_or_folder hgrown (hfolders front hfront)⟩
  elsewhere _ hrest := Grown.treeAt_eq_of_not_prefix hgrown hrest

theorem lays_file {middle : Host} {bytes : ByteArray}
    (hgrown : host.Grown middle home (revision.scratchName :: target))
    (hnext : ∀ rest, treeAt next home revision.scratchName rest =
      if rest = target then some (.file bytes) else treeAt middle home revision.scratchName rest)
    (hfile : treeAt middle home revision.scratchName target ≠ some .folder)
    (hfolders : ∀ front, front <+: target → front ≠ target →
      treeAt middle home revision.scratchName front = some .folder) :
    Lays target (.file bytes) (treeAt host home revision.scratchName)
      (treeAt next home revision.scratchName) where
  there := (hnext target).trans (if_pos rfl)
  fits other hother := by
    rw [treeAt] at hother hfile
    rw [hgrown.get?_of_some hother] at hfile
    simpa using hfile
  inFront front hfront hwhole := by
    rw [hnext, if_neg hwhole]
    exact ⟨hfolders front hfront hwhole,
      Grown.treeAt_eq_none_or_folder hgrown (hfolders front hfront hwhole)⟩
  elsewhere rest hrest := by
    have hother : rest ≠ target := by
      rintro rfl
      exact hrest List.prefix_rfl
    rw [hnext, if_neg hother]
    exact Grown.treeAt_eq_of_not_prefix hgrown hrest

section

variable (hkept : revision.KeptAt host home) (hscratch : Ordinary revision.scratchName)
  (hlinkless : host.Linkless home [revision.scratchName])
  (htarget : ∀ segment ∈ target, Ordinary segment) (hne : target ≠ [])

theorem join_scratchPath (hscratch : Ordinary revision.scratchName)
    (htarget : ∀ segment ∈ target, Ordinary segment) (hne : target ≠ []) :
    Host.join revision.scratchPath (ofNames target) =
      Host.join revision.cacheFolder (ofNames (revision.scratchName :: target)) := by
  have hfront : ∀ name ∈ [revision.scratchName], Ordinary name := by simpa using hscratch
  have hjoin := Host.join_join revision.cacheFolder hfront htarget (by simp) hne
  rwa [Path.ofNames_singleton] at hjoin

include hkept hscratch hlinkless htarget hne

omit hne in
theorem write_scratch {bytes : ByteArray}
    (h : host.write (Host.join revision.cacheFolder (ofNames (revision.scratchName :: target)))
      bytes = .ok next) :
    next = host.put (home ++ revision.scratchName :: target) (.file bytes) ∧
      Host.Fits revision.cacheFolder (revision.scratchName :: target) ∧
      treeAt host home revision.scratchName target ≠ some .folder ∧
      ∀ front, front <+: target → front ≠ target →
        treeAt host home revision.scratchName front = some .folder := by
  obtain ⟨location, hfind, hfile, rfl⟩ := Host.write_eq_ok h
  obtain ⟨rfl, hfits, hpaved⟩ := hkept.opens.eq_append_of_find (by simpa using ⟨hscratch, htarget⟩)
    (by simp) (hlinkless.isClear (List.mem_singleton_self _) target) hfind
  refine ⟨rfl, hfits, hfile, fun front hfront hwhole => ?_⟩
  exact Host.isFolderAt_iff.mp (hpaved (revision.scratchName :: front) (by simpa using hfront)
    (by simpa using hwhole))

theorem fills_write {bytes : ByteArray}
    (h : host.write (Host.join revision.cacheFolder (ofNames (revision.scratchName :: target)))
      bytes = .ok next) : revision.Fills host next home := by
  obtain ⟨rfl, -, -, hfolders⟩ := write_scratch hkept hscratch hlinkless htarget h
  refine ⟨Host.confined_put (List.mem_singleton_self _) (by simp) target host, fun _ hnone => ?_⟩
  have hroot := hfolders [] List.nil_prefix (Ne.symm hne)
  rw [treeAt, Host.get?_put _ _ _ _ (by simp), if_neg (by simpa using Ne.symm hne)] at hnone
  rw [treeAt, hnone] at hroot
  cases hroot

theorem grown_placeParents :
    host.Grown (placeParents host (Host.join revision.cacheFolder
      (ofNames (revision.scratchName :: target)))).1 home (revision.scratchName :: target) := by
  obtain ⟨front, last, rfl⟩ := (List.eq_nil_or_concat' target).resolve_left hne
  have hfront : ∀ segment ∈ revision.scratchName :: front, Ordinary segment :=
    List.forall_mem_cons.mpr ⟨hscratch, (List.forall_mem_append.mp htarget).1⟩
  have hparent := Host.parentPath?_join_append revision.cacheFolder hfront
    (htarget last (by simp)) (by simp)
  rw [List.cons_append] at hparent
  unfold placeParents
  rw [hparent]
  dsimp only
  split
  · exact .refl host home _
  · obtain ⟨hgrown, -⟩ := hkept.opens.makes_createFolders hfront (by simp)
      (hlinkless.isClear (List.mem_singleton_self _) front)
    exact hgrown.longer (by simp)

/-- The file of an entry is in place when it was placed well; and nothing but the scratch
folder changed, if it was not. -/
theorem placeFile_spec (h : placeFile host (Host.join revision.cacheFolder
      (ofNames (revision.scratchName :: target))) held = (next, failure)) :
    revision.Fills host next home ∧
      (failure = none → ∃ bytes, held = .ok bytes ∧
        Host.Fits revision.cacheFolder (revision.scratchName :: target) ∧
        (∀ rest, treeAt next home revision.scratchName rest =
          if rest = target then some (.file bytes)
          else treeAt host home revision.scratchName rest) ∧
        treeAt host home revision.scratchName target ≠ some .folder ∧
        ∀ front, front <+: target → front ≠ target →
          treeAt host home revision.scratchName front = some .folder) := by
  unfold placeFile at h
  split at h
  · cases h
    exact ⟨.refl revision host home, nofun⟩
  · rename_i opened hopened
    have hfills := fills_write hkept hscratch hlinkless htarget hne hopened
    obtain ⟨rfl, hfits, hfile, hfolders⟩ := write_scratch hkept hscratch hlinkless htarget hopened
    split at h
    · cases h
      exact ⟨hfills, nofun⟩
    · rename_i bytes
      split at h
      · cases h
        exact ⟨hfills, nofun⟩
      · rename_i written hwritten
        cases h
        have hkept' := hkept.of_confined
          revision.scratchName_subset_ownNames hfills.confined
        have hlinkless' := hfills.confined.linkless hlinkless
        refine ⟨hfills.trans (fills_write hkept' hscratch hlinkless' htarget hne hwritten), fun _ =>
          ⟨bytes, rfl, hfits, fun rest => ?_, hfile, hfolders⟩⟩
        obtain ⟨rfl, -⟩ := write_scratch hkept' hscratch hlinkless' htarget hwritten
        have hput : home ++ revision.scratchName :: target ≠ [] := by simp
        simp only [treeAt, Host.get?_put _ _ _ _ hput]
        by_cases hsame : rest = target
        · simp [hsame]
        · simp [hsame]

end

theorem unpackEntry_spec (hkept : revision.KeptAt host home)
    (hscratch : Ordinary revision.scratchName)
    (hlinkless : host.Linkless home [revision.scratchName]) (hresolved : entry.IsResolved)
    (h : unpackEntry revision.scratchPath revision.rootName host entry = (next, failure)) :
    revision.Fills host next home ∧
      (failure = none → (∃ held, entry.opened = .ok held) ∧
        match target? revision.rootName entry with
        | none => next = host
        | some target => Host.Fits revision.cacheFolder (revision.scratchName :: target) ∧
          ∃ leaf, Lays target leaf (treeAt host home revision.scratchName)
            (treeAt next home revision.scratchName) ∧
          if entry.isFolder then leaf = .folder
          else ∃ bytes, entry.read = .ok bytes ∧ leaf = .file bytes) := by
  unfold unpackEntry at h
  split at h
  · cases h
    exact ⟨.refl revision host home, nofun⟩
  · rename_i held hopened
    cases htarget : target? revision.rootName entry with
    | none =>
        rw [htarget] at h
        cases h
        exact ⟨.refl revision host home, fun _ => ⟨⟨held, hopened⟩, rfl⟩⟩
    | some target =>
        obtain ⟨hne, hordinary⟩ := ordinary_of_target? hresolved htarget
        rw [htarget] at h
        dsimp only at h
        rw [show "/".intercalate target = ofNames target from rfl,
          join_scratchPath hscratch hordinary hne] at h
        split at h
        · rename_i hfolder
          obtain ⟨hgrown, hmade⟩ := hkept.opens.makes_createFolders
            (List.forall_mem_cons.mpr ⟨hscratch, hordinary⟩) (by simp)
            (hlinkless.isClear (List.mem_singleton_self _) target)
          cases h
          refine ⟨fills_of_grown hgrown, fun hnone => ⟨⟨held, hopened⟩, ?_⟩⟩
          obtain ⟨hfits, hfolders⟩ := hmade (by simpa using hnone)
          refine ⟨hfits, .folder, lays_folder hgrown fun front hfront => ?_, by rw [if_pos hfolder]⟩
          exact Host.isFolderAt_iff.mp
            (hfolders (revision.scratchName :: front) (by simpa using hfront))
        · rename_i hfolder
          have hgrown := grown_placeParents hkept hscratch hlinkless hordinary hne
          split at h
          · rename_i middle error hparents
            cases h
            rw [hparents] at hgrown
            exact ⟨fills_of_grown hgrown, nofun⟩
          · rename_i middle hparents
            rw [hparents] at hgrown
            have hfills := fills_of_grown hgrown
            obtain ⟨hplaced, hdone⟩ := placeFile_spec (hkept.of_confined
              revision.scratchName_subset_ownNames hfills.confined) hscratch
              (hfills.confined.linkless hlinkless) hordinary hne h
            refine ⟨hfills.trans hplaced, fun hnone => ⟨⟨held, hopened⟩, ?_⟩⟩
            obtain ⟨bytes, rfl, hfits, hnext, hfile, hfolders⟩ := hdone hnone
            refine ⟨hfits, .file bytes, lays_file hgrown hnext hfile hfolders, ?_⟩
            rw [if_neg hfolder]
            refine ⟨bytes, ?_, rfl⟩
            unfold Zip.Entry.read
            rw [hopened]
            rfl

end Conformance.Revision
