import Conformance.Proofs.Host.Making
import Conformance.Proofs.Revision.Layout

namespace Conformance.Revision

open Conformance.Path (Ordinary ofNames)
open Conformance.Host (Location Under Linkless Confined)

/-! Entries that can be unpacked: the host takes their paths, and nothing is in the way. -/

variable {revision : Revision} {host next : Host} {home : Location} {entry : Zip.Entry}
  {target : List String} {bytes : ByteArray} {content : Location → Option Host.Entry}

/-- The host takes the path at which an entry is unpacked, if it is. -/
def Takes (revision : Revision) (entry : Zip.Entry) : Prop :=
  ∀ target, target? revision.rootName entry = some target →
    Host.Fits revision.cacheFolder (revision.scratchName :: target)

/-- In front of a location is nothing but folders, and neither is there, if a folder is to go
there; and no folder is there, if a file is. -/
structure IsFree (content : Location → Option Host.Entry) (isFolder : Bool) (target : Location) :
    Prop where
  inFront : ∀ front, front <+: target → front ≠ target →
    content front = none ∨ content front = some .folder
  folder : isFolder = true → content target = none ∨ content target = some .folder
  file : isFolder = false → content target ≠ some .folder

theorem takes_of_unpackEntry (hkept : revision.KeptAt host home)
    (hscratch : Ordinary revision.scratchName)
    (hlinkless : host.Linkless home [revision.scratchName]) (hresolved : entry.IsResolved)
    (h : unpackEntry revision.scratchPath revision.rootName host entry = (next, none)) :
    revision.Takes entry := by
  intro target htarget
  obtain ⟨-, hplaced⟩ := (unpackEntry_spec hkept hscratch hlinkless hresolved h).2 rfl
  rw [htarget] at hplaced
  exact hplaced.1

section

variable (hkept : revision.KeptAt host home) (hnul : '\x00' ∉ revision.cacheFolder.toList)
  (hscratch : Ordinary revision.scratchName) (hlinkless : host.Linkless home [revision.scratchName])

theorem isOpen_scratch (hopen : ∀ front, front <+: target →
      treeAt host home revision.scratchName front = none ∨
        treeAt host home revision.scratchName front = some .folder) :
    host.IsOpen home (revision.scratchName :: target) := by
  intro front hne hfront
  cases front with
  | nil => contradiction
  | cons first front =>
      obtain ⟨rfl, hmore⟩ := List.cons_prefix_cons.mp hfront
      exact hopen front hmore

theorem reach_of_fits (hnul : '\x00' ∉ revision.cacheFolder.toList)
    (hscratch : Ordinary revision.scratchName) (htarget : ∀ name ∈ target, Ordinary name)
    (hfits : Host.Fits revision.cacheFolder (revision.scratchName :: target)) :
    Host.reach revision.cacheFolder revision.scratchName home =
      .ok (home ++ [revision.scratchName]) := by
  have hnames : ∀ name ∈ [revision.scratchName], Ordinary name := by simpa using hscratch
  have hfront : Host.Fits revision.cacheFolder [revision.scratchName] :=
    Host.Fits.of_append hfits hnames htarget (by simp)
  have hrefusal := Host.refusal?_eq_none hnul hnames hfront
  rw [Path.ofNames_singleton] at hrefusal
  unfold Host.reach
  rw [hrefusal]
  exact if_neg (Nat.not_lt.mpr (hfront.short _ (by simp)))

include hkept hnul hscratch

theorem placeParents_free (htarget : ∀ segment ∈ target, Ordinary segment) (hne : target ≠ [])
    (hfits : Host.Fits revision.cacheFolder (revision.scratchName :: target))
    (hfree : ∀ front, front <+: target → front ≠ target →
      treeAt host home revision.scratchName front = none ∨
        treeAt host home revision.scratchName front = some .folder) :
    ∃ middle, placeParents host (Host.join revision.cacheFolder
        (ofNames (revision.scratchName :: target))) = (middle, none) ∧
      middle.IsPaved home (revision.scratchName :: target) ∧
      treeAt middle home revision.scratchName target =
        treeAt host home revision.scratchName target := by
  obtain ⟨front, last, rfl⟩ := (List.eq_nil_or_concat' target).resolve_left hne
  have hall : ∀ segment ∈ revision.scratchName :: front, Ordinary segment :=
    List.forall_mem_cons.mpr ⟨hscratch, (List.forall_mem_append.mp htarget).1⟩
  have hlast : ∀ segment ∈ [last], Ordinary segment := (List.forall_mem_append.mp htarget).2
  have hparent := Host.parentPath?_join_append revision.cacheFolder hall
    (hlast last (by simp)) (by simp)
  rw [List.cons_append] at hparent
  have hopen : host.IsOpen home (revision.scratchName :: front) := by
    refine isOpen_scratch fun shorter hshorter => hfree shorter ?_ ?_
    · exact hshorter.trans (List.prefix_append front [last])
    · rintro rfl
      simpa using hshorter.length_le
  have hpaved {middle : Host} (hfolders : ∀ shorter, shorter <+: revision.scratchName :: front →
      middle.isFolderAt (home ++ shorter) = true) :
      middle.IsPaved home (revision.scratchName :: (front ++ [last])) := by
    intro shorter hshorter hwhole
    rw [← List.cons_append] at hshorter hwhole
    exact hfolders shorter ((List.prefix_concat_iff.mp hshorter).resolve_left hwhole)
  unfold placeParents
  rw [hparent]
  dsimp only
  split
  · rename_i hpresent
    exact ⟨host, rfl, hpaved fun shorter hshorter =>
      hkept.opens.isFolderAt_of_isPresent hall (by simp) hopen hpresent hshorter, rfl⟩
  · have hmade := Host.createFolders_open hkept.opens hnul hall (by simp)
      (Host.Fits.of_append hfits hall hlast (by simp)) hopen
    obtain ⟨hgrown, hfolders⟩ := hkept.opens.makes_createFolders hall (by simp) hopen.isClear
    rw [hmade]
    refine ⟨_, rfl, hpaved (hfolders hmade).folders, Grown.treeAt_eq_of_not_prefix hgrown ?_⟩
    intro hlonger
    simpa using hlonger.length_le

include hlinkless

theorem placeFile_paved (htarget : ∀ segment ∈ target, Ordinary segment) (hne : target ≠ [])
    (hfits : Host.Fits revision.cacheFolder (revision.scratchName :: target))
    (hpaved : host.IsPaved home (revision.scratchName :: target))
    (hfree : treeAt host home revision.scratchName target ≠ some .folder) :
    (placeFile host (Host.join revision.cacheFolder (ofNames (revision.scratchName :: target)))
      (.ok bytes)).2 = none := by
  have hall : ∀ segment ∈ revision.scratchName :: target, Ordinary segment :=
    List.forall_mem_cons.mpr ⟨hscratch, htarget⟩
  have hwritten : host.write (Host.join revision.cacheFolder
      (ofNames (revision.scratchName :: target))) ByteArray.empty =
        .ok (host.put (home ++ revision.scratchName :: target) (.file ByteArray.empty)) :=
    Host.write_paved hkept.opens hnul hall (by simp) hfits hpaved hfree
      (hlinkless _ (Host.under_append (List.mem_singleton_self _) target))
  have hfills := fills_write hkept hscratch hlinkless htarget hne hwritten
  have hkept' := hkept.of_confined revision.scratchName_subset_ownNames hfills.confined
  have hput := fun location => Host.get?_put host (home ++ revision.scratchName :: target) location
    (.file ByteArray.empty) (by simp)
  have hpaved' : (host.put (home ++ revision.scratchName :: target)
      (.file ByteArray.empty)).IsPaved home (revision.scratchName :: target) := by
    intro front hfront hwhole
    rw [Host.isFolderAt, hput, if_neg (by simpa using hwhole)]
    exact hpaved front hfront hwhole
  unfold placeFile
  rw [hwritten]
  dsimp only
  rw [Host.write_paved hkept'.opens hnul hall (by simp) hfits hpaved'
    (by rw [hput, if_pos rfl]; simp) (by rw [hput, if_pos rfl]; simp)]

theorem unpackEntry_takes (hresolved : entry.IsResolved)
    (hread : ∃ bytes, entry.read = .ok bytes) (htakes : revision.Takes entry)
    (hfree : ∀ target, target? revision.rootName entry = some target →
      IsFree (treeAt host home revision.scratchName) entry.isFolder target) :
    (unpackEntry revision.scratchPath revision.rootName host entry).2 = none := by
  obtain ⟨bytes, hread⟩ := hread
  unfold Zip.Entry.read at hread
  split at hread
  · cases hread
  · rename_i held hopened
    unfold unpackEntry
    rw [hopened]
    dsimp only
    cases htarget : target? revision.rootName entry with
    | none => rfl
    | some target =>
        obtain ⟨hne, hordinary⟩ := ordinary_of_target? hresolved htarget
        have hfits := htakes target htarget
        obtain ⟨hinFront, hfolder, hfile⟩ := hfree target htarget
        dsimp only
        rw [show "/".intercalate target = ofNames target from rfl,
          join_scratchPath hscratch hordinary hne]
        split
        · rename_i hisFolder
          have hopen : host.IsOpen home (revision.scratchName :: target) := by
            refine isOpen_scratch fun front hfront => ?_
            by_cases hwhole : front = target
            · rw [hwhole]
              exact hfolder hisFolder
            · exact hinFront front hfront hwhole
          rw [Host.createFolders_open hkept.opens hnul
            (List.forall_mem_cons.mpr ⟨hscratch, hordinary⟩) (by simp) hfits hopen]
          rfl
        · rename_i hisFile
          obtain ⟨middle, hparents, hpaved, hsame⟩ :=
            placeParents_free hkept hnul hscratch hordinary hne hfits hinFront
          have hgrown := grown_placeParents hkept hscratch hlinkless hordinary hne
          rw [hparents] at hgrown ⊢
          dsimp only
          have hfills := fills_of_grown hgrown
          obtain ⟨unpacked, rfl⟩ : ∃ unpacked, held = .ok unpacked := by
            cases held with
            | ok unpacked => exact ⟨unpacked, rfl⟩
            | error fault => cases hread
          refine placeFile_paved (hkept.of_confined revision.scratchName_subset_ownNames
            hfills.confined) hnul hscratch (hfills.confined.linkless hlinkless) hordinary hne hfits
            hpaved ?_
          rw [hsame]
          exact hfile (by simpa using hisFile)

end

end Conformance.Revision
