import Conformance.Proofs.Host.Alike
import Conformance.Proofs.Revision.Ensuring

namespace Conformance.Revision

open Conformance.Host (Location Under Linkless Confined)
open Conformance.Cache (Goal Stage)

/-! Two revisions in one cache folder: which of their places are called the same, and where
they stand. -/

variable {reader : Zip.Reader} {left right : Revision} {cache : Cache} {host other : Host}
  {home : Location} {name : String}

/-- One revision is called as the archive of the other, or as the file of its transfer. -/
def Clashes (left right : Revision) : Prop :=
  left.name = right.name ++ ".zip" ∨ left.name = right.name ++ ".zip.part" ∨
    right.name = left.name ++ ".zip" ∨ right.name = left.name ++ ".zip.part"

theorem archiveName_eq_rootName (h : left.name = right.name ++ ".zip") :
    right.archiveName = left.rootName := by
  rw [archiveName, rootName_eq, rootName_eq, h, String.append_assoc]

theorem partialName_eq_rootName (h : left.name = right.name ++ ".zip.part") :
    right.partialName = left.rootName := by
  rw [partialName, rootName_eq, rootName_eq, h, String.append_assoc]

theorem mem_ownNames_iff {revision : Revision} : name ∈ revision.ownNames ↔
    name = revision.scratchName ∨
      ∃ ending ∈ ["", ".zip", ".zip.part"], name = revision.rootName ++ ending := by
  simp only [ownNames, transferNames, treeNames, archiveName, partialName, List.cons_append,
    List.nil_append, List.mem_cons, List.not_mem_nil, or_false, exists_eq_or_imp, exists_eq_left,
    String.append_empty]
  grind

theorem scratchName_ne_append (left right : Revision) (ending : String) :
    left.scratchName ≠ right.rootName ++ ending := by
  intro heq
  have hhead := congrArg (fun text => text.toList.head?) heq
  simp [scratchName, rootName_eq] at hhead

theorem append_zip_ne_append_part (text other : String) :
    text ++ ".zip" ≠ other ++ ".zip.part" := by
  intro heq
  have hlast := congrArg (fun text => text.toList.getLast?) heq
  simp [List.getLast?_append] at hlast

/-- Of all the places of two revisions, only the tree of one and what belongs to the transfer
of the other can be called the same. -/
theorem disjoint_ownNames_iff (hne : left.name ≠ right.name) :
    left.ownNames.Disjoint right.ownNames ↔ ¬ Clashes left right := by
  constructor
  · intro hdisjoint hclash
    rcases hclash with hname | hname | hname | hname
    · exact hdisjoint left.rootName_mem_ownNames
        (archiveName_eq_rootName hname ▸ right.archiveName_mem_ownNames)
    · exact hdisjoint left.rootName_mem_ownNames
        (partialName_eq_rootName hname ▸ right.partialName_mem_ownNames)
    · exact hdisjoint (archiveName_eq_rootName hname ▸ left.archiveName_mem_ownNames)
        right.rootName_mem_ownNames
    · exact hdisjoint (partialName_eq_rootName hname ▸ left.partialName_mem_ownNames)
        right.rootName_mem_ownNames
  · intro hclash name hleft hright
    rcases mem_ownNames_iff.mp hleft with hleft | ⟨ending, hending, hleft⟩
    · rcases mem_ownNames_iff.mp hright with hright | ⟨other, -, hright⟩
      · have heq := hleft.symm.trans hright
        rw [scratchName, scratchName, String.append_left_inj, String.append_right_inj, rootName_eq,
          rootName_eq, String.append_right_inj] at heq
        exact hne heq
      · exact scratchName_ne_append left right other (hleft.symm.trans hright)
    · rcases mem_ownNames_iff.mp hright with hright | ⟨other, hother, hright⟩
      · exact scratchName_ne_append right left ending (hright.symm.trans hleft)
      · have hnames : left.name ++ ending = right.name ++ other := by
          have heq := hleft.symm.trans hright
          rwa [rootName_eq, rootName_eq, String.append_assoc, String.append_assoc,
            String.append_right_inj] at heq
        by_cases hsame : ending = other
        · subst hsame
          exact hne ((String.append_left_inj ending).mp hnames)
        · simp only [List.mem_cons, List.not_mem_nil, or_false] at hending hother
          unfold Clashes at hclash
          rcases hending with rfl | rfl | rfl <;> rcases hother with rfl | rfl | rfl <;>
            simp_all [append_zip_ne_append_part]

theorem KeptAt.of_neighbour (hleft : left.KeptAt host home) (hright : right.KeptAt host home)
    (hfolder : left.cacheFolder = right.cacheFolder)
    (hsame : host.SameBut (Under home left.ownNames) other) : right.KeptAt other home := by
  refine ⟨(hsame.isFolderAt Host.not_under_home).trans hright.isFolderAt, fun next hnext => ?_⟩
  have hgone := Host.sameBut_without host home left.ownNames
  have hgone' := Host.sameBut_without host home right.ownNames
  have hleads := hleft.leads _ hgone
  have hleads' := hright.leads _ hgone'
  rw [hgone.origin, hfolder] at hleads
  rw [hgone'.origin] at hleads'
  rw [hnext.origin, hsame.origin]
  have hnextSame {location : Location} (hnot : ¬ Under home left.ownNames location)
      (hnot' : ¬ Under home right.ownNames location) :
      next.get? location = host.get? location :=
    (hnext.get? location hnot').trans (hsame.get? location hnot)
  refine hleads.of_both hleads' (fun location entry entry' hentry hentry' => ?_) ?_ ?_
  · have hnot : ¬ Under home left.ownNames location := by
      intro hunder
      rw [Host.get?_without host hunder] at hentry
      cases hentry
    have hnot' : ¬ Under home right.ownNames location := by
      intro hunder
      rw [Host.get?_without host hunder] at hentry'
      cases hentry'
    rw [hgone.get? location hnot] at hentry
    rw [hgone'.get? location hnot', hentry] at hentry'
    exact ⟨(Option.some.inj hentry').symm, (hnextSame hnot hnot').trans hentry⟩
  · rw [hgone.get? home Host.not_under_home, hnextSame Host.not_under_home Host.not_under_home]
  · rw [hgone'.get? home Host.not_under_home, hnextSame Host.not_under_home Host.not_under_home]

theorem parentPath?_archivePath_eq (hfolder : left.cacheFolder = right.cacheFolder)
    (hleft : left.isNamed = true) (hright : right.isNamed = true) :
    Host.parentPath? right.archivePath = Host.parentPath? left.archivePath := by
  obtain ⟨hempty, hslash, -⟩ := ordinary_of_mem hleft left.archiveName_mem_ownNames
  obtain ⟨hempty', hslash', -⟩ := ordinary_of_mem hright right.archiveName_mem_ownNames
  rw [archivePath_eq, archivePath_eq, place, place, hfolder]
  exact Host.parentPath?_join_congr right.cacheFolder hempty hslash hempty' hslash'

theorem Housed.there_of_neighbour (hright : right.Housed right.ownNames host home)
    (hleft : left.KeptAt host home) (hfolder : left.cacheFolder = right.cacheFolder)
    (hnamed : left.isNamed = true) (hnamed' : right.isNamed = true) :
    right.KeptAt host home ∧ host.Linkless home right.ownNames := by
  cases hright with
  | there hkept hlinkless => exact ⟨hkept, hlinkless⟩
  | @missing parent made habsent hbare hparent hcreates hkept hmadeBare =>
      rw [parentPath?_archivePath_eq hfolder hnamed hnamed'] at hparent
      rw [createFolders_parent hleft hnamed hparent] at hcreates
      obtain rfl : host = made := congrArg Prod.fst hcreates
      exact ⟨hkept, fun location hlocation target => by simp [hbare location hlocation]⟩

/-- Calls about a revision come to the same on a host where the cache folder is there, with
the same in the revision's places. -/
structure Stands (revision : Revision) (reader : Zip.Reader) (cache : Cache) (here : Host)
    (home : Location) : Prop where
  kept : revision.KeptAt here home
  linkless : here.Linkless home revision.ownNames
  own : ∀ location, Under home revision.ownNames location →
    here.get? location = cache.host.get? location
  complete : ∀ fetcher goal, Cache.complete fetcher reader revision goal cache .asked =
    Cache.complete fetcher reader revision goal { cache with host := here } .asked

theorem stands_of_kept {revision : Revision} (hkept : revision.KeptAt cache.host home)
    (hlinkless : cache.host.Linkless home revision.ownNames) :
    revision.Stands reader cache cache.host home :=
  ⟨hkept, hlinkless, fun _ _ => rfl, fun _ _ => rfl⟩

theorem stands_of_made {revision : Revision} {parent : String} {made : Host}
    (hnamed : revision.isNamed = true)
    (habsent : cache.host.isPresent revision.archivePath = false)
    (hbare : ∀ location, Under home revision.ownNames location →
      cache.host.get? location = none)
    (hparent : Host.parentPath? revision.archivePath = some parent)
    (hcreates : cache.host.createFolders parent = (made, none))
    (hkept : revision.KeptAt made home)
    (hmadeBare : ∀ location, Under home revision.ownNames location → made.get? location = none) :
    revision.Stands reader cache made home := by
  refine ⟨hkept, fun location hlocation target => by simp [hmadeBare location hlocation],
    fun location hlocation => (hmadeBare location hlocation).trans (hbare location hlocation).symm,
    fun fetcher goal => ?_⟩
  have hmadeAbsent : made.isPresent revision.archivePath = false :=
    hkept.isPresent_archivePath hnamed
      (hmadeBare _ (Host.under_append revision.archiveName_mem_ownNames []))
  have hmakesNothing : made.createFolders parent = (made, none) := by
    have hmade := createFolders_parent hkept hnamed hparent
    by_cases hempty : parent = ""
    · rwa [if_pos hempty] at hmade
    · rw [if_neg hempty] at hmade
      cases hrefusal : Host.refusal? parent with
      | none => rwa [hrefusal] at hmade
      | some fault =>
          rw [Host.createFolders_of_refusal hempty hrefusal] at hcreates
          cases congrArg Prod.snd hcreates
  have hopening (cache : Cache) (habsent : cache.host.isPresent revision.archivePath = false)
      (hcreates : cache.host.createFolders parent = (made, none)) :
      Cache.complete fetcher reader revision goal cache .asked =
        Cache.complete fetcher reader revision goal { cache with host := made } .opening := by
    have hprepare : cache.prepare revision = ({ cache with host := made }, .opening) := by
      unfold Cache.prepare
      rw [hparent]
      dsimp only
      rw [hcreates]
    rw [Cache.complete_asked_of_absent hnamed habsent, Cache.complete_of_running rfl, Cache.act,
      hprepare]
  have hleft := hopening cache habsent hcreates
  have hright := hopening { cache with host := made } hmadeAbsent hmakesNothing
  exact hleft.trans hright.symm

theorem complete_of_barred {revision : Revision} {fetcher : Fetcher} {goal : Goal}
    {parent : String} {fault : Host.Fault} (hnamed : revision.isNamed = true)
    (habsent : cache.host.isPresent revision.archivePath = false)
    (hparent : Host.parentPath? revision.archivePath = some parent)
    (hfails : cache.host.createFolders parent = (cache.host, some fault)) :
    Cache.complete fetcher reader revision goal cache .asked = (cache, .error (.host fault)) := by
  have hprepare : cache.prepare revision = (cache, .fail (.host fault)) := by
    unfold Cache.prepare
    rw [hparent]
    dsimp only
    rw [hfails]
  rw [Cache.complete_asked_of_absent hnamed habsent, Cache.complete_of_running rfl, Cache.act,
    hprepare]
  exact Cache.complete_ended _

end Conformance.Revision
