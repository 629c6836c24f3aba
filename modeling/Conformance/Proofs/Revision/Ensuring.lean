import Conformance.Proofs.Revision.Finishing

namespace Conformance

open Conformance.Path (Ordinary)
open Conformance.Host (Location Under Linkless Confined)
open Conformance.Cache (Goal Stage)

/-! A call for the tree fetches the archive first, as a call for the archive does. -/

namespace Cache

variable {fetcher : Fetcher} {reader : Zip.Reader} {revision : Revision} {goal : Goal}
  {cache ensured : Cache} {stage : Stage}

/-- The stage of a call for the tree in which one for the archive is through. -/
def Stage.forTree : Stage → Stage
  | ended (.ok _) => choosing
  | stage => stage

theorem Stage.forTree_eq_self (hstage : stage ≠ .ended (.ok ())) : stage.forTree = stage := by
  unfold forTree
  split
  · exact absurd rfl hstage
  · rfl

theorem look_tree : cache.look reader revision .tree =
    ((cache.look reader revision .archive).1, (cache.look reader revision .archive).2.forTree) := by
  unfold look
  split
  · split <;> rfl
  · rfl

theorem confirm_tree : cache.confirm reader revision .tree =
    ((cache.confirm reader revision .archive).1,
      (cache.confirm reader revision .archive).2.forTree) := by
  unfold confirm
  split <;> rfl

theorem act_tree (hresult : stage.result? = none) (hstage : stage.isBehindArchive = false) :
    act fetcher reader revision .tree cache stage =
      ((act fetcher reader revision .archive cache stage).1,
        (act fetcher reader revision .archive cache stage).2.forTree) := by
  by_cases hlooking : stage = .looking
  · rw [hlooking]
    exact look_tree
  · by_cases hconfirming : stage = .confirming
    · rw [hconfirming]
      exact confirm_tree
    · have hnext := next_act fetcher reader revision .archive cache hresult
      have hsame : act fetcher reader revision .tree cache stage =
          act fetcher reader revision .archive cache stage := by
        unfold act
        cases stage with
        | looking => exact absurd rfl hlooking
        | confirming => exact absurd rfl hconfirming
        | _ => rfl
      rw [hsame, Stage.forTree_eq_self]
      intro hended
      rw [hended] at hnext
      rcases hnext.eq_of_ok hstage with heq | heq
      · exact hlooking heq
      · exact hconfirming heq

theorem complete_forTree (hstage : stage.isBehindArchive = false)
    (h : complete fetcher reader revision .archive cache stage = (ensured, .ok ())) :
    complete fetcher reader revision .tree cache stage.forTree =
      complete fetcher reader revision .tree ensured .choosing := by
  -- both calls go through the same stages up to the one in which the archive's call ends
  fun_induction complete fetcher reader revision .archive cache stage with
  | case1 cache stage result hresult =>
      cases stage with
      | ended other =>
          cases hresult
          cases h
          rfl
      | _ => cases hresult
  | case2 cache stage hresult next ih =>
      have hnext := next_act fetcher reader revision .archive cache hresult
      have hrunning : stage ≠ .ended (.ok ()) := by
        rintro rfl
        cases hresult
      rw [Stage.forTree_eq_self hrunning, complete_of_running hresult, act_tree hresult hstage]
      exact ih (hnext.isBehindArchive hstage) h

theorem act_congr {left right : Revision} (hname : left.name = right.name)
    (hfolder : left.cacheFolder = right.cacheFolder) :
    act fetcher reader left goal cache stage = act fetcher reader right goal cache stage := by
  have hnamed : left.isNamed = right.isNamed := by rw [Revision.isNamed, Revision.isNamed, hname]
  have hurl : left.url = right.url := by rw [Revision.url, Revision.url, hname]
  have hroot : left.rootName = right.rootName := by
    rw [Revision.rootName, Revision.rootName, hname]
  have hplace (name : String) : left.place name = right.place name := by
    rw [Revision.place, Revision.place, hfolder]
  have harchive : left.archivePath = right.archivePath := by
    rw [Revision.archivePath, Revision.archivePath, hplace, hroot]
  have hpartial : left.partialPath = right.partialPath := by
    rw [Revision.partialPath, Revision.partialPath, hplace, hroot]
  have htree : left.treePath = right.treePath := by
    rw [Revision.treePath, Revision.treePath, hplace, hroot]
  have hscratch : left.scratchPath = right.scratchPath := by
    rw [Revision.scratchPath, Revision.scratchPath, hplace, hroot]
  unfold act ask look prepare openPartial transfer receive clean confirm lookForTree load clear
    unpackNext
  simp only [hname, hnamed, hurl, hroot, harchive, hpartial, htree, hscratch]

theorem complete_congr {left right : Revision} (hname : left.name = right.name)
    (hfolder : left.cacheFolder = right.cacheFolder) :
    complete fetcher reader left goal cache stage =
      complete fetcher reader right goal cache stage := by
  fun_induction complete fetcher reader right goal cache stage with
  | case1 cache stage result hresult => exact complete_of_result hresult
  | case2 cache stage hresult next ih =>
      rw [complete_of_running hresult, act_congr hname hfolder]
      exact ih

theorem complete_withExtract (extract : Bool) :
    complete fetcher reader { revision with extract } goal cache stage =
      complete fetcher reader revision goal cache stage :=
  complete_congr rfl rfl

theorem complete_asked (hnamed : revision.isNamed = true) :
    complete fetcher reader revision goal cache .asked =
      complete fetcher reader revision goal cache .looking := by
  have hask : cache.ask revision = (cache, .awaitingArchive) := if_pos hnamed
  rw [complete_of_running rfl, act, hask, complete_of_running rfl, act]

theorem complete_asked_of_absent (hnamed : revision.isNamed = true)
    (habsent : cache.host.isPresent revision.archivePath = false) :
    complete fetcher reader revision goal cache .asked =
      complete fetcher reader revision goal cache .preparing := by
  have hlook : cache.look reader revision goal = (cache, .preparing) := by
    unfold look
    rw [habsent]
    rfl
  rw [complete_asked hnamed, complete_of_running rfl, act, hlook]

end Cache

namespace Revision

variable {fetcher : Fetcher} {reader : Zip.Reader} {revision : Revision} {cache ensured : Cache}
  {home : Location} {stage : Stage} {path : String}

theorem housed_complete (hhoused : revision.Housed revision.ownNames cache.host home)
    (hnamed : stage ≠ .asked → stage.result? = none → revision.isNamed = true)
    (hsound : revision.Sound reader cache.host home stage)
    (hstage : stage.isBehindArchive = false) :
    revision.Housed revision.ownNames
        (Cache.complete fetcher reader revision .archive cache stage).1.host home ∧
      ∀ location, Under home revision.treeNames location →
        (Cache.complete fetcher reader revision .archive cache stage).1.host.get? location =
          cache.host.get? location := by
  fun_induction Cache.complete fetcher reader revision .archive cache stage with
  | case1 cache stage result hresult => exact ⟨hhoused, fun _ _ => rfl⟩
  | case2 cache stage hresult next ih =>
      have hfetches := fetches_act fetcher .archive revision.transferNames_subset
        (List.Subset.refl _) hhoused hnamed hsound (Stage.isUnpacking_of_isBehindArchive hstage)
      have hnext := Cache.next_act fetcher reader revision .archive cache hresult
      obtain ⟨hhousedLast, hsame⟩ := ih hfetches.housed (fun _ => isNamed_act hnamed)
        hfetches.sound (hnext.isBehindArchive hstage)
      exact ⟨hhousedLast, fun location hlocation =>
        (hsame location hlocation).trans (hfetches.tree location hlocation)⟩

theorem ensure_of_hasArchive (fetcher : Fetcher) (hnamed : revision.isNamed = true)
    (harchive : revision.HasArchive reader cache.host) :
    revision.ensure fetcher cache reader = (cache, .ok revision.archivePath) := by
  have hflaw : Cache.flaw? reader cache.host revision.archivePath = none := harchive
  have hlook : cache.look reader revision .archive = (cache, .ended (.ok ())) := by
    unfold Cache.look
    rw [if_pos harchive.isPresent, hflaw]
    rfl
  have hcomplete : Cache.complete fetcher reader revision .archive cache .asked =
      (cache, .ok ()) := by
    rw [Cache.complete_asked hnamed, Cache.complete_of_running rfl, Cache.act, hlook]
    exact Cache.complete_ended _
  unfold ensure
  rw [hcomplete]
  rfl

theorem complete_of_ensure {result : Except Error String}
    (h : revision.ensure fetcher cache reader = (ensured, result)) :
    Cache.complete fetcher reader revision .archive cache .asked =
      (ensured, result.map fun _ => ()) := by
  unfold ensure at h
  cases hcomplete : Cache.complete fetcher reader revision .archive cache .asked with
  | mk last ended =>
      rw [hcomplete] at h
      cases h
      cases ended <;> rfl

theorem complete_of_isFolder (fetcher : Fetcher) (hnamed : revision.isNamed = true)
    (harchive : revision.HasArchive reader cache.host)
    (hfolder : cache.host.isFolder revision.treePath = true) :
    Cache.complete fetcher reader revision .tree cache .asked = (cache, .ok ()) := by
  have hlook : cache.lookForTree revision .awaitingTree = (cache, .ended (.ok ())) := by
    unfold Cache.lookForTree
    exact if_pos hfolder
  have hensured := complete_of_ensure (ensure_of_hasArchive fetcher hnamed harchive)
  have hchoosing := Cache.complete_forTree rfl hensured
  have hrunning : Stage.result? .choosing = none := rfl
  rw [Cache.complete_of_running hrunning, Cache.act, hlook] at hchoosing
  exact hchoosing.trans (Cache.complete_ended _)

section

variable {goal : Goal}

theorem complete_of_folder (fetcher : Fetcher) (goal : Goal)
    (hkept : revision.KeptAt cache.host home) (hnamed : revision.isNamed = true)
    (hreach : Host.reach revision.cacheFolder revision.archiveName home =
      .ok (home ++ [revision.archiveName]))
    (hfolder : cache.host.get? (home ++ [revision.archiveName]) = some .folder) :
    (Cache.complete fetcher reader revision goal cache .asked).2 = .error (.host .isDirectory) := by
  have hname := (ordinary_of_mem hnamed revision.archiveName_mem_ownNames).2.2
  have hresolve : cache.host.resolve revision.archivePath =
      .ok (home ++ [revision.archiveName], .folder) :=
    (hkept.opens.resolve_name hname (by simp [hfolder])).mpr ⟨hreach, rfl, hfolder⟩
  have hpresent : cache.host.isPresent revision.archivePath = true := by
    rw [Host.isPresent, hresolve]
  have hread : cache.host.read revision.archivePath = .error .isDirectory := by
    rw [Host.read, hresolve]
    rfl
  have hflaw : Cache.flaw? reader cache.host revision.archivePath = some .unreadable := by
    unfold Cache.flaw? Cache.archiveAt
    rw [hread]
  have hfind : cache.host.find revision.archivePath false = .ok (home ++ [revision.archiveName]) :=
    (hkept.opens.find_name hname (.inl rfl)).trans hreach
  have hremove : cache.host.remove revision.archivePath = .error .isDirectory := by
    rw [Host.remove, hfind]
    simp only [bind, Except.bind, hfolder]
  have hlook : cache.look reader revision goal =
      (cache.notice (.unreadableArchive revision.archivePath), .discarding) := by
    unfold Cache.look
    rw [if_pos hpresent, hflaw]
  have hdiscard : (cache.notice (.unreadableArchive revision.archivePath)).change
      (cache.host.remove revision.archivePath) .preparing =
        (cache.notice (.unreadableArchive revision.archivePath), .fail (.host .isDirectory)) := by
    rw [hremove]
    rfl
  rw [Cache.complete_asked hnamed, Cache.complete_of_running rfl, Cache.act, hlook,
    Cache.complete_of_running rfl, Cache.act]
  have hends := congrArg (fun step => Cache.complete fetcher reader revision goal step.1 step.2)
    hdiscard
  exact congrArg Prod.snd (hends.trans (Cache.complete_ended _))

theorem complete_cleaning (failure : Error) :
    (Cache.complete fetcher reader revision goal cache (.cleaning failure)).2 = .error failure := by
  rw [Cache.complete_of_running rfl, Cache.act]
  unfold Cache.clean
  split
  · exact congrArg Prod.snd (Cache.complete_ended _)
  · exact congrArg Prod.snd (Cache.complete_ended _)
  · exact congrArg Prod.snd (Cache.complete_ended _)

theorem complete_opening_of_refused (refusal : Refusal) (hkept : revision.KeptAt cache.host home)
    (hpartial : Ordinary revision.partialName)
    (hreach : Host.reach revision.cacheFolder revision.partialName home =
      .ok (home ++ [revision.partialName]))
    (hfree : cache.host.get? (home ++ [revision.partialName]) = none)
    (hrefused : (fetcher cache.transfers.length revision.url).failure = some refusal) :
    (Cache.complete fetcher reader revision goal cache .opening).2 =
      .error (refusal.toError revision.url) := by
  have hwrite := hkept.opens.write_name_eq hpartial hreach (by simp [hfree]) (by simp [hfree])
  have hconfined : cache.host.Confined
      (cache.host.put (home ++ [revision.partialName]) (.file .empty)) home revision.ownNames :=
    Host.confined_put revision.partialName_mem_ownNames (by simp) [] cache.host
  have hkept' := hkept.of_confined (List.Subset.refl _) hconfined
  have hget : (cache.host.put (home ++ [revision.partialName]) (.file .empty)).get?
      (home ++ [revision.partialName]) = some (.file .empty) := by
    rw [Host.get?_put _ _ _ _ (by simp), if_pos rfl]
  have hreceive := hkept'.opens.write_name_eq hpartial hreach (by simp [hget]) (by simp [hget])
  have hopen : cache.openPartial revision = ({ cache with
      host := cache.host.put (home ++ [revision.partialName]) (.file .empty) }, .transferring) := by
    unfold Cache.openPartial
    rw [partialPath_eq, place, hwrite]
  have hcleaning : (Cache.act fetcher reader revision goal { cache with
      host := cache.host.put (home ++ [revision.partialName]) (.file .empty) } .transferring).2 =
        .cleaning (refusal.toError revision.url) := by
    rw [Cache.act]
    unfold Cache.transfer Cache.receive
    rw [partialPath_eq, place, hreceive, hrefused]
  rw [Cache.complete_of_running rfl, Cache.act, hopen, Cache.complete_of_running rfl, hcleaning]
  exact complete_cleaning _

end

end Revision

end Conformance
