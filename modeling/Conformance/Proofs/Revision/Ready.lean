import Conformance.Proofs.Revision.Ensuring

namespace Conformance.Revision

open Conformance.Path (Ordinary)
open Conformance.Host (Location Linkless)
open Conformance.Cache (Goal Stage)

/-! Caches in which an archive can be fetched, whatever they hold by now, and the stages of a
call in such a cache. -/

variable {fetcher : Fetcher} {reader : Zip.Reader} {revision : Revision} {cache : Cache}
  {host other : Host} {home : Location} {name : String} {bytes : ByteArray} {delivery : Delivery}

/-- Either place of a transfer is within reach of its path, and no folder stands there. -/
structure Unblocked (revision : Revision) (host : Host) (home : Location) : Prop where
  reach : ∀ name ∈ revision.transferNames,
    Host.reach revision.cacheFolder name home = .ok (home ++ [name])
  noFolder : ∀ name ∈ revision.transferNames, host.get? (home ++ [name]) ≠ some .folder

/-- The cache folder is there, and nothing but files in the places of a transfer. -/
structure Ready (revision : Revision) (host : Host) (home : Location) : Prop
    extends Unblocked revision host home where
  kept : revision.KeptAt host home
  linkless : host.Linkless home revision.transferNames

/-- The same, where the cache folder may have to be made first. -/
structure Usable (revision : Revision) (host : Host) (home : Location) : Prop
    extends Unblocked revision host home where
  housed : revision.Housed revision.transferNames host home

namespace Ready

variable (hready : revision.Ready host home)

include hready

theorem usable : revision.Usable host home :=
  ⟨hready.toUnblocked, .there hready.kept hready.linkless⟩

theorem of_confined (hconfined : host.Confined other home revision.transferNames)
    (hfolder : ∀ name ∈ revision.transferNames, other.get? (home ++ [name]) ≠ some .folder) :
    revision.Ready other home :=
  ⟨⟨hready.reach, hfolder⟩, hready.kept.of_confined revision.transferNames_subset hconfined,
    hconfined.linkless hready.linkless⟩

theorem put (hname : name ∈ revision.transferNames) (bytes : ByteArray) :
    revision.Ready (host.put (home ++ [name]) (.file bytes)) home := by
  refine hready.of_confined (Host.confined_put hname (by simp) [] host) fun other hother => ?_
  rw [Host.get?_put _ _ _ _ (by simp)]
  split
  · simp
  · exact hready.noFolder other hother

theorem drop (hname : name ∈ revision.transferNames) :
    revision.Ready (host.drop (home ++ [name])) home := by
  refine hready.of_confined (Host.confined_drop hname host) fun other hother => ?_
  rw [Host.get?_drop (by simp)]
  split
  · simp
  · exact hready.noFolder other hother

section

variable (hnamed : revision.isNamed = true) (hname : name ∈ revision.transferNames)

include hnamed hname

theorem ordinary : Ordinary name := by
  obtain ⟨hnul, -⟩ := Host.reach_eq_ok_iff.mp (hready.reach name hname)
  exact (ordinary_of_mem hnamed (revision.transferNames_subset hname)).2.2
    fun hmem => hnul (Host.mem_join _ hmem)

theorem isPresent_place : host.isPresent (revision.place name) = true ↔
    host.get? (home ++ [name]) ≠ none := by
  rw [place, hready.kept.opens.isPresent_name (fun _ => hready.ordinary hnamed hname)
    (hready.linkless.ne_link hname)]
  exact and_iff_right (hready.reach name hname)

theorem read_place : host.read (revision.place name) = .ok bytes ↔
    host.get? (home ++ [name]) = some (.file bytes) := by
  rw [place, hready.kept.opens.read_name (fun _ => hready.ordinary hnamed hname)
    (hready.linkless.ne_link hname)]
  exact and_iff_right (hready.reach name hname)

theorem write_place (bytes : ByteArray) : host.write (revision.place name) bytes =
    .ok (host.put (home ++ [name]) (.file bytes)) :=
  hready.kept.opens.write_name_eq (hready.ordinary hnamed hname) (hready.reach name hname)
    (hready.linkless.ne_link hname) (hready.noFolder name hname) bytes

theorem remove_place (hthere : host.get? (home ++ [name]) ≠ none) :
    host.remove (revision.place name) = .ok (host.drop (home ++ [name])) := by
  obtain ⟨entry, hentry⟩ := Option.ne_none_iff_exists'.mp hthere
  refine hready.kept.opens.remove_name_eq (hready.ordinary hnamed hname)
    (hready.reach name hname) hentry ?_
  rintro rfl
  exact hready.noFolder name hname hentry

end

end Ready

theorem get?_put_partial (revision : Revision) (host : Host) (home : Location)
    (bytes : ByteArray) :
    (host.put (home ++ [revision.partialName]) (.file bytes)).get?
      (home ++ [revision.archiveName]) = host.get? (home ++ [revision.archiveName]) := by
  rw [Host.get?_put _ _ _ _ (by simp), if_neg]
  simpa using revision.partialName_ne_archiveName.symm

section

variable {goal : Goal} (hready : revision.Ready cache.host home) (hnamed : revision.isNamed = true)

include hready hnamed

theorem complete_preparing (fetcher : Fetcher) (goal : Goal) :
    Cache.complete fetcher reader revision goal cache .preparing =
      Cache.complete fetcher reader revision goal cache .opening := by
  obtain ⟨hempty, hslash, -⟩ := ordinary_of_mem hnamed revision.archiveName_mem_ownNames
  obtain ⟨parent, hparent, -⟩ := Host.parentPath?_join revision.cacheFolder hempty hslash
  have hparent' : Host.parentPath? revision.archivePath = some parent := hparent
  have hrefusal : Host.refusal? revision.archivePath = none := by
    obtain ⟨hnul, hlimit, -⟩ :=
      Host.reach_eq_ok_iff.mp (hready.reach _ revision.archiveName_mem)
    exact Host.refusal?_eq_none_iff.mpr ⟨hnul, hlimit⟩
  have hcreates := createFolders_parent hready.kept hnamed hparent'
  rw [Host.refusal?_parentPath hparent' hrefusal, ite_self] at hcreates
  have hprepare : cache.prepare revision = (cache, .opening) := by
    unfold Cache.prepare
    rw [hparent']
    dsimp only
    rw [hcreates]
  rw [Cache.complete_of_running rfl, Cache.act, hprepare]

theorem exists_complete_asked (fetcher : Fetcher) (goal : Goal)
    (hnone : ¬ revision.HasArchive reader cache.host) :
    ∃ next, revision.Ready next.host home ∧ next.transfers = cache.transfers ∧
      next.host.get? (home ++ [revision.archiveName]) = none ∧
      Cache.complete fetcher reader revision goal cache .asked =
        Cache.complete fetcher reader revision goal next .opening := by
  have hpresent : cache.host.isPresent revision.archivePath = true ↔
      cache.host.get? (home ++ [revision.archiveName]) ≠ none :=
    hready.isPresent_place hnamed revision.archiveName_mem
  cases hthere : cache.host.get? (home ++ [revision.archiveName]) with
  | none =>
      have habsent : cache.host.isPresent revision.archivePath = false := by
        rw [Bool.eq_false_iff, Ne, hpresent, hthere]
        simp
      refine ⟨cache, hready, rfl, hthere, ?_⟩
      rw [Cache.complete_asked_of_absent hnamed habsent, complete_preparing hready hnamed]
  | some entry =>
      have hne : cache.host.get? (home ++ [revision.archiveName]) ≠ none := by simp [hthere]
      obtain ⟨problem, hflaw⟩ := Option.ne_none_iff_exists'.mp hnone
      have hlook : cache.look reader revision goal =
          (cache.notice (.unreadableArchive revision.archivePath), .discarding) := by
        unfold Cache.look
        rw [if_pos (hpresent.mpr hne), hflaw]
      have hremove : cache.host.remove revision.archivePath =
          .ok (cache.host.drop (home ++ [revision.archiveName])) :=
        hready.remove_place hnamed revision.archiveName_mem hne
      refine ⟨{ cache with
          host := cache.host.drop (home ++ [revision.archiveName])
          notices := .unreadableArchive revision.archivePath :: cache.notices },
        hready.drop revision.archiveName_mem, rfl, ?_, ?_⟩
      · rw [Host.get?_drop (by simp), if_pos rfl]
      · rw [Cache.complete_asked hnamed, Cache.complete_of_running rfl, Cache.act, hlook,
          Cache.complete_of_running rfl, Cache.act, Cache.notice, hremove, Cache.change]
        exact complete_preparing (hready.drop revision.archiveName_mem) hnamed fetcher goal

theorem exists_complete_opening (fetcher : Fetcher) (goal : Goal)
    (hfree : cache.host.get? (home ++ [revision.archiveName]) = none) :
    ∃ next, revision.Ready next.host home ∧ next.transfers = cache.transfers ∧
      next.host.get? (home ++ [revision.archiveName]) = none ∧
      Cache.complete fetcher reader revision goal cache .opening =
        Cache.complete fetcher reader revision goal next .transferring := by
  have hwrite : cache.host.write revision.partialPath .empty =
      .ok (cache.host.put (home ++ [revision.partialName]) (.file .empty)) :=
    hready.write_place hnamed revision.partialName_mem .empty
  have hopen : cache.openPartial revision =
      ({ cache with host := cache.host.put (home ++ [revision.partialName]) (.file .empty) },
        .transferring) := by
    unfold Cache.openPartial
    rw [hwrite]
  refine ⟨(cache.openPartial revision).1, ?_, ?_, ?_, ?_⟩
  · rw [hopen]
    exact hready.put revision.partialName_mem .empty
  · rw [hopen]
  · rw [hopen]
    exact (revision.get?_put_partial _ _ _).trans hfree
  · rw [Cache.complete_of_running rfl, Cache.act, hopen]

theorem exists_complete_transferring (goal : Goal)
    (hdelivery : fetcher cache.transfers.length revision.url = delivery)
    (hfree : cache.host.get? (home ++ [revision.archiveName]) = none) :
    ∃ next, revision.Ready next.host home ∧ next.transfers = revision.url :: cache.transfers ∧
      next.host.get? (home ++ [revision.archiveName]) = none ∧
      next.host.get? (home ++ [revision.partialName]) = some (.file delivery.bytes) ∧
      Cache.complete fetcher reader revision goal cache .transferring =
        Cache.complete fetcher reader revision goal next (delivery.failure.elim .placing
          fun refusal => .cleaning (refusal.toError revision.url)) := by
  have hwrite : cache.host.write revision.partialPath delivery.bytes =
      .ok (cache.host.put (home ++ [revision.partialName]) (.file delivery.bytes)) :=
    hready.write_place hnamed revision.partialName_mem _
  have htransfer : cache.transfer fetcher revision =
      ({ cache with
          host := cache.host.put (home ++ [revision.partialName]) (.file delivery.bytes)
          transfers := revision.url :: cache.transfers },
        delivery.failure.elim .placing
          fun refusal => .cleaning (refusal.toError revision.url)) := by
    unfold Cache.transfer Cache.receive
    rw [hdelivery, hwrite]
    cases delivery.failure <;> rfl
  refine ⟨(cache.transfer fetcher revision).1, ?_, ?_, ?_, ?_, ?_⟩
  · rw [htransfer]
    exact hready.put revision.partialName_mem _
  · rw [htransfer]
  · rw [htransfer]
    exact (revision.get?_put_partial _ _ _).trans hfree
  · rw [htransfer, Host.get?_put _ _ _ _ (by simp), if_pos rfl]
  · rw [Cache.complete_of_running rfl, Cache.act, htransfer]

theorem exists_complete_cleaning (fetcher : Fetcher) (goal : Goal) (failure : Error)
    (hthere : cache.host.get? (home ++ [revision.partialName]) ≠ none) :
    ∃ next, revision.Ready next.host home ∧ next.transfers = cache.transfers ∧
      next.host.get? (home ++ [revision.archiveName]) =
        cache.host.get? (home ++ [revision.archiveName]) ∧
      next.host.get? (home ++ [revision.partialName]) = none ∧
      Cache.complete fetcher reader revision goal cache (.cleaning failure) =
        (next, .error failure) := by
  have hremove : cache.host.remove revision.partialPath =
      .ok (cache.host.drop (home ++ [revision.partialName])) :=
    hready.remove_place hnamed revision.partialName_mem hthere
  have hclean : cache.clean revision failure =
      ({ cache with host := cache.host.drop (home ++ [revision.partialName]) },
        .fail failure) := by
    unfold Cache.clean
    rw [hremove]
  refine ⟨{ cache with host := cache.host.drop (home ++ [revision.partialName]) },
    hready.drop revision.partialName_mem, rfl, ?_, ?_, ?_⟩
  · rw [Host.get?_drop (by simp), if_neg]
    simpa using revision.partialName_ne_archiveName.symm
  · rw [Host.get?_drop (by simp), if_pos rfl]
  · rw [Cache.complete_of_running rfl, Cache.act, hclean]
    exact Cache.complete_ended _

theorem exists_complete_placing (fetcher : Fetcher) (goal : Goal)
    (hfree : cache.host.get? (home ++ [revision.archiveName]) = none)
    (hthere : cache.host.get? (home ++ [revision.partialName]) = some (.file bytes)) :
    ∃ next, revision.Ready next.host home ∧ next.transfers = cache.transfers ∧
      next.host.get? (home ++ [revision.archiveName]) = some (.file bytes) ∧
      next.host.get? (home ++ [revision.partialName]) = none ∧
      Cache.complete fetcher reader revision goal cache .placing =
        Cache.complete fetcher reader revision goal next .confirming := by
  have hrename : cache.host.rename revision.partialPath revision.archivePath =
      .ok (cache.host.moveTree (home ++ [revision.partialName])
        (home ++ [revision.archiveName])) :=
    hready.kept.opens.rename_names_eq (hready.ordinary hnamed revision.partialName_mem)
      (hready.ordinary hnamed revision.archiveName_mem) (hready.reach _ revision.partialName_mem)
      (hready.reach _ revision.archiveName_mem) hthere hfree
  obtain ⟨hmoved, hleft⟩ := @Host.get?_moveTree (home ++ [revision.partialName])
    (home ++ [revision.archiveName]) cache.host (by simp) (by simp)
  have hname : (cache.host.moveTree (home ++ [revision.partialName])
      (home ++ [revision.archiveName])).get? (home ++ [revision.archiveName]) =
        some (.file bytes) := by
    simpa [hthere] using hmoved []
  have hgone : (cache.host.moveTree (home ++ [revision.partialName])
      (home ++ [revision.archiveName])).get? (home ++ [revision.partialName]) = none := by
    rw [hleft _ (by simpa using revision.partialName_ne_archiveName.symm), if_pos List.prefix_rfl]
  have hconfined : cache.host.Confined (cache.host.moveTree (home ++ [revision.partialName])
      (home ++ [revision.archiveName])) home revision.transferNames :=
    Host.confined_moveTree revision.partialName_mem revision.archiveName_mem cache.host
  refine ⟨{ cache with host :=
      cache.host.moveTree (home ++ [revision.partialName]) (home ++ [revision.archiveName]) },
    hready.of_confined hconfined ?_, rfl, hname, hgone, ?_⟩
  · intro name hmem
    simp only [transferNames, List.mem_cons, List.not_mem_nil, or_false] at hmem
    rcases hmem with rfl | rfl
    · simp [hname]
    · simp [hgone]
  · rw [Cache.complete_of_running rfl, Cache.act, hrename, Cache.change]

theorem complete_confirming (fetcher : Fetcher)
    (hthere : cache.host.get? (home ++ [revision.archiveName]) = some (.file bytes)) :
    Cache.complete fetcher reader revision .archive cache .confirming =
      (cache, ((reader bytes).map fun _ => ()).mapError
        (.corruptArchive revision.archivePath)) := by
  have hread : cache.host.read revision.archivePath = .ok bytes :=
    (hready.read_place hnamed revision.archiveName_mem).mpr hthere
  have hconfirm : cache.confirm reader revision .archive =
      (cache, .ended (((reader bytes).map fun _ => ()).mapError
        (.corruptArchive revision.archivePath))) := by
    unfold Cache.confirm Cache.flaw? Cache.archiveAt
    rw [hread]
    dsimp only
    cases reader bytes <;> rfl
  rw [Cache.complete_of_running rfl, Cache.act, hconfirm]
  exact Cache.complete_ended _

end

end Conformance.Revision
