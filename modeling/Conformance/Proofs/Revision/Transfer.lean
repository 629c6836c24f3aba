import Conformance.Proofs.Revision.Lock
import Conformance.Proofs.Revision.Recovery

namespace Conformance.Sharing

open Conformance.Cache (Stage)
open Conformance.Host (Location)

/-! Calls for one archive, whose stages interleave. -/

variable {fetcher : Fetcher} {reader : Zip.Reader} {revision : Revision} {home : Location}
  {start sharing next middle now : Sharing} {moves : List Move} {move : Move}

theorem hasArchive_of_look {cache : Cache}
    (h : (cache.look reader revision .archive).2 = .ended (.ok ())) :
    revision.HasArchive reader (cache.look reader revision .archive).1.host := by
  unfold Cache.look at h ⊢
  split at h
  · split at h
    · rename_i hpresent _ hflaw
      rw [if_pos hpresent]
      exact hflaw
    · cases h
  · cases h

theorem hasArchive_of_confirm {cache : Cache}
    (h : (cache.confirm reader revision .archive).2 = .ended (.ok ())) :
    revision.HasArchive reader (cache.confirm reader revision .archive).1.host := by
  unfold Cache.confirm at h ⊢
  split at h
  · rename_i hflaw
    exact hflaw
  · cases h

/-- A call for the archive, and what is known of the host in its stage. -/
structure SeeksArchive (reader : Zip.Reader) (revision : Revision) (home : Location)
    (cache : Cache) (call : Call) : Prop where
  same : call.revision = revision
  goal : call.goal = .archive
  ahead : call.stage.isBehindArchive = false
  named : call.stage ≠ .asked → call.stage.result? = none → revision.isNamed = true
  sound : revision.Sound reader cache.host home call.stage

/-- The cache folder may have to be made first; no links are in the places of the
archive and of its transfer. -/
def InCache (revision : Revision) (home : Location) (cache : Cache) : Prop :=
  revision.Housed revision.transferNames cache.host home

theorem SeeksArchive.fetches (fetcher : Fetcher) {cache : Cache} {call : Call}
    (hcache : InCache revision home cache) (hcall : SeeksArchive reader revision home cache call) :
    revision.Fetches reader revision.transferNames home cache
      (Cache.act fetcher reader call.revision call.goal cache call.stage).1
      (Cache.act fetcher reader call.revision call.goal cache call.stage).2 := by
  rw [hcall.same]
  exact Revision.fetches_act fetcher call.goal (List.Subset.refl _) revision.transferNames_subset
    hcache hcall.named hcall.sound (Stage.isUnpacking_of_isBehindArchive hcall.ahead)

theorem keepsUp_archive (fetcher : Fetcher) (reader : Zip.Reader) (revision : Revision)
    (home : Location) :
    KeepsUp fetcher reader (InCache revision home) (SeeksArchive reader revision home) where
  own cache call hcache hcall hresult := by
    have hfetches := hcall.fetches fetcher hcache
    refine ⟨hfetches.housed, hcall.same, hcall.goal, ?_, fun _ hnext => ?_, hfetches.sound⟩
    · have hnext := Cache.next_act fetcher reader call.revision call.goal cache hresult
      rw [hcall.goal] at hnext ⊢
      exact hnext.isBehindArchive hcall.ahead
    · rw [hcall.same] at hnext
      exact Revision.isNamed_act hcall.named hnext
  others cache call other _ _ _ hother hlock := by
    refine ⟨hother.same, hother.goal, hother.ahead, hother.named, ?_⟩
    have hahead := hother.ahead
    cases hstage : other.stage <;> rw [hstage] at hlock hahead <;> trivial

theorem holds_of_asked (reader : Zip.Reader) (hcalls : ∀ call ∈ start.calls,
      call.revision = revision ∧ call.goal = .archive ∧ call.stage = .asked)
    (hhoused : revision.Housed revision.transferNames start.cache.host home) :
    start.Holds (InCache revision home) (SeeksArchive reader revision home) := by
  refine ⟨exclusive_of_asked fun call hcall => (hcalls call hcall).2.2, hhoused,
    fun call hcall => ?_⟩
  obtain ⟨hsame, hgoal, hstage⟩ := hcalls call hcall
  refine ⟨hsame, hgoal, by rw [hstage]; rfl, fun hasked => absurd hstage hasked, ?_⟩
  rw [hstage]
  trivial

theorem Traces.transfers_eq (h : sharing.Traces fetcher reader moves now)
    (hholds : sharing.Holds (InCache revision home) (SeeksArchive reader revision home)) :
    now.cache.transfers =
      List.replicate (moves.filter (·.before.isTransferring)).length revision.url ++
        sharing.cache.transfers := by
  induction h with
  | refl => rfl
  | @move sharing next now first moves hfirst rest ih =>
      obtain ⟨call, hcall, hbefore, -, -, hnext, -⟩ := hfirst.exists_call
      have hfirstTransfers : next.cache.transfers = if first.before.isTransferring then
          revision.url :: sharing.cache.transfers else sharing.cache.transfers := by
        rw [hnext, ← hbefore, ← (hholds.each call (List.mem_of_getElem? hcall)).same]
        exact Cache.transfers_act
      rw [ih (hholds.moves (keepsUp_archive fetcher reader revision home) hfirst), hfirstTransfers,
        List.filter_cons]
      split
      · rw [List.length_cons, List.replicate_succ', List.append_assoc, List.singleton_append]
      · rfl

theorem Traces.transferring_nodup (h : sharing.Traces fetcher reader moves now) :
    ((moves.filter (·.before.isTransferring)).map (·.number)).Nodup := by
  induction h with
  | refl => exact List.nodup_nil
  | @move sharing next now first moves hfirst rest ih =>
      rw [List.filter_cons]
      split
      · rename_i htransferring
        refine List.nodup_cons.mpr ⟨fun hmem => ?_, ih⟩
        obtain ⟨again, hagain, hnumber⟩ := List.mem_map.mp hmem
        obtain ⟨hmove, hbefore⟩ := List.mem_filter.mp hagain
        obtain ⟨call, hcall, hstage, -, -, -, hafter⟩ := hfirst.exists_call
        have hlater := rest.rank_le (hfirst.getElem?_calls_self hcall) again hmove hnumber
        have hless : first.after.rank < 11 := by
          rw [hafter, hstage, Stage.eq_of_isTransferring htransferring]
          exact Cache.rank_transfer_lt fetcher call.revision sharing.cache
        have hrank : again.before.rank = 11 := by
          rw [Stage.eq_of_isTransferring hbefore]
          rfl
        dsimp only at hlater
        omega
      · exact ih

theorem Moves.settled (h : sharing.Moves fetcher reader move next)
    (hholds : sharing.Holds (InCache revision home) (SeeksArchive reader revision home))
    (harchive : revision.HasArchive reader sharing.cache.host) :
    next.cache.host = sharing.cache.host ∧ move.before.isTransferring = false := by
  obtain ⟨call, hcall, hbefore, -, -, hnext, -⟩ := h.exists_call
  have hseeks := hholds.each call (List.mem_of_getElem? hcall)
  constructor
  · rw [hnext]
    exact ((hseeks.fetches fetcher hholds.base).settled harchive).1
  · by_contra htransferring
    rw [Bool.not_eq_false] at htransferring
    have hsound := hseeks.sound
    rw [hbefore, Stage.eq_of_isTransferring htransferring] at hsound
    exact hsound.2 harchive

theorem Traces.settled (h : sharing.Traces fetcher reader moves now)
    (hholds : sharing.Holds (InCache revision home) (SeeksArchive reader revision home))
    (harchive : revision.HasArchive reader sharing.cache.host) :
    now.cache.host = sharing.cache.host ∧ ∀ move ∈ moves, move.before.isTransferring = false := by
  refine h.lasts (revision.HasArchive reader) (keepsUp_archive fetcher reader revision home) ?_
    hholds harchive
  intro sharing move next hholds harchive hmoves
  exact hmoves.settled hholds harchive

theorem ends_with_archive_of_holds
    (hholds : sharing.Holds (InCache revision home) (SeeksArchive reader revision home))
    (h : sharing.Moves fetcher reader move next) (hafter : move.after = .ended (.ok ())) :
    move.before.holdsLock = true ∧ revision.HasArchive reader next.cache.host := by
  obtain ⟨call, hcall, hbefore, hresult, -, hnext, hact⟩ := h.exists_call
  have hseeks := hholds.each call (List.mem_of_getElem? hcall)
  have hway := Cache.next_act fetcher reader call.revision call.goal sharing.cache hresult
  rw [hafter] at hact
  rw [← hact, hseeks.goal] at hway
  have hhost : next.cache =
      (Cache.act fetcher reader call.revision call.goal sharing.cache call.stage).1 := by
    rw [hnext]
    rfl
  rw [hseeks.same, hseeks.goal] at hact hhost
  rw [← hbefore, hhost]
  rcases hway.eq_of_ok hseeks.ahead with hstage | hstage
  · rw [hstage, Cache.act] at hact ⊢
    exact ⟨rfl, hasArchive_of_look hact.symm⟩
  · rw [hstage, Cache.act] at hact ⊢
    exact ⟨rfl, hasArchive_of_confirm hact.symm⟩

/-- How calls for the archive of one revision share its transfers. -/
structure SharesTransfers (fetcher : Fetcher) (reader : Zip.Reader) (revision : Revision)
    (start : Sharing) : Prop where
  /-- At most one transfer goes on at any moment. -/
  one_at_a_time : ∀ moves now, start.Traces fetcher reader moves now →
    now.calls.countP (·.stage.inTransfer) ≤ 1
  /-- No call transfers twice. -/
  once_each : ∀ moves now, start.Traces fetcher reader moves now →
    ((moves.filter (·.before.isTransferring)).map (·.number)).Nodup
  /-- The fetcher is asked for the archive in these moves, and else not. -/
  accounted : ∀ moves now, start.Traces fetcher reader moves now → now.cache.transfers =
    List.replicate (moves.filter (·.before.isTransferring)).length revision.url ++
      start.cache.transfers
  /-- A call that transfers took the lock before. -/
  only_with_lock : ∀ before middle transferring next, start.Traces fetcher reader before middle →
    middle.Moves fetcher reader transferring next → transferring.before.isTransferring = true →
    ∃ taking ∈ before, taking.number = transferring.number ∧ taking.before.awaitsLock = true
  /-- When it took the lock, there was no archive. -/
  only_if_missing : ∀ before middle taking next after now,
    start.Traces fetcher reader before middle → middle.Moves fetcher reader taking next →
    next.Traces fetcher reader after now → taking.before.awaitsLock = true →
    (∃ move ∈ after, move.number = taking.number ∧ move.before.isTransferring = true) →
    ¬ revision.HasArchive reader middle.cache.host
  /-- A call that ends well releases the lock when there is an archive. -/
  ends_with_archive : ∀ before middle ending next, start.Traces fetcher reader before middle →
    middle.Moves fetcher reader ending next → ending.after = .ended (.ok ()) →
    ending.before.holdsLock = true ∧ revision.HasArchive reader next.cache.host
  /-- Once there is an archive, no move changes the host or transfers anything. -/
  lasts : ∀ before middle after now, start.Traces fetcher reader before middle →
    middle.Traces fetcher reader after now → revision.HasArchive reader middle.cache.host →
    now.cache.host = middle.cache.host ∧ ∀ move ∈ after, move.before.isTransferring = false

/-- Calls for one archive share its transfers, whatever the fetcher answers and however
their stages interleave. -/
theorem sharesTransfers_of_asked (fetcher : Fetcher)
    (hcalls : ∀ call ∈ start.calls,
      call.revision = revision ∧ call.goal = .archive ∧ call.stage = .asked)
    (hhoused : revision.Housed revision.transferNames start.cache.host home) :
    SharesTransfers fetcher reader revision start := by
  have hkeeps := keepsUp_archive fetcher reader revision home
  have hstart := holds_of_asked reader hcalls hhoused
  refine ⟨?_, ?_, ?_, ?_, ?_, ?_, ?_⟩
  · intro moves now htrace
    exact (List.countP_mono_left fun _ _ => Stage.holdsLock_of_inTransfer).trans
      (htrace.exclusive hstart.exclusive)
  · intro moves now htrace
    exact htrace.transferring_nodup
  · intro moves now htrace
    exact htrace.transfers_eq hstart
  · intro before middle transferring next hbefore htransfers htransferring
    obtain ⟨call, hcall, hstage, -⟩ := htransfers.exists_call
    refine hbefore.exists_taking (fun asked hasked => ?_) hcall ?_
    · rw [(hcalls asked (List.mem_of_getElem? hasked)).2.2]
      rfl
    · rw [hstage, Stage.eq_of_isTransferring htransferring]
      rfl
  · rintro before middle taking next after now hbefore htaking hafter hawaits
      ⟨move, hmove, -, htransferring⟩ harchive
    obtain ⟨call, -, hcall, -, -, hnext, -⟩ := htaking.exists_call
    have hsame : next.cache = middle.cache := by
      rw [hnext]
      exact act_fst_of_not_holdsLock (Stage.not_holdsLock_of_awaitsLock (by rw [hcall, hawaits]))
    have hmiddle := hbefore.holds hkeeps hstart
    obtain ⟨-, hnone⟩ := hafter.settled (hmiddle.moves hkeeps htaking) (hsame ▸ harchive)
    rw [hnone move hmove] at htransferring
    cases htransferring
  · intro before middle ending next hbefore hending hafter
    exact ends_with_archive_of_holds (hbefore.holds hkeeps hstart) hending hafter
  · intro before middle after now hbefore hafter harchive
    exact hafter.settled (hbefore.holds hkeeps hstart) harchive

open Conformance.Revision (brokenHost interrupted scriptArchive scriptRevision ready_brokenHost
  not_hasArchive_brokenHost)

def pairForArchive : Sharing where
  cache := { host := brokenHost }
  calls := [⟨scriptRevision, .archive, .asked⟩, ⟨scriptRevision, .archive, .asked⟩]

/-- The transfer of the one call breaks off, and that of the other brings an archive. -/
theorem sharesTransfers_of_asked_pair :
    SharesTransfers interrupted Zip.Archive.ofBytes scriptRevision pairForArchive ∧
    ∃ moves now, pairForArchive.Traces interrupted Zip.Archive.ofBytes moves now ∧
      now.calls.map (·.stage) =
        [.ended (.error (.download scriptRevision.url "HTTP 503")), .ended (.ok ())] ∧
      now.cache.transfers = [scriptRevision.url, scriptRevision.url] ∧
      now.cache.host.read scriptRevision.archivePath = .ok scriptArchive := by
  have hnamed : scriptRevision.isNamed = true := by decide
  have hready : scriptRevision.Ready pairForArchive.cache.host ["cache"] := ready_brokenHost
  obtain ⟨failed, result, hfirst, hattempted, hcomes⟩ :=
    hready.exists_ensure hnamed not_hasArchive_brokenHost interrupted
  cases hcomes with
  | corrupt hwhole => cases hwhole
  | fetched hwhole => cases hwhole
  | failed hfailure hgone =>
      obtain rfl := Option.some.inj hfailure
      have hcount : failed.transfers = [scriptRevision.url] := hattempted.transfers
      obtain ⟨mended, result, hsecond, hattempted', hcomes⟩ :=
        hattempted.ready.exists_ensure hnamed
          (Revision.Comes.not_hasArchive (.failed hfailure hgone)) interrupted
      have hdelivery : interrupted failed.transfers.length scriptRevision.url =
          { bytes := scriptArchive } := by
        rw [hcount]
        rfl
      rw [hdelivery] at hcomes
      obtain ⟨rfl, hread⟩ := hcomes.of_readable rfl Revision.ofBytes_scriptArchive
      obtain ⟨before, hbefore⟩ := exists_traces_complete 0 pairForArchive.calls rfl
        (by simp [pairForArchive, Stage.holdsLock])
        (Revision.complete_of_ensure hfirst)
      obtain ⟨after, hafter⟩ := exists_traces_complete 1
        [⟨scriptRevision, .archive, .ended _⟩, ⟨scriptRevision, .archive, .asked⟩] rfl
        (by simp [Stage.holdsLock]) (Revision.complete_of_ensure hsecond)
      refine ⟨?_, _, _, hbefore.trans hafter, rfl, ?_, hread⟩
      · exact sharesTransfers_of_asked interrupted (by simp [pairForArchive])
          ready_brokenHost.usable.housed
      · rw [← hcount]
        exact hattempted'.transfers

end Conformance.Sharing
