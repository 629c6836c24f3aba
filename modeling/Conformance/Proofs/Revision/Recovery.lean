import Conformance.Proofs.Revision.Neighbours
import Conformance.Proofs.Revision.Opening
import Conformance.Proofs.Revision.Ready

namespace Conformance.Revision

open Conformance.Host (Location)

/-! Calls that fail, and those that come after them. -/

variable {fetcher : Fetcher} {reader : Zip.Reader} {revision : Revision} {cache next last : Cache}
  {host : Host} {home : Location} {delivery : Delivery}

/-- What a call comes to that transfers something, by what the transfer delivers. -/
inductive Comes (revision : Revision) (reader : Zip.Reader) (delivery : Delivery) (host : Host) :
    Except Error String → Prop
  | failed {refusal : Refusal} (failure : delivery.failure = some refusal)
      (gone : host.isPresent revision.archivePath = false) :
      Comes revision reader delivery host (.error (refusal.toError revision.url))
  | corrupt {problem : Zip.Problem} (whole : delivery.failure = none)
      (unreadable : reader delivery.bytes = .error problem)
      (placed : host.read revision.archivePath = .ok delivery.bytes) :
      Comes revision reader delivery host (.error (.corruptArchive revision.archivePath problem))
  | fetched {entries : Zip.Archive} (whole : delivery.failure = none)
      (readable : reader delivery.bytes = .ok entries)
      (placed : host.read revision.archivePath = .ok delivery.bytes) :
      Comes revision reader delivery host (.ok revision.archivePath)

/-- There was one transfer, of which no file is left, and the next call may begin. -/
structure Attempted (revision : Revision) (home : Location) (cache next : Cache) : Prop where
  ready : revision.Ready next.host home
  transfers : next.transfers = revision.url :: cache.transfers
  cleared : next.host.isPresent revision.partialPath = false

theorem ensure_eq {result : Except Error Unit}
    (h : Cache.complete fetcher reader revision .archive cache .asked = (next, result)) :
    revision.ensure fetcher cache reader = (next, result.map fun _ => revision.archivePath) := by
  unfold ensure
  rw [h]

theorem ensure_of_misnamed (fetcher : Fetcher) (cache : Cache)
    (hnamed : revision.isNamed = false) :
    revision.ensure fetcher cache reader =
      (cache, .error (.invalidArgument (.badRevision revision.name))) := by
  have hask : cache.ask revision =
      (cache, .fail (.invalidArgument (.badRevision revision.name))) := by
    unfold Cache.ask
    rw [hnamed]
    rfl
  have hcomplete : Cache.complete fetcher reader revision .archive cache .asked =
      (cache, .error (.invalidArgument (.badRevision revision.name))) := by
    rw [Cache.complete_of_running rfl, Cache.act, hask]
    exact Cache.complete_ended _
  exact ensure_eq hcomplete

/-- A call that finds no archive transfers once, and what it comes to is up to the transfer. -/
theorem Ready.exists_ensure (hready : revision.Ready cache.host home)
    (hnamed : revision.isNamed = true) (hnone : ¬ revision.HasArchive reader cache.host)
    (fetcher : Fetcher) :
    ∃ next result, revision.ensure fetcher cache reader = (next, result) ∧
      revision.Attempted home cache next ∧
      revision.Comes reader (fetcher cache.transfers.length revision.url) next.host result := by
  generalize hdelivery : fetcher cache.transfers.length revision.url = delivery
  obtain ⟨started, hstarted, hcount, hfree, hasking⟩ :=
    exists_complete_asked hready hnamed fetcher .archive hnone
  obtain ⟨opened, hopened, hcount', hfree', hopening⟩ :=
    exists_complete_opening hstarted hnamed fetcher .archive hfree
  rw [← hcount, ← hcount'] at hdelivery
  obtain ⟨received, hreceived, htransfers, hfree'', hpart, htransferring⟩ :=
    exists_complete_transferring hopened hnamed .archive hdelivery hfree'
  rw [hcount', hcount] at htransfers
  have hcomplete := hasking.trans (hopening.trans htransferring)
  have hcleared {last : Cache} (hlast : revision.Ready last.host home)
      (hgone : last.host.get? (home ++ [revision.partialName]) = none) :
      last.host.isPresent revision.partialPath = false := by
    rw [Bool.eq_false_iff, partialPath_eq, Ne,
      hlast.isPresent_place hnamed revision.partialName_mem, hgone]
    simp
  cases hfailure : delivery.failure with
  | some refusal =>
      obtain ⟨last, hlast, hcount, hsame, hgone, hcleaning⟩ := exists_complete_cleaning hreceived
        hnamed fetcher .archive (refusal.toError revision.url) (by simp [hpart])
      rw [hfailure] at hcomplete
      refine ⟨last, _, ensure_eq (hcomplete.trans hcleaning),
        ⟨hlast, hcount.trans htransfers, hcleared hlast hgone⟩, .failed hfailure ?_⟩
      rw [Bool.eq_false_iff, archivePath_eq, Ne,
        hlast.isPresent_place hnamed revision.archiveName_mem, hsame, hfree'']
      simp
  | none =>
      obtain ⟨last, hlast, hcount, hthere, hgone, hplacing⟩ :=
        exists_complete_placing hreceived hnamed fetcher .archive hfree'' hpart
      rw [hfailure] at hcomplete
      have hread : last.host.read revision.archivePath = .ok delivery.bytes :=
        (hlast.read_place hnamed revision.archiveName_mem).mpr hthere
      have hended := hcomplete.trans
        (hplacing.trans (complete_confirming hlast hnamed fetcher hthere))
      refine ⟨last, _, ensure_eq hended,
        ⟨hlast, hcount.trans htransfers, hcleared hlast hgone⟩, ?_⟩
      cases hbytes : reader delivery.bytes with
      | error problem => exact .corrupt hfailure hbytes hread
      | ok entries => exact .fetched hfailure hbytes hread

namespace Usable

variable (husable : revision.Usable cache.host home) (hnamed : revision.isNamed = true)

include husable hnamed

theorem exists_ready : ∃ standing : Cache, revision.Ready standing.host home ∧
    standing.transfers = cache.transfers ∧
    (revision.HasArchive reader standing.host → revision.HasArchive reader cache.host) ∧
    ∀ fetcher, Cache.complete fetcher reader revision .archive cache .asked =
      Cache.complete fetcher reader revision .archive standing .asked := by
  cases husable.housed with
  | there hkept hlinkless =>
      exact ⟨cache, ⟨husable.toUnblocked, hkept, hlinkless⟩, rfl, id, fun _ => rfl⟩
  | @missing parent made habsent hbare hparent hcreates hkept hmadeBare =>
      have hstands : revision.Stands reader cache made home :=
        stands_of_made hnamed habsent hbare hparent hcreates hkept hmadeBare
      have hfree (name : String) (hname : name ∈ revision.transferNames) :
          made.get? (home ++ [name]) = none :=
        hmadeBare _ (Host.under_append (revision.transferNames_subset hname) [])
      have hready : revision.Ready made home :=
        ⟨⟨husable.reach, fun name hname => by simp [hfree name hname]⟩, hkept,
          hstands.linkless.mono revision.transferNames_subset⟩
      refine ⟨{ cache with host := made }, hready, rfl, fun harchive => absurd harchive ?_,
        fun fetcher => hstands.complete fetcher .archive⟩
      have hnone := hfree _ revision.archiveName_mem
      exact not_hasArchive_of_get?_none hkept hnamed (by simp [hnone]) hnone

theorem exists_ensure (hnone : ¬ revision.HasArchive reader cache.host) (fetcher : Fetcher) :
    ∃ next result, revision.ensure fetcher cache reader = (next, result) ∧
      revision.Attempted home cache next ∧
      revision.Comes reader (fetcher cache.transfers.length revision.url) next.host result := by
  obtain ⟨standing, hready, hcount, harchive, hcomplete⟩ := husable.exists_ready hnamed
  obtain ⟨next, result, hensure, hattempted, hcomes⟩ :=
    hready.exists_ensure hnamed (mt harchive hnone) fetcher
  refine ⟨next, result, ?_, ⟨hattempted.ready, ?_, hattempted.cleared⟩, ?_⟩
  · rw [← hensure, ensure, ensure, hcomplete]
  · rw [hattempted.transfers, hcount]
  · rwa [hcount] at hcomes

end Usable

theorem Comes.not_hasArchive {error : Error}
    (h : revision.Comes reader delivery host (.error error)) :
      ¬ revision.HasArchive reader host := by
  intro harchive
  cases h with
  | failed hfailure hgone => simp [harchive.isPresent] at hgone
  | corrupt hwhole hunreadable hplaced =>
      obtain ⟨entries, hentries⟩ := Cache.flaw?_eq_none_iff.mp harchive
      obtain ⟨bytes, hread, hbytes⟩ := Cache.archiveAt_eq_ok_iff.mp hentries
      obtain rfl := Except.ok.inj (hplaced.symm.trans hread)
      rw [hunreadable] at hbytes
      cases hbytes

theorem Comes.of_readable {entries : Zip.Archive} {result : Except Error String}
    (h : revision.Comes reader delivery host result) (hwhole : delivery.failure = none)
    (hreadable : reader delivery.bytes = .ok entries) :
    result = .ok revision.archivePath ∧ host.read revision.archivePath = .ok delivery.bytes := by
  cases h with
  | failed hfailure hgone =>
      rw [hwhole] at hfailure
      cases hfailure
  | corrupt _ hunreadable hplaced =>
      rw [hreadable] at hunreadable
      cases hunreadable
  | fetched _ _ hplaced => exact ⟨rfl, hplaced⟩

/-- From one cache to another by failing calls: each is for the revision, or for one that
has no name. -/
inductive FailsTo (revision : Revision) (reader : Zip.Reader) : Cache → Cache → Prop
  | done {cache : Cache} : FailsTo revision reader cache cache
  | call {cache next last : Cache} {other : Revision} {fetcher : Fetcher} {error : Error}
      (about : other = revision ∨ other.isNamed = false)
      (failed : other.ensure fetcher cache reader = (next, .error error))
      (rest : FailsTo revision reader next last) : FailsTo revision reader cache last

theorem eq_of_failed {other : Revision} {error : Error} (hnamed : revision.isNamed = true)
    (habout : other = revision ∨ other.isNamed = false)
    (hfailed : other.ensure fetcher cache reader = (next, .error error))
    (harchive : revision.HasArchive reader cache.host) : next = cache := by
  rcases habout with rfl | hmisnamed
  · rw [ensure_of_hasArchive fetcher hnamed harchive] at hfailed
    cases congrArg Prod.snd hfailed
  · rw [ensure_of_misnamed fetcher cache hmisnamed] at hfailed
    exact (congrArg Prod.fst hfailed).symm

theorem eq_of_failsTo (hnamed : revision.isNamed = true)
    (hfails : revision.FailsTo reader cache last)
    (harchive : revision.HasArchive reader cache.host) : last = cache := by
  induction hfails with
  | done => rfl
  | call habout hfailed hrest ih =>
      obtain rfl := eq_of_failed hnamed habout hfailed harchive
      exact ih harchive

theorem Usable.of_failed {other : Revision} {error : Error}
    (husable : revision.Usable cache.host home) (hnamed : revision.isNamed = true)
    (habout : other = revision ∨ other.isNamed = false)
    (hfailed : other.ensure fetcher cache reader = (next, .error error)) :
    revision.Usable next.host home ∧
      (revision.HasArchive reader next.host → revision.HasArchive reader cache.host) := by
  by_cases harchive : revision.HasArchive reader cache.host
  · obtain rfl := eq_of_failed hnamed habout hfailed harchive
    exact ⟨husable, id⟩
  · rcases habout with rfl | hmisnamed
    · obtain ⟨after, result, hensure, hattempted, hcomes⟩ :=
        husable.exists_ensure hnamed harchive fetcher
      obtain ⟨rfl, rfl⟩ := Prod.mk.inj (hensure.symm.trans hfailed)
      exact ⟨hattempted.ready.usable, fun hthere => absurd hthere hcomes.not_hasArchive⟩
    · rw [ensure_of_misnamed fetcher cache hmisnamed] at hfailed
      obtain rfl := congrArg Prod.fst hfailed
      exact ⟨husable, id⟩

theorem Usable.of_failsTo (husable : revision.Usable cache.host home)
    (hnamed : revision.isNamed = true) (hfails : revision.FailsTo reader cache last) :
    revision.Usable last.host home ∧
      (revision.HasArchive reader last.host → revision.HasArchive reader cache.host) := by
  induction hfails with
  | done => exact ⟨husable, id⟩
  | call habout hfailed hrest ih =>
      obtain ⟨husable', hbefore⟩ := husable.of_failed hnamed habout hfailed
      exact (ih husable').imp_right fun hlast harchive => hbefore (hlast harchive)

/-- What calls about a revision come to, one by one and after others that failed. -/
structure Recovers (revision : Revision) (reader : Zip.Reader) (home : Location) (cache : Cache) :
    Prop where
  /-- A name that is none is refused, and the cache is left alone. -/
  refused : revision.isNamed = false → ∀ fetcher, revision.ensure fetcher cache reader =
    (cache, .error (.invalidArgument (.badRevision revision.name)))
  /-- An archive that is there is handed out without a transfer, and calls that fail leave it. -/
  found : revision.isNamed = true → revision.HasArchive reader cache.host →
    (∀ fetcher, revision.ensure fetcher cache reader = (cache, .ok revision.archivePath)) ∧
      ∀ last, revision.FailsTo reader cache last → last = cache
  /-- Without one there is one transfer, and no half of it is left. -/
  attempted : revision.isNamed = true → ¬ revision.HasArchive reader cache.host → ∀ fetcher,
    ∃ next result, revision.ensure fetcher cache reader = (next, result) ∧
      revision.Attempted home cache next ∧
      revision.Comes reader (fetcher cache.transfers.length revision.url) next.host result
  /-- However many calls failed, one whose transfer brings an archive ends well. -/
  mended : revision.isNamed = true → ¬ revision.HasArchive reader cache.host →
    ∀ last, revision.FailsTo reader cache last → ∀ (fetcher : Fetcher) delivery entries,
      fetcher last.transfers.length revision.url = delivery → delivery.failure = none →
      reader delivery.bytes = .ok entries →
      ∃ next, revision.ensure fetcher last reader = (next, .ok revision.archivePath) ∧
        revision.Attempted home last next ∧
        next.host.read revision.archivePath = .ok delivery.bytes

/-- No call leaves a cache in which the next one could not fetch the archive. -/
theorem ensure_recovers (husable : revision.isNamed = true → revision.Usable cache.host home) :
    revision.Recovers reader home cache where
  refused hmisnamed fetcher := ensure_of_misnamed fetcher cache hmisnamed
  found hnamed harchive :=
    ⟨fun fetcher => ensure_of_hasArchive fetcher hnamed harchive,
      fun last hfails => eq_of_failsTo hnamed hfails harchive⟩
  attempted hnamed hnone fetcher := (husable hnamed).exists_ensure hnamed hnone fetcher
  mended := by
    intro hnamed hnone last hfails fetcher delivery entries hdelivery hwhole hreadable
    obtain ⟨hlast, hbefore⟩ := (husable hnamed).of_failsTo hnamed hfails
    obtain ⟨next, result, hensure, hattempted, hcomes⟩ :=
      hlast.exists_ensure hnamed (mt hbefore hnone) fetcher
    rw [hdelivery] at hcomes
    obtain ⟨rfl, hplaced⟩ := hcomes.of_readable hwhole hreadable
    exact ⟨next, hensure, hattempted, hplaced⟩

def brokenHost : Host :=
  ((Host.withFolder "cache").put ["cache", "test262-main.zip"] (.file "not a zip".toUTF8)).put
    ["cache", "test262-main.zip.part"] (.file "PK".toUTF8)

theorem get?_brokenHost (location : Location) : brokenHost.get? location =
    if location = ["cache", "test262-main.zip.part"] then some (.file "PK".toUTF8)
    else if location = ["cache", "test262-main.zip"] then some (.file "not a zip".toUTF8)
    else if location = [] ∨ location = ["cache"] then some .folder else none := by
  rw [brokenHost, Host.get?_put _ _ _ _ (by simp), Host.get?_put _ _ _ _ (by simp),
    Host.get?_withFolder]

theorem ready_brokenHost : scriptRevision.Ready brokenHost ["cache"] where
  kept := Host.keptAt_of_folder (by decide) (by decide) rfl (by simp [get?_brokenHost])
  linkless location _ target := by
    rw [get?_brokenHost]
    split
    · simp
    · split
      · simp
      · split <;> simp
  reach := by decide +kernel
  noFolder name hname := by
    rw [get?_brokenHost]
    split
    · simp
    · split <;> simp

theorem not_hasArchive_brokenHost :
    ¬ scriptRevision.HasArchive Zip.Archive.ofBytes brokenHost := by
  intro harchive
  obtain ⟨entries, hentries⟩ := Cache.flaw?_eq_none_iff.mp harchive
  obtain ⟨-, bytes, hfile, hbytes⟩ := (archiveAt_iff ready_brokenHost.kept (by decide)
    (ready_brokenHost.linkless.ne_link scriptRevision.archiveName_mem)).mp hentries
  have hthere : brokenHost.get? ["cache", "test262-main.zip"] =
      some (.file "not a zip".toUTF8) := by
    rw [get?_brokenHost]
    simp
  obtain rfl : "not a zip".toUTF8 = bytes := by
    simpa using hthere.symm.trans hfile
  have hnone : Zip.Archive.ofBytes "not a zip".toUTF8 = .error .noEnd := by decide +kernel
  rw [hnone] at hbytes
  cases hbytes

/-- The first transfer breaks off, and the second brings an archive. -/
def interrupted : Fetcher := fun number _ =>
  if number = 0 then { bytes := "PK".toUTF8, failure := some "HTTP 503" }
  else { bytes := scriptArchive }

theorem ensure_recovers_interrupted : ∃ failed mended,
    scriptRevision.ensure interrupted { host := brokenHost } =
      (failed, .error (.download scriptRevision.url "HTTP 503")) ∧
    failed.host.isPresent scriptRevision.archivePath = false ∧
    scriptRevision.ensure interrupted failed = (mended, .ok scriptRevision.archivePath) ∧
    mended.transfers = [scriptRevision.url, scriptRevision.url] ∧
    mended.host.read scriptRevision.archivePath = .ok scriptArchive := by
  have hrecovers : scriptRevision.Recovers Zip.Archive.ofBytes ["cache"] { host := brokenHost } :=
    ensure_recovers fun _ => ready_brokenHost.usable
  have hnamed : scriptRevision.isNamed = true := by decide
  obtain ⟨failed, result, hfirst, hattempted, hcomes⟩ :=
    hrecovers.attempted hnamed not_hasArchive_brokenHost interrupted
  have hcount : failed.transfers = [scriptRevision.url] := hattempted.transfers
  cases hcomes with
  | failed hfailure hgone =>
      obtain rfl := Option.some.inj hfailure
      have hdelivery : interrupted failed.transfers.length scriptRevision.url =
          { bytes := scriptArchive } := by
        rw [hcount]
        rfl
      obtain ⟨mended, hsecond, hattempted', hread⟩ := hrecovers.mended hnamed
        not_hasArchive_brokenHost failed (.call (.inl rfl) hfirst .done) interrupted _ _ hdelivery
        rfl ofBytes_scriptArchive
      exact ⟨failed, mended, hfirst, hgone, hsecond,
        hattempted'.transfers.trans (by rw [hcount]), hread⟩
  | corrupt hwhole => cases hwhole
  | fetched hwhole => cases hwhole

end Conformance.Revision
