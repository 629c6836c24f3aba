import Conformance.Proofs.Revision.Place
import Conformance.Proofs.Revision.Stages

namespace Conformance.Revision

open Conformance.Path (Ordinary)
open Conformance.Host (Location Under Linkless Confined)
open Conformance.Cache (Goal Stage)

/-! Fetching the archive, stage by stage: what each stage does to the host, and what is
known of the archive when it begins. -/

variable {fetcher : Fetcher} {reader : Zip.Reader} {revision : Revision} {goal : Goal}
  {cache next : Cache} {host other : Host} {home : Location} {names : List String}
  {entries : Zip.Archive} {path : String} {stage : Stage}

/-- An archive that can be read is in the cache. -/
def HasArchive (revision : Revision) (reader : Zip.Reader) (host : Host) : Prop :=
  Cache.flaw? reader host revision.archivePath = none

theorem HasArchive.isPresent (h : revision.HasArchive reader host) :
    host.isPresent revision.archivePath = true := by
  obtain ⟨entries, hentries⟩ := Cache.flaw?_eq_none_iff.mp h
  obtain ⟨bytes, hread, -⟩ := Cache.archiveAt_eq_ok_iff.mp hentries
  unfold Host.isPresent
  unfold Host.read at hread
  cases hfound : host.resolve revision.archivePath with
  | error fault =>
      rw [hfound] at hread
      cases hread
  | ok found => rfl

section

variable (hkept : revision.KeptAt host home) (hnamed : revision.isNamed = true)
  (hplain : ∀ target, host.get? (home ++ [revision.archiveName]) ≠ some (.link target))

include hkept hnamed hplain

theorem archiveAt_iff :
    Cache.archiveAt reader host revision.archivePath = .ok entries ↔
      Host.reach revision.cacheFolder revision.archiveName home =
          .ok (home ++ [revision.archiveName]) ∧
        ∃ bytes, host.get? (home ++ [revision.archiveName]) = some (.file bytes) ∧
          reader bytes = .ok entries := by
  have hordinary := ordinary_of_mem hnamed revision.archiveName_mem_ownNames
  simp only [Cache.archiveAt_eq_ok_iff, archivePath_eq, place,
    hkept.opens.read_name hordinary.2.2 hplain]
  constructor
  · rintro ⟨bytes, ⟨hreach, hfile⟩, hbytes⟩
    exact ⟨hreach, bytes, hfile, hbytes⟩
  · rintro ⟨hreach, bytes, hfile, hbytes⟩
    exact ⟨bytes, ⟨hreach, hfile⟩, hbytes⟩

theorem not_hasArchive_of_get?_none (hnone : host.get? (home ++ [revision.archiveName]) = none) :
    ¬ revision.HasArchive reader host := by
  intro harchive
  obtain ⟨entries, hentries⟩ := Cache.flaw?_eq_none_iff.mp harchive
  obtain ⟨-, bytes, hfile, -⟩ := (archiveAt_iff hkept hnamed hplain).mp hentries
  rw [hnone] at hfile
  cases hfile

theorem archiveAt_congr (hother : revision.KeptAt other home)
    (hsame : other.get? (home ++ [revision.archiveName]) =
      host.get? (home ++ [revision.archiveName])) :
    Cache.archiveAt reader other revision.archivePath = .ok entries ↔
      Cache.archiveAt reader host revision.archivePath = .ok entries := by
  rw [archiveAt_iff hkept hnamed hplain, archiveAt_iff hother hnamed (hsame ▸ hplain), hsame]

theorem hasArchive_congr (hother : revision.KeptAt other home)
    (hsame : other.get? (home ++ [revision.archiveName]) =
      host.get? (home ++ [revision.archiveName])) :
    revision.HasArchive reader other ↔ revision.HasArchive reader host := by
  simp only [HasArchive, Cache.flaw?_eq_none_iff, archiveAt_congr hkept hnamed hplain hother hsame]

end

/-- The cache folder is there, and no link in the places `names` of it; or it is
missing, and can be made. -/
inductive Housed (revision : Revision) (names : List String) (host : Host) (home : Location) : Prop
  | there (kept : revision.KeptAt host home) (linkless : host.Linkless home names)
  | missing {parent : String} {made : Host} (absent : host.isPresent revision.archivePath = false)
      (bare : ∀ location, Under home revision.ownNames location → host.get? location = none)
      (parentPath : Host.parentPath? revision.archivePath = some parent)
      (creates : host.createFolders parent = (made, none))
      (kept : revision.KeptAt made home)
      (madeBare : ∀ location, Under home revision.ownNames location → made.get? location = none)

/-- What is known of the archive in each stage of a call. -/
def Sound (revision : Revision) (reader : Zip.Reader) (host : Host) (home : Location) : Stage → Prop
  | .asked | .awaitingArchive | .looking | .confirming | .ended _ => True
  | .preparing => ¬ revision.HasArchive reader host
  | .discarding | .opening | .transferring | .cleaning _ | .placing =>
    revision.KeptAt host home ∧ ¬ revision.HasArchive reader host
  | .choosing | .awaitingTree | .lookingAgain | .loading | .clearing _ | .unpacking _
  | .settling => revision.HasArchive reader host

/-- What a stage of fetching comes to. -/
structure Fetches (revision : Revision) (reader : Zip.Reader) (names : List String)
    (home : Location)
    (cache next : Cache) (stage : Stage) : Prop where
  housed : revision.Housed names next.host home
  sound : revision.Sound reader next.host home stage
  /-- Once there is an archive, nothing changes any more. -/
  settled : revision.HasArchive reader cache.host →
    next.host = cache.host ∧ next.transfers = cache.transfers
  /-- Trees stay as they are. -/
  tree : ∀ location, Under home revision.treeNames location →
    next.host.get? location = cache.host.get? location
  /-- In a cache folder that is there, it is about the archive and its transfer only. -/
  confined : revision.KeptAt cache.host home →
    cache.host.Confined next.host home revision.transferNames

namespace Fetches

theorem idle (hhoused : revision.Housed names cache.host home) (hhost : next.host = cache.host)
    (htransfers : next.transfers = cache.transfers)
    (hsound : revision.Sound reader cache.host home stage) :
    revision.Fetches reader names home cache next stage :=
  ⟨hhost ▸ hhoused, hhost ▸ hsound, fun _ => ⟨hhost, htransfers⟩, fun _ _ => by rw [hhost],
    fun _ => hhost ▸ .refl cache.host home _⟩

theorem of_confined (hkept : revision.KeptAt cache.host home)
    (hlinkless : cache.host.Linkless home names) (hnames : revision.transferNames ⊆ names)
    (hnone : ¬ revision.HasArchive reader cache.host)
    (hconfined : cache.host.Confined next.host home revision.transferNames)
    (hsound : revision.Sound reader next.host home stage) :
    revision.Fetches reader names home cache next stage := by
  refine ⟨.there (hkept.of_confined revision.transferNames_subset hconfined)
    ((hconfined.mono hnames).linkless hlinkless), hsound, fun harchive => absurd harchive hnone,
    fun location hlocation => ?_, fun _ => hconfined⟩
  obtain ⟨name, hname, rest, rfl⟩ := hlocation.exists_rest
  exact hconfined.get?_append (fun hmem => revision.disjoint_names hmem hname) rest

end Fetches

theorem sound_fail (error : Error) : revision.Sound reader host home (.fail error) := trivial

theorem sound_withArchive (harchive : revision.HasArchive reader host) :
    revision.Sound reader host home (.withArchive goal) := by
  cases goal
  · trivial
  · exact harchive

section

variable (hhoused : revision.Housed names cache.host home)

include hhoused

theorem fetches_look :
    revision.Fetches reader names home cache (cache.look reader revision goal).1
      (cache.look reader revision goal).2 := by
  unfold Cache.look
  split
  · rename_i hpresent
    split
    · rename_i hflaw
      exact .idle hhoused rfl rfl (sound_withArchive hflaw)
    · rename_i problem hflaw
      refine .idle hhoused rfl rfl ⟨?_, by rw [HasArchive, hflaw]; simp⟩
      cases hhoused with
      | there hkept => exact hkept
      | missing habsent =>
          rw [habsent] at hpresent
          cases hpresent
  · rename_i habsent
    exact .idle hhoused rfl rfl fun harchive => habsent harchive.isPresent

theorem fetches_confirm :
    revision.Fetches reader names home cache (cache.confirm reader revision goal).1
      (cache.confirm reader revision goal).2 := by
  unfold Cache.confirm
  split
  · rename_i hflaw
    exact .idle hhoused rfl rfl (sound_withArchive hflaw)
  · exact .idle hhoused rfl rfl (sound_fail _)

theorem fetches_lookForTree {otherwise : Stage}
    (hsound : revision.Sound reader cache.host home otherwise) :
    revision.Fetches reader names home cache (cache.lookForTree revision otherwise).1
      (cache.lookForTree revision otherwise).2 := by
  unfold Cache.lookForTree
  split
  · exact .idle hhoused rfl rfl trivial
  · exact .idle hhoused rfl rfl hsound

theorem fetches_load (harchive : revision.HasArchive reader cache.host) :
    revision.Fetches reader names home cache (cache.load reader revision).1
      (cache.load reader revision).2 := by
  unfold Cache.load
  split
  · exact .idle hhoused rfl rfl harchive
  · exact .idle hhoused rfl rfl (sound_fail _)

theorem fetches_ask :
    revision.Fetches reader names home cache (cache.ask revision).1 (cache.ask revision).2 := by
  unfold Cache.ask
  split
  · exact .idle hhoused rfl rfl trivial
  · exact .idle hhoused rfl rfl (sound_fail _)

end

theorem KeptAt.isPresent_archivePath (hkept : revision.KeptAt host home)
    (hnamed : revision.isNamed = true)
    (hfree : host.get? (home ++ [revision.archiveName]) = none) :
    host.isPresent revision.archivePath = false := by
  have hname := (ordinary_of_mem hnamed revision.archiveName_mem_ownNames).2.2
  have hpresent := hkept.opens.isPresent_name hname (by simp [hfree])
  rw [archivePath_eq, place, Bool.eq_false_iff]
  intro hthere
  exact (hpresent.mp hthere).2 hfree

theorem createFolders_parent {parent : String} (hkept : revision.KeptAt host home)
    (hnamed : revision.isNamed = true)
    (hparent : Host.parentPath? revision.archivePath = some parent) :
    host.createFolders parent = (host, if parent = "" then none else Host.refusal? parent) := by
  obtain ⟨hempty, hslash, -⟩ := ordinary_of_mem hnamed revision.archiveName_mem_ownNames
  obtain ⟨folder, hfolder, hnames, habsolute⟩ :=
    Host.parentPath?_join revision.cacheFolder hempty hslash
  obtain rfl : parent = folder := Option.some.inj (hparent.symm.trans hfolder)
  have hleads := hkept.opens.leads
  have horigin : host.origin parent = host.origin revision.cacheFolder := by
    rw [Host.origin, Host.origin, habsolute]
  rw [← hnames, ← horigin] at hleads
  exact Host.createFolders_of_leads hleads hkept.isFolderAt

theorem exists_prepared (hnamed : revision.isNamed = true) :
    ∃ stage : Stage, (stage = .opening ∨ ∃ error, stage = .fail error) ∧
      ∀ (cache : Cache) (home : Location), revision.KeptAt cache.host home →
        cache.prepare revision = (cache, stage) := by
  obtain ⟨hempty, hslash, -⟩ := ordinary_of_mem hnamed revision.archiveName_mem_ownNames
  obtain ⟨parent, hparent, -⟩ := Host.parentPath?_join revision.cacheFolder hempty hslash
  have hparent' : Host.parentPath? revision.archivePath = some parent := hparent
  unfold Cache.prepare
  simp only [hparent']
  cases hfault : (if parent = "" then none else Host.refusal? parent) with
  | none =>
      refine ⟨.opening, .inl rfl, fun cache home hkept => ?_⟩
      rw [createFolders_parent hkept hnamed hparent', hfault]
  | some fault =>
      refine ⟨.fail (.host fault), .inr ⟨_, rfl⟩, fun cache home hkept => ?_⟩
      rw [createFolders_parent hkept hnamed hparent', hfault]

theorem fetches_prepare (hhoused : revision.Housed names cache.host home)
    (hnamed : revision.isNamed = true) (hsub : names ⊆ revision.ownNames)
    (hnone : ¬ revision.HasArchive reader cache.host) :
    revision.Fetches reader names home cache (cache.prepare revision).1
      (cache.prepare revision).2 := by
  cases hhoused with
  | there hkept hlinkless =>
      obtain ⟨stage, hstage, hprepare⟩ := exists_prepared hnamed
      rw [hprepare cache home hkept]
      refine .idle (.there hkept hlinkless) rfl rfl ?_
      rcases hstage with rfl | ⟨error, rfl⟩
      · exact ⟨hkept, hnone⟩
      · exact sound_fail error
  | @missing parent made habsent hbare hparent hcreates hkept hmadeBare =>
      have hmade : cache.prepare revision = ({ cache with host := made }, .opening) := by
        unfold Cache.prepare
        rw [hparent]
        dsimp only
        rw [hcreates]
      have hlinkless : made.Linkless home names := fun location hlocation target => by
        simp [hmadeBare location (hlocation.mono hsub)]
      have hfree := hmadeBare _ (Host.under_append
        revision.archiveName_mem_ownNames [])
      refine ⟨?_, ?_, fun harchive => absurd harchive hnone, fun location hlocation => ?_,
        fun hthere => ?_⟩
      · rw [hmade]
        exact .there hkept hlinkless
      · rw [hmade]
        exact ⟨hkept, not_hasArchive_of_get?_none hkept hnamed (by simp [hfree]) hfree⟩
      · have hown := hlocation.mono revision.treeNames_subset
        rw [hmade, hbare location hown]
        exact hmadeBare location hown
      · obtain ⟨stage, -, hprepare⟩ := exists_prepared hnamed
        rw [hprepare cache home hthere]
        exact .refl cache.host home _

section

variable (hkept : revision.KeptAt cache.host home) (hnamed : revision.isNamed = true)
  (hlinkless : cache.host.Linkless home names) (hnames : revision.transferNames ⊆ names)
  (hnone : ¬ revision.HasArchive reader cache.host)

include hkept hnamed hlinkless hnames hnone

theorem fetches_discard :
    revision.Fetches reader names home cache
      (cache.change (cache.host.remove revision.archivePath) .preparing).1
      (cache.change (cache.host.remove revision.archivePath) .preparing).2 := by
  have hordinary := ordinary_of_mem hnamed revision.archiveName_mem_ownNames
  unfold Cache.change
  split
  · rename_i next hremoved
    obtain rfl := hkept.opens.remove_name hordinary.2.2 hremoved
    have hconfined : cache.host.Confined (cache.host.drop (home ++ [revision.archiveName])) home
        revision.transferNames := Host.confined_drop revision.archiveName_mem cache.host
    have hfree : (cache.host.drop (home ++ [revision.archiveName])).get?
        (home ++ [revision.archiveName]) = none := by
      rw [Host.get?_drop (by simp), if_pos rfl]
    exact .of_confined hkept hlinkless hnames hnone hconfined
      (not_hasArchive_of_get?_none (hkept.of_confined revision.transferNames_subset hconfined)
        hnamed (by simp [hfree]) hfree)
  · exact .idle (.there hkept hlinkless) rfl rfl (sound_fail _)

/-- What is done to the file of a transfer leaves the archive as it is. -/
theorem fetches_of_partial (hhost : next.host = cache.host ∨
      cache.host.Confined next.host home [revision.partialName])
    (hsound : revision.KeptAt next.host home → ¬ revision.HasArchive reader next.host →
      revision.Sound reader next.host home stage) :
    revision.Fetches reader names home cache next stage := by
  have hconfined : cache.host.Confined next.host home [revision.partialName] := by
    rcases hhost with hsame | hconfined
    · rw [hsame]
      exact .refl _ home _
    · exact hconfined
  have hkeptNext := hkept.of_confined
    (List.Subset.trans revision.partialName_subset revision.transferNames_subset) hconfined
  refine .of_confined hkept hlinkless hnames hnone (hconfined.mono revision.partialName_subset)
    (hsound hkeptNext ?_)
  rwa [hasArchive_congr hkept hnamed (hlinkless.ne_link (hnames revision.archiveName_mem)) hkeptNext
    (hconfined.get?_append (by simpa using revision.partialName_ne_archiveName.symm) [])]

omit hnone in
theorem confined_write_partial {bytes : ByteArray}
    (h : cache.host.write revision.partialPath bytes = .ok host) :
    cache.host.Confined host home [revision.partialName] := by
  have hordinary := ordinary_of_mem hnamed revision.partialName_mem_ownNames
  obtain ⟨-, rfl⟩ := hkept.opens.write_name hordinary.2.2
    (hlinkless.ne_link (hnames revision.partialName_mem)) h
  exact Host.confined_put (List.mem_singleton_self _) (by simp) [] cache.host

theorem fetches_openPartial :
    revision.Fetches reader names home cache (cache.openPartial revision).1
      (cache.openPartial revision).2 := by
  unfold Cache.openPartial
  split
  · rename_i host hwritten
    exact fetches_of_partial hkept hnamed hlinkless hnames hnone
      (.inr (confined_write_partial hkept hnamed hlinkless hnames hwritten)) .intro
  · exact fetches_of_partial hkept hnamed hlinkless hnames hnone (.inl rfl) .intro

theorem fetches_transfer :
    revision.Fetches reader names home cache (cache.transfer fetcher revision).1
      (cache.transfer fetcher revision).2 := by
  unfold Cache.transfer Cache.receive
  dsimp only
  split
  · exact fetches_of_partial hkept hnamed hlinkless hnames hnone (.inl rfl) .intro
  · rename_i host hwritten _
    exact fetches_of_partial hkept hnamed hlinkless hnames hnone
      (.inr (confined_write_partial hkept hnamed hlinkless hnames hwritten)) .intro
  · rename_i host reason hwritten _
    exact fetches_of_partial hkept hnamed hlinkless hnames hnone
      (.inr (confined_write_partial hkept hnamed hlinkless hnames hwritten)) .intro

theorem fetches_clean (failure : Error) :
    revision.Fetches reader names home cache (cache.clean revision failure).1
      (cache.clean revision failure).2 := by
  have hordinary := ordinary_of_mem hnamed revision.partialName_mem_ownNames
  unfold Cache.clean
  split
  · rename_i next hremoved
    obtain rfl := hkept.opens.remove_name hordinary.2.2 hremoved
    exact fetches_of_partial hkept hnamed hlinkless hnames hnone
      (.inr (Host.confined_drop (List.mem_singleton_self _) cache.host)) fun _ _ => sound_fail _
  · exact fetches_of_partial hkept hnamed hlinkless hnames hnone (.inl rfl)
      fun _ _ => sound_fail _
  · exact fetches_of_partial hkept hnamed hlinkless hnames hnone (.inl rfl)
      fun _ _ => sound_fail _

theorem fetches_place :
    revision.Fetches reader names home cache
      (cache.change (cache.host.rename revision.partialPath revision.archivePath) .confirming).1
      (cache.change (cache.host.rename revision.partialPath revision.archivePath)
        .confirming).2 := by
  unfold Cache.change
  split
  · rename_i next hrenamed
    obtain ⟨-, -, rfl⟩ := hkept.opens.rename_names
      (ordinary_of_mem hnamed revision.partialName_mem_ownNames).2.2
      (ordinary_of_mem hnamed revision.archiveName_mem_ownNames).2.2
      revision.partialName_ne_archiveName hrenamed
    exact .of_confined hkept hlinkless hnames hnone
      (Host.confined_moveTree revision.partialName_mem revision.archiveName_mem cache.host) trivial
  · exact .idle (.there hkept hlinkless) rfl rfl (sound_fail _)

end

theorem isNamed_act (hnamed : stage ≠ .asked → stage.result? = none → revision.isNamed = true)
    (hresult : (Cache.act fetcher reader revision goal cache stage).2.result? = none) :
    revision.isNamed = true := by
  cases stage with
  | asked =>
      change (cache.ask revision).2.result? = none at hresult
      unfold Cache.ask at hresult
      split at hresult
      · assumption
      · cases hresult
  | ended => cases hresult
  | _ => exact hnamed (by simp) rfl

theorem fetches_act (fetcher : Fetcher) (goal : Goal) (hnames : revision.transferNames ⊆ names)
    (hsub : names ⊆ revision.ownNames) (hhoused : revision.Housed names cache.host home)
    (hnamed : stage ≠ .asked → stage.result? = none → revision.isNamed = true)
    (hsound : revision.Sound reader cache.host home stage) (hstage : stage.isUnpacking = false) :
    revision.Fetches reader names home cache (Cache.act fetcher reader revision goal cache stage).1
      (Cache.act fetcher reader revision goal cache stage).2 := by
  have hlinkless (hkept : revision.KeptAt cache.host home) : cache.host.Linkless home names := by
    cases hhoused with
    | there _ hlinkless => exact hlinkless
    | missing _ hbare =>
        intro location hlocation target
        simp [hbare location (hlocation.mono hsub)]
  cases stage with
  | asked => exact fetches_ask hhoused
  | awaitingArchive => exact .idle hhoused rfl rfl trivial
  | looking => exact fetches_look hhoused
  | discarding =>
      obtain ⟨hkept, hnone⟩ := hsound
      exact fetches_discard hkept (hnamed (by simp) rfl) (hlinkless hkept) hnames hnone
  | preparing => exact fetches_prepare hhoused (hnamed (by simp) rfl) hsub hsound
  | opening =>
      obtain ⟨hkept, hnone⟩ := hsound
      exact fetches_openPartial hkept (hnamed (by simp) rfl) (hlinkless hkept) hnames hnone
  | transferring =>
      obtain ⟨hkept, hnone⟩ := hsound
      exact fetches_transfer hkept (hnamed (by simp) rfl) (hlinkless hkept) hnames hnone
  | cleaning failure =>
      obtain ⟨hkept, hnone⟩ := hsound
      exact fetches_clean hkept (hnamed (by simp) rfl) (hlinkless hkept) hnames hnone failure
  | placing =>
      obtain ⟨hkept, hnone⟩ := hsound
      exact fetches_place hkept (hnamed (by simp) rfl) (hlinkless hkept) hnames hnone
  | confirming => exact fetches_confirm hhoused
  | choosing => exact fetches_lookForTree hhoused hsound
  | awaitingTree => exact .idle hhoused rfl rfl hsound
  | lookingAgain => exact fetches_lookForTree hhoused hsound
  | loading => exact fetches_load hhoused hsound
  | clearing => cases hstage
  | unpacking => cases hstage
  | settling => cases hstage
  | ended => exact .idle hhoused rfl rfl trivial

end Conformance.Revision
