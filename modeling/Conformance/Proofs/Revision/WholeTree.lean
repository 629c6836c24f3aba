import Conformance.Proofs.Revision.Lock
import Conformance.Proofs.Revision.Opening

namespace Conformance.Sharing

open Conformance.Cache (Stage)
open Conformance.Host (Location)

/-! Calls for one revision's tree, whose stages interleave. -/

variable {fetcher : Fetcher} {reader : Zip.Reader} {revision : Revision} {home : Location}
  {start sharing next middle now : Sharing} {moves : List Move} {move : Move}

/-- A call for the revision, and what is known of the host in its stage. -/
structure SeeksTree (reader : Zip.Reader) (revision : Revision) (home : Location)
    (cache : Cache) (call : Call) : Prop where
  same : call.revision = revision
  named : call.stage ≠ .asked → call.stage.result? = none → revision.isNamed = true
  sound : revision.Sound reader cache.host home call.stage
  extracts : revision.Extracts reader cache.host home call.stage
  resolved : ∀ entry ∈ call.stage.entries, entry.IsResolved

/-- The cache folder may have to be made first; no links are in the revision's places; and
in that of the tree is all of it or nothing. -/
structure AllOrNothing (reader : Zip.Reader) (revision : Revision) (home : Location)
    (cache : Cache) : Prop where
  housed : revision.Housed revision.ownNames cache.host home
  rooted : revision.Rooted cache.host home
  tree : revision.LacksTree cache.host home ∨
    revision.isNamed = true ∧ revision.HasTree reader cache.host home

theorem AllOrNothing.lacks_or_has {cache : Cache} (h : AllOrNothing reader revision home cache) :
    revision.LacksTree cache.host home ∨ revision.HasTree reader cache.host home :=
  h.tree.imp_right And.right

theorem SeeksTree.advances (fetcher : Fetcher) {cache : Cache} {call : Call}
    (hcache : AllOrNothing reader revision home cache)
    (hcall : SeeksTree reader revision home cache call)
    (hresult : call.stage.result? = none) :
    revision.Advances reader home cache
      (Cache.act fetcher reader call.revision call.goal cache call.stage).1 call.stage
      (Cache.act fetcher reader call.revision call.goal cache call.stage).2 := by
  rw [hcall.same]
  exact Revision.advances_act hcache.housed hcall.named hcall.sound hcall.extracts
    hcache.lacks_or_has hcache.rooted hcall.resolved hresult

theorem keepsUp_tree (fetcher : Fetcher) (hreader : reader.Resolves) (revision : Revision)
    (home : Location) :
    KeepsUp fetcher reader (AllOrNothing reader revision home) (SeeksTree reader revision home)
      where
  own cache call hcache hcall hresult := by
    have hadvances := hcall.advances fetcher hcache hresult
    refine ⟨⟨hadvances.housed, hadvances.rooted, ?_⟩, hcall.same, fun _ hnext => ?_,
      hadvances.sound, hadvances.extracts,
      Cache.entries_act (fun _ _ _ => hreader _ _) hresult hcall.resolved⟩
    · rcases hcache.tree with hlacks | ⟨hnamed, hhas⟩
      · by_cases hsettled : call.stage = .settling ∧
            (Cache.act fetcher reader call.revision call.goal cache call.stage).2 = .ended (.ok ())
        · exact .inr ⟨hcall.named (by simp [hsettled.1]) hresult,
            hadvances.placed hsettled.1 hsettled.2⟩
        · exact .inl (hadvances.lacks hlacks hsettled)
      · rw [hadvances.has hhas]
        exact .inr ⟨hnamed, hhas⟩
    · rw [hcall.same] at hnext
      exact Revision.isNamed_act hcall.named hnext
  others cache call other hcache hcall hresult hother hlock := by
    have hadvances := hcall.advances fetcher hcache hresult
    have hsound := hother.sound
    refine ⟨hother.same, hother.named, ?_, ?_, hother.resolved⟩
    · generalize other.stage = stage at hsound hlock ⊢
      cases stage <;> first | exact True.intro | exact hadvances.archive hsound | cases hlock
    · generalize other.stage = stage at hlock ⊢
      cases stage <;> first | exact True.intro | cases hlock

theorem Moves.advances (h : sharing.Moves fetcher reader move next)
    (hholds : sharing.Holds (AllOrNothing reader revision home) (SeeksTree reader revision home)) :
    revision.Advances reader home sharing.cache next.cache move.before move.after := by
  obtain ⟨call, hcall, hbefore, hresult, -, hnext, hafter⟩ := h.exists_call
  have hadvances := (hholds.each call (List.mem_of_getElem? hcall)).advances fetcher
    hholds.base hresult
  rw [hnext, ← hbefore, hafter]
  exact hadvances

theorem Moves.extracts (h : sharing.Moves fetcher reader move next)
    (hholds : sharing.Holds (AllOrNothing reader revision home) (SeeksTree reader revision home)) :
    revision.Extracts reader sharing.cache.host home move.before := by
  obtain ⟨call, hcall, hbefore, -⟩ := h.exists_call
  rw [← hbefore]
  exact (hholds.each call (List.mem_of_getElem? hcall)).extracts

theorem isFolder_of_hasTree {host : Host} (hhoused : revision.Housed revision.ownNames host home)
    (hnamed : revision.isNamed = true) (hhas : revision.HasTree reader host home) :
    host.isFolder revision.treePath = true := by
  have harchive := hhas.hasArchive
  obtain ⟨hkept, hlinkless⟩ := hhoused.of_hasArchive harchive
  obtain ⟨entries, -, hroot, -⟩ := hhas
  exact (Revision.isFolder_treePath hkept hnamed hlinkless harchive).mpr hroot

theorem SeeksTree.ne_error {cache : Cache} {call : Call}
    (hcache : AllOrNothing reader revision home cache)
    (hcall : SeeksTree reader revision home cache call) (hresult : call.stage.result? = none)
    (hhas : revision.HasTree reader cache.host home) (error : Error) :
    (Cache.act fetcher reader call.revision call.goal cache call.stage).2 ≠ .ended (.error error) :=
      by
  have hnamed : revision.isNamed = true :=
    (hcache.tree.resolve_left fun hlacks => hlacks.not_hasTree hhas).1
  have harchive := hhas.hasArchive
  have hfolder := isFolder_of_hasTree hcache.housed hnamed hhas
  have hsound := hcall.sound
  have hextracts := hcall.extracts
  rw [hcall.same]
  generalize call.stage = stage at hresult hsound hextracts ⊢
  have hflaw : Cache.flaw? reader cache.host revision.archivePath = none := harchive
  cases stage with
  | asked =>
      rw [Cache.act]
      unfold Cache.ask
      rw [if_pos hnamed]
      simp
  | awaitingArchive =>
      rw [Cache.act]
      simp
  | looking =>
      rw [Cache.act]
      unfold Cache.look
      rw [if_pos harchive.isPresent, hflaw]
      cases call.goal <;> simp [Stage.withArchive]
  | confirming =>
      rw [Cache.act]
      unfold Cache.confirm
      rw [hflaw]
      cases call.goal <;> simp [Stage.withArchive]
  | choosing =>
      rw [Cache.act]
      unfold Cache.lookForTree
      rw [if_pos hfolder]
      simp
  | awaitingTree =>
      rw [Cache.act]
      simp
  | lookingAgain =>
      rw [Cache.act]
      unfold Cache.lookForTree
      rw [if_pos hfolder]
      simp
  | ended => cases hresult
  | preparing => exact absurd harchive hsound
  | discarding => exact absurd harchive hsound.2
  | opening => exact absurd harchive hsound.2
  | transferring => exact absurd harchive hsound.2
  | cleaning failure => exact absurd harchive hsound.2
  | placing => exact absurd harchive hsound.2
  | loading => exact absurd hhas (hextracts.lacksTree rfl).not_hasTree
  | clearing entries => exact absurd hhas (hextracts.lacksTree rfl).not_hasTree
  | unpacking entries => exact absurd hhas (hextracts.lacksTree rfl).not_hasTree
  | settling => exact absurd hhas (hextracts.lacksTree rfl).not_hasTree

theorem Moves.has_tree (h : sharing.Moves fetcher reader move next)
    (hholds : sharing.Holds (AllOrNothing reader revision home) (SeeksTree reader revision home))
    (hhas : revision.HasTree reader sharing.cache.host home) :
    next.cache.host = sharing.cache.host ∧ move.before.isExtracting = false ∧
      ∀ error, move.after ≠ .ended (.error error) := by
  obtain ⟨call, hcall, -, hresult, -, -, hafter⟩ := h.exists_call
  refine ⟨(h.advances hholds).has hhas, ?_, fun error => ?_⟩
  · by_contra hextracting
    rw [Bool.not_eq_false] at hextracting
    exact ((h.extracts hholds).lacksTree hextracting).not_hasTree hhas
  · rw [hafter]
    have hseeks := hholds.each call (List.mem_of_getElem? hcall)
    exact hseeks.ne_error hholds.base hresult hhas error

theorem Traces.has_tree (hreader : reader.Resolves) (h : sharing.Traces fetcher reader moves now)
    (hholds : sharing.Holds (AllOrNothing reader revision home) (SeeksTree reader revision home))
    (hhas : revision.HasTree reader sharing.cache.host home) :
    now.cache.host = sharing.cache.host ∧ ∀ move ∈ moves, move.before.isExtracting = false ∧
      ∀ error, move.after ≠ .ended (.error error) := by
  refine h.lasts (revision.HasTree reader · home) (keepsUp_tree fetcher hreader revision home) ?_
    hholds hhas
  intro sharing move next hholds hhas hmoves
  exact hmoves.has_tree hholds hhas

def Move.isExtraction (move : Move) : Bool :=
  match move.before, move.after with
  | .settling, .ended (.ok _) => true
  | _, _ => false

theorem Move.eq_of_isExtraction (h : move.isExtraction = true) :
    move.before = .settling ∧ move.after = .ended (.ok ()) := by
  unfold isExtraction at h
  split at h
  · rename_i hbefore hafter
    exact ⟨hbefore, hafter⟩
  · cases h

theorem Traces.extraction_once (hreader : reader.Resolves)
    (h : sharing.Traces fetcher reader moves now)
    (hholds : sharing.Holds (AllOrNothing reader revision home) (SeeksTree reader revision home)) :
    (moves.filter (·.isExtraction)).length ≤ 1 := by
  induction h with
  | refl => simp
  | @move sharing next now first moves hfirst rest ih =>
      have hnext := hholds.moves (keepsUp_tree fetcher hreader revision home) hfirst
      rw [List.filter_cons]
      split
      · rename_i hextraction
        obtain ⟨hbefore, hafter⟩ := Move.eq_of_isExtraction hextraction
        obtain ⟨-, hnone⟩ :=
          rest.has_tree hreader hnext ((hfirst.advances hholds).placed hbefore hafter)
        have hempty : moves.filter (·.isExtraction) = [] := by
          rw [List.filter_eq_nil_iff]
          intro move hmove hagain
          have hextracting := (hnone move hmove).1
          rw [(Move.eq_of_isExtraction hagain).1] at hextracting
          cases hextracting
        simp [hempty]
      · exact ih hnext

theorem isFolder_of_lookForTree {cache : Cache} {otherwise : Stage}
    (hmissed : otherwise ≠ .ended (.ok ()))
    (h : (cache.lookForTree revision otherwise).2 = .ended (.ok ())) :
    (cache.lookForTree revision otherwise).1 = cache ∧
      cache.host.isFolder revision.treePath = true := by
  unfold Cache.lookForTree at h ⊢
  split at h
  · rename_i hfolder
    rw [if_pos hfolder]
    exact ⟨rfl, hfolder⟩
  · exact absurd h hmissed

theorem AllOrNothing.hasTree_of_isFolder {cache : Cache}
    (h : AllOrNothing reader revision home cache)
    (hnamed : revision.isNamed = true) (harchive : revision.HasArchive reader cache.host)
    (hfolder : cache.host.isFolder revision.treePath = true) :
    revision.HasTree reader cache.host home := by
  obtain ⟨hkept, hlinkless⟩ := h.housed.of_hasArchive harchive
  refine h.lacks_or_has.resolve_left fun hlacks => ?_
  have hroot := (Revision.isFolder_treePath hkept hnamed hlinkless harchive).mp hfolder
  rw [hlacks []] at hroot
  cases hroot

theorem has_tree_of_ended
    (hholds : sharing.Holds (AllOrNothing reader revision home) (SeeksTree reader revision home))
    (h : sharing.Moves fetcher reader move next)
    (hgoal : sharing.calls[move.number]?.map (·.goal) = some .tree)
    (hafter : move.after = .ended (.ok ())) : revision.HasTree reader next.cache.host home := by
  obtain ⟨call, hcall, hbefore, hresult, -, hnext, hact⟩ := h.exists_call
  have hseeks := hholds.each call (List.mem_of_getElem? hcall)
  have hway := Cache.next_act fetcher reader call.revision call.goal sharing.cache hresult
  rw [hcall, Option.map_some, Option.some.injEq] at hgoal
  rw [← hact, hafter, hgoal] at hway
  have hadvances := h.advances hholds
  have hlook (otherwise : Stage) (hmissed : otherwise ≠ .ended (.ok ()))
      (hstage : call.stage ≠ .asked) (harchive : revision.HasArchive reader sharing.cache.host)
      (hlooks : Cache.act fetcher reader call.revision call.goal sharing.cache call.stage =
        sharing.cache.lookForTree revision otherwise) :
          revision.HasTree reader next.cache.host home := by
    rw [hlooks, hafter] at hact
    obtain ⟨hsame, hfolder⟩ := isFolder_of_lookForTree hmissed hact.symm
    have hhas := hholds.base.hasTree_of_isFolder (hseeks.named hstage hresult) harchive hfolder
    rwa [hadvances.has hhas]
  have hsound := hseeks.sound
  generalize hstage : call.stage = stage at hway hsound
  cases hway with
  | chosen =>
      refine hlook .awaitingTree (by simp) (by simp [hstage]) hsound ?_
      rw [hstage, hseeks.same, Cache.act]
  | chosenAgain =>
      refine hlook .loading (by simp) (by simp [hstage]) hsound ?_
      rw [hstage, hseeks.same, Cache.act]
  | settled => exact hadvances.placed (hbefore.symm.trans hstage) hafter

/-- How calls for the tree of one revision come to it. -/
structure ExtractsWhole (fetcher : Fetcher) (reader : Zip.Reader) (revision : Revision)
    (home : Location) (start : Sharing) : Prop where
  /-- At every moment there is no tree, or all of what the archive unpacks to. -/
  whole_or_absent : ∀ moves now, start.Traces fetcher reader moves now →
    revision.LacksTree now.cache.host home ∨ revision.HasTree reader now.cache.host home
  /-- An extraction that fails leaves no tree. -/
  fails_absent : ∀ before middle failing next error, start.Traces fetcher reader before middle →
    middle.Moves fetcher reader failing next → failing.before.isExtracting = true →
    failing.after = .ended (.error error) → revision.LacksTree next.cache.host home
  /-- At most one extraction succeeds. -/
  once : ∀ moves now, start.Traces fetcher reader moves now →
    (moves.filter (·.isExtraction)).length ≤ 1
  /-- Once the tree is there, it is extracted no more and stays as it is, and no call
  fails. -/
  reused : ∀ before middle after now, start.Traces fetcher reader before middle →
    middle.Traces fetcher reader after now → revision.HasTree reader middle.cache.host home →
    now.cache.host = middle.cache.host ∧ ∀ move ∈ after, move.before.isExtracting = false ∧
      ∀ error, move.after ≠ .ended (.error error)
  /-- A call for the tree ends well only where the tree is there. -/
  ends_with_tree : ∀ before middle ending next, start.Traces fetcher reader before middle →
    middle.Moves fetcher reader ending next →
    middle.calls[ending.number]?.map (·.goal) = some .tree →
    ending.after = .ended (.ok ()) → revision.HasTree reader next.cache.host home

/-- Extraction is all or nothing, whatever is in the archive, whatever an earlier attempt
left in the scratch folder, and however the stages of the calls interleave. -/
theorem extractsWhole_of_asked (fetcher : Fetcher) (hreader : reader.Resolves)
    (hcalls : ∀ call ∈ start.calls, call.revision = revision ∧ call.stage = .asked)
    (hhoused : revision.Housed revision.ownNames start.cache.host home)
    (hlacks : revision.LacksTree start.cache.host home)
    (hrooted : revision.Rooted start.cache.host home) :
    ExtractsWhole fetcher reader revision home start := by
  have hkeeps := keepsUp_tree fetcher hreader revision home
  have hstart :
      start.Holds (AllOrNothing reader revision home) (SeeksTree reader revision home) := by
    refine ⟨exclusive_of_asked fun call hcall => (hcalls call hcall).2,
      ⟨hhoused, hrooted, .inl hlacks⟩, fun call hcall => ?_⟩
    obtain ⟨hsame, hstage⟩ := hcalls call hcall
    refine ⟨hsame, fun hasked => absurd hstage hasked, ?_, ?_, ?_⟩ <;> rw [hstage]
    · exact True.intro
    · exact True.intro
    · exact nofun
  refine ⟨?_, ?_, ?_, ?_, ?_⟩
  · intro moves now htrace
    exact (htrace.holds hkeeps hstart).base.lacks_or_has
  · intro before middle failing next error hbefore hfailing hextracting hafter
    have hmiddle := hbefore.holds hkeeps hstart
    refine (hfailing.advances hmiddle).lacks ((hfailing.extracts hmiddle).lacksTree hextracting) ?_
    rintro ⟨-, hended⟩
    rw [hafter] at hended
    cases hended
  · intro moves now htrace
    exact htrace.extraction_once hreader hstart
  · intro before middle after now hbefore hafter hhas
    exact hafter.has_tree hreader (hbefore.holds hkeeps hstart) hhas
  · intro before middle ending next hbefore hending hgoal hafter
    exact has_tree_of_ended (hbefore.holds hkeeps hstart) hending hgoal hafter

open Conformance.Revision (scriptHost scriptRevision scriptEntry get?_scriptHost kept_scriptHost
  treeAt)

def litteredHost : Host :=
  (scriptHost.put ["cache", ".test262-main.extracting"] .folder).put
    ["cache", ".test262-main.extracting", "old.js"] (.file "1;".toUTF8)

theorem get?_litteredHost (location : Location) : litteredHost.get? location =
    if location = ["cache", ".test262-main.extracting", "old.js"] then some (.file "1;".toUTF8)
    else if location = ["cache", ".test262-main.extracting"] then some .folder
    else scriptHost.get? location := by
  rw [litteredHost, Host.get?_put _ _ _ _ (by simp), Host.get?_put _ _ _ _ (by simp)]

theorem kept_litteredHost : scriptRevision.KeptAt litteredHost ["cache"] ∧
    litteredHost.Linkless ["cache"] scriptRevision.ownNames := by
  have hthere : litteredHost.get? ["cache"] = some .folder := by
    simp [get?_litteredHost, get?_scriptHost]
  refine ⟨Host.keptAt_of_folder (by decide) (by decide) rfl hthere, ?_⟩
  intro location hlocation target
  rw [get?_litteredHost]
  split
  · simp
  · split
    · simp
    · exact kept_scriptHost.2 location hlocation target

theorem archiveAt_litteredHost :
    Cache.archiveAt Zip.Archive.ofBytes litteredHost scriptRevision.archivePath =
      .ok [scriptEntry] := by
  have hsame : litteredHost.get? (["cache"] ++ [scriptRevision.archiveName]) =
      scriptHost.get? (["cache"] ++ [scriptRevision.archiveName]) := by
    rw [get?_litteredHost, if_neg (by decide), if_neg (by decide)]
  obtain ⟨hkept, hlinkless⟩ := kept_scriptHost
  exact (Revision.archiveAt_congr hkept (by decide)
    (hlinkless.ne_link scriptRevision.archiveName_mem_ownNames) kept_litteredHost.1 hsame).mpr
      Revision.archiveAt_scriptHost

theorem extractable_litteredHost :
    scriptRevision.Extractable litteredHost ["cache"] [scriptEntry] := by
  refine ⟨Revision.extractable_scriptHost.1, fun bytes => ?_⟩
  rw [treeAt, get?_litteredHost, if_neg (by decide), if_pos (by decide)]
  simp

def pairForTree : Sharing where
  cache := { host := litteredHost }
  calls := [⟨scriptRevision, .tree, .asked⟩, ⟨scriptRevision, .tree, .asked⟩]

/-- The one call extracts, and the other finds its tree, in which is nothing that was left
over. -/
theorem extractsWhole_of_asked_pair :
    ExtractsWhole (fun _ _ => { bytes := .empty }) Zip.Archive.ofBytes scriptRevision ["cache"]
      pairForTree ∧
    ∃ moves now, pairForTree.Traces (fun _ _ => { bytes := .empty }) Zip.Archive.ofBytes moves now ∧
      (∀ call ∈ now.calls, call.stage = .ended (.ok ())) ∧
      treeAt now.cache.host ["cache"] "test262-main" ["test", "a.js"] =
        some (.file "0;".toUTF8) ∧
      treeAt now.cache.host ["cache"] "test262-main" ["old.js"] = none := by
  obtain ⟨hkept, hlinkless⟩ := kept_litteredHost
  have hnamed : scriptRevision.isNamed = true := by decide
  have hhoused : scriptRevision.Housed scriptRevision.ownNames litteredHost ["cache"] :=
    .there hkept hlinkless
  have hlacks : scriptRevision.LacksTree litteredHost ["cache"] := by
    intro rest
    rw [treeAt, show scriptRevision.rootName = "test262-main" by decide, get?_litteredHost,
      get?_scriptHost]
    simp
  have hrooted : scriptRevision.Rooted litteredHost ["cache"] := by
    intro hnone
    rw [treeAt, get?_litteredHost, if_neg (by decide), if_pos (by decide)] at hnone
    cases hnone
  have hwhole : ExtractsWhole (fun _ _ => { bytes := .empty }) Zip.Archive.ofBytes scriptRevision
      ["cache"] pairForTree :=
    extractsWhole_of_asked _ Zip.resolves_ofBytes (by simp [pairForTree]) hhoused hlacks hrooted
  have harchive : scriptRevision.HasArchive Zip.Archive.ofBytes pairForTree.cache.host :=
    Cache.flaw?_eq_none_iff.mpr ⟨_, archiveAt_litteredHost⟩
  rcases Revision.complete_tree hhoused
      (Revision.ensure_of_hasArchive (fun _ _ => { bytes := .empty }) hnamed harchive)
      archiveAt_litteredHost hnamed hrooted hlacks
      (Revision.isLaidOut_scriptEntry.isUnpackable (by decide)) with
    ⟨-, next, hfirst, hconfined, htree⟩ | ⟨hnot, -⟩
  · obtain ⟨before, hbefore⟩ := exists_traces_complete 0 pairForTree.calls rfl
      (by simp [pairForTree, Stage.holdsLock]) hfirst
    have hfolder : treeAt next.host ["cache"] "test262-main" [] = some .folder :=
      (htree []).trans (Revision.isLaidOut_scriptEntry.unpackedAt_root (by decide))
    have hhas : scriptRevision.HasTree Zip.Archive.ofBytes next.host ["cache"] :=
      (hwhole.whole_or_absent _ _ hbefore).resolve_left fun hnone =>
        absurd ((hnone []).symm.trans hfolder) (by simp)
    have hsecond := Revision.complete_of_isFolder (fun _ _ => { bytes := .empty }) hnamed
      hhas.hasArchive (isFolder_of_hasTree
        (.there (hkept.of_confined scriptRevision.treeNames_subset hconfined)
          ((hconfined.mono scriptRevision.treeNames_subset).linkless hlinkless)) hnamed hhas)
    obtain ⟨after, hafter⟩ := exists_traces_complete 1
      [⟨scriptRevision, .tree, .ended (.ok ())⟩, ⟨scriptRevision, .tree, .asked⟩] rfl
      (by simp [Stage.holdsLock]) hsecond
    refine ⟨hwhole, _, _, hbefore.trans hafter, by simp, ?_, ?_⟩
    · exact (htree _).trans Revision.unpackedAt_scriptEntry
    · refine (htree _).trans ?_
      decide +kernel
  · exact absurd extractable_litteredHost hnot

end Conformance.Sharing
