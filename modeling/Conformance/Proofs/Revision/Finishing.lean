import Conformance.Proofs.Revision.Extraction
import Conformance.Proofs.Revision.Placing

namespace Conformance

open Conformance.Path (Ordinary ofNames)
open Conformance.Host (Location Under Linkless Confined)
open Conformance.Cache (Goal Stage)

/-! Extractions that come to an end with a tree: those that nothing holds up. -/

namespace Zip.Archive.IsLaidOut

open Conformance.Revision (unpackedAt)

variable {revision : Revision} {entry : Zip.Entry} {done rest : Zip.Archive} {target : List String}

theorem isFree (h : Zip.Archive.IsLaidOut (done ++ entry :: rest) revision.rootName)
    (hroot : Ordinary revision.rootName)
    (htarget : Revision.target? revision.rootName entry = some target) :
    Revision.IsFree (unpackedAt revision.rootName done) entry.isFolder target := by
  have hentry : entry ∈ done ++ entry :: rest := by simp
  have hmem : ∀ {other}, other ∈ done → other ∈ done ++ entry :: rest :=
    fun hother => List.mem_append_left _ hother
  obtain ⟨location, hlocation⟩ := h.named entry hentry
  obtain ⟨hcorpus, rfl⟩ := (Revision.target?_of_standsAt hlocation).mp htarget
  have hplain : ∀ front, front <+: location → (front ≠ location ∨ entry.isFolder = true) →
      unpackedAt revision.rootName done front = none ∨
        unpackedAt revision.rootName done front = some .folder := by
    intro front hfront hother
    cases hfound : unpackedAt revision.rootName done front with
    | none => exact .inl rfl
    | some found =>
        cases found with
        | folder => exact .inr rfl
        | link target => exact absurd hfound (Revision.unpackedAt_ne_link target)
        | file bytes =>
            obtain ⟨file, hfile, hplaced, -⟩ := Revision.exists_placesFile hfound
            obtain ⟨above, habove⟩ := h.named file (hmem hfile)
            obtain ⟨hisFile, -, rfl⟩ := (Revision.placesFile_of_standsAt habove).mp hplaced
            obtain rfl := h.eq_of_prefix (hmem hfile) hisFile hentry habove hlocation hfront
            rcases hother with hdiffer | hfolder
            · exact absurd (habove.unique hroot hlocation) hdiffer
            · rw [hisFile] at hfolder
              cases hfolder
  refine ⟨fun front hfront hwhole => hplain front hfront (.inl hwhole),
    fun hfolder => hplain location List.prefix_rfl (.inr hfolder), fun hfile hfolder => ?_⟩
  obtain ⟨other, hother, hneeds⟩ := Revision.exists_needsFolder hfolder
  have hplaced := (Revision.placesFile_of_standsAt hlocation).mpr ⟨hfile, hcorpus, rfl⟩
  rw [h.not_needsFolder hroot hentry (hmem hother) hplaced] at hneeds
  cases hneeds

end Zip.Archive.IsLaidOut

/-- Every entry can be read and leads to a place, if to any, that those before it leave free,
and there are entries of the corpus. -/
structure Zip.Archive.IsUnpackable (archive : Zip.Archive) (rootName : String) : Prop where
  resolved : ∀ entry ∈ archive, entry.IsResolved
  readable : ∀ entry ∈ archive, ∃ bytes, entry.read = .ok bytes
  free : ∀ done entry rest, archive = done ++ entry :: rest → ∀ target,
    Revision.target? rootName entry = some target →
      Revision.IsFree (Revision.unpackedAt rootName done) entry.isFolder target
  rooted : Revision.unpackedAt rootName archive [] = some .folder

theorem Zip.Archive.IsLaidOut.isUnpackable {archive : Zip.Archive} {revision : Revision}
    (h : archive.IsLaidOut revision.rootName) (hroot : Ordinary revision.rootName) :
    archive.IsUnpackable revision.rootName where
  resolved _ hentry := h.isResolved hroot hentry
  readable := h.readable
  free := by
    rintro done entry rest rfl target htarget
    exact h.isFree hroot htarget
  rooted := h.unpackedAt_root hroot

namespace Revision

variable {fetcher : Fetcher} {reader : Zip.Reader} {revision : Revision} {goal : Goal}
  {cache next : Cache} {home : Location} {archive done entries : Zip.Archive}

/-- What an extraction needs of the host: it takes the paths of all entries, and there is no
file in the scratch folder's place. -/
def Extractable (revision : Revision) (host : Host) (home : Location) (archive : Zip.Archive) :
    Prop :=
  (∀ entry ∈ archive, revision.Takes entry) ∧
    ∀ bytes, treeAt host home revision.scratchName [] ≠ some (.file bytes)

theorem reach_scratchName (home : Location) (hnul : '\x00' ∉ revision.cacheFolder.toList)
    (hscratch : Ordinary revision.scratchName)
    (hunpackable : archive.IsUnpackable revision.rootName)
    (htakes : ∀ entry ∈ archive, revision.Takes entry) :
    Host.reach revision.cacheFolder revision.scratchName home =
      .ok (home ++ [revision.scratchName]) := by
  obtain ⟨entry, hentry, hneeds⟩ := exists_needsFolder hunpackable.rooted
  obtain ⟨target, htarget, -⟩ := needsFolder_iff.mp hneeds
  exact reach_of_fits hnul hscratch
    (ordinary_of_target? (hunpackable.resolved entry hentry) htarget).2
    (htakes entry hentry target htarget)

section

variable (hkept : revision.KeptAt cache.host home) (hscratch : Ordinary revision.scratchName)

include hkept hscratch

theorem isPresent_scratchPath (hlinkless : cache.host.Linkless home [revision.scratchName]) :
    cache.host.isPresent revision.scratchPath = true ↔
      Host.reach revision.cacheFolder revision.scratchName home =
          .ok (home ++ [revision.scratchName]) ∧
        treeAt cache.host home revision.scratchName [] ≠ none :=
  hkept.opens.isPresent_name (fun _ => hscratch) (hlinkless.ne_link (List.mem_singleton_self _))

theorem find_scratchPath (hreach : Host.reach revision.cacheFolder revision.scratchName home =
      .ok (home ++ [revision.scratchName])) :
    cache.host.find revision.scratchPath false = .ok (home ++ [revision.scratchName]) :=
  (hkept.opens.find_name (fun _ => hscratch) (.inl rfl)).trans hreach

theorem clear_eq_unpacking (hlinkless : cache.host.Linkless home [revision.scratchName])
    (hfile : ∀ bytes, treeAt cache.host home revision.scratchName [] ≠ some (.file bytes))
    (entries : Zip.Archive) : (cache.clear revision entries).2 = .unpacking entries := by
  unfold Cache.clear
  split
  · rename_i hpresent
    obtain ⟨hreach, hthere⟩ := (isPresent_scratchPath hkept hscratch hlinkless).mp hpresent
    obtain ⟨entry, hentry⟩ := Option.ne_none_iff_exists'.mp hthere
    have hget : cache.host.get? (home ++ [revision.scratchName]) = some entry := hentry
    unfold Cache.change Host.removeTree
    rw [find_scratchPath hkept hscratch hreach]
    simp only [bind, Except.bind, hget]
    cases entry with
    | file bytes => exact absurd hentry (hfile bytes)
    | folder => rfl
    | link target => exact absurd hget (hlinkless.ne_link (List.mem_singleton_self _) target)
  · rfl

theorem clear_eq_fail {bytes : ByteArray}
    (hlinkless : cache.host.Linkless home [revision.scratchName])
    (hreach : Host.reach revision.cacheFolder revision.scratchName home =
      .ok (home ++ [revision.scratchName]))
    (hfile : treeAt cache.host home revision.scratchName [] = some (.file bytes))
    (entries : Zip.Archive) :
    cache.clear revision entries = (cache, .fail (.host .notDirectory)) := by
  have hget : cache.host.get? (home ++ [revision.scratchName]) = some (.file bytes) := hfile
  have hpresent := (isPresent_scratchPath hkept hscratch hlinkless).mpr ⟨hreach, by simp [hfile]⟩
  unfold Cache.clear
  rw [if_pos hpresent]
  unfold Cache.change Host.removeTree
  rw [find_scratchPath hkept hscratch hreach]
  simp only [bind, Except.bind, hget]

theorem clear_of_not_reach (hlinkless : cache.host.Linkless home [revision.scratchName])
    (hreach : Host.reach revision.cacheFolder revision.scratchName home ≠
      .ok (home ++ [revision.scratchName])) (entries : Zip.Archive) :
    cache.clear revision entries = (cache, .unpacking entries) := by
  have habsent : cache.host.isPresent revision.scratchPath = false := by
    rw [Bool.eq_false_iff]
    intro hpresent
    exact hreach ((isPresent_scratchPath hkept hscratch hlinkless).mp hpresent).1
  unfold Cache.clear
  rw [habsent]
  rfl

theorem rename_scratch (hroot : Ordinary revision.rootName)
    (hreach : Host.reach revision.cacheFolder revision.scratchName home =
      .ok (home ++ [revision.scratchName]))
    (hreachRoot : Host.reach revision.cacheFolder revision.rootName home =
      .ok (home ++ [revision.rootName]))
    (hthere : treeAt cache.host home revision.scratchName [] ≠ none)
    (hfree : treeAt cache.host home revision.rootName [] = none) :
    cache.host.rename revision.scratchPath revision.treePath =
      .ok (cache.host.moveTree (home ++ [revision.scratchName]) (home ++ [revision.rootName])) := by
  have hnew : cache.host.find revision.treePath false = .ok (home ++ [revision.rootName]) :=
    (hkept.opens.find_name (fun _ => hroot) (.inl rfl)).trans hreachRoot
  have hget : cache.host.get? (home ++ [revision.rootName]) = none := hfree
  obtain ⟨entry, hentry⟩ := Option.ne_none_iff_exists'.mp hthere
  have hgetScratch : cache.host.get? (home ++ [revision.scratchName]) = some entry := hentry
  unfold Host.rename
  rw [find_scratchPath hkept hscratch hreach, hnew]
  simp only [bind, Except.bind, hget, hgetScratch]

theorem complete_settling (hroot : Ordinary revision.rootName)
    (hreach : Host.reach revision.cacheFolder revision.scratchName home =
      .ok (home ++ [revision.scratchName]))
    (hreachRoot : Host.reach revision.cacheFolder revision.rootName home =
      .ok (home ++ [revision.rootName]))
    (hunpacked : IsUnpacked revision.rootName archive
      (treeAt cache.host home revision.scratchName))
    (hfolder : unpackedAt revision.rootName archive [] = some .folder)
    (hlacks : revision.LacksTree cache.host home) :
    ∃ next, Cache.complete fetcher reader revision goal cache .settling = (next, .ok ()) ∧
      cache.host.Confined next.host home revision.treeNames ∧
      ∀ rest, treeAt next.host home revision.rootName rest =
        unpackedAt revision.rootName archive rest := by
  have hthere : treeAt cache.host home revision.scratchName [] ≠ none := by
    simp [hunpacked.content, hfolder]
  have hrenamed := rename_scratch hkept hscratch hroot hreach hreachRoot hthere (hlacks [])
  rcases settle_spec hkept.opens hscratch hroot _ rfl with ⟨error, hfailed⟩ | hsettled
  · rw [hrenamed] at hfailed
    cases congrArg Prod.snd hfailed
  · obtain ⟨hended, hconfined, -, -, -, hmoved⟩ := hsettled
    refine ⟨_, ?_, hconfined, fun rest => (hmoved rest).trans (hunpacked.content rest)⟩
    rw [Cache.complete_of_running rfl, Cache.act, hended]
    exact Cache.complete_ended _

end

section

variable (hkept : revision.KeptAt cache.host home) (hnul : '\x00' ∉ revision.cacheFolder.toList)
  (hscratch : Ordinary revision.scratchName)

include hkept hnul hscratch

theorem complete_unpacking (hlinkless : cache.host.Linkless home [revision.scratchName])
    (hunpackable : Zip.Archive.IsUnpackable (done ++ entries) revision.rootName)
    (hholds : revision.ScratchHolds cache.host home done) :
    ((∀ entry ∈ entries, revision.Takes entry) ∧ ∃ next,
        Cache.complete fetcher reader revision goal cache (.unpacking entries) =
          Cache.complete fetcher reader revision goal next .settling ∧
        revision.Fills cache.host next.host home ∧
        revision.ScratchHolds next.host home (done ++ entries)) ∨
      (¬ ∀ entry ∈ entries, revision.Takes entry) ∧ ∃ next error,
        Cache.complete fetcher reader revision goal cache (.unpacking entries) =
          (next, .error error) := by
  induction entries generalizing cache done with
  | nil =>
      refine .inl
        ⟨by simp, cache, Cache.complete_of_running rfl, .refl revision cache.host home, ?_⟩
      rwa [List.append_nil]
  | cons entry entries ih =>
      have hresolved := hunpackable.resolved entry (by simp)
      rw [Cache.complete_of_running rfl, Cache.act, Cache.unpackNext, List.forall_mem_cons]
      cases hunpacked : unpackEntry revision.scratchPath revision.rootName cache.host entry with
      | mk host failure =>
          cases failure with
          | some error =>
              refine .inr ⟨?_, _, error, Cache.complete_ended _⟩
              rintro ⟨htakes, -⟩
              have hnone := unpackEntry_takes hkept hnul hscratch hlinkless hresolved
                (hunpackable.readable entry (by simp)) htakes fun target htarget => ?_
              · rw [hunpacked] at hnone
                cases hnone
              · have hdone := hholds (reach_of_fits hnul hscratch
                  (ordinary_of_target? hresolved htarget).2 (htakes target htarget))
                rw [funext hdone.content]
                exact hunpackable.free done entry entries rfl target htarget
          | none =>
              dsimp only
              have htakes := takes_of_unpackEntry hkept hscratch hlinkless hresolved hunpacked
              have hfills := (unpackEntry_spec hkept hscratch hlinkless hresolved hunpacked).1
              have hkeptNext : revision.KeptAt ({ cache with host } : Cache).host home :=
                hkept.of_confined revision.scratchName_subset_ownNames hfills.confined
              have hunpackableNext : Zip.Archive.IsUnpackable (done ++ [entry] ++ entries)
                  revision.rootName := by simpa using hunpackable
              have hmore := ih hkeptNext (hfills.confined.linkless hlinkless) hunpackableNext
                (hholds.concat hkept hscratch hlinkless hresolved hunpacked)
              rw [List.append_assoc, List.singleton_append] at hmore
              refine hmore.imp ?_ ?_
              · rintro ⟨hall, next, hnext, hfilled, hheld⟩
                exact ⟨⟨htakes, hall⟩, next, hnext, hfills.trans hfilled, hheld⟩
              · rintro ⟨hnot, hfailed⟩
                exact ⟨fun hall => hnot hall.2, hfailed⟩

/-- An extraction ends well just where the host bears it, and then with all of the tree. -/
theorem complete_clearing (hroot : Ordinary revision.rootName)
    (hlinkless : cache.host.Linkless home revision.ownNames)
    (hrooted : revision.Rooted cache.host home) (hlacks : revision.LacksTree cache.host home)
    (hunpackable : archive.IsUnpackable revision.rootName)
    (hreachRoot : Host.reach revision.cacheFolder revision.rootName home =
      .ok (home ++ [revision.rootName])) :
    (revision.Extractable cache.host home archive ∧ ∃ next,
        Cache.complete fetcher reader revision goal cache (.clearing archive) = (next, .ok ()) ∧
        cache.host.Confined next.host home revision.treeNames ∧
        ∀ rest, treeAt next.host home revision.rootName rest =
          unpackedAt revision.rootName archive rest) ∨
      (¬ revision.Extractable cache.host home archive) ∧ ∃ next error,
        Cache.complete fetcher reader revision goal cache (.clearing archive) =
          (next, .error error) := by
  have hscratchless := hlinkless.mono revision.scratchName_subset_ownNames
  have hall : Zip.Archive.IsUnpackable ([] ++ archive) revision.rootName := hunpackable
  rw [Cache.complete_of_running rfl, Cache.act]
  by_cases hfile : ∃ bytes, treeAt cache.host home revision.scratchName [] = some (.file bytes)
  · obtain ⟨bytes, hfile⟩ := hfile
    refine .inr ⟨fun hfine => hfine.2 bytes hfile, ?_⟩
    by_cases hreach : Host.reach revision.cacheFolder revision.scratchName home =
        .ok (home ++ [revision.scratchName])
    · rw [clear_eq_fail hkept hscratch hscratchless hreach hfile]
      exact ⟨cache, _, Cache.complete_ended _⟩
    · rw [clear_of_not_reach hkept hscratch hscratchless hreach]
      rcases complete_unpacking hkept hnul hscratch hscratchless hall
        (fun hreached => absurd hreached hreach) with ⟨htakes, -⟩ | ⟨-, hfailed⟩
      · exact absurd (reach_scratchName home hnul hscratch hunpackable htakes) hreach
      · exact hfailed
  · have hnone := not_exists.mp hfile
    have hcleared := clear_eq_unpacking hkept hscratch hscratchless hnone archive
    obtain ⟨hfills, hempty⟩ := clear_spec hkept hscratch hscratchless archive
    rw [hcleared]
    generalize (cache.clear revision archive).1 = cleared at hfills hempty ⊢
    have hkept' := hkept.of_confined revision.scratchName_subset_ownNames hfills.confined
    rcases complete_unpacking hkept' hnul hscratch
      (hfills.confined.linkless hscratchless) hall
      (fun hreach => isUnpacked_nil (hempty hcleared hrooted hreach)) with
      ⟨htakes, next, hnext, hfilled, hholds⟩ | ⟨htakes, hfailed⟩
    · refine .inl ⟨⟨htakes, hnone⟩, ?_⟩
      have hreach := reach_scratchName home hnul hscratch hunpackable htakes
      obtain ⟨last, hlast, hsettled, htree⟩ := complete_settling
        (hkept'.of_confined revision.scratchName_subset_ownNames hfilled.confined) hscratch hroot
        hreach hreachRoot (hholds hreach) hunpackable.rooted
        (hfilled.lacksTree (hfills.lacksTree hlacks))
      have hconfined := (hfills.trans hfilled).confined.mono revision.scratchName_subset
      exact ⟨last, hnext.trans hlast, hconfined.trans hsettled, htree⟩
    · exact .inr ⟨fun hfine => htakes hfine.1, hfailed⟩

end

end Revision

end Conformance
