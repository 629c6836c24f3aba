import Conformance.Proofs.Revision.Confinement
import Conformance.Proofs.Revision.Lock
import Conformance.Proofs.Revision.Tree

namespace Conformance.Cache.Stage

def isExtracting : Stage → Bool
  | loading | clearing _ | unpacking _ | settling => true
  | _ => false

end Conformance.Cache.Stage

namespace Conformance.Revision

open Conformance.Path (Ordinary)
open Conformance.Host (Location Under Linkless Confined)
open Conformance.Cache (Goal Stage)

variable {fetcher : Fetcher} {reader : Zip.Reader} {revision : Revision} {goal : Goal}
  {cache next : Cache} {host other : Host} {home : Location} {entries : Zip.Archive}
  {stage after : Stage}

def LacksTree (revision : Revision) (host : Host) (home : Location) : Prop :=
  ∀ rest, treeAt host home revision.rootName rest = none

/-- What the archive in the cache unpacks to is in the tree's place, and nothing else. -/
def HasTree (revision : Revision) (reader : Zip.Reader) (host : Host) (home : Location) : Prop :=
  ∃ entries, Cache.archiveAt reader host revision.archivePath = .ok entries ∧
    treeAt host home revision.rootName [] = some .folder ∧
    IsUnpacked revision.rootName entries (treeAt host home revision.rootName)

theorem HasTree.hasArchive (h : revision.HasTree reader host home) :
    revision.HasArchive reader host := by
  obtain ⟨entries, hentries, -⟩ := h
  exact Cache.flaw?_eq_none_iff.mpr ⟨entries, hentries⟩

theorem LacksTree.not_hasTree (h : revision.LacksTree host home) :
    ¬ revision.HasTree reader host home := by
  rintro ⟨entries, -, hroot, -⟩
  rw [h []] at hroot
  cases hroot

/-- What is unpacked so far is in the scratch folder, if that can be reached at all. -/
def ScratchHolds (revision : Revision) (host : Host) (home : Location) (entries : Zip.Archive) :
    Prop :=
  Host.reach revision.cacheFolder revision.scratchName home = .ok (home ++ [revision.scratchName]) →
    IsUnpacked revision.rootName entries (treeAt host home revision.scratchName)

/-- What is known of the places of the tree in each stage of a call. -/
def Extracts (revision : Revision) (reader : Zip.Reader) (host : Host) (home : Location) :
    Stage → Prop
  | .loading => revision.LacksTree host home
  | .clearing entries =>
    revision.LacksTree host home ∧ Cache.archiveAt reader host revision.archivePath = .ok entries
  | .unpacking entries =>
    revision.LacksTree host home ∧ ∃ done,
      Cache.archiveAt reader host revision.archivePath = .ok (done ++ entries) ∧
        revision.ScratchHolds host home done
  | .settling =>
    revision.LacksTree host home ∧ ∃ entries,
      Cache.archiveAt reader host revision.archivePath = .ok entries ∧
        revision.ScratchHolds host home entries
  | _ => True

theorem Extracts.lacksTree (h : revision.Extracts reader host home stage)
    (hstage : stage.isExtracting = true) : revision.LacksTree host home := by
  cases stage <;> first | exact h | exact h.1 | cases hstage

theorem reach_rootName (hkept : revision.KeptAt host home) (hnamed : revision.isNamed = true)
    (hplain : ∀ target, host.get? (home ++ [revision.archiveName]) ≠ some (.link target))
    (harchive : revision.HasArchive reader host) :
    '\x00' ∉ revision.cacheFolder.toList ∧
      Host.reach revision.cacheFolder revision.rootName home =
        .ok (home ++ [revision.rootName]) := by
  obtain ⟨entries, hentries⟩ := Cache.flaw?_eq_none_iff.mp harchive
  obtain ⟨hreach, -⟩ := (archiveAt_iff hkept hnamed hplain).mp hentries
  obtain ⟨hnul, hlimit, hlong⟩ := Host.reach_eq_ok_iff.mp hreach
  have hrelative {name : String} (hname : name ∈ revision.ownNames) :
      Host.isAbsolute name = false :=
    Host.isAbsolute_of_no_slash (ordinary_of_mem hnamed hname).2.1
  have hjoin : Host.join revision.cacheFolder revision.archiveName =
      Host.join revision.cacheFolder revision.rootName ++ ".zip" :=
    Host.join_append_text revision.cacheFolder (hrelative revision.rootName_mem_ownNames)
      (hrelative revision.archiveName_mem_ownNames)
  refine
    ⟨fun hmem => hnul (Host.mem_join_folder (hrelative revision.archiveName_mem_ownNames) hmem),
    ?_⟩
  rw [hjoin, String.utf8ByteSize_append] at hlimit
  rw [archiveName, String.utf8ByteSize_append] at hlong
  refine Host.reach_eq_ok_iff.mpr ⟨fun hmem => hnul ?_, by omega, by omega⟩
  rw [hjoin]
  simp [hmem]

theorem isFolder_treePath (hkept : revision.KeptAt host home) (hnamed : revision.isNamed = true)
    (hlinkless : host.Linkless home revision.ownNames)
    (harchive : revision.HasArchive reader host) :
    host.isFolder revision.treePath = true ↔
      treeAt host home revision.rootName [] = some .folder := by
  have hroot := revision.rootName_mem_ownNames
  obtain ⟨-, hreachRoot⟩ := reach_rootName hkept hnamed
    (hlinkless.ne_link revision.archiveName_mem_ownNames) harchive
  rw [treePath_eq, place, hkept.opens.isFolder_name (ordinary_of_mem hnamed hroot).2.2
    (hlinkless.ne_link hroot), treeAt]
  simp [hreachRoot]

theorem Housed.of_hasArchive {names : List String} (h : revision.Housed names host home)
    (harchive : revision.HasArchive reader host) :
    revision.KeptAt host home ∧ host.Linkless home names := by
  cases h with
  | there hkept hlinkless => exact ⟨hkept, hlinkless⟩
  | missing habsent =>
      rw [harchive.isPresent] at habsent
      cases habsent

/-- What a stage comes to, as to the tree. -/
structure Advances (revision : Revision) (reader : Zip.Reader) (home : Location)
    (cache next : Cache)
    (stage after : Stage) : Prop where
  housed : revision.Housed revision.ownNames next.host home
  rooted : revision.Rooted next.host home
  sound : revision.Sound reader next.host home after
  extracts : revision.Extracts reader next.host home after
  archive : revision.HasArchive reader cache.host → revision.HasArchive reader next.host
  lacks : revision.LacksTree cache.host home →
    ¬ (stage = .settling ∧ after = .ended (.ok ())) → revision.LacksTree next.host home
  placed : stage = .settling → after = .ended (.ok ()) → revision.HasTree reader next.host home
  has : revision.HasTree reader cache.host home → next.host = cache.host

section

variable (hhoused : revision.Housed revision.ownNames cache.host home)
  (hnamed : stage ≠ .asked → stage.result? = none → revision.isNamed = true)
  (hsound : revision.Sound reader cache.host home stage)
  (hextracts : revision.Extracts reader cache.host home stage)
  (htree : revision.LacksTree cache.host home ∨ revision.HasTree reader cache.host home)

include hhoused hnamed hsound hextracts htree

/-- An extraction begins where there is no tree, with the archive that is there. -/
theorem extracts_act (hresult : stage.result? = none) (hstage : stage.isUnpacking = false) :
    revision.Extracts reader (Cache.act fetcher reader revision goal cache stage).1.host home
      (Cache.act fetcher reader revision goal cache stage).2 := by
  have hnext := Cache.next_act fetcher reader revision goal cache hresult
  cases stage with
  | lookingAgain =>
      obtain ⟨hkept, hlinkless⟩ := hhoused.of_hasArchive hsound
      have hfolder := isFolder_treePath hkept (hnamed (by simp) rfl) hlinkless hsound
      rw [Cache.act]
      unfold Cache.lookForTree
      split
      · exact True.intro
      · rename_i habsent
        refine htree.resolve_right ?_
        rintro ⟨entries, -, hroot, -⟩
        exact habsent (hfolder.mpr hroot)
  | loading =>
      rw [Cache.act]
      unfold Cache.load
      split
      · rename_i entries hentries
        exact ⟨hextracts, hentries⟩
      · exact True.intro
  | _ =>
      generalize Cache.act fetcher reader revision goal cache _ = outcome at hnext ⊢
      obtain ⟨next, after⟩ := outcome
      cases hnext <;> first | exact True.intro | cases hstage

theorem advances_of_not_isUnpacking (hrooted : revision.Rooted cache.host home)
    (hresult : stage.result? = none) (hstage : stage.isUnpacking = false) :
    revision.Advances reader home cache (Cache.act fetcher reader revision goal cache stage).1 stage
      (Cache.act fetcher reader revision goal cache stage).2 := by
  have hfetches := fetches_act fetcher goal revision.transferNames_subset
    (List.Subset.refl _) hhoused hnamed hsound hstage
  have hsame {name : String} (hname : name ∈ revision.treeNames) (rest : Location) :
      treeAt (Cache.act fetcher reader revision goal cache stage).1.host home name rest =
        treeAt cache.host home name rest :=
    hfetches.tree _ (Host.under_append hname rest)
  refine ⟨hfetches.housed, fun hnone rest => ?_, hfetches.sound,
    extracts_act hhoused hnamed hsound hextracts htree hresult hstage, fun harchive => ?_,
    fun hlacks _ rest => ?_, fun hsettling => ?_,
    fun hhas => (hfetches.settled hhas.hasArchive).1⟩
  · rw [hsame revision.scratchName_mem] at hnone ⊢
    exact hrooted hnone rest
  · rwa [(hfetches.settled harchive).1]
  · rw [hsame revision.rootName_mem]
    exact hlacks rest
  · rw [hsettling] at hstage
    cases hstage

end

theorem Fills.lacksTree (hfills : revision.Fills cache.host other home)
    (hlacks : revision.LacksTree cache.host home) : revision.LacksTree other home := by
  intro rest
  have hname : revision.rootName ∉ [revision.scratchName] := by
    simpa using revision.scratchName_ne_rootName.symm
  exact (hfills.confined.get?_append hname rest).trans (hlacks rest)

theorem ScratchHolds.concat {done : Zip.Archive} {entry : Zip.Entry}
    (hkept : revision.KeptAt host home) (hscratch : Ordinary revision.scratchName)
    (hlinkless : host.Linkless home [revision.scratchName]) (hresolved : entry.IsResolved)
    (hholds : revision.ScratchHolds host home done)
    (h : unpackEntry revision.scratchPath revision.rootName host entry = (other, none)) :
    revision.ScratchHolds other home (done ++ [entry]) := by
  intro hreach
  have hdone := hholds hreach
  obtain ⟨-, hunpacked⟩ := unpackEntry_spec hkept hscratch hlinkless hresolved h
  obtain ⟨hopened, hplaced⟩ := hunpacked rfl
  cases htarget : target? revision.rootName entry with
  | none =>
      rw [htarget] at hplaced
      obtain rfl : other = host := hplaced
      refine hdone.concat hopened (fun path hfile => ?_) fun path => ?_
      · rw [placesFile_iff, htarget] at hfile
        cases hfile.2
      · rw [unpackedAt_concat_of_none htarget]
        exact hdone.content path
  | some target =>
      rw [htarget] at hplaced
      obtain ⟨-, leaf, hlays, hleaf⟩ := hplaced
      refine hdone.concat hopened (fun path hfile => ?_)
        (hdone.content_concat htarget hlays hleaf)
      rw [(placesFile_iff.mp hfile).1] at hleaf
      obtain ⟨bytes, hbytes, -⟩ := hleaf
      exact ⟨bytes, hbytes⟩

section

variable (hkept : revision.KeptAt cache.host home) (hnamed : revision.isNamed = true)
  (hlinkless : cache.host.Linkless home revision.ownNames)
  (harchive : revision.HasArchive reader cache.host)

include hkept hnamed hlinkless harchive

theorem advances_of_confined (hnext : Stage.Next goal stage after)
    (hstage : stage.isUnpacking = true) (hlacks : revision.LacksTree cache.host home)
    (hconfined : cache.host.Confined next.host home revision.treeNames)
    (hrooted : revision.Rooted next.host home)
    (hextracts : revision.Extracts reader next.host home after)
    (hlacksNext : ¬ (stage = .settling ∧ after = .ended (.ok ())) →
      revision.LacksTree next.host home)
    (hplaced : stage = .settling → after = .ended (.ok ()) →
      revision.HasTree reader next.host home) :
    revision.Advances reader home cache next stage after := by
  have hplain := hlinkless.ne_link revision.archiveName_mem_ownNames
  have harchiveNext := hasArchive_of_confined hkept hnamed hplain hconfined harchive
  exact ⟨.there (hkept.of_confined revision.treeNames_subset hconfined)
    ((hconfined.mono revision.treeNames_subset).linkless hlinkless), hrooted,
    sound_of_next hnext hstage harchiveNext, hextracts, fun _ => harchiveNext, fun _ => hlacksNext,
    hplaced, fun hhas => absurd hhas hlacks.not_hasTree⟩

omit harchive in
theorem archiveAt_of_confined (hconfined : cache.host.Confined other home revision.treeNames) :
    Cache.archiveAt reader other revision.archivePath = .ok entries ↔
      Cache.archiveAt reader cache.host revision.archivePath = .ok entries :=
  archiveAt_congr hkept hnamed
    (hlinkless.ne_link revision.archiveName_mem_ownNames)
    (hkept.of_confined revision.treeNames_subset hconfined)
    (hconfined.get?_append revision.archiveName_notMem_treeNames [])

theorem advances_clear (hrooted : revision.Rooted cache.host home)
    (hextracts : revision.Extracts reader cache.host home (.clearing entries)) :
    revision.Advances reader home cache (cache.clear revision entries).1 (.clearing entries)
      (cache.clear revision entries).2 := by
  obtain ⟨hlacks, hentries⟩ := hextracts
  obtain ⟨hscratch, -⟩ := ordinary_of_hasArchive hkept hnamed
    (hlinkless.ne_link revision.archiveName_mem_ownNames) harchive
  obtain ⟨hfills, hempty⟩ := clear_spec hkept hscratch
    (hlinkless.mono revision.scratchName_subset_ownNames) entries
  have hconfined : cache.host.Confined _ home revision.treeNames :=
    hfills.confined.mono revision.scratchName_subset
  have hnext : Stage.Next .tree (.clearing entries) (cache.clear revision entries).2 :=
    Cache.next_clear revision cache entries
  refine advances_of_confined hkept hnamed hlinkless harchive hnext rfl hlacks hconfined
    (hfills.rooted hrooted) ?_ (fun _ => hfills.lacksTree hlacks) (by simp)
  generalize hafter : (cache.clear revision entries).2 = after at hnext ⊢
  cases hnext with
  | fails => exact True.intro
  | cleared =>
      refine ⟨hfills.lacksTree hlacks, [], ?_, fun hreach =>
        isUnpacked_nil (hempty hafter hrooted hreach)⟩
      exact (archiveAt_of_confined hkept hnamed hlinkless hconfined).mpr hentries

theorem advances_unpackNext (hrooted : revision.Rooted cache.host home)
    (hresolved : ∀ entry ∈ entries, entry.IsResolved)
    (hextracts : revision.Extracts reader cache.host home (.unpacking entries)) :
    revision.Advances reader home cache (cache.unpackNext revision entries).1 (.unpacking entries)
      (cache.unpackNext revision entries).2 := by
  obtain ⟨hlacks, done, hentries, hholds⟩ := hextracts
  obtain ⟨hscratch, -⟩ := ordinary_of_hasArchive hkept hnamed
    (hlinkless.ne_link revision.archiveName_mem_ownNames) harchive
  have hscratchless : cache.host.Linkless home [revision.scratchName] :=
    hlinkless.mono revision.scratchName_subset_ownNames
  have hfills := fills_unpackNext hkept hscratch hscratchless hresolved
  have hconfined : cache.host.Confined _ home revision.treeNames :=
    hfills.confined.mono revision.scratchName_subset
  have hnext : Stage.Next .tree (.unpacking entries) (cache.unpackNext revision entries).2 :=
    Cache.next_unpackNext revision cache entries
  refine advances_of_confined hkept hnamed hlinkless harchive hnext rfl hlacks hconfined
    (hfills.rooted hrooted) ?_ (fun _ => hfills.lacksTree hlacks) (by simp)
  have hlacksNext := hfills.lacksTree hlacks
  have harchiveNext := (archiveAt_of_confined hkept hnamed hlinkless hconfined).mpr hentries
  unfold Cache.unpackNext at hlacksNext harchiveNext ⊢
  cases entries with
  | nil => exact ⟨hlacks, done, by simpa using hentries, hholds⟩
  | cons entry entries =>
      dsimp only at hlacksNext harchiveNext ⊢
      cases hunpacked : unpackEntry revision.scratchPath revision.rootName cache.host entry with
      | mk unpacked failure =>
          rw [hunpacked] at hlacksNext harchiveNext
          cases failure with
          | some error => exact True.intro
          | none =>
              refine ⟨hlacksNext, done ++ [entry], ?_,
                hholds.concat hkept hscratch hscratchless (hresolved entry List.mem_cons_self)
                  hunpacked⟩
              rw [List.append_assoc]
              exact harchiveNext

theorem advances_settle (hrooted : revision.Rooted cache.host home)
    (hextracts : revision.Extracts reader cache.host home .settling) (outcome : Cache × Stage)
    (houtcome : cache.change (cache.host.rename revision.scratchPath revision.treePath)
      (.ended (.ok ())) = outcome) :
    revision.Advances reader home cache outcome.1 .settling outcome.2 := by
  obtain ⟨hlacks, entries, hentries, hholds⟩ := hextracts
  obtain ⟨hscratch, hroot⟩ := ordinary_of_hasArchive hkept hnamed
    (hlinkless.ne_link revision.archiveName_mem_ownNames) harchive
  rcases settle_spec hkept.opens hscratch hroot outcome houtcome with
    ⟨error, rfl⟩ | ⟨hended, hconfined, hreach, hthere, hempty, hmoved⟩
  · exact advances_of_confined hkept hnamed hlinkless harchive
      (Stage.Next.fails error rfl : Stage.Next .tree _ _) rfl hlacks (.refl cache.host home _)
      hrooted True.intro (fun _ => hlacks) (by simp [Stage.fail])
  · have hunpacked := hholds hreach
    have hsame : treeAt outcome.1.host home revision.rootName =
        treeAt cache.host home revision.scratchName := funext hmoved
    rw [hended]
    refine advances_of_confined hkept hnamed hlinkless harchive
      (.settled : Stage.Next .tree _ _) rfl hlacks hconfined (fun _ => hempty) True.intro
      (fun hnot => absurd ⟨rfl, rfl⟩ hnot) fun _ _ => ⟨entries, ?_, ?_, ?_⟩
    · exact (archiveAt_of_confined hkept hnamed hlinkless hconfined).mpr hentries
    · rw [hsame]
      exact hunpacked.root hthere
    · rw [hsame]
      exact hunpacked

end

theorem advances_act (hhoused : revision.Housed revision.ownNames cache.host home)
    (hnamed : stage ≠ .asked → stage.result? = none → revision.isNamed = true)
    (hsound : revision.Sound reader cache.host home stage)
    (hextracts : revision.Extracts reader cache.host home stage)
    (htree : revision.LacksTree cache.host home ∨ revision.HasTree reader cache.host home)
    (hrooted : revision.Rooted cache.host home)
    (hresolved : ∀ entry ∈ stage.entries, entry.IsResolved) (hresult : stage.result? = none) :
    revision.Advances reader home cache (Cache.act fetcher reader revision goal cache stage).1 stage
      (Cache.act fetcher reader revision goal cache stage).2 := by
  cases stage with
  | clearing entries =>
      obtain ⟨hkept, hlinkless⟩ := hhoused.of_hasArchive hsound
      rw [Cache.act]
      exact advances_clear hkept (hnamed (by simp) rfl) hlinkless hsound hrooted hextracts
  | unpacking entries =>
      obtain ⟨hkept, hlinkless⟩ := hhoused.of_hasArchive hsound
      rw [Cache.act]
      exact advances_unpackNext hkept (hnamed (by simp) rfl) hlinkless hsound hrooted hresolved
        hextracts
  | settling =>
      obtain ⟨hkept, hlinkless⟩ := hhoused.of_hasArchive hsound
      rw [Cache.act]
      exact advances_settle hkept (hnamed (by simp) rfl) hlinkless hsound hrooted hextracts _ rfl
  | _ => exact advances_of_not_isUnpacking hhoused hnamed hsound hextracts htree hrooted hresult rfl

end Conformance.Revision
