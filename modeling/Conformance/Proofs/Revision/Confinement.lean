import Conformance.Proofs.Revision.Fetching
import Conformance.Proofs.Revision.Unpacking
import Conformance.Revision.Opened

namespace Conformance.Revision

open Conformance.Path (Ordinary)
open Conformance.Host (Location Under Linkless Confined)
open Conformance.Cache (Goal Stage)

/-! Opening a revision changes nothing outside its own places. -/

variable {fetcher : Fetcher} {reader : Zip.Reader} {revision : Revision} {goal : Goal}
  {cache next : Cache} {host other : Host} {home : Location} {entries : Zip.Archive} {stage : Stage}

theorem ordinary_of_hasArchive (hkept : revision.KeptAt host home)
    (hnamed : revision.isNamed = true)
    (hplain : ∀ target, host.get? (home ++ [revision.archiveName]) ≠ some (.link target))
    (harchive : revision.HasArchive reader host) :
    Ordinary revision.scratchName ∧ Ordinary revision.rootName := by
  obtain ⟨entries, hentries⟩ := Cache.flaw?_eq_none_iff.mp harchive
  obtain ⟨hreach, -⟩ := (archiveAt_iff hkept hnamed hplain).mp hentries
  have hnul : '\x00' ∉ revision.archiveName.toList := fun hmem =>
    (Host.reach_eq_ok_iff.mp hreach).1 (Host.mem_join revision.cacheFolder hmem)
  have hroot : '\x00' ∉ revision.rootName.toList := fun hmem => hnul (by simp [archiveName, hmem])
  have hscratch : '\x00' ∉ revision.scratchName.toList := by
    simpa [scratchName] using hroot
  exact ⟨(ordinary_of_mem hnamed revision.scratchName_mem_ownNames).2.2 hscratch,
    (ordinary_of_mem hnamed revision.rootName_mem_ownNames).2.2 hroot⟩

section

variable (hkept : revision.KeptAt cache.host home) (hscratch : Ordinary revision.scratchName)
  (hlinkless : cache.host.Linkless home [revision.scratchName])

include hkept hscratch hlinkless

theorem clear_spec (entries : Zip.Archive) :
    revision.Fills cache.host (cache.clear revision entries).1.host home ∧
      ((cache.clear revision entries).2 = .unpacking entries → revision.Rooted cache.host home →
        Host.reach revision.cacheFolder revision.scratchName home =
          .ok (home ++ [revision.scratchName]) →
        ∀ rest, treeAt (cache.clear revision entries).1.host home revision.scratchName rest =
          none) := by
  have hname : '\x00' ∉ revision.scratchName.toList → Ordinary revision.scratchName :=
    fun _ => hscratch
  have hplain := hlinkless.ne_link (List.mem_singleton_self _)
  unfold Cache.clear
  split
  · unfold Cache.change
    split
    · rename_i removed hremoved
      rcases hkept.opens.removeTree_name hname hremoved with ⟨⟨target, hlink⟩, -⟩ | ⟨-, rfl⟩
      · exact absurd hlink (hplain target)
      · have hempty (rest : Location) :
            treeAt (cache.host.dropTree (home ++ [revision.scratchName])) home revision.scratchName
              rest = none := by
          rw [treeAt, Host.get?_dropTree (by simp), if_pos ⟨rest, by simp⟩]
        exact ⟨⟨Host.confined_dropTree (List.mem_singleton_self _) cache.host,
          fun _ _ rest => hempty rest⟩, fun _ _ _ => hempty⟩
    · exact ⟨.refl revision cache.host home, by simp [Stage.fail]⟩
  · rename_i habsent
    refine ⟨.refl revision cache.host home, fun _ hrooted hreach => hrooted ?_⟩
    by_contra hthere
    exact habsent ((hkept.opens.isPresent_name hname hplain).mpr ⟨hreach, hthere⟩)

theorem fills_unpackNext (hresolved : ∀ entry ∈ entries, entry.IsResolved) :
    revision.Fills cache.host (cache.unpackNext revision entries).1.host home := by
  unfold Cache.unpackNext
  split
  · exact .refl revision cache.host home
  · split
    · rename_i host hunpacked
      exact (unpackEntry_spec hkept hscratch hlinkless (hresolved _ List.mem_cons_self)
        hunpacked).1
    · rename_i host error hunpacked
      exact (unpackEntry_spec hkept hscratch hlinkless (hresolved _ List.mem_cons_self)
        hunpacked).1

end

theorem settle_spec (hopens : cache.host.Opens revision.cacheFolder home)
    (hscratch : Ordinary revision.scratchName) (hroot : Ordinary revision.rootName)
    (next : Cache × Stage)
    (hnext : cache.change (cache.host.rename revision.scratchPath revision.treePath)
      (.ended (.ok ())) = next) :
    (∃ error, next = (cache, .fail error)) ∨
      next.2 = .ended (.ok ()) ∧
        cache.host.Confined next.1.host home revision.treeNames ∧
        Host.reach revision.cacheFolder revision.scratchName home =
          .ok (home ++ [revision.scratchName]) ∧
        treeAt cache.host home revision.scratchName [] ≠ none ∧
        (∀ rest, treeAt next.1.host home revision.scratchName rest = none) ∧
        ∀ rest, treeAt next.1.host home revision.rootName rest =
          treeAt cache.host home revision.scratchName rest := by
  unfold Cache.change at hnext
  split at hnext
  · rename_i renamed hrenamed
    obtain ⟨hreach, hthere, rfl⟩ := hopens.rename_names (fun _ => hscratch) (fun _ => hroot)
      revision.scratchName_ne_rootName hrenamed
    subst hnext
    have hne (name : String) : home ++ [name] ≠ [] := by simp
    obtain ⟨hmoved, hleft⟩ := Host.get?_moveTree cache.host (hne revision.scratchName)
      (hne revision.rootName)
    refine .inr ⟨rfl, Host.confined_moveTree revision.scratchName_mem revision.rootName_mem _,
      hreach, hthere, fun rest => ?_, fun rest => ?_⟩
    · refine (hleft _ ?_).trans (if_pos ⟨rest, by simp⟩)
      rintro ⟨more, hmore⟩
      have hsame := List.append_cancel_left ((List.append_assoc _ _ _).symm.trans hmore)
      exact revision.scratchName_ne_rootName (List.cons.inj hsame).1.symm
    · have h := hmoved rest
      rw [List.append_assoc, List.append_assoc] at h
      exact h
  · subst hnext
    exact .inl ⟨_, rfl⟩

theorem archiveName_notMem_treeNames (revision : Revision) :
    revision.archiveName ∉ revision.treeNames :=
  fun hmem => revision.disjoint_names revision.archiveName_mem hmem

theorem hasArchive_of_confined (hkept : revision.KeptAt host home)
    (hnamed : revision.isNamed = true)
    (hplain : ∀ target, host.get? (home ++ [revision.archiveName]) ≠ some (.link target))
    (hconfined : host.Confined other home revision.treeNames)
    (harchive : revision.HasArchive reader host) : revision.HasArchive reader other :=
  (hasArchive_congr hkept hnamed hplain
    (hkept.of_confined revision.treeNames_subset hconfined)
    (hconfined.get?_append revision.archiveName_notMem_treeNames [])).mpr harchive

theorem sound_of_next {after : Stage} (hnext : Stage.Next goal stage after)
    (hstage : stage.isUnpacking = true) (harchive : revision.HasArchive reader host) :
    revision.Sound reader host home after := by
  cases hnext <;> first | exact True.intro | exact harchive | cases hstage

theorem confined_act_of_isUnpacking (fetcher : Fetcher) (goal : Goal)
    (hkept : revision.KeptAt cache.host home)
    (hnamed : revision.isNamed = true) (hlinkless : cache.host.Linkless home revision.ownNames)
    (harchive : revision.HasArchive reader cache.host)
    (hresolved : ∀ entry ∈ stage.entries, entry.IsResolved) (hstage : stage.isUnpacking = true) :
    cache.host.Confined (Cache.act fetcher reader revision goal cache stage).1.host home
      revision.treeNames := by
  have hplain := hlinkless.ne_link revision.archiveName_mem_ownNames
  obtain ⟨hscratch, hroot⟩ := ordinary_of_hasArchive hkept hnamed hplain harchive
  have hscratchless : cache.host.Linkless home [revision.scratchName] :=
    hlinkless.mono revision.scratchName_subset_ownNames
  cases stage with
  | clearing entries =>
      rw [Cache.act]
      obtain ⟨hfills, -⟩ := clear_spec hkept hscratch hscratchless entries
      exact hfills.confined.mono revision.scratchName_subset
  | unpacking entries =>
      rw [Cache.act]
      have hfills := fills_unpackNext hkept hscratch hscratchless hresolved
      exact hfills.confined.mono revision.scratchName_subset
  | settling =>
      rw [Cache.act]
      rcases settle_spec hkept.opens hscratch hroot _ rfl with ⟨error, hfailed⟩ | ⟨-, hconfined, -⟩
      · rw [hfailed]
        exact .refl cache.host home _
      · exact hconfined
  | _ => cases hstage

/-- Every stage changes the revision's own places at most. -/
theorem confined_act (fetcher : Fetcher) (goal : Goal) (hkept : revision.KeptAt cache.host home)
    (hlinkless : cache.host.Linkless home revision.ownNames)
    (hnamed : stage ≠ .asked → stage.result? = none → revision.isNamed = true)
    (hsound : revision.Sound reader cache.host home stage)
    (hresolved : ∀ entry ∈ stage.entries, entry.IsResolved) (hresult : stage.result? = none) :
    cache.host.Confined (Cache.act fetcher reader revision goal cache stage).1.host home
        revision.ownNames ∧
      revision.Sound reader (Cache.act fetcher reader revision goal cache stage).1.host home
        (Cache.act fetcher reader revision goal cache stage).2 := by
  cases hstage : stage.isUnpacking with
  | false =>
      have hfetches := fetches_act fetcher goal revision.transferNames_subset
        (List.Subset.refl _) (.there hkept hlinkless) hnamed hsound hstage
      exact ⟨(hfetches.confined hkept).mono revision.transferNames_subset, hfetches.sound⟩
  | true =>
      have harchive : revision.HasArchive reader cache.host := by
        cases stage <;> first | exact hsound | cases hstage
      have hname : revision.isNamed = true := by
        refine hnamed ?_ hresult
        rintro rfl
        cases hstage
      have hconfined := confined_act_of_isUnpacking fetcher goal hkept hname
        hlinkless harchive hresolved hstage
      refine ⟨hconfined.mono revision.treeNames_subset, ?_⟩
      have hnext := Cache.next_act fetcher reader revision goal cache hresult
      exact sound_of_next hnext hstage (hasArchive_of_confined hkept hname
        (hlinkless.ne_link revision.archiveName_mem_ownNames) hconfined harchive)

theorem confined_complete (fetcher : Fetcher) (goal : Goal) (hreader : reader.Resolves)
    (hkept : revision.KeptAt cache.host home)
    (hlinkless : cache.host.Linkless home revision.ownNames)
    (hnamed : stage ≠ .asked → stage.result? = none → revision.isNamed = true)
    (hsound : revision.Sound reader cache.host home stage)
    (hresolved : ∀ entry ∈ stage.entries, entry.IsResolved) :
    cache.host.Confined (Cache.complete fetcher reader revision goal cache stage).1.host home
      revision.ownNames := by
  fun_induction Cache.complete fetcher reader revision goal cache stage with
  | case1 cache stage result hresult => exact .refl cache.host home _
  | case2 cache stage hresult next ih =>
      obtain ⟨hconfined, hnext⟩ := confined_act fetcher goal hkept hlinkless
        hnamed hsound hresolved hresult
      exact hconfined.trans (ih (hkept.of_sameBut hconfined.same)
        (hconfined.linkless hlinkless) (fun _ hrunning => isNamed_act hnamed hrunning) hnext
        (Cache.entries_act (fun _ _ _ => hreader _ _) hresult hresolved))

theorem openArchive_fst (cache : Cache) : (revision.openArchive fetcher cache reader).1 =
    (Cache.complete fetcher reader revision .archive cache .asked).1 := by
  unfold openArchive ensure
  split
  · rename_i heq
    exact (congrArg Prod.fst heq).symm
  · rename_i heq
    exact (congrArg Prod.fst heq).symm

theorem openTree_fst (cache : Cache) : (revision.openTree fetcher cache reader).1 =
    (Cache.complete fetcher reader revision .tree cache .asked).1 := by
  unfold openTree
  split
  · rename_i heq
    exact (congrArg Prod.fst heq).symm
  · rename_i heq
    exact (congrArg Prod.fst heq).symm

theorem openCorpus_fst (fetcher : Fetcher) (revision : Revision) (cache : Cache) :
    (revision.openCorpus fetcher cache reader).1 = (Cache.complete fetcher reader revision
      (if revision.extract then .tree else .archive) cache .asked).1 := by
  unfold openCorpus
  split
  · exact openTree_fst cache
  · exact openArchive_fst cache

end Conformance.Revision
