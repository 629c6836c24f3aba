import Conformance.Proofs.Revision.Ensuring
import Conformance.Proofs.Zip.Reading

namespace Conformance

open Conformance.Path (Ordinary ofNames)
open Conformance.Host (Location Under Linkless Confined)
open Conformance.Cache (Goal Stage)

namespace Revision

/-! What a revision is opened as: its archive, or the tree that it unpacks to. -/

variable {fetcher : Fetcher} {reader : Zip.Reader} {revision : Revision} {cache ensured : Cache}
  {host : Host} {home : Location} {archive : Zip.Archive} {rest : List String} {path : String}

section

variable (hlaid : archive.IsLaidOut revision.rootName) (hscratch : Ordinary revision.scratchName)
  (hroot : Ordinary revision.rootName) (htakes : ∀ entry ∈ archive, revision.Takes entry)

include hlaid hscratch hroot htakes

theorem fits_of_unpackedAt {found : Host.Entry}
    (hfound : unpackedAt revision.rootName archive rest = some found) :
    Host.Fits revision.cacheFolder (revision.rootName :: rest) := by
  obtain ⟨entry, hentry, location, hlocation, hcorpus, more, rfl⟩ :=
    hlaid.exists_location hroot hfound
  obtain ⟨hrest, hmore⟩ := List.forall_mem_append.mp hlocation.ordinary
  have hall : ∀ name ∈ revision.scratchName :: rest, Ordinary name :=
    List.forall_mem_cons.mpr ⟨hscratch, hrest⟩
  have hfits := htakes entry hentry _ ((target?_of_standsAt hlocation).mpr ⟨hcorpus, rfl⟩)
  have hfront : Host.Fits revision.cacheFolder (revision.scratchName :: rest) :=
    Host.Fits.of_append hfits hall hmore (by simp)
  refine hfront.of_shorter hscratch hroot hrest ?_
  rw [scratchName, String.utf8ByteSize_append, String.utf8ByteSize_append]
  omega

theorem bears_tree (hkept : revision.KeptAt host home) (hnul : '\x00' ∉ revision.cacheFolder.toList)
    (hlinkless : host.Linkless home [revision.rootName])
    (hreach : Host.reach revision.cacheFolder revision.rootName home =
      .ok (home ++ [revision.rootName]))
    (htree : ∀ rest, treeAt host home revision.rootName rest =
      unpackedAt revision.rootName archive rest) :
    host.Bears revision.treePath (home ++ [revision.rootName])
      (unpackedAt revision.rootName archive) := by
  have happend (rest : Location) : home ++ [revision.rootName] ++ rest =
      home ++ revision.rootName :: rest := by simp
  have hfolder := hlaid.unpackedAt_root hroot
  have hbase : host.IsBase revision.treePath (home ++ [revision.rootName]) := by
    refine ⟨(hkept.opens.resolve_name (fun _ => hroot)
      (hlinkless.ne_link (List.mem_singleton_self _))).mpr ⟨hreach, rfl, ?_⟩, ?_⟩
    · exact (htree []).trans hfolder
    · intro rest target _
      rw [happend]
      exact hlinkless _ (Host.under_append (List.mem_singleton_self _) rest) target
  refine ⟨hbase, fun rest => ?_, fun rest found => hlaid.ordinary_of_unpackedAt hroot, ?_⟩
  · rw [happend]
    exact htree rest
  · intro rest found hfound
    have hnames := hlaid.ordinary_of_unpackedAt hroot hfound
    have hrootNames : ∀ name ∈ [revision.rootName], Ordinary name :=
      List.forall_mem_singleton.mpr hroot
    by_cases hne : rest = []
    · subst hne
      obtain rfl := Option.some.inj (hfolder.symm.trans hfound)
      obtain ⟨entry, hentry, top, -, hneeds⟩ := hlaid.exists_top hroot
      have htop := (hlaid.unpackedAt_eq_folder_iff hroot).mpr ⟨entry, hentry, hneeds⟩
      have hfits := fits_of_unpackedAt hlaid hscratch hroot htakes htop
      have hslash := Host.Fits.slash_lt hfits hrootNames (hlaid.ordinary_of_unpackedAt hroot htop)
        (List.cons_ne_nil _ _) (List.cons_ne_nil _ _)
      rw [Path.ofNames_singleton] at hslash
      rw [List.append_nil]
      exact hbase.resolve_join_empty hslash
    · have hjoin := Host.join_join revision.cacheFolder hrootNames hnames (by simp) hne
      rw [Path.ofNames_singleton] at hjoin
      rw [treePath_eq, place, hjoin, happend]
      have hpaved : host.IsPaved home (revision.rootName :: rest) := by
        refine Host.IsPaved.cons hkept.isFolderAt fun front hfront hwhole => ?_
        rw [happend]
        exact Host.isFolderAt_iff.mpr
          ((htree front).trans (hlaid.unpackedAt_front hroot hfound hfront hwhole))
      refine Host.resolve_paved hkept.opens hnul (List.forall_mem_cons.mpr ⟨hroot, hnames⟩)
        (by simp) (fits_of_unpackedAt hlaid hscratch hroot htakes hfound) hpaved
        ((htree rest).trans hfound) ?_
      rintro target rfl
      exact unpackedAt_ne_link target hfound

end

theorem indexAt_bears (hlaid : archive.IsLaidOut revision.rootName)
    (hroot : Ordinary revision.rootName)
    (harchive : Cache.archiveAt reader host revision.archivePath = .ok archive) :
    ∃ index, revision.indexAt host reader = .ok index ∧
      index.Bears (unpackedAt revision.rootName archive) := by
  obtain ⟨bytes, hread, hbytes⟩ := Cache.archiveAt_eq_ok_iff.mp harchive
  obtain ⟨index, hindex, hknows⟩ := hlaid.exists_knows hroot
  have hopened : revision.indexAt host reader = .ok
      { index with label := s!"test262@{revision.name} ({revision.archivePath})" } := by
    unfold indexAt Index.ofFile Index.archiveBytes Index.ofBytes
    rw [hread]
    simp only [bind, Except.bind, hbytes, hindex]
    rfl
  exact ⟨_, hopened, hlaid.bears hroot ⟨hknows.entries, hknows.tables⟩⟩

theorem openCorpus_packed (hensured : revision.ensure fetcher cache reader = (ensured, .ok path)) :
    ({ revision with extract := false } : Revision).openCorpus fetcher cache reader =
      (ensured, (({ revision with extract := false } : Revision).indexAt ensured.host reader).map
        Index.toCorpus) := by
  have hcomplete := complete_of_ensure hensured
  unfold openCorpus openArchive ensure
  rw [Cache.complete_withExtract false, hcomplete]
  rfl

theorem openCorpus_unpacked (fetcher : Fetcher) (revision : Revision) (cache : Cache) :
    (({ revision with extract := true } : Revision).openCorpus fetcher cache reader).2 =
      match Cache.complete fetcher reader revision .tree cache .asked with
      | (_, .error error) => .error error
      | (next, .ok _) => (Directory.ofPath next.host revision.treePath).map Directory.toCorpus := by
  unfold openCorpus openTree
  rw [Cache.complete_withExtract true]
  cases Cache.complete fetcher reader revision .tree cache .asked with
  | mk next result => cases result <;> rfl

theorem complete_choosing {goal : Goal} (hmissing : cache.host.isFolder revision.treePath = false)
    (harchive : Cache.archiveAt reader cache.host revision.archivePath = .ok archive) :
    Cache.complete fetcher reader revision goal cache .choosing =
      Cache.complete fetcher reader revision goal cache (.clearing archive) := by
  have hlook (otherwise : Stage) : cache.lookForTree revision otherwise = (cache, otherwise) := by
    unfold Cache.lookForTree
    rw [hmissing]
    rfl
  have hload : cache.load reader revision = (cache, .clearing archive) := by
    unfold Cache.load
    rw [harchive]
  rw [Cache.complete_of_running rfl, Cache.act, hlook, Cache.complete_of_running rfl, Cache.act,
    Cache.complete_of_running rfl, Cache.act, hlook, Cache.complete_of_running rfl, Cache.act,
      hload]

section

variable (hhoused : revision.Housed revision.ownNames cache.host home)
  (hensured : revision.ensure fetcher cache reader = (ensured, .ok path))
  (harchive : Cache.archiveAt reader ensured.host revision.archivePath = .ok archive)

include hhoused hensured harchive

theorem kept_of_ensure :
    (revision.KeptAt ensured.host home ∧ ensured.host.Linkless home revision.ownNames) ∧
      ∀ name ∈ revision.treeNames, ∀ rest,
        treeAt ensured.host home name rest = treeAt cache.host home name rest := by
  have hhas : revision.HasArchive reader ensured.host :=
    Cache.flaw?_eq_none_iff.mpr ⟨archive, harchive⟩
  have hended : ensured = (Cache.complete fetcher reader revision .archive cache .asked).1 := by
    rw [complete_of_ensure hensured]
  obtain ⟨hthere, hsame⟩ : revision.Housed revision.ownNames ensured.host home ∧
      ∀ location, Under home revision.treeNames location →
        ensured.host.get? location = cache.host.get? location := by
    rw [hended]
    exact housed_complete hhoused (fun hasked => absurd rfl hasked) trivial rfl
  exact ⟨hthere.of_hasArchive hhas, fun name hname rest =>
    hsame _ (Host.under_append hname rest)⟩

theorem ordinary_of_ensure (hnamed : revision.isNamed = true) :
    '\x00' ∉ revision.cacheFolder.toList ∧ Ordinary revision.scratchName ∧
      Ordinary revision.rootName ∧ Host.reach revision.cacheFolder revision.rootName home =
        .ok (home ++ [revision.rootName]) := by
  obtain ⟨⟨hkept, hlinkless⟩, -⟩ := kept_of_ensure hhoused hensured harchive
  have hhas : revision.HasArchive reader ensured.host :=
    Cache.flaw?_eq_none_iff.mpr ⟨archive, harchive⟩
  have hplain := hlinkless.ne_link revision.archiveName_mem_ownNames
  obtain ⟨hscratch, hroot⟩ := ordinary_of_hasArchive hkept hnamed hplain hhas
  obtain ⟨hnul, hreachRoot⟩ := reach_rootName hkept hnamed hplain hhas
  exact ⟨hnul, hscratch, hroot, hreachRoot⟩

theorem complete_tree (hnamed : revision.isNamed = true)
    (hrooted : revision.Rooted cache.host home) (hlacks : revision.LacksTree cache.host home)
    (hunpackable : archive.IsUnpackable revision.rootName) :
    (revision.Extractable cache.host home archive ∧ ∃ next,
        Cache.complete fetcher reader revision .tree cache .asked = (next, .ok ()) ∧
        ensured.host.Confined next.host home revision.treeNames ∧
        ∀ rest, treeAt next.host home revision.rootName rest =
          unpackedAt revision.rootName archive rest) ∨
      (¬ revision.Extractable cache.host home archive) ∧ ∃ next error,
        Cache.complete fetcher reader revision .tree cache .asked = (next, .error error) := by
  obtain ⟨⟨hkept, hlinkless⟩, htreeAt⟩ := kept_of_ensure hhoused hensured harchive
  obtain ⟨hnul, hscratch, hroot, hreachRoot⟩ :=
    ordinary_of_ensure hhoused hensured harchive hnamed
  have hhas : revision.HasArchive reader ensured.host :=
    Cache.flaw?_eq_none_iff.mpr ⟨archive, harchive⟩
  have hmissing : ensured.host.isFolder revision.treePath = false := by
    rw [Bool.eq_false_iff, Ne, isFolder_treePath hkept hnamed hlinkless hhas,
      htreeAt _ revision.rootName_mem, hlacks]
    simp
  have hrootedThen : revision.Rooted ensured.host home := by
    intro hnone rest
    rw [htreeAt _ revision.scratchName_mem] at hnone ⊢
    exact hrooted hnone rest
  have hlacksThen : revision.LacksTree ensured.host home := by
    intro rest
    rw [htreeAt _ revision.rootName_mem]
    exact hlacks rest
  have hrun : Cache.complete fetcher reader revision .tree cache .asked =
      Cache.complete fetcher reader revision .tree ensured (.clearing archive) :=
    (Cache.complete_forTree rfl (complete_of_ensure hensured)).trans
      (complete_choosing hmissing harchive)
  rw [hrun, Extractable, ← htreeAt _ revision.scratchName_mem]
  exact complete_clearing hkept hnul hscratch hroot hlinkless hrootedThen hlacksThen hunpackable
    hreachRoot

theorem bears_of_complete_tree {next : Cache} (hnamed : revision.isNamed = true)
    (hlaid : archive.IsLaidOut revision.rootName)
    (htakes : ∀ entry ∈ archive, revision.Takes entry)
    (hconfined : ensured.host.Confined next.host home revision.treeNames)
    (htree : ∀ rest, treeAt next.host home revision.rootName rest =
      unpackedAt revision.rootName archive rest) :
    next.host.Bears revision.treePath (home ++ [revision.rootName])
      (unpackedAt revision.rootName archive) := by
  obtain ⟨⟨hkept, hlinkless⟩, -⟩ := kept_of_ensure hhoused hensured harchive
  obtain ⟨hnul, hscratch, hroot, hreachRoot⟩ :=
    ordinary_of_ensure hhoused hensured harchive hnamed
  have hlinklessNext := (hconfined.mono revision.treeNames_subset).linkless hlinkless
  exact bears_tree hlaid hscratch hroot htakes
    (hkept.of_confined revision.treeNames_subset hconfined) hnul
    (hlinklessNext.mono (by simpa using revision.rootName_mem_ownNames)) hreachRoot htree

theorem openCorpus_tree (hnamed : revision.isNamed = true)
    (hrooted : revision.Rooted cache.host home) (hlacks : revision.LacksTree cache.host home)
    (hlaid : archive.IsLaidOut revision.rootName) :
    (revision.Extractable cache.host home archive ∧ ∃ unpacked,
        (({ revision with extract := true } : Revision).openCorpus fetcher cache reader).2 =
          .ok unpacked ∧ unpacked.Presents (unpackedAt revision.rootName archive)) ∨
      (¬ revision.Extractable cache.host home archive) ∧ ∃ error,
        (({ revision with extract := true } : Revision).openCorpus fetcher cache reader).2 =
          .error error := by
  obtain ⟨-, -, hroot, -⟩ := ordinary_of_ensure hhoused hensured harchive hnamed
  rw [openCorpus_unpacked]
  rcases complete_tree hhoused hensured harchive hnamed hrooted hlacks
      (hlaid.isUnpackable hroot) with
    ⟨hfine, next, hnext, hconfined, htree⟩ | ⟨hnot, next, error, hnext⟩
  · have hbears := bears_of_complete_tree hhoused hensured harchive hnamed hlaid hfine.1
      hconfined htree
    refine .inl ⟨hfine, Directory.toCorpus ⟨next.host, revision.treePath⟩, ?_, hbears.presents⟩
    rw [hnext]
    dsimp only
    rw [hbears.isBase.ofPath]
    rfl
  · refine .inr ⟨hnot, error, ?_⟩
    rw [hnext]

end

/-- Where nothing was extracted yet, a revision is served the same from its archive and from
the tree that this unpacks to, which there will be just where the host bears it: what is
listed and read is what the archive's entries put in place. -/
theorem openCorpus_alike (hnamed : revision.isNamed = true)
    (hhoused : revision.Housed revision.ownNames cache.host home)
    (hrooted : revision.Rooted cache.host home) (hlacks : revision.LacksTree cache.host home)
    (hensured : revision.ensure fetcher cache reader = (ensured, .ok path))
    (harchive : Cache.archiveAt reader ensured.host revision.archivePath = .ok archive)
    (hlaid : archive.IsLaidOut revision.rootName) :
    ∃ packed, (({ revision with extract := false } : Revision).openCorpus fetcher cache reader).2 =
        .ok packed ∧ packed.Presents (unpackedAt revision.rootName archive) ∧
      ((∃ unpacked,
        (({ revision with extract := true } : Revision).openCorpus fetcher cache reader).2 =
        .ok unpacked) ↔ revision.Extractable cache.host home archive) ∧
      ∀ unpacked,
        (({ revision with extract := true } : Revision).openCorpus fetcher cache reader).2 =
        .ok unpacked → unpacked.Presents (unpackedAt revision.rootName archive) ∧
          unpacked.Alike packed := by
  obtain ⟨⟨hkept, hlinkless⟩, -⟩ := kept_of_ensure hhoused hensured harchive
  obtain ⟨-, hroot⟩ := ordinary_of_hasArchive hkept hnamed
    (hlinkless.ne_link revision.archiveName_mem_ownNames)
    (Cache.flaw?_eq_none_iff.mpr ⟨archive, harchive⟩)
  have hopened : ∃ index,
      ({ revision with extract := false } : Revision).indexAt ensured.host reader =
      .ok index ∧ index.Bears (unpackedAt revision.rootName archive) :=
    indexAt_bears hlaid hroot harchive
  obtain ⟨index, hindex, hbears⟩ := hopened
  have hpacked :
      (({ revision with extract := false } : Revision).openCorpus fetcher cache reader).2 =
      .ok index.toCorpus := by
    rw [openCorpus_packed hensured]
    dsimp only
    rw [hindex]
    rfl
  refine ⟨index.toCorpus, hpacked, hbears.presents, ?_⟩
  rcases openCorpus_tree hhoused hensured harchive hnamed hrooted hlacks hlaid with
    ⟨hfine, unpacked, hunpacked, hpresents⟩ | ⟨hnot, error, herror⟩
  · refine ⟨⟨fun _ => hfine, fun _ => ⟨unpacked, hunpacked⟩⟩, fun other hother => ?_⟩
    obtain rfl := Except.ok.inj (hunpacked.symm.trans hother)
    exact ⟨hpresents, hpresents.alike hbears.presents
      fun rest found => hlaid.ordinary_of_unpackedAt hroot⟩
  · rw [herror]
    refine ⟨⟨?_, fun hfine => absurd hfine hnot⟩, ?_⟩
    · rintro ⟨unpacked, hunpacked⟩
      cases hunpacked
    · intro unpacked hunpacked
      cases hunpacked

def scriptRevision : Revision where
  name := "main"
  cacheFolder := "/cache"

def scriptEntry : Zip.Entry :=
  .plain "test262-main/test/a.js" "0;".toUTF8

def scriptArchive : ByteArray :=
  ⟨#[80, 75, 3, 4, 20, 0, 0, 0, 0, 0, 0, 0, 33, 0, 40, 205, 148, 47, 2, 0, 0, 0, 2, 0, 0, 0, 22,
      0, 0, 0, 116, 101, 115, 116, 50, 54, 50, 45, 109, 97, 105, 110, 47, 116, 101, 115, 116,
      47, 97, 46, 106, 115, 48, 59, 80, 75, 1, 2, 20, 0, 20, 0, 0, 0, 0, 0, 0, 0, 33, 0, 40,
      205, 148, 47, 2, 0, 0, 0, 2, 0, 0, 0, 22, 0, 0, 0, 0, 0, 0, 0, 0, 0, 0, 0, 128, 1, 0, 0,
      0, 0, 116, 101, 115, 116, 50, 54, 50, 45, 109, 97, 105, 110, 47, 116, 101, 115, 116, 47,
      97, 46, 106, 115, 80, 75, 5, 6, 0, 0, 0, 0, 1, 0, 1, 0, 68, 0, 0, 0, 54, 0, 0, 0, 0, 0]⟩

theorem ofBytes_scriptArchive : Zip.Archive.ofBytes scriptArchive = .ok [scriptEntry] := by
  have hfound : Zip.Layout.endAt? scriptArchive 122 = some ⟨122, 1, 68, 54⟩ := by decide +kernel
  have harchive : Zip.Layout.archiveAt scriptArchive ⟨122, 1, 68, 54⟩ = .ok [scriptEntry] :=
    Zip.Layout.archiveAt_eq_ok (by decide) (by decide +kernel) (by decide +kernel) (by decide)
  exact Zip.Archive.ofBytes_eq_ok hfound harchive (by decide +kernel)

theorem read_scriptEntry : scriptEntry.read = .ok "0;".toUTF8 :=
  Zip.Entry.read_plain _ _

theorem isLaidOut_scriptEntry : Zip.Archive.IsLaidOut [scriptEntry] "test262-main" where
  named := by
    rintro entry hentry
    obtain rfl := List.mem_singleton.mp hentry
    exact ⟨["test", "a.js"], standsAt_of_enclosed? scriptRevision (by decide)
      (by decide) (by decide +kernel) (by simp) rfl⟩
  distinct := by simp
  apart := by decide +kernel
  readable := by
    rintro entry hentry
    obtain rfl := List.mem_singleton.mp hentry
    exact ⟨_, read_scriptEntry⟩
  top := ⟨scriptEntry, by simp, "test", by decide, by decide +kernel⟩

def scriptHost : Host :=
  (Host.withFolder "cache").put ["cache", "test262-main.zip"] (.file scriptArchive)

theorem get?_scriptHost (location : Location) : scriptHost.get? location =
    if location = ["cache", "test262-main.zip"] then some (.file scriptArchive)
    else if location = [] ∨ location = ["cache"] then some .folder else none := by
  rw [scriptHost, Host.get?_put _ _ _ _ (by simp), Host.get?_withFolder]

theorem kept_scriptHost : scriptRevision.KeptAt scriptHost ["cache"] ∧
    scriptHost.Linkless ["cache"] scriptRevision.ownNames := by
  have hthere : scriptHost.get? ["cache"] = some .folder := by simp [get?_scriptHost]
  refine ⟨Host.keptAt_of_folder (by decide) (by decide) rfl hthere, fun location _ target => ?_⟩
  rw [get?_scriptHost]
  split
  · simp
  · split <;> simp

theorem treeAt_scriptHost {name : String} (hname : name ≠ "test262-main.zip") (rest : Location) :
    treeAt scriptHost ["cache"] name rest = none := by
  rw [treeAt, get?_scriptHost]
  simp [hname]

theorem archiveAt_scriptHost :
    Cache.archiveAt Zip.Archive.ofBytes scriptHost scriptRevision.archivePath =
      .ok [scriptEntry] := by
  obtain ⟨hkept, hlinkless⟩ := kept_scriptHost
  exact (archiveAt_iff hkept (by decide)
    (hlinkless.ne_link scriptRevision.archiveName_mem_ownNames)).mpr
      ⟨Host.reach_eq_ok_iff.mpr (by decide +kernel), scriptArchive,
        (get?_scriptHost _).trans (if_pos rfl), ofBytes_scriptArchive⟩

theorem extractable_scriptHost : scriptRevision.Extractable scriptHost ["cache"] [scriptEntry] := by
  have htarget : target? "test262-main" scriptEntry = some ["test", "a.js"] := by
    decide +kernel
  refine ⟨fun entry hentry target hgoes => ?_, fun bytes => ?_⟩
  · obtain rfl := List.mem_singleton.mp hentry
    obtain rfl : ["test", "a.js"] = target := Option.some.inj (htarget.symm.trans hgoes)
    exact ⟨by decide +kernel, by decide +kernel⟩
  · rw [treeAt_scriptHost (by decide)]
    simp

theorem unpackedAt_scriptEntry : unpackedAt "test262-main" [scriptEntry] ["test", "a.js"] =
    some (.file "0;".toUTF8) := by
  have hplaced : placesFile "test262-main" ["test", "a.js"] scriptEntry = true := by
    decide +kernel
  rw [unpackedAt]
  simp [hplaced, read_scriptEntry, Except.toOption]

/-- From the one file of an archive come two corpora that read it. -/
theorem openCorpus_alike_script :
    ∃ packed unpacked,
      (openCorpus (fun _ _ => { bytes := ByteArray.empty })
        { scriptRevision with extract := false } { host := scriptHost }).2 = .ok packed ∧
      (openCorpus (fun _ _ => { bytes := ByteArray.empty })
        { scriptRevision with extract := true } { host := scriptHost }).2 = .ok unpacked ∧
      unpacked.Alike packed ∧ packed.read "test/a.js" = .ok "0;".toUTF8 := by
  obtain ⟨hkept, hlinkless⟩ := kept_scriptHost
  have hnamed : scriptRevision.isNamed = true := by decide
  have hensured := ensure_of_hasArchive (fun _ _ => { bytes := ByteArray.empty }) hnamed
    (show scriptRevision.HasArchive Zip.Archive.ofBytes ({ host := scriptHost } : Cache).host from
      Cache.flaw?_eq_none_iff.mpr ⟨_, archiveAt_scriptHost⟩)
  have hlacks : scriptRevision.LacksTree scriptHost ["cache"] := treeAt_scriptHost (by decide)
  have hrooted : scriptRevision.Rooted scriptHost ["cache"] :=
    fun _ => treeAt_scriptHost (by decide)
  obtain ⟨packed, hpacked, hpresents, hextracted, halike⟩ := openCorpus_alike hnamed
    (.there hkept hlinkless) hrooted hlacks hensured archiveAt_scriptHost isLaidOut_scriptEntry
  obtain ⟨unpacked, hunpacked⟩ := hextracted.mpr extractable_scriptHost
  have hnormal : Path.normalize "test/a.js" = ofNames ["test", "a.js"] := by decide +kernel
  exact ⟨packed, unpacked, hpacked, hunpacked, (halike unpacked hunpacked).2,
    (hpresents.read _ (by decide) hnormal).mpr unpackedAt_scriptEntry⟩

end Revision

end Conformance
