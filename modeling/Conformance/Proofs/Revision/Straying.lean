import Conformance.Proofs.Host.Adding
import Conformance.Proofs.Revision.Recovery

namespace Conformance.Revision

open Conformance.Path (Ordinary StaysInside along)
open Conformance.Host (Location Under Linkless Confined Passed Adds)
open Conformance.Cache (Goal Stage)

/-! What opening a revision may change where the names of an archive's entries keep a "..". -/

variable {fetcher : Fetcher} {reader : Zip.Reader} {revision : Revision} {goal : Goal}
  {cache : Cache} {host next : Host} {home location : Location} {stage : Stage} {entry : Zip.Entry}
  {target : List String} {held : Except Host.Fault ByteArray} {good : ByteArray → Prop}

/-- What an entry comes past that leads out of the scratch folder: what is left of its name
without the first part goes further up than down. -/
def StraysTo (revision : Revision) (home : Location) (entry : Zip.Entry) (location : Location) :
    Prop :=
  ∃ target, target? revision.rootName entry = some target ∧ ¬ StaysInside 0 target ∧
    Passed home (revision.scratchName :: target) location

section

variable (henclosed : entry.IsEnclosed) (htarget : target? revision.rootName entry = some target)

include henclosed htarget

theorem relative_of_target? : ∀ segment ∈ target, segment = ".." ∨ Ordinary segment := by
  obtain ⟨top, rest, rfl, henclosed', -⟩ := exists_of_target? htarget
  exact (List.forall_mem_cons.mp (henclosed.relative _ henclosed')).2

theorem staysInside_of_target? (hscratch : Ordinary revision.scratchName)
    (hroot : Ordinary revision.rootName) : StaysInside 0 (revision.scratchName :: target) := by
  obtain ⟨top, rest, rfl, henclosed', -⟩ := exists_of_target? htarget
  have hinside := henclosed.inside _ henclosed'
  rw [Path.staysInside_cons hroot] at hinside
  rwa [Path.staysInside_cons hscratch]

omit henclosed in
theorem under_or_straysTo (hscratch : Ordinary revision.scratchName)
    (hpassed : Passed home (revision.scratchName :: target) location) :
    Under home [revision.scratchName] location ∨ StraysTo revision home entry location := by
  by_cases hinside : StaysInside 0 target
  · exact .inl (hpassed.under hscratch hinside)
  · exact .inr ⟨target, htarget, hinside, hpassed⟩

end

section

variable (hopens : host.Opens revision.cacheFolder home) (hfree : host.IsLinkFree home)
  {path : String} {segments : List String}
  (hparts : Host.parts path = Host.parts revision.cacheFolder ++ segments)
  (habsolute : Host.isAbsolute path = Host.isAbsolute revision.cacheFolder)
  (hinside : StaysInside 0 segments)

include hopens hfree hparts habsolute hinside

theorem adds_placeFile : host.Adds (placeFile host path held).1 (Passed home segments) := by
  unfold placeFile
  split
  · exact .refl host _
  · rename_i opened hopened
    have hadds := Host.adds_write hopens hfree hparts habsolute hinside hopened
    split
    · exact hadds
    · split
      · exact hadds
      · rename_i written hwritten
        exact hadds.trans (Host.adds_write (hadds.opens hopens) (hadds.isLinkFree hfree) hparts
          habsolute hinside hwritten)

theorem adds_placeParents (hne : segments ≠ []) :
    host.Adds (placeParents host path).1 (Passed home segments) := by
  unfold placeParents
  split
  · exact .refl host _
  · rename_i parent hparent
    split
    · exact .refl host _
    · obtain ⟨hfront, hlead⟩ := Host.parts_parentPath? hparent
      rw [hparts, List.dropLast_append_of_ne_nil hne] at hfront
      have hprefix := List.dropLast_prefix segments
      exact (Host.adds_createFoldersFrom hopens hfree hfront (hlead.trans habsolute)
        (hinside.of_prefix hprefix) _).mono fun location hlocation => hlocation.mono hprefix

end

theorem adds_unpackEntry (hopens : host.Opens revision.cacheFolder home)
    (hfree : host.IsLinkFree home) (hscratch : Ordinary revision.scratchName)
    (hroot : Ordinary revision.rootName) (henclosed : entry.IsEnclosed) :
    host.Adds (unpackEntry revision.scratchPath revision.rootName host entry).1
      fun location => Under home [revision.scratchName] location ∨
        StraysTo revision home entry location := by
  unfold unpackEntry
  split
  · exact .refl host _
  · split
    · exact .refl host _
    · rename_i target htarget
      have hnames : ∀ segment ∈ target, segment ≠ "" ∧ '/' ∉ segment.toList := by
        intro segment hsegment
        rcases relative_of_target? henclosed htarget segment hsegment with rfl | hordinary
        · exact ⟨by decide, by decide⟩
        · exact ⟨hordinary.ne_empty, hordinary.no_slash⟩
      obtain ⟨hbelow, hrelative⟩ := Host.parts_intercalate hnames
      have hparts : Host.parts (Host.join revision.scratchPath ("/".intercalate target)) =
          Host.parts revision.cacheFolder ++ revision.scratchName :: target := by
        rw [Host.parts_join_of_relative _ hrelative, hbelow, scratchPath_eq, place,
          Host.parts_join_of_relative _ (Host.isAbsolute_of_no_slash hscratch.no_slash),
          Host.parts_of_no_slash hscratch.ne_empty hscratch.no_slash, List.append_assoc,
          List.singleton_append]
      have habsolute : Host.isAbsolute (Host.join revision.scratchPath ("/".intercalate target)) =
          Host.isAbsolute revision.cacheFolder := by
        rw [Host.isAbsolute_join_of_relative _ hrelative, scratchPath_eq, place,
          Host.isAbsolute_join_of_relative _ (Host.isAbsolute_of_no_slash hscratch.no_slash)]
      have hinside := staysInside_of_target? henclosed htarget hscratch hroot
      have hplaces (location : Location) :
          Passed home (revision.scratchName :: target) location →
            Under home [revision.scratchName] location ∨ StraysTo revision home entry location :=
        under_or_straysTo htarget hscratch
      dsimp only
      split
      · exact (Host.adds_createFoldersFrom hopens hfree hparts habsolute hinside _).mono hplaces
      · have hparents := adds_placeParents hopens hfree hparts habsolute hinside (by simp)
        split
        · rename_i between error hbetween
          rw [hbetween] at hparents
          exact hparents.mono hplaces
        · rename_i between hbetween
          rw [hbetween] at hparents
          exact (hparents.trans (adds_placeFile (hparents.opens hopens)
            (hparents.isLinkFree hfree) hparts habsolute hinside)).mono hplaces

section

variable (hopens : cache.host.Opens revision.cacheFolder home) (hfree : cache.host.IsLinkFree home)
  (hscratch : Ordinary revision.scratchName) (hroot : Ordinary revision.rootName)

include hopens hscratch hroot

theorem sameBut_complete_settling (fetcher : Fetcher) (goal : Goal) :
    cache.host.SameBut (Under home revision.treeNames)
      (Cache.complete fetcher reader revision goal cache .settling).1.host := by
  have hspec := settle_spec hopens hscratch hroot _ rfl
  rw [Cache.complete_of_running rfl, Cache.act]
  generalize cache.change (cache.host.rename revision.scratchPath revision.treePath)
    (.ended (.ok ())) = settled at hspec ⊢
  rcases hspec with ⟨error, rfl⟩ | ⟨hdone, hconfined, -⟩
  · rw [Stage.fail, Cache.complete_ended]
    exact .refl _ cache.host
  · rw [hdone, Cache.complete_ended]
    exact hconfined.same

include hfree

theorem sameBut_complete_unpacking (fetcher : Fetcher) (goal : Goal) {entries : Zip.Archive}
    (henclosed : ∀ entry ∈ entries, entry.IsEnclosed) :
    cache.host.SameBut (fun location => Under home revision.treeNames location ∨
        ∃ entry ∈ entries, StraysTo revision home entry location)
      (Cache.complete fetcher reader revision goal cache (.unpacking entries)).1.host := by
  induction entries generalizing cache with
  | nil =>
      rw [Cache.complete_of_running rfl, Cache.act, Cache.unpackNext]
      exact (sameBut_complete_settling hopens hscratch hroot fetcher goal).mono fun _ => .inl
  | cons entry entries ih =>
      obtain ⟨hfirst, hrest⟩ := List.forall_mem_cons.mp henclosed
      have hadds := adds_unpackEntry hopens hfree hscratch hroot hfirst
      have hfirstSame : cache.host.SameBut (fun location =>
          Under home revision.treeNames location ∨
            ∃ other ∈ entry :: entries, StraysTo revision home other location)
          (unpackEntry revision.scratchPath revision.rootName cache.host entry).1 :=
        hadds.sameBut.mono fun location hlocation => hlocation.imp
          (·.mono revision.scratchName_subset) fun hstrays => ⟨entry, List.mem_cons_self, hstrays⟩
      rw [Cache.complete_of_running rfl, Cache.act, Cache.unpackNext]
      split
      · rename_i host hunpacked
        rw [hunpacked] at hadds hfirstSame
        have hopens' : ({ cache with host } : Cache).host.Opens revision.cacheFolder home :=
          hadds.opens hopens
        have hnext := ih hopens' (hadds.isLinkFree hfree) hrest
        exact hfirstSame.trans (hnext.mono fun location => Or.imp_right (Exists.imp fun other =>
          And.imp_left (List.mem_cons_of_mem entry)))
      · rename_i host error hunpacked
        rw [hunpacked] at hfirstSame
        rw [Stage.fail, Cache.complete_ended]
        exact hfirstSame

omit hopens in
theorem sameBut_complete_clearing (fetcher : Fetcher) (goal : Goal) {entries : Zip.Archive}
    (hkept : revision.KeptAt cache.host home)
    (henclosed : ∀ entry ∈ entries, entry.IsEnclosed) :
    cache.host.SameBut (fun location => Under home revision.treeNames location ∨
        ∃ entry ∈ entries, StraysTo revision home entry location)
      (Cache.complete fetcher reader revision goal cache (.clearing entries)).1.host := by
  obtain ⟨hfills, -⟩ := clear_spec hkept hscratch (hfree.linkless _) entries
  have hnext : Stage.Next goal (.clearing entries) (cache.clear revision entries).2 :=
    Cache.next_clear revision cache entries
  rw [Cache.complete_of_running rfl, Cache.act]
  generalize cache.clear revision entries = cleared at hfills hnext ⊢
  obtain ⟨next, after⟩ := cleared
  have hconfined := hfills.confined.mono revision.scratchName_subset
  have hsame : cache.host.SameBut (fun location => Under home revision.treeNames location ∨
      ∃ entry ∈ entries, StraysTo revision home entry location) next.host :=
    hconfined.same.mono fun _ => .inl
  dsimp only at hconfined hsame hnext ⊢
  cases hnext with
  | fails error =>
      rw [Cache.complete_ended]
      exact hsame
  | cleared =>
      have hopens := (hkept.of_confined revision.treeNames_subset hconfined).opens
      exact hsame.trans (sameBut_complete_unpacking hopens (hconfined.isLinkFree hfree) hscratch
        hroot fetcher goal henclosed)

end

theorem sameBut_complete_isUnpacking (hkept : revision.KeptAt cache.host home)
    (hfree : cache.host.IsLinkFree home) (hscratch : Ordinary revision.scratchName)
    (hroot : Ordinary revision.rootName) (fetcher : Fetcher) (goal : Goal)
    (henclosed : ∀ entry ∈ stage.entries, entry.IsEnclosed) (hstage : stage.isUnpacking = true) :
    cache.host.SameBut (fun location => Under home revision.treeNames location ∨
        ∃ entry ∈ stage.entries, StraysTo revision home entry location)
      (Cache.complete fetcher reader revision goal cache stage).1.host := by
  cases stage with
  | clearing entries =>
      exact sameBut_complete_clearing hfree hscratch hroot fetcher goal hkept henclosed
  | unpacking entries =>
      exact sameBut_complete_unpacking hkept.opens hfree hscratch hroot fetcher goal henclosed
  | settling =>
      exact (sameBut_complete_settling hkept.opens hscratch hroot fetcher goal).mono fun _ => .inl
  | _ => cases hstage

/-- What the archive may be read from in a call: the bytes in the cache, and those that the
fetcher delivers. -/
def Supplies (fetcher : Fetcher) (revision : Revision) (host : Host) (home : Location)
    (bytes : ByteArray) : Prop :=
  host.get? (home ++ [revision.archiveName]) = some (.file bytes) ∨
    ∃ number, (fetcher number revision.url).bytes = bytes

/-- What a call has to do with so far are good bytes. -/
structure Supplied (revision : Revision) (reader : Zip.Reader) (good : ByteArray → Prop)
    (host : Host) (home : Location) (stage : Stage) : Prop where
  archive : ∀ bytes, host.get? (home ++ [revision.archiveName]) = some (.file bytes) → good bytes
  transferred : stage.isPlacing = true →
    ∀ bytes, host.get? (home ++ [revision.partialName]) = some (.file bytes) → good bytes
  entries : ∀ entry ∈ stage.entries, ∃ bytes archive, good bytes ∧ reader bytes = .ok archive ∧
    entry ∈ archive

theorem supplied_of_idle
    (harchive : ∀ bytes, host.get? (home ++ [revision.archiveName]) = some (.file bytes) →
      good bytes) (hplacing : stage.isPlacing = false) (hentries : stage.entries = []) :
    revision.Supplied reader good host home stage :=
  ⟨harchive, by simp [hplacing], by simp [hentries]⟩

section

variable (hkept : revision.KeptAt cache.host home) (hnamed : revision.isNamed = true)
  (hlinkless : cache.host.Linkless home revision.ownNames)

include hkept hnamed hlinkless

theorem supplied_write_partial {bytes : ByteArray} {after : Stage}
    (hsupplied : revision.Supplied reader good cache.host home stage)
    (hgood : after.isPlacing = true → good bytes) (hentries : after.entries = [])
    (h : cache.host.write revision.partialPath bytes = .ok host) :
    revision.Supplied reader good host home after := by
  obtain ⟨-, rfl⟩ := hkept.opens.write_name
    (ordinary_of_mem hnamed revision.partialName_mem_ownNames).2.2
    (hlinkless.ne_link revision.partialName_mem_ownNames) h
  have hput := fun location => Host.get?_put cache.host (home ++ [revision.partialName]) location
    (.file bytes) (by simp)
  refine ⟨fun held hfile => ?_, fun hplacing held hfile => ?_, by simp [hentries]⟩
  · rw [hput, if_neg (by simpa using revision.partialName_ne_archiveName.symm)] at hfile
    exact hsupplied.archive held hfile
  · rw [hput, if_pos rfl] at hfile
    cases hfile
    exact hgood hplacing

theorem supplied_transfer (hfetched : ∀ number, good (fetcher number revision.url).bytes)
    (hsupplied : revision.Supplied reader good cache.host home stage) :
    revision.Supplied reader good (cache.transfer fetcher revision).1.host home
      (cache.transfer fetcher revision).2 := by
  unfold Cache.transfer Cache.receive
  dsimp only
  split
  · exact supplied_of_idle hsupplied.archive rfl rfl
  · rename_i written _
    exact supplied_write_partial hkept hnamed hlinkless hsupplied (fun _ => hfetched _) rfl written
  · rename_i written _
    exact supplied_write_partial hkept hnamed hlinkless hsupplied (fun _ => hfetched _) rfl written

end

theorem supplied_act (goal : Goal) (hkept : revision.KeptAt cache.host home)
    (hnamed : stage ≠ .asked → stage.result? = none → revision.isNamed = true)
    (hlinkless : cache.host.Linkless home revision.ownNames)
    (hfetched : ∀ number, good (fetcher number revision.url).bytes)
    (hsupplied : revision.Supplied reader good cache.host home stage)
    (hstage : stage.isUnpacking = false) :
    revision.Supplied reader good (Cache.act fetcher reader revision goal cache stage).1.host home
      (Cache.act fetcher reader revision goal cache stage).2 := by
  have hidle {after : Stage} (hplacing : after.isPlacing = false) (hentries : after.entries = []) :
      revision.Supplied reader good cache.host home after :=
    supplied_of_idle hsupplied.archive hplacing hentries
  cases stage with
  | asked =>
      rw [Cache.act]
      unfold Cache.ask
      split <;> exact hidle rfl rfl
  | awaitingArchive => exact hidle rfl rfl
  | looking =>
      rw [Cache.act]
      unfold Cache.look
      split
      · split
        · cases goal <;> exact hidle rfl rfl
        · exact hidle rfl rfl
      · exact hidle rfl rfl
  | discarding =>
      have hnamed := hnamed (by simp) rfl
      rw [Cache.act]
      unfold Cache.change
      split
      · rename_i removed hremoved
        obtain rfl := hkept.opens.remove_name
          (ordinary_of_mem hnamed revision.archiveName_mem_ownNames).2.2 hremoved
        refine supplied_of_idle (fun bytes hfile => ?_) rfl rfl
        rw [Host.get?_drop (by simp), if_pos rfl] at hfile
        cases hfile
      · exact hidle rfl rfl
  | preparing =>
      have hnamed := hnamed (by simp) rfl
      obtain ⟨after, hafter, hprepare⟩ := exists_prepared hnamed
      rw [Cache.act, hprepare cache home hkept]
      rcases hafter with rfl | ⟨error, rfl⟩ <;> exact hidle rfl rfl
  | opening =>
      have hnamed := hnamed (by simp) rfl
      rw [Cache.act]
      unfold Cache.openPartial
      split
      · rename_i written
        exact supplied_write_partial hkept hnamed hlinkless hsupplied
          (by simp [Stage.isPlacing]) rfl written
      · exact hidle rfl rfl
  | transferring =>
      rw [Cache.act]
      exact supplied_transfer hkept (hnamed (by simp) rfl) hlinkless hfetched hsupplied
  | cleaning failure =>
      have hnamed := hnamed (by simp) rfl
      rw [Cache.act]
      unfold Cache.clean
      split
      · rename_i removed hremoved
        obtain rfl := hkept.opens.remove_name
          (ordinary_of_mem hnamed revision.partialName_mem_ownNames).2.2 hremoved
        refine supplied_of_idle (fun bytes hfile => hsupplied.archive bytes ?_) rfl rfl
        have hother := revision.partialName_ne_archiveName.symm
        rwa [Host.get?_drop (by simp), if_neg (by simpa using hother)] at hfile
      · exact hidle rfl rfl
      · exact hidle rfl rfl
  | placing =>
      have hnamed := hnamed (by simp) rfl
      rw [Cache.act]
      unfold Cache.change
      split
      · rename_i renamed hrenamed
        obtain ⟨-, -, rfl⟩ := hkept.opens.rename_names
          (ordinary_of_mem hnamed revision.partialName_mem_ownNames).2.2
          (ordinary_of_mem hnamed revision.archiveName_mem_ownNames).2.2
          revision.partialName_ne_archiveName hrenamed
        refine supplied_of_idle (fun bytes hfile => hsupplied.transferred rfl bytes ?_) rfl rfl
        have hne (name : String) : home ++ [name] ≠ [] := by simp
        have hmoved := (Host.get?_moveTree cache.host (hne revision.partialName)
          (hne revision.archiveName)).1 []
        rw [List.append_nil, List.append_nil] at hmoved
        exact hmoved.symm.trans hfile
      · exact hidle rfl rfl
  | confirming =>
      rw [Cache.act]
      unfold Cache.confirm
      split
      · cases goal <;> exact hidle rfl rfl
      · exact hidle rfl rfl
  | choosing =>
      rw [Cache.act]
      unfold Cache.lookForTree
      split <;> exact hidle rfl rfl
  | awaitingTree => exact hidle rfl rfl
  | lookingAgain =>
      rw [Cache.act]
      unfold Cache.lookForTree
      split <;> exact hidle rfl rfl
  | loading =>
      have hnamed := hnamed (by simp) rfl
      rw [Cache.act]
      unfold Cache.load
      split
      · rename_i entries hentries
        obtain ⟨-, bytes, hfile, hbytes⟩ := (archiveAt_iff hkept hnamed
          (hlinkless.ne_link revision.archiveName_mem_ownNames)).mp hentries
        exact ⟨hsupplied.archive, by simp [Stage.isPlacing], fun entry hentry =>
          ⟨bytes, entries, hsupplied.archive bytes hfile, hbytes, hentry⟩⟩
      · exact hidle rfl rfl
  | clearing => cases hstage
  | unpacking => cases hstage
  | settling => cases hstage
  | ended => exact hidle rfl rfl

/-- Where in the cache folder a call may go astray: where the entries of an archive that it is
supplied with stray. -/
def Strays (fetcher : Fetcher) (reader : Zip.Reader) (revision : Revision) (host : Host)
    (home location : Location) : Prop :=
  ∃ bytes archive, Supplies fetcher revision host home bytes ∧ reader bytes = .ok archive ∧
    ∃ entry ∈ archive, StraysTo revision home entry location

theorem sameBut_complete (fetcher : Fetcher) (goal : Goal) (hreader : reader.Encloses)
    (hkept : revision.KeptAt cache.host home) (hfree : cache.host.IsLinkFree home)
    (hnamed : stage ≠ .asked → stage.result? = none → revision.isNamed = true)
    (hsound : revision.Sound reader cache.host home stage)
    (hfetched : ∀ number, good (fetcher number revision.url).bytes)
    (hsupplied : revision.Supplied reader good cache.host home stage) :
    cache.host.SameBut (fun location => Under home revision.ownNames location ∨
        ∃ bytes archive, good bytes ∧ reader bytes = .ok archive ∧
          ∃ entry ∈ archive, StraysTo revision home entry location)
      (Cache.complete fetcher reader revision goal cache stage).1.host := by
  fun_induction Cache.complete fetcher reader revision goal cache stage with
  | case1 cache stage result hresult => exact .refl _ cache.host
  | case2 cache stage hresult next ih =>
      have hlinkless := hfree.linkless revision.ownNames
      cases hstage : stage.isUnpacking with
      | false =>
          have hfetches := fetches_act fetcher goal revision.transferNames_subset
            (List.Subset.refl _) (.there hkept hlinkless) hnamed hsound hstage
          have hconfined := (hfetches.confined hkept).mono revision.transferNames_subset
          exact (hconfined.same.mono fun _ => .inl).trans (ih (hkept.of_sameBut hconfined.same)
            (hconfined.isLinkFree hfree) (fun _ hrunning => isNamed_act hnamed hrunning)
            hfetches.sound (supplied_act goal hkept hnamed hlinkless hfetched hsupplied hstage))
      | true =>
          have hname : revision.isNamed = true := by
            refine hnamed ?_ hresult
            rintro rfl
            cases hstage
          have harchive : revision.HasArchive reader cache.host := by
            cases stage <;> first | exact hsound | cases hstage
          have henclosed : ∀ entry ∈ stage.entries, entry.IsEnclosed := by
            intro entry hentry
            obtain ⟨bytes, archive, -, hbytes, hmem⟩ := hsupplied.entries entry hentry
            exact hreader bytes archive hbytes entry hmem
          obtain ⟨hscratch, hroot⟩ := ordinary_of_hasArchive hkept hname
            (hlinkless.ne_link revision.archiveName_mem_ownNames) harchive
          rw [← Cache.complete_of_running hresult]
          refine (sameBut_complete_isUnpacking hkept hfree hscratch hroot fetcher goal henclosed
            hstage).mono fun location hlocation => ?_
          rcases hlocation with hunder | ⟨entry, hentry, hstrays⟩
          · exact .inl (hunder.mono revision.treeNames_subset)
          · obtain ⟨bytes, archive, hgood, hbytes, hmem⟩ := hsupplied.entries entry hentry
            exact .inr ⟨bytes, archive, hgood, hbytes, entry, hmem, hstrays⟩

/-- Without its first part, a name that leads nowhere above where it starts may do so. -/
example : StaysInside 0 ["test262-a", "test", "..", "..", "e"] ∧
    ¬ StaysInside 0 ["test", "..", "..", "e"] ∧
    along ["cache", ".test262-a.extracting"] ["test", "..", "..", "e"] = ["cache", "e"] :=
  ⟨trivial, id, rfl⟩

def hostileEntries : Zip.Archive :=
  [.plain "../e" .empty, .plain "/e" .empty, .plain "test262-a/test\\..\\../e" .empty,
    .plain "test262-a//test/./x/../a.js" .empty]

def hostileArchive : ByteArray :=
  ⟨#[80, 75, 3, 4, 20, 0, 0, 0, 0, 0, 0, 0, 33, 0, 0, 0, 0, 0, 0, 0, 0, 0, 0, 0, 0, 0, 4, 0, 0,
      0, 46, 46, 47, 101, 80, 75, 3, 4, 20, 0, 0, 0, 0, 0, 0, 0, 33, 0, 0, 0, 0, 0, 0, 0, 0, 0,
      0, 0, 0, 0, 2, 0, 0, 0, 47, 101, 80, 75, 3, 4, 20, 0, 0, 0, 0, 0, 0, 0, 33, 0, 0, 0, 0, 0,
      0, 0, 0, 0, 0, 0, 0, 0, 22, 0, 0, 0, 116, 101, 115, 116, 50, 54, 50, 45, 97, 47, 116, 101,
      115, 116, 92, 46, 46, 92, 46, 46, 47, 101, 80, 75, 3, 4, 20, 0, 0, 0, 0, 0, 0, 0, 33, 0,
      0, 0, 0, 0, 0, 0, 0, 0, 0, 0, 0, 0, 27, 0, 0, 0, 116, 101, 115, 116, 50, 54, 50, 45, 97,
      47, 47, 116, 101, 115, 116, 47, 46, 47, 120, 47, 46, 46, 47, 97, 46, 106, 115, 80, 75, 1,
      2, 20, 0, 20, 0, 0, 0, 0, 0, 0, 0, 33, 0, 0, 0, 0, 0, 0, 0, 0, 0, 0, 0, 0, 0, 4, 0, 0, 0,
      0, 0, 0, 0, 0, 0, 0, 0, 128, 1, 0, 0, 0, 0, 46, 46, 47, 101, 80, 75, 1, 2, 20, 0, 20, 0,
      0, 0, 0, 0, 0, 0, 33, 0, 0, 0, 0, 0, 0, 0, 0, 0, 0, 0, 0, 0, 2, 0, 0, 0, 0, 0, 0, 0, 0, 0,
      0, 0, 128, 1, 34, 0, 0, 0, 47, 101, 80, 75, 1, 2, 20, 0, 20, 0, 0, 0, 0, 0, 0, 0, 33, 0,
      0, 0, 0, 0, 0, 0, 0, 0, 0, 0, 0, 0, 22, 0, 0, 0, 0, 0, 0, 0, 0, 0, 0, 0, 128, 1, 66, 0, 0,
      0, 116, 101, 115, 116, 50, 54, 50, 45, 97, 47, 116, 101, 115, 116, 92, 46, 46, 92, 46, 46,
      47, 101, 80, 75, 1, 2, 20, 0, 20, 0, 0, 0, 0, 0, 0, 0, 33, 0, 0, 0, 0, 0, 0, 0, 0, 0, 0,
      0, 0, 0, 27, 0, 0, 0, 0, 0, 0, 0, 0, 0, 0, 0, 128, 1, 118, 0, 0, 0, 116, 101, 115, 116,
      50, 54, 50, 45, 97, 47, 47, 116, 101, 115, 116, 47, 46, 47, 120, 47, 46, 46, 47, 97, 46,
      106, 115, 80, 75, 5, 6, 0, 0, 0, 0, 4, 0, 4, 0, 239, 0, 0, 0, 175, 0, 0, 0, 0, 0]⟩

theorem ofBytes_hostileArchive : Zip.Archive.ofBytes hostileArchive = .ok hostileEntries := by
  have hfound : Zip.Layout.endAt? hostileArchive 414 = some ⟨414, 4, 239, 175⟩ := by
    decide +kernel
  have harchive : Zip.Layout.archiveAt hostileArchive ⟨414, 4, 239, 175⟩ = .ok hostileEntries :=
    Zip.Layout.archiveAt_eq_ok (by decide) (by decide +kernel) (by decide +kernel) (by decide)
  exact Zip.Archive.ofBytes_eq_ok hfound harchive (by decide +kernel)

theorem targets_hostileEntries : hostileEntries.map (target? "test262-a") =
    [none, none, none, some ["test", "a.js"]] := by
  decide +kernel

theorem isUnpackable_hostileEntries : hostileEntries.IsUnpackable "test262-a" where
  resolved := Zip.resolves_ofBytes _ _ ofBytes_hostileArchive
  readable := by simp [hostileEntries, Zip.Entry.read_plain]
  free := by
    intro done entry rest hsplit target htarget
    have htargets := targets_hostileEntries
    rw [hsplit, List.map_append, List.map_cons, htarget] at htargets
    have hnowhere : ∀ other ∈ done, target? "test262-a" other = none := by
      rcases done with _ | ⟨first, _ | ⟨second, _ | ⟨third, _ | ⟨fourth, more⟩⟩⟩⟩ <;>
        simp_all
    exact ⟨fun front _ _ => .inl (unpackedAt_eq_none hnowhere front),
      fun _ => .inl (unpackedAt_eq_none hnowhere target),
      fun _ => by simp [unpackedAt_eq_none hnowhere]⟩
  rooted := by
    have hfile : hostileEntries.reverse.find? (placesFile "test262-a" []) = none := by
      decide +kernel
    rw [unpackedAt, hfile]
    exact if_pos (by decide +kernel)

theorem unpackedAt_hostileEntries : unpackedAt "test262-a" hostileEntries ["test", "a.js"] =
    some (.file .empty) := by
  have hfile : hostileEntries.reverse.find? (placesFile "test262-a" ["test", "a.js"]) =
      some (.plain "test262-a//test/./x/../a.js" .empty) := by
    decide +kernel
  rw [unpackedAt, hfile]
  rfl

def hostileRevision : Revision where
  name := "a"
  cacheFolder := "/cache"
  extract := true

def hostileFetcher : Fetcher :=
  fun _ _ => { bytes := hostileArchive }

def bareCache : Cache where
  host := Host.withFolder "cache"

theorem ready_hostileRevision :
    hostileRevision.Ready bareCache.host ["cache"] where
  kept := Host.keptAt_withFolder "cache" (by decide) (by decide) rfl
  linkless := (Host.isLinkFree_withFolder "cache").linkless _
  reach := by decide +kernel
  noFolder name hname := by simp [bareCache, Host.get?_withFolder]

theorem exists_tree_hostile : ∃ next,
    Cache.complete hostileFetcher Zip.Archive.ofBytes hostileRevision .tree bareCache .asked =
      (next, .ok ()) ∧
    next.host.get? ["cache", "test262-a", "test", "a.js"] = some (.file .empty) := by
  have hready := ready_hostileRevision
  have hnamed : hostileRevision.isNamed = true := by decide
  have hbare (name : String) (rest : Location) :
      treeAt bareCache.host ["cache"] name rest = none := by
    simp [treeAt, bareCache, Host.get?_withFolder]
  have hlinkless : bareCache.host.Linkless ["cache"] hostileRevision.ownNames :=
    (Host.isLinkFree_withFolder "cache").linkless _
  obtain ⟨ensured, result, hensured, -, hcomes⟩ :=
    hready.exists_ensure hnamed
      (not_hasArchive_of_get?_none hready.kept hnamed
        (hlinkless.ne_link hostileRevision.archiveName_mem_ownNames) (hbare _ []))
      hostileFetcher
  obtain ⟨rfl, hread⟩ := hcomes.of_readable rfl ofBytes_hostileArchive
  rcases complete_tree (.there hready.kept hlinkless) hensured
      (Cache.archiveAt_eq_ok_iff.mpr ⟨_, hread, ofBytes_hostileArchive⟩) hnamed
      (fun _ => hbare _) (hbare _) isUnpackable_hostileEntries with
    ⟨-, next, hnext, -, htree⟩ | ⟨hnot, -⟩
  · exact ⟨next, hnext, (htree ["test", "a.js"]).trans unpackedAt_hostileEntries⟩
  · refine absurd ⟨fun entry hentry target htarget => ?_, fun bytes => ?_⟩ hnot
    · have hmem : target? "test262-a" entry ∈ hostileEntries.map (target? "test262-a") :=
        List.mem_map_of_mem hentry
      obtain rfl : target = ["test", "a.js"] := by
        rw [targets_hostileEntries, show target? "test262-a" entry = some target from htarget]
          at hmem
        simpa using hmem
      exact ⟨by decide +kernel, by decide +kernel⟩
    · simp [hbare]

end Conformance.Revision
