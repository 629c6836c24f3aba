import Conformance.Proofs.Corpus.Enclosed
import Conformance.Proofs.Host.Alike
import Conformance.Proofs.Revision.Ensuring

namespace Conformance

open Conformance.Path (Ordinary ofNames)
open Conformance.Host (Location Under Linkless Confined)
open Conformance.Cache (Goal Stage)

/-! A call about a revision in two caches that differ at and below other names than its own.
It goes through the same stages in both. -/

variable {fetcher fetcher' : Fetcher} {reader : Zip.Reader} {revision : Revision} {goal : Goal}
  {cache other : Cache} {home : Location} {names : List String} {stage : Stage}

namespace Cache

/-- The same comes of two caches that are the same on the host, but for some locations. -/
def Together {α : Type} (away : Location → Prop) (left right : Cache × α) : Prop :=
  right.2 = left.2 ∧ left.1.host.SameBut away right.1.host

theorem together_change {away : Location → Prop} {left right : Host.Changed}
    (h : Host.Alike away left right) (hsame : cache.host.SameBut away other.host) (next : Stage) :
    Together away (cache.change left next) (other.change right next) := by
  cases h with
  | failed fault => exact ⟨rfl, hsame⟩
  | changed hchanged => exact ⟨rfl, hchanged⟩

theorem isNamed_of_complete
    (hresult : (complete fetcher reader revision goal cache .asked).2 = .ok ()) :
    revision.isNamed = true := by
  by_contra hnot
  have hask : cache.ask revision = (cache, .fail (.invalidArgument (.badRevision revision.name))) :=
    if_neg hnot
  rw [complete_of_running rfl, act, hask] at hresult
  rw [Stage.fail, complete_ended] at hresult
  cases hresult

end Cache

namespace Revision

/-- Two hosts with one cache folder, the same but for names that are none of the revision's. -/
structure Beside (revision : Revision) (names : List String) (home : Location)
    (host other : Host) : Prop where
  apart : revision.ownNames.Disjoint names
  kept : revision.KeptAt host home
  keptOther : revision.KeptAt other home
  linkless : host.Linkless home revision.ownNames
  same : host.SameBut (Under home names) other

/-- What a transfer brings is the same for both caches, from the next one on. -/
def AnswersAlike (revision : Revision) (fetcher fetcher' : Fetcher) (cache other : Cache) : Prop :=
  ∀ count, fetcher' (other.transfers.length + count) revision.url =
    fetcher (cache.transfers.length + count) revision.url

theorem AnswersAlike.act (h : revision.AnswersAlike fetcher fetcher' cache other) :
    revision.AnswersAlike fetcher fetcher' (Cache.act fetcher reader revision goal cache stage).1
      (Cache.act fetcher' reader revision goal other stage).1 := by
  intro count
  rw [Cache.transfers_act, Cache.transfers_act]
  split
  · simpa [Nat.add_assoc, Nat.add_comm 1 count] using h (count + 1)
  · exact h count

namespace Beside

section

variable {host other next next' : Host} {name : String} {target : List String} {entry : Zip.Entry}
  (h : revision.Beside names home host other)

include h

theorem notMem (hname : name ∈ revision.ownNames) : name ∉ names :=
  fun hmem => h.apart hname hmem

theorem get?_own (hname : name ∈ revision.ownNames) (rest : Location) :
    other.get? (home ++ name :: rest) = host.get? (home ++ name :: rest) :=
  h.same.get? _ (Host.not_under_append (h.notMem hname) rest)

theorem linklessOther : other.Linkless home revision.ownNames := by
  intro location hlocation target
  obtain ⟨name, hname, rest, rfl⟩ := hlocation.exists_rest
  rw [h.get?_own hname]
  exact h.linkless _ hlocation target

theorem symm : revision.Beside names home other host where
  apart := h.apart
  kept := h.keptOther
  keptOther := h.kept
  linkless := h.linklessOther
  same := h.same.symm

theorem withExtract (extract : Bool) :
    ({ revision with extract } : Revision).Beside names home host other where
  apart := h.apart
  kept := ⟨h.kept.isFolderAt, h.kept.leads⟩
  keptOther := ⟨h.keptOther.isFolderAt, h.keptOther.leads⟩
  linkless := h.linkless
  same := h.same

theorem twins : Host.Twins names revision.cacheFolder home host other :=
  ⟨h.kept.opens, h.keptOther.opens, h.same⟩

theorem of_confined (hleft : host.Confined next home revision.ownNames)
    (hright : other.Confined next' home revision.ownNames)
    (hsame : next.SameBut (Under home names) next') : revision.Beside names home next next' where
  apart := h.apart
  kept := h.kept.of_confined (List.Subset.refl _) hleft
  keptOther := h.keptOther.of_confined (List.Subset.refl _) hright
  linkless := hleft.linkless h.linkless
  same := hsame

theorem finds (hnamed : revision.isNamed = true) (hname : name ∈ revision.ownNames) :
    Host.FindsAlike names home host other (revision.place name) :=
  h.twins.findsAlike_name (ordinary_of_mem hnamed hname).2.2 (h.linkless.ne_link hname)
    (h.notMem hname)

theorem archiveAt_eq (hnamed : revision.isNamed = true) :
    Cache.archiveAt reader other revision.archivePath =
      Cache.archiveAt reader host revision.archivePath := by
  have hread := (h.finds hnamed revision.archiveName_mem_ownNames).read h.same
  unfold Cache.archiveAt
  rw [archivePath_eq, hread]

theorem flaw?_eq (hnamed : revision.isNamed = true) :
    Cache.flaw? reader other revision.archivePath =
      Cache.flaw? reader host revision.archivePath := by
  unfold Cache.flaw?
  rw [h.archiveAt_eq hnamed]

theorem of_fills (hleft : revision.Fills host next home) (hright : revision.Fills other next' home)
    (hsame : next.SameBut (Under home names) next') : revision.Beside names home next next' :=
  h.of_confined (hleft.confined.mono revision.scratchName_subset_ownNames)
    (hright.confined.mono revision.scratchName_subset_ownNames) hsame

section

variable (hscratch : Ordinary revision.scratchName) (htarget : ∀ segment ∈ target, Ordinary segment)

include hscratch htarget

theorem finds_scratch : Host.FindsAlike names home host other
    (Host.join revision.cacheFolder (ofNames (revision.scratchName :: target))) :=
  h.twins.findsAlike (List.forall_mem_cons.mpr ⟨hscratch, htarget⟩)
    (h.linkless.isClear revision.scratchName_mem_ownNames target)
    (h.notMem revision.scratchName_mem_ownNames)

theorem createFolders_scratch : Host.Together (Under home names)
    (host.createFolders
      (Host.join revision.cacheFolder (ofNames (revision.scratchName :: target))))
    (other.createFolders
      (Host.join revision.cacheFolder (ofNames (revision.scratchName :: target)))) :=
  h.twins.createFolders (List.forall_mem_cons.mpr ⟨hscratch, htarget⟩)
    (h.linkless.isClear revision.scratchName_mem_ownNames target)
    (h.notMem revision.scratchName_mem_ownNames)

variable (hne : target ≠ [])

include hne

theorem placeParents_scratch : Host.Together (Under home names)
    (placeParents host (Host.join revision.cacheFolder (ofNames (revision.scratchName :: target))))
    (placeParents other
      (Host.join revision.cacheFolder (ofNames (revision.scratchName :: target)))) := by
  obtain ⟨front, last, rfl⟩ := (List.eq_nil_or_concat' target).resolve_left hne
  have hfront := (List.forall_mem_append.mp htarget).1
  have hparent := Host.parentPath?_join_append revision.cacheFolder
    (List.forall_mem_cons.mpr ⟨hscratch, hfront⟩) (htarget last (by simp)) (by simp)
  have hpresent := (h.finds_scratch hscratch hfront).isPresent h.same
  unfold placeParents
  rw [← List.cons_append, hparent]
  dsimp only
  rw [hpresent]
  split
  · exact ⟨rfl, h.same⟩
  · exact (h.createFolders_scratch hscratch hfront).map _

theorem placeFile_scratch (held : Except Host.Fault ByteArray) :
    Host.Together (Under home names)
      (placeFile host (Host.join revision.cacheFolder (ofNames (revision.scratchName :: target)))
        held)
      (placeFile other (Host.join revision.cacheFolder (ofNames (revision.scratchName :: target)))
        held) := by
  have hscratchless := h.linkless.mono revision.scratchName_subset_ownNames
  have hscratchless' := h.linklessOther.mono revision.scratchName_subset_ownNames
  unfold placeFile
  rcases ((h.finds_scratch hscratch htarget).write h.same .empty).exists_eq with
    ⟨fault, hleft, hright⟩ | ⟨opened, opened', hleft, hright, hsame⟩
  · rw [hleft, hright]
    exact ⟨rfl, h.same⟩
  · rw [hleft, hright]
    dsimp only
    cases held with
    | error fault => exact ⟨rfl, hsame⟩
    | ok bytes =>
        have hopened := h.of_fills
          (fills_write h.kept hscratch hscratchless htarget hne hleft)
          (fills_write h.keptOther hscratch hscratchless' htarget hne hright) hsame
        dsimp only
        rcases ((hopened.finds_scratch hscratch htarget).write hsame bytes).exists_eq with
          ⟨fault, hleft, hright⟩ | ⟨written, written', hleft, hright, hwritten⟩
        · rw [hleft, hright]
          exact ⟨rfl, hsame⟩
        · rw [hleft, hright]
          exact ⟨rfl, hwritten⟩

end

theorem unpackEntry (hscratch : Ordinary revision.scratchName) (hresolved : entry.IsResolved) :
    Host.Together (Under home names)
      (unpackEntry revision.scratchPath revision.rootName host entry)
      (unpackEntry revision.scratchPath revision.rootName other entry) := by
  have hscratchless := h.linkless.mono revision.scratchName_subset_ownNames
  have hscratchless' := h.linklessOther.mono revision.scratchName_subset_ownNames
  unfold Revision.unpackEntry
  cases hopened : entry.opened with
  | error problem => exact ⟨rfl, h.same⟩
  | ok held =>
      dsimp only
      cases htarget : target? revision.rootName entry with
      | none => exact ⟨rfl, h.same⟩
      | some target =>
          obtain ⟨hne, hordinary⟩ := ordinary_of_target? hresolved htarget
          dsimp only
          rw [show "/".intercalate target = ofNames target from rfl,
            join_scratchPath hscratch hordinary hne]
          split
          · exact (h.createFolders_scratch hscratch hordinary).map _
          · have hparents := h.placeParents_scratch hscratch hordinary hne
            have hgrown := grown_placeParents h.kept hscratch hscratchless hordinary hne
            have hgrown' := grown_placeParents h.keptOther hscratch hscratchless' hordinary hne
            generalize placeParents host (Host.join revision.cacheFolder
              (ofNames (revision.scratchName :: target))) = outcome at hparents hgrown ⊢
            generalize placeParents other (Host.join revision.cacheFolder
              (ofNames (revision.scratchName :: target))) = outcome' at hparents hgrown' ⊢
            obtain ⟨middle, failure⟩ := outcome
            obtain ⟨middle', failure'⟩ := outcome'
            obtain ⟨rfl, hsame⟩ := hparents
            cases failure' with
            | some error => exact ⟨rfl, hsame⟩
            | none =>
                have hmiddle := h.of_fills (fills_of_grown hgrown) (fills_of_grown hgrown') hsame
                exact hmiddle.placeFile_scratch hscratch hordinary hne held

theorem finds_archivePath (hnamed : revision.isNamed = true) :
    Host.FindsAlike names home host other revision.archivePath :=
  h.finds hnamed revision.archiveName_mem_ownNames

theorem finds_partialPath (hnamed : revision.isNamed = true) :
    Host.FindsAlike names home host other revision.partialPath :=
  h.finds hnamed revision.partialName_mem_ownNames

theorem finds_scratchPath (hnamed : revision.isNamed = true) :
    Host.FindsAlike names home host other revision.scratchPath :=
  h.finds hnamed revision.scratchName_mem_ownNames

theorem finds_treePath (hnamed : revision.isNamed = true) :
    Host.FindsAlike names home host other revision.treePath :=
  h.finds hnamed revision.rootName_mem_ownNames

end

section

variable (h : revision.Beside names home cache.host other.host) (hnamed : revision.isNamed = true)

include h hnamed

theorem together_look : Cache.Together (Under home names) (cache.look reader revision goal)
    (other.look reader revision goal) := by
  unfold Cache.look
  rw [(h.finds_archivePath hnamed).isPresent h.same, h.flaw?_eq hnamed]
  split
  · split
    · exact ⟨rfl, h.same⟩
    · exact ⟨rfl, h.same⟩
  · exact ⟨rfl, h.same⟩

theorem together_prepare : Cache.Together (Under home names) (cache.prepare revision)
    (other.prepare revision) := by
  obtain ⟨stage, -, hprepare⟩ := exists_prepared hnamed
  rw [hprepare cache home h.kept, hprepare other home h.keptOther]
  exact ⟨rfl, h.same⟩

theorem together_openPartial : Cache.Together (Under home names) (cache.openPartial revision)
    (other.openPartial revision) := by
  have hwritten := (h.finds_partialPath hnamed).write h.same .empty
  unfold Cache.openPartial
  rcases hwritten.exists_eq with ⟨fault, hleft, hright⟩ | ⟨left, right, hleft, hright, hsame⟩
  · rw [hleft, hright]
    exact ⟨rfl, h.same⟩
  · rw [hleft, hright]
    exact ⟨rfl, hsame⟩

theorem together_receive (delivery : Delivery) : Cache.Together (Under home names)
    (cache.receive revision delivery) (other.receive revision delivery) := by
  have hwritten := (h.finds_partialPath hnamed).write h.same delivery.bytes
  unfold Cache.receive
  rcases hwritten.exists_eq with ⟨fault, hleft, hright⟩ | ⟨left, right, hleft, hright, hsame⟩
  · rw [hleft, hright]
    exact ⟨rfl, h.same⟩
  · rw [hleft, hright]
    cases delivery.failure with
    | none => exact ⟨rfl, hsame⟩
    | some reason => exact ⟨rfl, hsame⟩

theorem together_transfer (hdelivery : fetcher' other.transfers.length revision.url =
      fetcher cache.transfers.length revision.url) :
    Cache.Together (Under home names) (cache.transfer fetcher revision)
      (other.transfer fetcher' revision) := by
  unfold Cache.transfer
  rw [hdelivery]
  have hbegun : revision.Beside names home
      ({ cache with transfers := revision.url :: cache.transfers } : Cache).host
      ({ other with transfers := revision.url :: other.transfers } : Cache).host := h
  exact hbegun.together_receive hnamed _

theorem together_clean (failure : Error) : Cache.Together (Under home names)
    (cache.clean revision failure) (other.clean revision failure) := by
  have hremoved := (h.finds_partialPath hnamed).remove h.same
  unfold Cache.clean
  rcases hremoved.exists_eq with ⟨fault, hleft, hright⟩ | ⟨left, right, hleft, hright, hsame⟩
  · rw [hleft, hright]
    cases fault with
    | noEntry => exact ⟨rfl, h.same⟩
    | _ => exact ⟨rfl, h.same⟩
  · rw [hleft, hright]
    exact ⟨rfl, hsame⟩

theorem together_confirm : Cache.Together (Under home names) (cache.confirm reader revision goal)
    (other.confirm reader revision goal) := by
  unfold Cache.confirm
  rw [h.flaw?_eq hnamed]
  split
  · exact ⟨rfl, h.same⟩
  · exact ⟨rfl, h.same⟩

theorem together_lookForTree (otherwise : Stage) : Cache.Together (Under home names)
    (cache.lookForTree revision otherwise) (other.lookForTree revision otherwise) := by
  unfold Cache.lookForTree
  rw [(h.finds_treePath hnamed).isFolder h.same]
  split
  · exact ⟨rfl, h.same⟩
  · exact ⟨rfl, h.same⟩

theorem together_load : Cache.Together (Under home names) (cache.load reader revision)
    (other.load reader revision) := by
  unfold Cache.load
  rw [h.archiveAt_eq hnamed]
  split
  · exact ⟨rfl, h.same⟩
  · exact ⟨rfl, h.same⟩

theorem together_clear (entries : Zip.Archive) : Cache.Together (Under home names)
    (cache.clear revision entries) (other.clear revision entries) := by
  have hfinds := h.finds_scratchPath hnamed
  unfold Cache.clear
  rw [hfinds.isPresent h.same]
  split
  · exact Cache.together_change (hfinds.removeTree h.same) h.same _
  · exact ⟨rfl, h.same⟩

omit hnamed in
theorem together_unpackNext (hscratch : Ordinary revision.scratchName) {entries : Zip.Archive}
    (hresolved : ∀ entry ∈ entries, entry.IsResolved) :
    Cache.Together (Under home names) (cache.unpackNext revision entries)
      (other.unpackNext revision entries) := by
  unfold Cache.unpackNext
  cases entries with
  | nil => exact ⟨rfl, h.same⟩
  | cons entry entries =>
      have hunpacked := h.unpackEntry hscratch (hresolved entry List.mem_cons_self)
      dsimp only
      generalize Revision.unpackEntry revision.scratchPath revision.rootName cache.host entry =
        outcome at hunpacked ⊢
      generalize Revision.unpackEntry revision.scratchPath revision.rootName other.host entry =
        outcome' at hunpacked ⊢
      obtain ⟨next, failure⟩ := outcome
      obtain ⟨next', failure'⟩ := outcome'
      obtain ⟨rfl, hsame⟩ := hunpacked
      cases failure' with
      | none => exact ⟨rfl, hsame⟩
      | some error => exact ⟨rfl, hsame⟩

end

/-- A stage comes to the same in both caches. -/
theorem together_act (h : revision.Beside names home cache.host other.host)
    (hanswers : revision.AnswersAlike fetcher fetcher' cache other)
    (hnamed : stage ≠ .asked → stage.result? = none → revision.isNamed = true)
    (hsound : revision.Sound reader cache.host home stage)
    (hresolved : ∀ entry ∈ stage.entries, entry.IsResolved) :
    Cache.Together (Under home names) (Cache.act fetcher reader revision goal cache stage)
      (Cache.act fetcher' reader revision goal other stage) := by
  rw [Cache.act.eq_def, Cache.act.eq_def]
  cases stage with
  | asked =>
      dsimp only
      unfold Cache.ask
      split
      · exact ⟨rfl, h.same⟩
      · exact ⟨rfl, h.same⟩
  | awaitingArchive => exact ⟨rfl, h.same⟩
  | looking => exact h.together_look (hnamed (by simp) rfl)
  | discarding =>
      have hremoved := (h.finds_archivePath (hnamed (by simp) rfl)).remove h.same
      exact Cache.together_change hremoved h.same _
  | preparing => exact h.together_prepare (hnamed (by simp) rfl)
  | opening => exact h.together_openPartial (hnamed (by simp) rfl)
  | transferring =>
      have hdelivery := hanswers 0
      rw [Nat.add_zero, Nat.add_zero] at hdelivery
      exact h.together_transfer (hnamed (by simp) rfl) hdelivery
  | cleaning failure => exact h.together_clean (hnamed (by simp) rfl) failure
  | placing =>
      have hname := hnamed (by simp) rfl
      have hrenamed := (h.finds_partialPath hname).rename (h.finds_archivePath hname) h.same
      exact Cache.together_change hrenamed h.same _
  | confirming => exact h.together_confirm (hnamed (by simp) rfl)
  | choosing => exact h.together_lookForTree (hnamed (by simp) rfl) _
  | awaitingTree => exact ⟨rfl, h.same⟩
  | lookingAgain => exact h.together_lookForTree (hnamed (by simp) rfl) _
  | loading => exact h.together_load (hnamed (by simp) rfl)
  | clearing entries => exact h.together_clear (hnamed (by simp) rfl) entries
  | unpacking entries =>
      obtain ⟨hscratch, -⟩ := ordinary_of_hasArchive h.kept (hnamed (by simp) rfl)
        (h.linkless.ne_link revision.archiveName_mem_ownNames) hsound
      exact h.together_unpackNext hscratch hresolved
  | settling =>
      have hname := hnamed (by simp) rfl
      have hrenamed := (h.finds_scratchPath hname).rename (h.finds_treePath hname) h.same
      exact Cache.together_change hrenamed h.same _
  | ended result => exact ⟨rfl, h.same⟩

theorem complete (hreader : reader.Resolves)
    (h : revision.Beside names home cache.host other.host)
    (hanswers : revision.AnswersAlike fetcher fetcher' cache other)
    (hnamed : stage ≠ .asked → stage.result? = none → revision.isNamed = true)
    (hsound : revision.Sound reader cache.host home stage)
    (hsound' : revision.Sound reader other.host home stage)
    (hresolved : ∀ entry ∈ stage.entries, entry.IsResolved) :
    (Cache.complete fetcher' reader revision goal other stage).2 =
        (Cache.complete fetcher reader revision goal cache stage).2 ∧
      revision.Beside names home (Cache.complete fetcher reader revision goal cache stage).1.host
        (Cache.complete fetcher' reader revision goal other stage).1.host := by
  fun_induction Cache.complete fetcher reader revision goal cache stage generalizing other with
  | case1 cache stage result hresult =>
      rw [Cache.complete_of_result hresult]
      exact ⟨rfl, h⟩
  | case2 cache stage hresult next =>
      rename_i ih
      obtain ⟨hconfined, hnext⟩ := confined_act fetcher goal h.kept h.linkless hnamed hsound
        hresolved hresult
      obtain ⟨hconfined', hnext'⟩ := confined_act fetcher' goal h.keptOther h.linklessOther hnamed
        hsound' hresolved hresult
      have htogether : Cache.Together (Under home names)
          (Cache.act fetcher reader revision goal cache stage)
          (Cache.act fetcher' reader revision goal other stage) :=
        h.together_act hanswers hnamed hsound hresolved
      obtain ⟨hstage, hsame⟩ := htogether
      rw [Cache.complete_of_running hresult, hstage]
      rw [hstage] at hnext'
      exact ih (h.of_confined hconfined hconfined' hsame) hanswers.act
        (fun _ hrunning => isNamed_act hnamed hrunning) hnext hnext'
        (Cache.entries_act (fun _ _ _ => hreader _ _) hresult hresolved)

section

variable {host other : Host} (h : revision.Beside names home host other)
  (hnamed : revision.isNamed = true)

include h hnamed

theorem indexAt_eq : revision.indexAt other reader = revision.indexAt host reader := by
  unfold indexAt Index.ofFile Index.archiveBytes
  rw [(h.finds_archivePath hnamed).read h.same]

theorem isBase_treePath (hfolder : host.isFolder revision.treePath = true) :
    host.IsBase revision.treePath (home ++ [revision.rootName]) := by
  have hname := (ordinary_of_mem hnamed revision.rootName_mem_ownNames).2.2
  have hplain := h.linkless.ne_link revision.rootName_mem_ownNames
  obtain ⟨hreach, hthere⟩ := (h.kept.opens.isFolder_name hname hplain).mp hfolder
  refine ⟨(h.kept.opens.resolve_name hname hplain).mpr ⟨hreach, rfl, hthere⟩, ?_⟩
  intro rest target _
  rw [List.append_assoc]
  exact h.linkless _ (Host.under_append revision.rootName_mem_ownNames rest) target

theorem directory_eq :
    (Directory.ofPath other revision.treePath).map Directory.toCorpus =
      (Directory.ofPath host revision.treePath).map Directory.toCorpus := by
  have hfolders := (h.finds_treePath hnamed).isFolder h.same
  unfold Directory.ofPath
  rw [hfolders]
  split
  · rfl
  · split
    · rename_i hfolder
      have hhome := h.isBase_treePath hnamed hfolder
      have haway := h.symm.isBase_treePath hnamed (hfolders.trans hfolder)
      have hsame : host.SameBelow (home ++ [revision.rootName]) other
          (home ++ [revision.rootName]) := by
        intro rest
        rw [List.append_assoc, List.singleton_append]
        exact (h.get?_own revision.rootName_mem_ownNames rest).symm
      have hlist : Directory.list ⟨other, revision.treePath⟩ =
          Directory.list ⟨host, revision.treePath⟩ := by
        funext root recursive test
        exact (Directory.list_eq_of_sameBelow hsame hhome haway root recursive test).symm
      have hread : Directory.read ⟨other, revision.treePath⟩ =
          Directory.read ⟨host, revision.treePath⟩ := by
        funext path
        exact (Directory.read_eq_of_sameBelow hsame hhome haway path).symm
      simp only [Except.map, Directory.toCorpus, hlist, hread]
    · rfl

end

section

variable (hreader : reader.Resolves) (h : revision.Beside names home cache.host other.host)
  (hanswers : revision.AnswersAlike fetcher fetcher' cache other)

include hreader h hanswers

theorem complete_asked (goal : Goal) :
    (Cache.complete fetcher' reader revision goal other .asked).2 =
        (Cache.complete fetcher reader revision goal cache .asked).2 ∧
      revision.Beside names home (Cache.complete fetcher reader revision goal cache .asked).1.host
        (Cache.complete fetcher' reader revision goal other .asked).1.host :=
  h.complete hreader hanswers (fun hasked => absurd rfl hasked) trivial trivial nofun

theorem ensure_eq : (revision.ensure fetcher' other reader).2 =
    (revision.ensure fetcher cache reader).2 :=
  congrArg (Except.map fun _ => revision.archivePath) (h.complete_asked hreader hanswers .archive).1

theorem openArchive_eq :
    (revision.openArchive fetcher' other reader).2 =
      (revision.openArchive fetcher cache reader).2 := by
  obtain ⟨hresult, hlast⟩ := h.complete_asked hreader hanswers .archive
  have hnamed := @Cache.isNamed_of_complete fetcher reader revision .archive cache
  unfold openArchive ensure
  generalize Cache.complete fetcher reader revision .archive cache .asked = outcome
    at hresult hlast hnamed ⊢
  generalize Cache.complete fetcher' reader revision .archive other .asked = outcome'
    at hresult hlast ⊢
  obtain ⟨next, result⟩ := outcome
  obtain ⟨next', result'⟩ := outcome'
  obtain rfl : result' = result := hresult
  cases result' with
  | error error => rfl
  | ok done => exact hlast.indexAt_eq (hnamed rfl)

theorem openTree_eq :
    ((revision.openTree fetcher' other reader).2.map Directory.toCorpus) =
      (revision.openTree fetcher cache reader).2.map Directory.toCorpus := by
  obtain ⟨hresult, hlast⟩ := h.complete_asked hreader hanswers .tree
  have hnamed := @Cache.isNamed_of_complete fetcher reader revision .tree cache
  unfold openTree
  generalize Cache.complete fetcher reader revision .tree cache .asked =
    outcome at hresult hlast hnamed ⊢
  generalize Cache.complete fetcher' reader revision .tree other .asked =
    outcome' at hresult hlast ⊢
  obtain ⟨next, result⟩ := outcome
  obtain ⟨next', result'⟩ := outcome'
  obtain rfl : result' = result := hresult
  cases result' with
  | error error => rfl
  | ok done => exact hlast.directory_eq (hnamed rfl)

theorem openCorpus_eq :
    (revision.openCorpus fetcher' other reader).2 =
      (revision.openCorpus fetcher cache reader).2 := by
  unfold openCorpus
  split
  · exact h.openTree_eq hreader hanswers
  · exact congrArg (Except.map Index.toCorpus) (h.openArchive_eq hreader hanswers)

end

end Beside

end Revision

end Conformance
