import Conformance.Proofs.Revision.Beside
import Conformance.Proofs.Revision.Neighbours
import Conformance.Proofs.Revision.Opening

namespace Conformance.Revision

open Conformance.Path (Ordinary)
open Conformance.Host (Location Under Linkless Confined)
open Conformance.Cache (Goal Stage)

/-! Two revisions in one cache folder. What is done about the one leaves the other alone, as
long as no place of the one is called as a place of the other. -/

variable {reader : Zip.Reader} {left right : Revision} {cache : Cache} {here : Host}
  {home : Location}

/-- A call about a revision, with what answers its transfer. -/
inductive Request where
  | ensure (fetcher : Fetcher)
  | openCorpus (fetcher : Fetcher) (extract : Bool)

/-- What a call leaves of the cache, whether it succeeds or not. -/
def serve (revision : Revision) (reader : Zip.Reader) (cache : Cache) : Request → Cache
  | .ensure fetcher => (revision.ensure fetcher cache reader).1
  | .openCorpus fetcher extract =>
    (({ revision with extract } : Revision).openCorpus fetcher cache reader).1

def serveAll (revision : Revision) (reader : Zip.Reader) (cache : Cache)
    (requests : List Request) : Cache :=
  requests.foldl (revision.serve reader) cache

theorem openCorpus_eq_error {revision : Revision} {fetcher : Fetcher} {next : Cache}
    {error : Error}
    (h : ∀ goal, Cache.complete fetcher reader revision goal cache .asked = (next, .error error)) :
    (revision.openCorpus fetcher cache reader).2 = .error error := by
  unfold openCorpus openTree openArchive ensure
  rw [h, h]
  split
  · rfl
  · rfl

theorem exists_serve_eq (revision : Revision) (request : Request) :
    ∃ fetcher goal, ∀ cache : Cache, revision.serve reader cache request =
      (Cache.complete fetcher reader revision goal cache .asked).1 := by
  cases request with
  | ensure fetcher => exact ⟨fetcher, .archive, fun cache => rfl⟩
  | openCorpus fetcher extract =>
      refine ⟨fetcher, if extract then .tree else .archive, fun cache => ?_⟩
      rw [serve, openCorpus_fst, Cache.complete_withExtract extract]

/-- A revision fares in one cache as it did in another: its places are the same, and calls
about it come to the same. -/
structure FaresAlike (revision : Revision) (reader : Zip.Reader) (home : Location)
    (cache after : Cache) : Prop where
  places : ∀ location, Under home revision.ownNames location →
    after.host.get? location = cache.host.get? location
  ensures : ∀ fetcher fetcher', revision.AnswersAlike fetcher fetcher' cache after →
    (revision.ensure fetcher' after reader).2 = (revision.ensure fetcher cache reader).2
  opens : ∀ extract fetcher fetcher', revision.AnswersAlike fetcher fetcher' cache after →
    (({ revision with extract } : Revision).openCorpus fetcher' after reader).2 =
      (({ revision with extract } : Revision).openCorpus fetcher cache reader).2

namespace Stands

variable {after : Cache} {there : Host} {request : Request}

theorem withExtract (h : left.Stands reader cache here home) (extract : Bool) :
    ({ left with extract } : Revision).Stands reader cache here home where
  kept := ⟨h.kept.isFolderAt, h.kept.leads⟩
  linkless := h.linkless
  own := h.own
  complete fetcher goal := by
    rw [Cache.complete_withExtract extract, Cache.complete_withExtract extract]
    exact h.complete fetcher goal

theorem ensure_eq (h : left.Stands reader cache here home) (fetcher : Fetcher) :
    left.ensure fetcher cache reader = left.ensure fetcher { cache with host := here } reader := by
  unfold ensure
  rw [h.complete]

theorem openCorpus_eq (h : left.Stands reader cache here home) (fetcher : Fetcher) :
    left.openCorpus fetcher cache reader =
      left.openCorpus fetcher { cache with host := here } reader := by
  unfold openCorpus openTree openArchive
  rw [h.ensure_eq, h.complete]

theorem serve_eq (h : left.Stands reader cache here home) (request : Request) :
    left.serve reader cache request = left.serve reader { cache with host := here } request := by
  obtain ⟨fetcher, goal, hserve⟩ := left.exists_serve_eq request
  rw [hserve, hserve, h.complete]

section

variable (hreader : reader.Resolves) (hfolder : left.cacheFolder = right.cacheFolder)
  (hdisjoint : left.ownNames.Disjoint right.ownNames)

include hreader hfolder hdisjoint

theorem serve (hleft : left.Stands reader cache here home)
    (hright : right.Stands reader cache here home)
    (request : Request) :
    here.Confined (left.serve reader cache request).host home left.ownNames ∧
      left.Stands reader (left.serve reader cache request) (left.serve reader cache request).host
        home ∧
      right.Stands reader (left.serve reader cache request) (left.serve reader cache request).host
        home := by
  obtain ⟨fetcher, goal, hserve⟩ := left.exists_serve_eq request
  have hconfined : here.Confined (left.serve reader cache request).host home left.ownNames := by
    rw [hleft.serve_eq, hserve]
    have hkept : left.KeptAt ({ cache with host := here } : Cache).host home := hleft.kept
    exact confined_complete fetcher goal hreader hkept hleft.linkless
      (fun hasked => absurd rfl hasked) trivial nofun
  refine ⟨hconfined, ?_, ?_⟩
  · exact stands_of_kept (hleft.kept.of_confined (List.Subset.refl _) hconfined)
      (hconfined.linkless hleft.linkless)
  · refine stands_of_kept (hleft.kept.of_neighbour hright.kept hfolder hconfined.same) ?_
    intro location hlocation target
    obtain ⟨name, hname, rest, rfl⟩ := hlocation.exists_rest
    rw [hconfined.get?_append (fun hmem => hdisjoint hmem hname)]
    exact hright.linkless _ hlocation target

theorem serveAll (hleft : left.Stands reader cache here home)
    (hright : right.Stands reader cache here home)
    (requests : List Request) :
    ∃ there, here.Confined there home left.ownNames ∧
      left.Stands reader (left.serveAll reader cache requests) there home ∧
      right.Stands reader (left.serveAll reader cache requests) there home := by
  induction requests generalizing cache here with
  | nil => exact ⟨here, .refl here home _, hleft, hright⟩
  | cons request requests ih =>
      obtain ⟨hconfined, hleftNext, hrightNext⟩ :=
        hleft.serve hreader hfolder hdisjoint hright request
      obtain ⟨there, hmore, hstands⟩ := ih hleftNext hrightNext
      exact ⟨there, hconfined.trans hmore, hstands⟩

omit hfolder in
/-- What a call about a revision comes to is not changed by what happens to the places of its
neighbour. -/
theorem faresAlike (hright : right.Stands reader cache here home)
    (hthere : right.Stands reader after there home)
    (hconfined : here.Confined there home left.ownNames) :
    right.FaresAlike reader home cache after := by
  have hbeside : right.Beside left.ownNames home ({ cache with host := here } : Cache).host
      ({ after with host := there } : Cache).host := by
    refine ⟨?_, hright.kept, hthere.kept, hright.linkless, hconfined.same⟩
    exact fun name hown hmem => hdisjoint hmem hown
  refine ⟨fun location hlocation => ?_, fun fetcher fetcher' hanswers => ?_,
    fun extract fetcher fetcher' hanswers => ?_⟩
  · obtain ⟨name, hname, rest, rfl⟩ := hlocation.exists_rest
    rw [← hthere.own _ hlocation, ← hright.own _ hlocation]
    exact hbeside.get?_own hname rest
  · rw [hright.ensure_eq, hthere.ensure_eq]
    exact hbeside.ensure_eq hreader hanswers
  · have hextract := hright.withExtract extract
    have hextract' := hthere.withExtract extract
    rw [hextract.openCorpus_eq, hextract'.openCorpus_eq]
    exact (hbeside.withExtract extract).openCorpus_eq hreader hanswers

end

end Stands

/-- Where two revisions are kept: neither has a link in its places, and the cache folder is
there, or it is missing and can be made; or it cannot be made. -/
inductive Lodged (left right : Revision) (host : Host) (home : Location) : Prop
  | housed (left : left.Housed left.ownNames host home)
      (right : right.Housed right.ownNames host home)
  | barred {parent : String} {fault : Host.Fault}
      (absent : host.isPresent left.archivePath = false)
      (absent' : host.isPresent right.archivePath = false)
      (parentPath : Host.parentPath? left.archivePath = some parent)
      (fails : host.createFolders parent = (host, some fault))

section

variable (hnamed : left.isNamed = true) (hnamed' : right.isNamed = true)
  (hfolder : left.cacheFolder = right.cacheFolder)

include hnamed hnamed' hfolder

theorem exists_stands (hleft : left.Housed left.ownNames cache.host home)
    (hright : right.Housed right.ownNames cache.host home) :
    ∃ here, left.Stands reader cache here home ∧ right.Stands reader cache here home := by
  cases hleft with
  | there hkept hlinkless =>
      obtain ⟨hkept', hlinkless'⟩ := hright.there_of_neighbour hkept hfolder hnamed hnamed'
      exact ⟨cache.host, stands_of_kept hkept hlinkless, stands_of_kept hkept' hlinkless'⟩
  | @missing parent made habsent hbare hparent hcreates hkept hmadeBare =>
      cases hright with
      | there hkept' hlinkless' =>
          have hmissing : left.Housed left.ownNames cache.host home :=
            .missing habsent hbare hparent hcreates hkept hmadeBare
          obtain ⟨hkept, hlinkless⟩ :=
            hmissing.there_of_neighbour hkept' hfolder.symm hnamed' hnamed
          exact ⟨cache.host, stands_of_kept hkept hlinkless, stands_of_kept hkept' hlinkless'⟩
      | @missing parent' made' habsent' hbare' hparent' hcreates' hkept' hmadeBare' =>
          have hsame := hparent'
          rw [parentPath?_archivePath_eq hfolder hnamed hnamed', hparent] at hsame
          obtain rfl : parent = parent' := Option.some.inj hsame
          obtain rfl : made = made' := congrArg Prod.fst (hcreates.symm.trans hcreates')
          exact ⟨made, stands_of_made hnamed habsent hbare hparent hcreates hkept hmadeBare,
            stands_of_made hnamed' habsent' hbare' hparent' hcreates' hkept' hmadeBare'⟩

theorem faresAlike_of_barred {parent : String} {fault : Host.Fault}
    (habsent : cache.host.isPresent left.archivePath = false)
    (habsent' : cache.host.isPresent right.archivePath = false)
    (hparent : Host.parentPath? left.archivePath = some parent)
    (hfails : cache.host.createFolders parent = (cache.host, some fault))
    (requests : List Request) :
      right.FaresAlike reader home cache (left.serveAll reader cache requests) := by
  have hstays : left.serveAll reader cache requests = cache := by
    induction requests with
    | nil => rfl
    | cons request requests ih =>
        obtain ⟨fetcher, goal, hserve⟩ := left.exists_serve_eq request
        rw [serveAll, List.foldl_cons, hserve, complete_of_barred hnamed habsent hparent hfails]
        exact ih
  rw [← parentPath?_archivePath_eq hfolder hnamed hnamed'] at hparent
  have hends (fetcher : Fetcher) (goal : Goal) :
      Cache.complete fetcher reader right goal cache .asked =
      (cache, .error (.host fault)) := complete_of_barred hnamed' habsent' hparent hfails
  have hopens (fetcher : Fetcher) (extract : Bool) :
      (({ right with extract } : Revision).openCorpus fetcher cache reader).2 =
        .error (.host fault) :=
    openCorpus_eq_error fun goal => (Cache.complete_withExtract extract).trans (hends fetcher goal)
  rw [hstays]
  refine ⟨fun _ _ => rfl, fun fetcher fetcher' _ => ?_, fun extract fetcher fetcher' _ => ?_⟩
  · rw [ensure, ensure, hends, hends]
  · rw [hopens, hopens]

/-- Whatever calls about a revision come to, the cache is to another one as it was before: its
archive, the file of its transfer, its scratch folder and its tree are the same, and so is
what later calls about it come to, as long as neither revision is called as the archive of
the other, or as the file of its transfer. -/
theorem faresAlike_serveAll (hreader : reader.Resolves) (hne : left.name ≠ right.name)
    (hclash : ¬ Clashes left right)
    (hlodged : Lodged left right cache.host home) (requests : List Request) :
    right.FaresAlike reader home cache (left.serveAll reader cache requests) := by
  have hdisjoint := (disjoint_ownNames_iff hne).mpr hclash
  cases hlodged with
  | housed hleft hright =>
      obtain ⟨here, hleft, hright⟩ := exists_stands hnamed hnamed' hfolder hleft hright
      obtain ⟨there, hconfined, -, hthere⟩ :=
        hleft.serveAll hreader hfolder hdisjoint hright requests
      exact hright.faresAlike hreader hdisjoint hthere hconfined
  | barred habsent habsent' hparent hfails =>
      exact faresAlike_of_barred hnamed hnamed' hfolder habsent habsent' hparent hfails requests

end

instance (left right : Revision) : Decidable (Clashes left right) :=
  inferInstanceAs (Decidable (_ ∨ _ ∨ _ ∨ _))

def plain : Revision where
  name := "abc"
  cacheFolder := "/cache"

/-- One ending more than that of the archive's name, and there is no clash. -/
theorem faresAlike_serveAll_zip :
    ({ plain with name := "abc.zip.zip" } : Revision).FaresAlike Zip.Archive.ofBytes ["cache"]
      { host := Host.withFolder "cache" }
      (plain.serveAll Zip.Archive.ofBytes { host := Host.withFolder "cache" }
        [.ensure fun _ _ => { bytes := "no archive".toUTF8 },
          .openCorpus (fun _ _ => { bytes := .empty, failure := some "refused" }) true]) := by
  have hfree := Host.isLinkFree_withFolder "cache"
  have hleft : plain.Housed plain.ownNames (Host.withFolder "cache") ["cache"] :=
    .there (Host.keptAt_withFolder "cache" (by decide) (by decide) rfl) (hfree.linkless _)
  have hright : ({ plain with name := "abc.zip.zip" } : Revision).Housed
      ({ plain with name := "abc.zip.zip" } : Revision).ownNames (Host.withFolder "cache")
      ["cache"] :=
    .there (Host.keptAt_withFolder "cache" (by decide) (by decide) rfl) (hfree.linkless _)
  exact faresAlike_serveAll (by decide) (by decide) (by decide) Zip.resolves_ofBytes (by decide)
    (by decide) (.housed hleft hright) _

/-- Its tree is called as the archive of the one above. -/
def bundled : Revision where
  name := "abc.zip"
  cacheFolder := "/cache"

def bundledEntry : Zip.Entry :=
  .plain "test262-abc.zip/test/" .empty

def bundledArchive : ByteArray :=
  ⟨#[80, 75, 3, 4, 20, 0, 0, 0, 0, 0, 0, 0, 33, 0, 0, 0, 0, 0, 0, 0, 0, 0, 0, 0, 0, 0, 21, 0, 0,
      0, 116, 101, 115, 116, 50, 54, 50, 45, 97, 98, 99, 46, 122, 105, 112, 47, 116, 101,
      115, 116, 47, 80, 75, 1, 2, 20, 0, 20, 0, 0, 0, 0, 0, 0, 0, 33, 0, 0, 0, 0, 0, 0, 0,
      0, 0, 0, 0, 0, 0, 21, 0, 0, 0, 0, 0, 0, 0, 0, 0, 0, 0, 128, 1, 0, 0, 0, 0, 116, 101,
      115, 116, 50, 54, 50, 45, 97, 98, 99, 46, 122, 105, 112, 47, 116, 101, 115, 116, 47,
      80, 75, 5, 6, 0, 0, 0, 0, 1, 0, 1, 0, 67, 0, 0, 0, 51, 0, 0, 0, 0, 0]⟩

theorem ofBytes_bundledArchive : Zip.Archive.ofBytes bundledArchive = .ok [bundledEntry] := by
  have hfound : Zip.Layout.endAt? bundledArchive 118 = some ⟨118, 1, 67, 51⟩ := by decide +kernel
  have harchive : Zip.Layout.archiveAt bundledArchive ⟨118, 1, 67, 51⟩ = .ok [bundledEntry] :=
    Zip.Layout.archiveAt_eq_ok (by decide) (by decide +kernel) (by decide +kernel) (by decide)
  exact Zip.Archive.ofBytes_eq_ok hfound harchive (by decide +kernel)

theorem isLaidOut_bundledEntry : Zip.Archive.IsLaidOut [bundledEntry] "test262-abc.zip" where
  named := by
    intro entry hentry
    obtain rfl := List.mem_singleton.mp hentry
    exact ⟨["test"], standsAt_of_enclosed? bundled (by decide) (by decide)
      (by decide +kernel) (by simp) rfl⟩
  distinct := by simp
  apart := by decide +kernel
  readable := by
    intro entry hentry
    obtain rfl := List.mem_singleton.mp hentry
    exact ⟨.empty, Zip.Entry.read_plain _ _⟩
  top := ⟨bundledEntry, by simp, "test", by decide, by decide +kernel⟩

def bundledHost : Host :=
  (Host.withFolder "cache").put ["cache", "test262-abc.zip.zip"] (.file bundledArchive)

theorem get?_bundledHost (location : Location) : bundledHost.get? location =
    if location = ["cache", "test262-abc.zip.zip"] then some (.file bundledArchive)
    else if location = [] ∨ location = ["cache"] then some .folder else none := by
  rw [bundledHost, Host.get?_put _ _ _ _ (by simp), Host.get?_withFolder]

theorem stands_bundledHost :
    (bundled.KeptAt bundledHost ["cache"] ∧ bundledHost.Linkless ["cache"] bundled.ownNames) ∧
      plain.KeptAt bundledHost ["cache"] ∧ bundledHost.Linkless ["cache"] plain.ownNames := by
  have hthere : bundledHost.get? ["cache"] = some .folder := by simp [get?_bundledHost]
  have hfree : bundledHost.IsLinkFree ["cache"] := by
    intro rest target _
    rw [get?_bundledHost]
    split
    · simp
    · split <;> simp
  exact ⟨⟨Host.keptAt_of_folder (by decide) (by decide) rfl hthere, hfree.linkless _⟩,
    Host.keptAt_of_folder (by decide) (by decide) rfl hthere, hfree.linkless _⟩

def refusing : Fetcher := fun _ _ => { bytes := .empty, failure := some "refused" }

theorem exists_tree_bundled : ∃ next,
    Cache.complete refusing Zip.Archive.ofBytes bundled .tree { host := bundledHost } .asked =
        (next, .ok ()) ∧
      plain.KeptAt next.host ["cache"] ∧
      next.host.get? (["cache"] ++ [plain.archiveName]) = some .folder := by
  obtain ⟨⟨hkept, hlinkless⟩, hplain, -⟩ := stands_bundledHost
  have hnamed : bundled.isNamed = true := by decide
  have harchive : Cache.archiveAt Zip.Archive.ofBytes bundledHost bundled.archivePath =
      .ok [bundledEntry] :=
    (archiveAt_iff hkept hnamed (hlinkless.ne_link bundled.archiveName_mem_ownNames)).mpr
      ⟨Host.reach_eq_ok_iff.mpr (by decide +kernel), bundledArchive,
        (get?_bundledHost _).trans (if_pos rfl), ofBytes_bundledArchive⟩
  have hhas : bundled.HasArchive Zip.Archive.ofBytes ({ host := bundledHost } : Cache).host :=
    Cache.flaw?_eq_none_iff.mpr ⟨_, harchive⟩
  have hbare {name : String} (hname : name ≠ "test262-abc.zip.zip") (rest : Location) :
      treeAt bundledHost ["cache"] name rest = none := by
    rw [treeAt, get?_bundledHost]
    simp [hname]
  have hscratch (rest : Location) :
      treeAt bundledHost ["cache"] bundled.scratchName rest = none := hbare (by decide) rest
  have hlacks : bundled.LacksTree bundledHost ["cache"] := hbare (by decide)
  have htarget : target? "test262-abc.zip" bundledEntry = some ["test"] := by decide +kernel
  have hextractable : bundled.Extractable bundledHost ["cache"] [bundledEntry] := by
    refine ⟨fun entry hentry target hgoes => ?_, fun bytes => by simp [hscratch]⟩
    obtain rfl := List.mem_singleton.mp hentry
    obtain rfl : ["test"] = target := Option.some.inj (htarget.symm.trans hgoes)
    exact ⟨by decide +kernel, by decide +kernel⟩
  rcases complete_tree (.there hkept hlinkless) (ensure_of_hasArchive refusing hnamed hhas) harchive
      hnamed (fun _ => hscratch) hlacks (isLaidOut_bundledEntry.isUnpackable (by decide)) with
    ⟨-, next, hnext, hconfined, htree⟩ | ⟨hnot, -⟩
  · exact ⟨next, hnext,
      hkept.of_neighbour hplain rfl (hconfined.mono bundled.treeNames_subset).same,
      (htree []).trans (isLaidOut_bundledEntry.unpackedAt_root (by decide))⟩
  · exact absurd hextractable hnot

theorem ensure_plain_refused : (plain.ensure refusing { host := bundledHost }).2 =
    .error (.download plain.url "refused") := by
  obtain ⟨-, hkept, -⟩ := stands_bundledHost
  have hnamed : plain.isNamed = true := by decide
  have hpartial : Ordinary plain.partialName := by decide
  have hfree {name : String} (hname : name ≠ "test262-abc.zip.zip") :
      bundledHost.get? (["cache"] ++ [name]) = none := by
    rw [get?_bundledHost]
    simp [hname]
  have habsent : bundledHost.isPresent plain.archivePath = false :=
    hkept.isPresent_archivePath hnamed (hfree (by decide))
  have hparent : Host.parentPath? plain.archivePath = some "/cache" := by decide +kernel
  have hprepare : Cache.prepare plain { host := bundledHost } =
      ({ host := bundledHost }, .opening) := by
    have hmade := createFolders_parent hkept hnamed hparent
    have hrefusal : (if "/cache" = "" then none else Host.refusal? "/cache") = none := by
      decide +kernel
    unfold Cache.prepare
    rw [hparent]
    dsimp only
    rw [hmade, hrefusal]
  have hends : (Cache.complete refusing Zip.Archive.ofBytes plain .archive
      { host := bundledHost } .opening).2 =
      .error (.download plain.url "refused") :=
    complete_opening_of_refused (.reason "refused") hkept hpartial
      (Host.reach_eq_ok_iff.mpr (by decide +kernel))
      (hfree (by decide)) rfl
  have hresult : (Cache.complete refusing Zip.Archive.ofBytes plain .archive
      { host := bundledHost } .asked).2 =
      .error (.download plain.url "refused") := by
    rw [Cache.complete_asked_of_absent hnamed habsent, Cache.complete_of_running rfl, Cache.act,
      hprepare, hends]
  exact congrArg (Except.map fun _ => plain.archivePath) hresult

theorem not_faresAlike_bundled :
    (bundled.isNamed = true ∧ plain.isNamed = true ∧ bundled.cacheFolder = plain.cacheFolder ∧
        bundled.name ≠ plain.name ∧ Lodged bundled plain bundledHost ["cache"]) ∧
      (plain.ensure refusing { host := bundledHost }).2 =
        .error (.download plain.url "refused") ∧
      (plain.ensure refusing (bundled.serveAll Zip.Archive.ofBytes { host := bundledHost }
        [.openCorpus refusing true])).2 = .error (.host .isDirectory) ∧
      ¬ plain.FaresAlike Zip.Archive.ofBytes ["cache"] { host := bundledHost }
        (bundled.serveAll Zip.Archive.ofBytes { host := bundledHost }
          [.openCorpus refusing true]) := by
  obtain ⟨⟨hkept, hlinkless⟩, hplain, hplainless⟩ := stands_bundledHost
  obtain ⟨next, hnext, hkeptNext, hfolder⟩ := exists_tree_bundled
  have hafter : bundled.serveAll Zip.Archive.ofBytes
      { host := bundledHost } [.openCorpus refusing true] = next := by
    change (({ bundled with extract := true } : Revision).openCorpus refusing
      { host := bundledHost }).1 = next
    rw [openCorpus_fst, Cache.complete_withExtract true]
    exact congrArg Prod.fst hnext
  have hthen : (plain.ensure refusing next).2 = .error (.host .isDirectory) :=
    congrArg (Except.map fun _ => plain.archivePath) (complete_of_folder refusing .archive hkeptNext
      (by decide) (Host.reach_eq_ok_iff.mpr (by decide +kernel)) hfolder)
  have hnow := ensure_plain_refused
  rw [hafter]
  refine ⟨⟨by decide, by decide, rfl, by decide, .housed (.there hkept hlinkless)
    (.there hplain hplainless)⟩, hnow, hthen, fun hfares => ?_⟩
  have hsame := hfares.ensures refusing refusing fun _ => rfl
  rw [hthen, hnow] at hsame
  cases hsame

end Conformance.Revision
