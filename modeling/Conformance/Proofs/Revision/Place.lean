import Conformance.Proofs.Host.Confined
import Conformance.Proofs.Text.LetterCase
import Conformance.Revision.Cache

namespace Conformance.Revision

open Conformance.Path (Ordinary)
open Conformance.Host (Location Under Linkless Confined)

/-! The places of a revision: the four names in the cache folder that it owns. -/

variable {revision : Revision} {host other next : Host} {home : Location} {name : String}

def archiveName (revision : Revision) : String := revision.rootName ++ ".zip"

def partialName (revision : Revision) : String := revision.rootName ++ ".zip.part"

def scratchName (revision : Revision) : String := "." ++ revision.rootName ++ ".extracting"

theorem rootName_eq (revision : Revision) : revision.rootName = "test262-" ++ revision.name := rfl

theorem archivePath_eq (revision : Revision) :
    revision.archivePath = revision.place revision.archiveName := rfl

theorem partialPath_eq (revision : Revision) :
    revision.partialPath = revision.place revision.partialName := rfl

theorem scratchPath_eq (revision : Revision) :
    revision.scratchPath = revision.place revision.scratchName := rfl

theorem treePath_eq (revision : Revision) :
    revision.treePath = revision.place revision.rootName := rfl

/-- What fetching the archive is about. -/
def transferNames (revision : Revision) : List String :=
  [revision.archiveName, revision.partialName]

/-- What unpacking it is about. -/
def treeNames (revision : Revision) : List String :=
  [revision.scratchName, revision.rootName]

def ownNames (revision : Revision) : List String :=
  revision.transferNames ++ revision.treeNames

theorem archiveName_mem (revision : Revision) :
    revision.archiveName ∈ revision.transferNames :=
  List.mem_cons_self

theorem partialName_mem (revision : Revision) :
    revision.partialName ∈ revision.transferNames :=
  List.mem_cons_of_mem _ List.mem_cons_self

theorem scratchName_mem (revision : Revision) : revision.scratchName ∈ revision.treeNames :=
  List.mem_cons_self

theorem rootName_mem (revision : Revision) : revision.rootName ∈ revision.treeNames :=
  List.mem_cons_of_mem _ List.mem_cons_self

theorem transferNames_subset (revision : Revision) : revision.transferNames ⊆ revision.ownNames :=
  List.subset_append_left _ _

theorem treeNames_subset (revision : Revision) : revision.treeNames ⊆ revision.ownNames :=
  List.subset_append_right _ _

theorem archiveName_mem_ownNames (revision : Revision) :
    revision.archiveName ∈ revision.ownNames :=
  revision.transferNames_subset revision.archiveName_mem

theorem partialName_mem_ownNames (revision : Revision) :
    revision.partialName ∈ revision.ownNames :=
  revision.transferNames_subset revision.partialName_mem

theorem scratchName_mem_ownNames (revision : Revision) :
    revision.scratchName ∈ revision.ownNames :=
  revision.treeNames_subset revision.scratchName_mem

theorem rootName_mem_ownNames (revision : Revision) : revision.rootName ∈ revision.ownNames :=
  revision.treeNames_subset revision.rootName_mem

theorem partialName_subset (revision : Revision) :
    [revision.partialName] ⊆ revision.transferNames := by
  simpa using revision.partialName_mem

theorem scratchName_subset (revision : Revision) :
    [revision.scratchName] ⊆ revision.treeNames := by
  simpa using revision.scratchName_mem

theorem scratchName_subset_ownNames (revision : Revision) :
    [revision.scratchName] ⊆ revision.ownNames :=
  List.Subset.trans revision.scratchName_subset revision.treeNames_subset

theorem ownNames_nodup (revision : Revision) : revision.ownNames.Nodup := by
  have hlength : (revision.ownNames.map String.length).Nodup := by
    have hzip : ".zip".length = 4 := rfl
    have hpart : ".zip.part".length = 9 := rfl
    have hextracting : ".extracting".length = 11 := rfl
    have hdot : ".".length = 1 := rfl
    simp [ownNames, transferNames, treeNames, archiveName, partialName, scratchName,
      String.length_append, hzip, hpart, hextracting, hdot]
    omega
  exact hlength.of_map _

theorem partialName_ne_archiveName (revision : Revision) :
    revision.partialName ≠ revision.archiveName := by
  have hnodup := ownNames_nodup revision
  simp only [ownNames, transferNames, List.cons_append, List.nodup_cons, List.mem_cons] at hnodup
  exact fun heq => hnodup.1 (.inl heq.symm)

theorem scratchName_ne_rootName (revision : Revision) :
    revision.scratchName ≠ revision.rootName := by
  have hnodup := (List.nodup_append.mp (ownNames_nodup revision)).2.1
  simp only [treeNames, List.nodup_cons, List.mem_singleton] at hnodup
  exact hnodup.1

theorem disjoint_names (revision : Revision) :
    revision.transferNames.Disjoint revision.treeNames :=
  List.disjoint_of_nodup_append (ownNames_nodup revision)

theorem exists_append_of_mem_ownNames (h : name ∈ revision.ownNames) :
    ∃ front back : String, name = front ++ revision.rootName ++ back ∧
      ('/' ∉ front.toList ∧ '\\' ∉ front.toList) ∧ '/' ∉ back.toList ∧ '\\' ∉ back.toList := by
  simp only [ownNames, transferNames, treeNames, List.cons_append, List.nil_append,
    List.mem_cons, List.not_mem_nil, or_false] at h
  rcases h with rfl | rfl | rfl | rfl
  · exact ⟨"", ".zip", by rw [String.empty_append]; rfl, by decide, by decide⟩
  · exact ⟨"", ".zip.part", by rw [String.empty_append]; rfl, by decide, by decide⟩
  · exact ⟨".", ".extracting", rfl, by decide, by decide⟩
  · exact ⟨"", "", by rw [String.empty_append, String.append_empty], by decide, by decide⟩

theorem ordinary_of_mem (hnamed : revision.isNamed = true) (h : name ∈ revision.ownNames) :
    name ≠ "" ∧ '/' ∉ name.toList ∧ ('\x00' ∉ name.toList → Ordinary name) := by
  obtain ⟨hslash, hback⟩ : '/' ∉ revision.name.toList ∧ '\\' ∉ revision.name.toList := by
    simp only [isNamed, Bool.and_eq_true, Bool.not_eq_true', List.contains_eq_mem,
      decide_eq_false_iff_not] at hnamed
    exact ⟨fun hmem => hnamed.1.2 ((Text.mem_trimmed_iff (by decide)).mpr hmem),
      fun hmem => hnamed.2 ((Text.mem_trimmed_iff (by decide)).mpr hmem)⟩
  obtain ⟨front, back, rfl, hfront, hbehind⟩ := exists_append_of_mem_ownNames h
  have htext : (front ++ revision.rootName ++ back).toList =
      front.toList ++ ("test262-".toList ++ revision.name.toList) ++ back.toList := by
    simp [rootName_eq]
  have hletter : 't' ∈ (front ++ revision.rootName ++ back).toList := by
    rw [htext]
    simp
  have hmem {c : Char} (hfront : c ∉ front.toList) (hroot : c ∉ "test262-".toList)
      (hname : c ∉ revision.name.toList) (hback : c ∉ back.toList) :
      c ∉ (front ++ revision.rootName ++ back).toList := by
    rw [htext]
    simp only [List.mem_append, not_or]
    exact ⟨⟨hfront, hroot, hname⟩, hback⟩
  have hne {other : String} (hother : 't' ∉ other.toList) :
      front ++ revision.rootName ++ back ≠ other := fun heq => hother (heq ▸ hletter)
  have hslash' := hmem hfront.1 (by decide) hslash hbehind.1
  have hback' := hmem hfront.2 (by decide) hback hbehind.2
  exact ⟨hne (by decide), hslash', fun hnul =>
    ⟨hne (by decide), hne (by decide), hne (by decide), hslash', hback', hnul⟩⟩

/-- The cache folder is there, at a location to which its path leads whatever the
revision's own places are like. -/
structure KeptAt (revision : Revision) (host : Host) (home : Location) : Prop where
  isFolderAt : host.isFolderAt home = true
  leads : ∀ other : Host, host.SameBut (Under home revision.ownNames) other →
    other.Leads 40 (other.origin revision.cacheFolder) (Host.parts revision.cacheFolder) home

namespace KeptAt

variable (hkept : revision.KeptAt host home)

include hkept

theorem opens : host.Opens revision.cacheFolder home :=
  ⟨hkept.isFolderAt, hkept.leads host (.refl _ host)⟩

theorem of_sameBut (h : host.SameBut (Under home revision.ownNames) other) :
    revision.KeptAt other home :=
  ⟨(h.isFolderAt Host.not_under_home).trans hkept.isFolderAt,
    fun next hnext => hkept.leads next (h.trans hnext)⟩

theorem of_confined {names : List String} (hnames : names ⊆ revision.ownNames)
    (h : host.Confined other home names) : revision.KeptAt other home :=
  hkept.of_sameBut (h.mono hnames).same

end KeptAt

theorem keptAt_of_straight
    (hnames : ∀ name ∈ Host.parts revision.cacheFolder,
      Ordinary name ∧ name.utf8ByteSize ≤ Host.longestName)
    (hfolders : ∀ front, front <+: Host.parts revision.cacheFolder →
      host.get? (host.origin revision.cacheFolder ++ front) = some .folder) :
    revision.KeptAt host (host.origin revision.cacheFolder ++ Host.parts revision.cacheFolder) := by
  refine ⟨by rw [Host.isFolderAt, hfolders _ List.prefix_rfl], fun other hother => ?_⟩
  rw [hother.origin]
  have hsame (front : List String) (hfront : front <+: Host.parts revision.cacheFolder) :
      other.get? (host.origin revision.cacheFolder ++ front) = some .folder := by
    rw [← hfolders front hfront]
    refine hother.get? _ fun hunder => ?_
    obtain ⟨name, -, rest, heq⟩ := hunder.exists_rest
    have hlength := hfront.length_le
    have hsizes := congrArg List.length heq
    simp only [List.length_append, List.length_cons] at hsizes
    omega
  exact Host.Leads.down hnames (fun front hfront _ => hsame front hfront)
    (hsame _ List.prefix_rfl) (by simp)

end Conformance.Revision

namespace Conformance.Host

open Conformance.Path (Ordinary ofNames)

variable {name : String} {location : Location}

def withFolder (name : String) : Host :=
  (empty []).put [name] .folder

theorem get?_withFolder (name : String) (location : Location) :
    (withFolder name).get? location =
      if location = [] ∨ location = [name] then some .folder else none := by
  rw [withFolder, get?_put _ _ _ _ (by simp)]
  by_cases hname : location = [name]
  · simp [hname]
  · by_cases hroot : location = [] <;> simp [hname, hroot, get?, empty]

theorem isLinkFree_withFolder (name : String) : (withFolder name).IsLinkFree [name] := by
  intro rest target hrest
  rw [get?_withFolder]
  simp [hrest]

theorem keptAt_of_folder {host : Host} {revision : Revision} (hname : Ordinary name)
    (hlong : name.utf8ByteSize ≤ longestName) (hfolder : revision.cacheFolder = "/" ++ name)
    (hthere : host.get? [name] = some .folder) : revision.KeptAt host [name] := by
  have hparts : parts revision.cacheFolder = [name] := by
    have hnames : ∀ other ∈ [name], Ordinary other := by simpa using hname
    have hrest : parts name = [name] := by simpa using parts_ofNames hnames
    rw [hfolder, ← String.empty_append (s := "/"), parts_append_slash, hrest]
    rfl
  have horigin : host.origin revision.cacheFolder = [] := by
    have habsolute : isAbsolute revision.cacheFolder = true := by
      rw [hfolder, isAbsolute_iff]
      simp
    rw [origin, habsolute, if_pos rfl]
  have hfolders (front : List String) (hfront : front <+: parts revision.cacheFolder) :
      host.get? (host.origin revision.cacheFolder ++ front) = some .folder := by
    rw [hparts, List.prefix_cons_iff] at hfront
    rw [horigin]
    rcases hfront with rfl | ⟨front, rfl, hfront⟩
    · rfl
    · rw [List.prefix_nil.mp hfront]
      exact hthere
  have hkept := Revision.keptAt_of_straight (by simpa [hparts] using ⟨hname, hlong⟩) hfolders
  rwa [horigin, hparts] at hkept

theorem keptAt_withFolder {revision : Revision} (name : String) (hname : Ordinary name)
    (hlong : name.utf8ByteSize ≤ longestName) (hfolder : revision.cacheFolder = "/" ++ name) :
    revision.KeptAt (withFolder name) [name] :=
  keptAt_of_folder hname hlong hfolder (by simp [get?_withFolder])

end Conformance.Host
