import Conformance.Proofs.Corpus.Agreement
import Conformance.Proofs.Host.SameBelow
import Conformance.Proofs.Path.Normalized

namespace Conformance

/-! A directory shows what lies in its folder, and nothing else: what it lists and reads is
the same whatever there is elsewhere on the host. -/

namespace Path

theorem isAbsolute_normalize (path : String) : Host.isAbsolute (normalize path) = false := by
  rw [Bool.eq_false_iff, Ne, Host.isAbsolute_iff, toList_normalize]
  exact head?_normalized path.toList

end Path

namespace Directory

/-- A path that has a name of two dots, or one of a single dot in front. -/
def LeadsAside (path : String) : Prop :=
  ['.', '.'] ∈ Path.segments path.toList ∨ (Path.segments path.toList).head? = some ['.']

theorem isPlain_eq_false_iff {path : String} :
    isPlain path.toList = false ↔ LeadsAside path := by
  rw [isPlain, LeadsAside, Bool.and_eq_false_iff, or_comm]
  simp

variable {host other : Host} {base path : String} {home away : Host.Location}

theorem dots_not_mem_parts (hplain : isPlain path.toList = true) : ".." ∉ Host.parts path := by
  intro hmem
  obtain ⟨segment, hsegment, hname⟩ := List.mem_map.mp hmem
  have hdots : segment = ['.', '.'] := by
    have htext := congrArg String.toList hname
    rwa [String.toList_ofList] at htext
  subst hdots
  have haside : LeadsAside path := .inl (List.mem_filter.mp hsegment).1
  rw [isPlain_eq_false_iff.mpr haside] at hplain
  contradiction

theorem locate_of_leadsAside {directory : Directory} (haside : LeadsAside (Path.normalize path)) :
    directory.locate path = .error (.notFound (Path.normalize path)) := by
  rw [locate]
  simp only [isPlain_eq_false_iff.mpr haside, Bool.false_eq_true, if_false]

theorem list_of_leadsAside {directory : Directory} (haside : LeadsAside (Path.normalize path))
    (recursive : Bool) (test : String → Bool) :
    directory.list path recursive test = .error (.notFound (Path.normalize path)) := by
  rw [list, locate_of_leadsAside haside]
  rfl

theorem read_of_leadsAside {directory : Directory} (haside : LeadsAside (Path.normalize path)) :
    directory.read path = .error (.notFound (Path.normalize path)) := by
  rw [read, locate_of_leadsAside haside]
  rfl

theorem locate_of_isPlain {directory : Directory}
    (hplain : isPlain (Path.normalize path).toList = true) :
    directory.locate path = .ok (Host.join directory.base (Path.normalize path)) := by
  rw [locate]
  simp only [hplain, if_true]

theorem resolve_normalize (hsame : host.SameBelow home other away)
    (hhome : host.IsBase base home) (haway : other.IsBase base away)
    (hplain : isPlain (Path.normalize path).toList = true) :
    ∃ found : Except Host.Fault (Host.Location × Host.Entry),
      host.resolve (Host.join base (Path.normalize path)) =
          found.map (fun at' => (home ++ at'.1, at'.2)) ∧
        other.resolve (Host.join base (Path.normalize path)) =
          found.map (fun at' => (away ++ at'.1, at'.2)) := by
  refine hsame.resolve_join hhome haway (Path.isAbsolute_normalize path) ?_
    (dots_not_mem_parts hplain)
  rw [Path.toList_normalize]
  exact Path.getLast?_normalized path.toList

theorem filesBelow_perm (hsame : host.SameBelow home other away) (folder : Host.Location) :
    (filesBelow host (home ++ folder)).Perm (filesBelow other (away ++ folder)) :=
  (hsame.contents_perm folder).filterMap _

theorem list_eq_of_sameBelow (hsame : host.SameBelow home other away)
    (hhome : host.IsBase base home) (haway : other.IsBase base away) (root : String)
    (recursive : Bool) (test : String → Bool) :
    list ⟨host, base⟩ root recursive test = list ⟨other, base⟩ root recursive test := by
  cases hplain : isPlain (Path.normalize root).toList with
  | false =>
      have haside := isPlain_eq_false_iff.mp hplain
      rw [list_of_leadsAside haside, list_of_leadsAside haside]
  | true =>
      rw [list, list, locate_of_isPlain hplain, locate_of_isPlain hplain]
      obtain ⟨found, hresolve, hresolve'⟩ := resolve_normalize hsame hhome haway hplain
      simp only [bind, Except.bind, hresolve, hresolve']
      cases found with
      | error fault => rfl
      | ok found =>
          obtain ⟨rest, entry⟩ := found
          cases entry with
          | file bytes => rfl
          | link target => rfl
          | folder =>
              have hfiles := ((filesBelow_perm hsame rest).filter fun below =>
                recursive || below.length == 1).map (listedPath (Path.normalize root))
              exact congrArg Except.ok (Path.sortPaths_eq_of_perm (hfiles.filter test))

theorem read_eq_of_sameBelow (hsame : host.SameBelow home other away)
    (hhome : host.IsBase base home) (haway : other.IsBase base away) (path : String) :
    read ⟨host, base⟩ path = read ⟨other, base⟩ path := by
  cases hplain : isPlain (Path.normalize path).toList with
  | false =>
      have haside := isPlain_eq_false_iff.mp hplain
      rw [read_of_leadsAside haside, read_of_leadsAside haside]
  | true =>
      rw [read, read, locate_of_isPlain hplain, locate_of_isPlain hplain]
      obtain ⟨found, hresolve, hresolve'⟩ := resolve_normalize hsame hhome haway hplain
      simp only [bind, Except.bind, Host.isFolder, Host.read, hresolve, hresolve']
      cases found with
      | error fault => rfl
      | ok found =>
          obtain ⟨rest, entry⟩ := found
          cases entry with
          | file bytes => rfl
          | link target => rfl
          | folder => rfl

/-- Whatever lies outside of its base, on two hosts with the same content below the base a
directory lists and reads the same, for every path. It finds nothing for a path that would
lead up or that starts with a dot. -/
theorem views_eq_of_content_eq (hhome : host.IsBase base home) (haway : other.IsBase base away)
    (hcontent : ∀ rest, rest ≠ [] → host.get? (home ++ rest) = other.get? (away ++ rest)) :
    ∃ left right, ofPath host base = .ok left ∧ ofPath other base = .ok right ∧
      (∀ root recursive test,
        left.list root recursive test = right.list root recursive test) ∧
      (∀ path, left.read path = right.read path) ∧
      ∀ path, LeadsAside (Path.normalize path) →
        (∀ recursive test,
          left.list path recursive test = .error (.notFound (Path.normalize path))) ∧
          left.read path = .error (.notFound (Path.normalize path)) := by
  have hsame : host.SameBelow home other away := by
    intro rest
    by_cases hrest : rest = []
    · rw [hrest, List.append_nil, List.append_nil,
        Host.isFolderAt_iff.mp hhome.isFolderAt, Host.isFolderAt_iff.mp haway.isFolderAt]
    · exact hcontent rest hrest
  refine ⟨⟨host, base⟩, ⟨other, base⟩, hhome.ofPath, haway.ofPath, ?_, ?_, ?_⟩
  · exact list_eq_of_sameBelow hsame hhome haway
  · exact read_eq_of_sameBelow hsame hhome haway
  · intro path haside
    exact ⟨list_of_leadsAside haside, read_of_leadsAside haside⟩

def withStranger : Host := hostOfTwo.put ["d.js"] (.file (.mk #[1]))

theorem get?_withStranger (location : Host.Location) :
    withStranger.get? location =
      if location = ["d.js"] then some (.file (.mk #[1])) else hostOfTwo.get? location :=
  Host.get?_put hostOfTwo ["d.js"] location _ (by simp)

theorem isBase_withStranger : withStranger.IsBase "/c" ["c"] := by
  have hfolder : withStranger.get? ["c"] = some .folder := by
    rw [get?_withStranger, get?_hostOfTwo]
    simp
  have hfolders : ∀ front, front <+: ["c"] → front ≠ ["c"] →
      withStranger.get? ([] ++ front) = some .folder := by
    intro front hfront hne
    obtain rfl : front = [] := by simpa [List.prefix_cons_iff, hne] using hfront
    rfl
  have hleads : withStranger.Leads 40 [] ["c"] ["c"] :=
    .down (by decide) hfolders hfolder (by simp)
  refine ⟨Host.resolve_eq_ok_iff.mpr ⟨Host.find_eq_ok_iff.mpr ?_, hfolder⟩, ?_⟩
  · exact ⟨by decide, by decide, by decide, hleads⟩
  · intro rest target hrest
    rw [get?_withStranger, if_neg (by simp)]
    exact holds_hostOfTwo.isBase.linkFree rest target hrest

/-- Backslashes and a dot in front hide a way up to the file beside the base. -/
theorem views_eq_of_content_eq_stranger :
    hostOfTwo.IsBase "/c" ["c"] ∧ withStranger.IsBase "/c" ["c"] ∧
      hostOfTwo.get? ["d.js"] ≠ withStranger.get? ["d.js"] ∧
      LeadsAside (Path.normalize ".\\..\\d.js") ∧
      ∃ left right, ofPath hostOfTwo "/c" = .ok left ∧ ofPath withStranger "/c" = .ok right ∧
        left.read ".\\..\\d.js" = .error (.notFound "../d.js") ∧
        right.read ".\\..\\d.js" = .error (.notFound "../d.js") ∧
        left.list "" true (fun _ => true) = right.list "" true (fun _ => true) := by
  have hcontent : ∀ rest, rest ≠ [] →
      hostOfTwo.get? (["c"] ++ rest) = withStranger.get? (["c"] ++ rest) := by
    intro rest _
    rw [get?_withStranger, if_neg (by simp)]
  have hdiffer : hostOfTwo.get? ["d.js"] ≠ withStranger.get? ["d.js"] := by
    rw [get?_withStranger, get?_hostOfTwo]
    simp
  have haside : LeadsAside (Path.normalize ".\\..\\d.js") := .inl (by decide)
  have hnormal : Path.normalize ".\\..\\d.js" = "../d.js" := by decide
  have hhome := holds_hostOfTwo.isBase
  obtain ⟨left, right, hleft, hright, hlist, hread, hmissing⟩ :=
    views_eq_of_content_eq hhome isBase_withStranger hcontent
  have hleftRead := (hmissing _ haside).2
  rw [hnormal] at hleftRead
  exact ⟨hhome, isBase_withStranger, hdiffer, haside, left, right, hleft, hright, hleftRead,
    (hread _).symm.trans hleftRead, hlist _ _ _⟩

end Directory

end Conformance
