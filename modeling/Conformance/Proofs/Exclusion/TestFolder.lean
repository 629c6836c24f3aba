import Conformance.Proofs.Exclusion.Display
import Conformance.Proofs.Text.Trimmed

namespace Conformance

/-! Reading a path from the test folder on, and reading again what is left of it. -/

namespace Path

/-- What reading a path takes away in front of it: blanks, slashes, `./`, the test folder. -/
structure Front (front : List Char) : Prop where
  plain : ∀ c ∈ front, Text.isBlank c = true ∨ c ∈ "test/.".toList
  last : ∀ c, front.getLast? = some c → Text.isBlank c = true ∨ c = '/'

theorem Front.of_forall {front : List Char}
    (h : ∀ c ∈ front, Text.isBlank c = true ∨ c = '/') : Front front := by
  refine ⟨fun c hc => (h c hc).imp_right ?_, fun c hc => h c (List.mem_of_getLast? hc)⟩
  rintro rfl
  decide

theorem Front.append {front more : List Char} (hfront : Front front) (hmore : Front more) :
    Front (front ++ more) := by
  refine ⟨fun c hc => ?_, fun c hc => ?_⟩
  · exact (List.mem_append.mp hc).elim (hfront.plain c) (hmore.plain c)
  · rw [List.getLast?_append, Option.or_eq_some_iff] at hc
    exact hc.elim (hmore.last c) fun hc => hfront.last c hc.2

theorem front_here : Front ['.', '/'] := by
  refine ⟨fun c hc => .inr ?_, by rintro c ⟨⟩; decide⟩
  rcases List.mem_pair.mp hc with rfl | rfl <;> decide

theorem front_folder : Front "test/".toList :=
  ⟨fun _ hc => .inr (List.mem_append_left ['.'] hc), by rintro c ⟨⟩; decide⟩

/-- What is left of a path behind such a front. -/
def Remains (rest path : List Char) : Prop :=
  ∃ front, Front front ∧ front ++ rest = path

namespace Remains

variable {path rest more : List Char}

theorem refl (path : List Char) : Remains path path :=
  ⟨[], .of_forall (by simp), rfl⟩

theorem trans (hmore : Remains more rest) (hrest : Remains rest path) : Remains more path := by
  obtain ⟨front, hfront, rfl⟩ := hmore
  obtain ⟨before, hbefore, rfl⟩ := hrest
  exact ⟨before ++ front, hbefore.append hfront, List.append_assoc before front more⟩

theorem suffix (h : Remains rest path) : rest <:+ path := by
  obtain ⟨front, -, rfl⟩ := h
  exact List.suffix_append front rest

theorem dropWhile {p : Char → Bool} (h : ∀ c, p c = true → Text.isBlank c = true ∨ c = '/')
    (path : List Char) : Remains (path.dropWhile p) path :=
  ⟨path.takeWhile p, .of_forall fun c hc => h c (List.mem_takeWhile_imp hc),
    List.takeWhile_append_dropWhile⟩

theorem rdropWhile {p : Char → Bool} (h : Remains rest path) (hne : rest.rdropWhile p ≠ []) :
    Remains (rest.rdropWhile p) (path.rdropWhile p) := by
  obtain ⟨front, hfront, rfl⟩ := h
  exact ⟨front, hfront, by rw [Text.rdropWhile_append, if_neg hne]⟩

end Remains

theorem remains_dropHere (path : List Char) : Remains (dropHere path) path := by
  fun_induction dropHere path with
  | case1 rest ih => exact ih.trans ⟨['.', '/'], front_here, rfl⟩
  | case2 path hother => exact .refl path

theorem not_here_of_dropHere_eq {path : List Char} (h : dropHere path = path) :
    ¬ ['.', '/'] <+: path := by
  rintro ⟨rest, rfl⟩
  have hshort := (remains_dropHere rest).suffix.length_le
  have hlength : (dropHere rest).length = rest.length + 2 := congrArg List.length h
  omega

theorem isBlank_slashed (c : Char) : Text.isBlank (slashed c) = Text.isBlank c := by
  rw [slashed]
  split
  · rename_i hback
    rw [hback]
    decide
  · rfl

/-- A path without what reading takes away in front of it. -/
def withoutFront (path : List Char) : List Char :=
  (dropHere (path.dropWhile Text.isBlank)).dropWhile (· == '/')

theorem remains_withoutFront (path : List Char) : Remains (withoutFront path) path := by
  have hslash : ∀ c, (c == '/') = true → Text.isBlank c = true ∨ c = '/' :=
    fun c hc => .inr (beq_iff_eq.mp hc)
  exact (Remains.dropWhile hslash _).trans
    ((remains_dropHere _).trans (Remains.dropWhile (fun c hc => .inl hc) path))

theorem withoutFront_eq_self_iff {path : List Char} : withoutFront path = path ↔
    (∀ c, path.head? = some c → Text.isBlank c = false ∧ c ≠ '/') ∧ ¬ ['.', '/'] <+: path := by
  constructor
  · intro h
    have hslash : withoutFront path <:+ dropHere (path.dropWhile Text.isBlank) :=
      List.dropWhile_suffix _
    have hhere := (remains_dropHere (path.dropWhile Text.isBlank)).suffix
    have hblank : path.dropWhile Text.isBlank <:+ path := List.dropWhile_suffix _
    have hkept : path.dropWhile Text.isBlank = path := by
      apply hblank.eq_of_length_le
      rw [← congrArg List.length h]
      exact (hslash.trans hhere).length_le
    rw [hkept] at hslash hhere
    have hstays : dropHere path = path := by
      apply hhere.eq_of_length_le
      rw [← congrArg List.length h]
      exact hslash.length_le
    refine ⟨fun c hc => ⟨?_, ?_⟩, not_here_of_dropHere_eq hstays⟩
    · have hstop := List.head?_dropWhile_not Text.isBlank path
      rw [hkept, hc] at hstop
      simpa using hstop
    · have hstop := List.head?_dropWhile_not (· == '/') (dropHere (path.dropWhile Text.isBlank))
      rw [← withoutFront, h, hc] at hstop
      simpa using hstop
  · rintro ⟨hfirst, hhere⟩
    cases path with
    | nil => rfl
    | cons c rest =>
        obtain ⟨hblank, hslash⟩ := hfirst c rfl
        rw [withoutFront, List.dropWhile_cons_of_neg (by simp [hblank]), dropHere_eq_self hhere,
          List.dropWhile_cons_of_neg (by simp [hslash])]

end Path

namespace Exclusion

/-- A name as a path, without the blanks behind it. -/
def pathOf (name : List Char) : List Char :=
  (Text.trimEnd name).map Path.slashed

theorem normalized_trimmed (name : List Char) : Path.normalized (Text.trimmed name) =
    (Path.withoutFront (pathOf name)).rdropWhile (· == '/') := by
  have hblank : Text.isBlank ∘ Path.slashed = Text.isBlank := funext Path.isBlank_slashed
  rw [Path.withoutFront, pathOf, List.dropWhile_map, hblank, Text.trimEnd_eq, ← Text.trimmed_eq]
  rfl

theorem normalized_suffix (name : List Char) :
    Path.normalized (Text.trimmed name) <:+ (pathOf name).rdropWhile (· == '/') := by
  rw [normalized_trimmed]
  exact Text.rdropWhile_suffix (Path.remains_withoutFront _).suffix

theorem remains_testRelative_normalized (name : List Char) :
    Path.Remains (testRelative name) (Path.normalized (Text.trimmed name)) := by
  rw [testRelative]
  cases hafter : Text.after? "test/".toList (Path.normalized (Text.trimmed name)) with
  | none => exact .refl _
  | some rest => exact ⟨_, Path.front_folder, (Text.after?_eq_some_iff.mp hafter).symm⟩

theorem testRelative_suffix (name : List Char) :
    testRelative name <:+ (pathOf name).rdropWhile (· == '/') :=
  (remains_testRelative_normalized name).suffix.trans (normalized_suffix name)

theorem remains_testRelative {name : List Char} (hnamed : testRelative name ≠ []) :
    Path.Remains (testRelative name) ((pathOf name).rdropWhile (· == '/')) := by
  have hrest := remains_testRelative_normalized name
  have hnormal : Path.normalized (Text.trimmed name) ≠ [] := by
    intro hnil
    exact hnamed (List.suffix_nil.mp (hnil ▸ hrest.suffix))
  rw [normalized_trimmed] at hrest hnormal
  exact hrest.trans ((Path.remains_withoutFront _).rdropWhile hnormal)

theorem testRelative_of_folder {name rest : List Char}
    (h : Path.normalized (Text.trimmed name) = "test/".toList ++ rest) :
    testRelative name = rest := by
  rw [testRelative, Text.after?_eq_some_iff.mpr h]
  rfl

theorem testRelative_of_no_folder {name : List Char}
    (h : ¬ "test/".toList <+: Path.normalized (Text.trimmed name)) :
    testRelative name = Path.normalized (Text.trimmed name) := by
  rw [← Text.isSome_after?_iff, Option.not_isSome_iff_eq_none] at h
  rw [testRelative, h]
  rfl

/-- A path of which reading it takes nothing away in front: it starts with no blank, no slash,
no `./` and, whatever slashes stand behind it, no test folder. -/
structure Kept (path : List Char) : Prop where
  named : path.rdropWhile (· == '/') ≠ []
  first : ∀ c, path.head? = some c → Text.isBlank c = false ∧ c ≠ '/'
  here : ¬ ['.', '/'] <+: path
  folder : ¬ "test/".toList <+: path.rdropWhile (· == '/')

theorem testRelative_eq_iff {name : List Char} (hnamed : (pathOf name).rdropWhile (· == '/') ≠ []) :
    testRelative name = (pathOf name).rdropWhile (· == '/') ↔ Kept (pathOf name) := by
  constructor
  · intro h
    have hnormal : Path.normalized (Text.trimmed name) = (pathOf name).rdropWhile (· == '/') := by
      apply (normalized_suffix name).eq_of_length_le
      rw [← h]
      exact (remains_testRelative_normalized name).suffix.length_le
    have hfront : Path.withoutFront (pathOf name) = pathOf name :=
      Text.eq_of_rdropWhile_eq (Path.remains_withoutFront _).suffix hnamed
        (normalized_trimmed name ▸ hnormal)
    obtain ⟨hfirst, hhere⟩ := Path.withoutFront_eq_self_iff.mp hfront
    refine ⟨hnamed, hfirst, hhere, ?_⟩
    rintro ⟨rest, hrest⟩
    rw [testRelative_of_folder (hnormal.trans hrest.symm)] at h
    rw [← h] at hrest
    have hlength := congrArg List.length hrest
    have hfolder : "test/".toList.length = 5 := rfl
    rw [List.length_append, hfolder] at hlength
    omega
  · intro h
    have hnormal : Path.normalized (Text.trimmed name) = (pathOf name).rdropWhile (· == '/') := by
      rw [normalized_trimmed, Path.withoutFront_eq_self_iff.mpr ⟨h.first, h.here⟩]
    rw [testRelative_of_no_folder (hnormal ▸ h.folder), hnormal]

theorem rdropWhile_slash_cons (path : List Char) : ('/' :: path).rdropWhile (· == '/') =
    if path.rdropWhile (· == '/') = [] then [] else '/' :: path.rdropWhile (· == '/') := by
  rw [← List.singleton_append, Text.rdropWhile_append, List.rdropWhile_singleton]
  rfl

theorem normalized_below (name : List Char) :
    Path.normalized (Text.trimmed ("test/".toList ++ name)) =
      "test".toList ++ ('/' :: pathOf name).rdropWhile (· == '/') := by
  have hend : ("test/".toList ++ name).rdropWhile Text.isBlank =
      "test/".toList ++ Text.trimEnd name :=
    Text.rdropWhile_append_cons (by decide) "test".toList name
  have hpath : ("test/".toList ++ Text.trimEnd name).map Path.slashed =
      "test/".toList ++ pathOf name := by
    rw [List.map_append]
    rfl
  have hfront : Path.withoutFront ("test/".toList ++ pathOf name) =
      "test/".toList ++ pathOf name :=
    Path.withoutFront_eq_self_iff.mpr ⟨by rintro c ⟨⟩; decide, by rintro ⟨rest, ⟨⟩⟩⟩
  rw [normalized_trimmed, pathOf, Text.trimEnd_eq, hend, hpath, hfront]
  exact Text.rdropWhile_append_cons (by decide) "tes".toList ('/' :: pathOf name)

theorem testRelative_below (name : List Char) : testRelative ("test/".toList ++ name) =
    if (pathOf name).rdropWhile (· == '/') = [] then "test".toList
    else (pathOf name).rdropWhile (· == '/') := by
  have hnormal := normalized_below name
  rw [rdropWhile_slash_cons] at hnormal
  split
  · rename_i hnone
    rw [if_pos hnone, List.append_nil] at hnormal
    have hshort : ¬ "test/".toList <+: Path.normalized (Text.trimmed ("test/".toList ++ name)) := by
      rw [hnormal]
      decide
    rw [testRelative_of_no_folder hshort, hnormal]
  · rename_i hsome
    rw [if_neg hsome] at hnormal
    exact testRelative_of_folder hnormal

theorem exists_front_below {name : List Char} (hnamed : testRelative name ≠ []) :
    ∃ front, (∀ c ∈ front, isGlobMark c = false ∧ c ≠ '}') ∧
      nameOf ("test/".toList ++ name) = front ++ nameOf name := by
  obtain ⟨front, hfront, hpath⟩ := remains_testRelative hnamed
  have hsome : (pathOf name).rdropWhile (· == '/') ≠ [] := by
    rw [← hpath]
    exact List.append_ne_nil_of_right_ne_nil front hnamed
  refine ⟨Text.lowered front, fun c hc => ?_, ?_⟩
  · have hnone {d : Char} (hd : Text.LetterCase.Mark d) (hin : d ∈ Text.lowered front) :
        Text.isBlank d = true ∨ d ∈ "test/.".toList :=
      hfront.plain d ((Text.mem_lowered_iff hd).mp hin)
    constructor
    · rw [← Bool.not_eq_true]
      intro hmark
      rcases hnone (mark_of_isGlobMark hmark) hc with hblank | hletter
      · rw [isBlank_of_isGlobMark hmark] at hblank
        cases hblank
      · exact not_mem_of_isGlobMark hmark (by decide) hletter
    · rintro rfl
      exact absurd (hnone (by decide) hc) (by decide)
  · rw [nameOf, testRelative_below, if_neg hsome, ← hpath, Text.lowered_append, nameOf]
    intro c hc
    rcases hfront.last c hc with hblank | rfl
    · exact Text.LetterCase.separates_of_isBlank hblank
    · exact Text.LetterCase.separates_slash

end Exclusion

end Conformance
