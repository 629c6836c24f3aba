import Conformance.Proofs.Exclusion.SameReading
import Conformance.Proofs.Exclusion.TestFolder
import Conformance.Proofs.Text.AsciiCase

namespace Conformance

/-! Rules with some ASCII letters in the other case. Names are lowered once the test folder is
taken off, and the folder's letters are small: a path keeps its folder where one of them is not. -/

namespace Path

theorem slashed_toLower (c : Char) : slashed c.toLower = (slashed c).toLower := by
  rw [slashed, slashed]
  simp only [Text.toLower_eq_iff (by decide : '\\'.isAlpha = false)]
  split
  · decide
  · rfl

theorem dropHere_map_toLower (path : List Char) :
    dropHere (path.map Char.toLower) = (dropHere path).map Char.toLower := by
  fun_induction dropHere path with
  | case1 rest ih => exact ih
  | case2 path hother =>
      apply dropHere_eq_self
      rintro ⟨rest, hrest⟩
      obtain ⟨c, path, rfl, hdot, hpath⟩ := List.map_eq_cons_iff.mp hrest.symm
      obtain ⟨d, path, rfl, hslash, -⟩ := List.map_eq_cons_iff.mp hpath
      rw [Text.toLower_eq_iff (by decide)] at hdot hslash
      obtain ⟨rfl, rfl⟩ := And.intro hdot hslash
      exact hother path rfl

theorem normalized_map_toLower (path : List Char) :
    normalized (path.map Char.toLower) = (normalized path).map Char.toLower := by
  have hslashed : slashed ∘ Char.toLower = Char.toLower ∘ slashed := funext slashed_toLower
  have hslash : (· == '/') ∘ Char.toLower = (· == '/') :=
    funext fun c => Bool.eq_iff_iff.mpr (by simp [Text.toLower_eq_iff])
  rw [normalized, normalized, trimSlashes, trimSlashes, List.map_map, hslashed, ← List.map_map,
    dropHere_map_toLower, List.dropWhile_map, hslash, ← List.map_reverse, List.dropWhile_map,
    hslash, List.map_reverse]

end Path

namespace Exclusion

/-- The texts differ in nothing but the case of ASCII letters. -/
def SameLetters (left right : List Char) : Prop :=
  left.map Char.toLower = right.map Char.toLower

instance (left right : List Char) : Decidable (SameLetters left right) :=
  inferInstanceAs (Decidable (_ = _))

/-- The test folder is taken off the path. -/
def Headed (path : List Char) : Prop :=
  "test/".toList <+: Path.normalized (Text.trimmed path)

instance (path : List Char) : Decidable (Headed path) :=
  inferInstanceAs (Decidable (_ <+: _))

section

variable {path left right : List Char}

theorem lowered_of_headed (h : Headed path) :
    Text.lowered (Path.normalized (Text.trimmed path)) = "test/".toList ++ nameOf path := by
  obtain ⟨rest, hrest⟩ := h
  have hfolder : Text.lowered ("test/".toList ++ rest) =
      Text.lowered "test".toList ++ '/' :: Text.lowered rest :=
    Text.lowered_append_slash "test".toList rest
  have hsmall : Text.lowered "test".toList = "test".toList := by decide +kernel
  rw [nameOf, testRelative_of_folder hrest.symm, ← hrest, hfolder, hsmall]
  rfl

theorem nameOf_of_not_headed (h : ¬ Headed path) :
    nameOf path = Text.lowered (Path.normalized (Text.trimmed path)) := by
  rw [nameOf, testRelative_of_no_folder h]

theorem nameOf_ne_nil_of_headed (h : Headed path) : nameOf path ≠ [] := by
  intro hnil
  obtain ⟨rest, hrest⟩ := h
  have hlast := Path.getLast?_normalized (Text.trimmed path)
  rw [nameOf, Text.lowered_eq_nil_iff, testRelative_of_folder hrest.symm] at hnil
  rw [← hrest, hnil] at hlast
  exact hlast rfl

theorem SameLetters.lowered_normalized (h : SameLetters left right) :
    Text.lowered (Path.normalized (Text.trimmed left)) =
      Text.lowered (Path.normalized (Text.trimmed right)) := by
  have hsmall (text : List Char) : Text.lowered (Path.normalized (Text.trimmed text)) =
      Text.lowered (Path.normalized (Text.trimmed (text.map Char.toLower))) := by
    rw [Text.trimmed_map_toLower, Path.normalized_map_toLower, Text.lowered_map_toLower]
  rw [hsmall left, hsmall right, h]

theorem SameLetters.nameOf_eq (h : SameLetters left right) (hhead : Headed left ↔ Headed right) :
    nameOf left = nameOf right := by
  have hlowered := h.lowered_normalized
  by_cases hleft : Headed left
  · rwa [lowered_of_headed hleft, lowered_of_headed (hhead.mp hleft),
      List.append_cancel_left_eq] at hlowered
  · rwa [← nameOf_of_not_headed hleft, ← nameOf_of_not_headed (mt hhead.mpr hleft)] at hlowered

theorem SameLetters.nameOf_below (h : SameLetters left right) (hleft : Headed left)
    (hright : ¬ Headed right) : nameOf right = "test/".toList ++ nameOf left := by
  rw [nameOf_of_not_headed hright, ← h.lowered_normalized, lowered_of_headed hleft]

end

theorem SameLetters.hasGlobMark_eq {left right : String}
    (h : SameLetters left.toList right.toList) : hasGlobMark left = hasGlobMark right := by
  have hmark : isGlobMark ∘ Char.toLower = isGlobMark :=
    funext fun c => Text.apply_toLower (by decide) c
  have hsmall (entry : String) :
      hasGlobMark entry = (entry.toList.map Char.toLower).any isGlobMark := by
    rw [List.any_map, hmark, hasGlobMark]
  rw [hsmall left, hsmall right, h]

namespace Kind

/-- Two entries of a kind differ in nothing but the case of ASCII letters, and not in what is said
of their mode. -/
structure Recased (kind : Kind) (left right : String) : Prop where
  letters : SameLetters left.toList right.toList
  scope : kind = .file ∨ kind = .pattern →
    (FileEntry.ofText left).scope = (FileEntry.ofText right).scope

/-- An entry is a path of which the test folder is taken off. -/
def Headed (kind : Kind) (entry : String) : Prop :=
  match kind with
  | .directory => Exclusion.Headed entry.toList
  | .file | .pattern => Exclusion.Headed (splitScope (Text.trimmed entry.toList)).1
  | .feature | .flag => False

instance (kind : Kind) (entry : String) : Decidable (kind.Headed entry) :=
  match kind with
  | .directory | .file | .pattern => inferInstanceAs (Decidable (Exclusion.Headed _))
  | .feature | .flag => inferInstanceAs (Decidable False)

namespace Recased

variable {kind : Kind} {left right : String}

theorem letters_name (h : Recased .file left right) :
    SameLetters (splitScope (Text.trimmed left.toList)).1
      (splitScope (Text.trimmed right.toList)).1 := by
  have hscope := h.scope (.inl rfl)
  rw [FileEntry.scope_ofText, FileEntry.scope_ofText] at hscope
  obtain ⟨hleft, -⟩ := splitScope_eq_iff.mp (Prod.eta (splitScope (Text.trimmed left.toList))).symm
  obtain ⟨hright, -⟩ :=
    splitScope_eq_iff.mp (Prod.eta (splitScope (Text.trimmed right.toList))).symm
  have htrimmed : (Text.trimmed left.toList).map Char.toLower =
      (Text.trimmed right.toList).map Char.toLower := by
    rw [← Text.trimmed_map_toLower, ← Text.trimmed_map_toLower, h.letters]
  rwa [hleft, hright, hscope, List.map_append, List.map_append,
    List.append_cancel_right_eq] at htrimmed

theorem sameReading (h : Recased .file left right)
    (hhead : Kind.file.Headed left ↔ Kind.file.Headed right) :
    (FileEntry.ofText left).SameReading (FileEntry.ofText right) := by
  refine ⟨?_, h.scope (.inl rfl)⟩
  rw [FileEntry.name_ofText, FileEntry.name_ofText]
  exact h.letters_name.nameOf_eq hhead

theorem readsAlike (h : kind.Recased left right) (hhead : kind.Headed left ↔ kind.Headed right) :
    kind.ReadsAlike left right := by
  cases kind with
  | directory => exact h.letters.nameOf_eq hhead
  | file => exact sameReading h hhead
  | pattern => exact sameReading ⟨h.letters, fun _ => h.scope (.inr rfl)⟩ hhead
  | feature | flag =>
      have hsmall (text : String) : Text.lowered (Text.trimmed text.toList) =
          Text.lowered (Text.trimmed (text.toList.map Char.toLower)) := by
        rw [Text.trimmed_map_toLower, Text.lowered_map_toLower]
      rw [ReadsAlike, Text.lowercase, Text.lowercase, Text.toList_trim, Text.toList_trim,
        hsmall left, hsmall right, h.letters]

theorem name_below (h : Recased .file left right) (hleft : Kind.file.Headed left)
    (hright : ¬ Kind.file.Headed right) :
    (FileEntry.ofText right).name = "test/".toList ++ (FileEntry.ofText left).name := by
  rw [FileEntry.name_ofText, FileEntry.name_ofText]
  exact h.letters_name.nameOf_below hleft hright

theorem symm (h : kind.Recased left right) : kind.Recased right left :=
  ⟨h.letters.symm, fun hkind => (h.scope hkind).symm⟩

theorem globProblem?_iff (h : Recased .file left right) :
    Engine.globProblem? left = none ↔ Engine.globProblem? right = none := by
  have hfolder : ∀ c ∈ "test/".toList, isGlobMark c = false ∧ c ≠ '}' := by
    intro c hc
    constructor
    · rw [← Bool.not_eq_true]
      exact fun hmark => not_mem_of_isGlobMark hmark (by decide) hc
    · rintro rfl
      exact absurd hc (by decide)
  by_cases hleft : Kind.file.Headed left <;> by_cases hright : Kind.file.Headed right
  · exact (h.readsAlike (iff_of_true hleft hright)).globProblem?_iff
  · exact (Engine.globProblem?_iff_of_front hfolder (h.name_below hleft hright)).symm
  · exact Engine.globProblem?_iff_of_front hfolder (h.symm.name_below hright hleft)
  · exact (h.readsAlike (iff_of_false hleft hright)).globProblem?_iff

end Recased

end Kind

namespace Parts

variable {left right : Parts}

def Recased (left right : Parts) : Prop :=
  ∀ kind, List.Forall₂ kind.Recased (left.entries kind) (right.entries kind)

/-- The test folder is taken off the same of their paths. -/
def HeadedAlike (left right : Parts) : Prop :=
  ∀ kind, List.Forall₂ (fun first second => kind.Headed first ↔ kind.Headed second)
    (left.entries kind) (right.entries kind)

theorem Recased.accepted_iff (h : left.Recased right) : left.Accepted ↔ right.Accepted :=
  accepted_congr (h .file) fun _ _ => Kind.Recased.globProblem?_iff

theorem Recased.readsAlike (h : left.Recased right) (hhead : left.HeadedAlike right) :
    left.ReadsAlike right := by
  intro kind
  obtain ⟨hlength, hrecased⟩ := List.forall₂_iff_zip.mp (h kind)
  obtain ⟨-, hheaded⟩ := List.forall₂_iff_zip.mp (hhead kind)
  exact List.forall₂_iff_zip.mpr ⟨hlength, fun hmem => (hrecased hmem).readsAlike (hheaded hmem)⟩

theorem headed_of_excludes {first second : String} {one other : Engine}
    (h : Kind.Recased .file first second) (hplain : hasGlobMark first = false)
    (hone : Parts.engine { files := [first] } = .ok one)
    (hother : Parts.engine { files := [second] } = .ok other)
    (hsame : ∀ case, one.excludes case = other.excludes case) (hfirst : Kind.file.Headed first) :
    Kind.file.Headed second := by
  by_contra hsecond
  have hname := h.name_below hfirst hsecond
  have hexact : (FileEntry.ofText first).IsExact := by
    refine ⟨(FileEntry.isPattern_ofText first).trans hplain, ?_⟩
    rw [FileEntry.name_ofText]
    exact nameOf_ne_nil_of_headed hfirst
  have hplain' : (FileEntry.ofText second).isPattern = false := by
    rw [FileEntry.isPattern_ofText, ← h.letters.hasGlobMark_eq, hplain]
  have hreading := sameReading_of_excludes hexact hplain' hone hother hsame
  rw [← hreading.name, List.self_eq_append_left] at hname
  cases hname

/-- Rules with letters in the other case are read where the rules are, and exclude the same cases
where the test folder is taken off the same paths. A name alone excludes other cases where it is
not. -/
theorem excludes_recased (h : left.Recased right) : (left.Accepted ↔ right.Accepted) ∧
    ∀ one other, left.engine = .ok one → right.engine = .ok other →
      (left.HeadedAlike right → ∀ case, one.excludes case = other.excludes case) ∧
      ∀ first second, left = { files := [first] } → right = { files := [second] } →
        hasGlobMark first = false → (∀ case, one.excludes case = other.excludes case) →
          left.HeadedAlike right := by
  refine ⟨h.accepted_iff, fun one other hone hother => ⟨fun hhead case =>
    (h.readsAlike hhead).excludes_eq hone hother, ?_⟩⟩
  rintro first second rfl rfl hplain hsame
  obtain ⟨hentry, -⟩ := List.forall₂_cons.mp (h .file)
  have hplain' : hasGlobMark second = false := hentry.letters.hasGlobMark_eq ▸ hplain
  have hhead : Kind.file.Headed first ↔ Kind.file.Headed second :=
    ⟨headed_of_excludes hentry hplain hone hother hsame,
      headed_of_excludes hentry.symm hplain' hother hone fun case => (hsame case).symm⟩
  intro kind
  cases kind with
  | file | pattern => exact .cons hhead .nil
  | directory | feature | flag => exact .nil

def ofEachKind : Parts where
  files := ["test/A.js(default)", "b/[x-z]*.JS"]
  features := ["Proxy"]
  flags := ["RAW"]
  directories := ["Intl402/"]

def ofEachKindSmall : Parts where
  files := ["test/a.js(default)", "b/[X-Z]*.js"]
  features := ["proxy"]
  flags := ["raw"]
  directories := ["intl402/"]

theorem recased_ofEachKind : ofEachKind.Recased ofEachKindSmall := by
  intro kind
  cases kind with
  | file | pattern =>
      exact .cons ⟨by decide, fun _ => by decide +kernel⟩
        (.cons ⟨by decide, fun _ => by decide +kernel⟩ .nil)
  | directory | feature | flag =>
      exact .cons ⟨by decide, fun hkind => by cases hkind <;> contradiction⟩ .nil

theorem excludes_recased_ofEachKind : ∃ one other, ofEachKind.engine = .ok one ∧
    ofEachKindSmall.engine = .ok other ∧ ∀ case, one.excludes case = other.excludes case := by
  obtain ⟨haccepted, hsame⟩ := excludes_recased recased_ofEachKind
  obtain ⟨one, hone⟩ : ∃ one, ofEachKind.engine = .ok one := ⟨_, rfl⟩
  obtain ⟨other, hother⟩ := haccepted.mp ⟨one, hone⟩
  refine ⟨one, other, hone, hother, (hsame one other hone hother).1 fun kind => ?_⟩
  cases kind with
  | file | pattern => exact .cons (by decide +kernel) (.cons (by decide +kernel) .nil)
  | directory | feature | flag => exact .cons (by decide +kernel) .nil

/-- A test folder in capital letters is not taken off, and then stands for one below the other. -/
theorem excludes_recased_folder : ∃ one other,
    Kind.Recased .file "test/a.js" "TEST/a.js" ∧
    Parts.engine { files := ["test/a.js"] } = .ok one ∧
    Parts.engine { files := ["TEST/a.js"] } = .ok other ∧
    one.excludes (tagged "test/a.js" []) = true ∧
    other.excludes (tagged "test/a.js" []) = false ∧
    other.excludes (tagged "test/test/a.js" []) = true := by
  obtain ⟨one, hone⟩ : ∃ one, Parts.engine { files := ["test/a.js"] } = .ok one := ⟨_, rfl⟩
  obtain ⟨other, hother⟩ : ∃ other, Parts.engine { files := ["TEST/a.js"] } = .ok other :=
    ⟨_, rfl⟩
  have hplain : (FileEntry.ofText "test/a.js").isPattern = false := by decide +kernel
  have hplain' : (FileEntry.ofText "TEST/a.js").isPattern = false := by decide +kernel
  refine ⟨one, other, ⟨by decide, fun _ => by decide +kernel⟩, hone, hother, ?_⟩
  simp only [← Bool.not_eq_true, Parts.excludes_alone_iff hplain hone,
    Parts.excludes_alone_iff hplain' hother, Engine.names_iff]
  decide +kernel

end Parts

end Exclusion

end Conformance
