import Conformance.Proofs.Path.Segments
import Conformance.Proofs.Text.Order
import Mathlib.Data.List.DropRight

namespace Conformance.Path

/-! Paths through ordinary names. Such a path is in corpus form, and its segments
are the names. -/

/-- A name that stands for itself in a path. -/
structure Ordinary (name : String) : Prop where
  ne_empty : name ≠ ""
  ne_dot : name ≠ "."
  ne_dots : name ≠ ".."
  no_slash : '/' ∉ name.toList
  no_backslash : '\\' ∉ name.toList
  no_nul : '\x00' ∉ name.toList

theorem ordinary_iff {name : String} :
    Ordinary name ↔ name ≠ "" ∧ name ≠ "." ∧ name ≠ ".." ∧ '/' ∉ name.toList ∧
      '\\' ∉ name.toList ∧ '\x00' ∉ name.toList :=
  ⟨fun ⟨h₁, h₂, h₃, h₄, h₅, h₆⟩ => ⟨h₁, h₂, h₃, h₄, h₅, h₆⟩,
    fun ⟨h₁, h₂, h₃, h₄, h₅, h₆⟩ => ⟨h₁, h₂, h₃, h₄, h₅, h₆⟩⟩

instance (name : String) : Decidable (Ordinary name) :=
  decidable_of_iff _ ordinary_iff.symm

def ofNames (names : List String) : String := "/".intercalate names

variable {names front rest folder path : List String}

theorem toList_ofNames (names : List String) :
    (ofNames names).toList = List.intercalate ['/'] (names.map String.toList) := by
  simp [ofNames, String.toList_intercalate]

theorem ofNames_append (hfront : front ≠ []) (hrest : rest ≠ []) :
    ofNames (front ++ rest) = ofNames front ++ "/" ++ ofNames rest := by
  apply String.toList_injective
  rw [toList_ofNames, List.map_append, intercalate_append (by simpa) (by simpa)]
  simp [toList_ofNames]

theorem segments_ofNames (hnames : ∀ name ∈ names, Ordinary name) (hne : names ≠ []) :
    segments (ofNames names).toList = names.map String.toList := by
  rw [toList_ofNames]
  refine List.splitOn_intercalate '/' ?_ (by simpa)
  intro segment hsegment
  obtain ⟨name, hname, rfl⟩ := List.mem_map.mp hsegment
  exact (hnames name hname).no_slash

@[simp] theorem ofNames_nil : ofNames [] = "" := rfl

@[simp] theorem ofNames_singleton (name : String) : ofNames [name] = name := by
  simp [ofNames]

theorem not_mem_ofNames {c : Char} (hc : c ≠ '/') (hnames : ∀ name ∈ names, c ∉ name.toList) :
    c ∉ (ofNames names).toList := by
  induction names with
  | nil => simp
  | cons name names ih =>
      rw [List.forall_mem_cons] at hnames
      by_cases hempty : names = []
      · subst hempty
        simpa using hnames.1
      · rw [← List.singleton_append, ofNames_append (by simp) hempty]
        simp [hnames.1, hc, ih hnames.2]

theorem eq_of_segments_eq_map {names : List String} {text : List Char}
    (htext : segments text = names.map String.toList) : text = (ofNames names).toList := by
  rw [toList_ofNames, ← htext, intercalate_segments]

theorem ofNames_eq_empty_iff (hnames : ∀ name ∈ names, Ordinary name) :
    ofNames names = "" ↔ names = [] := by
  constructor
  · intro heq
    by_contra hne
    have hsegments := segments_ofNames hnames hne
    rw [heq] at hsegments
    cases names with
    | nil => contradiction
    | cons name names =>
        have hname : name.toList = [] := by
          have hhead := congrArg List.head? hsegments
          simpa [segments] using hhead.symm
        exact (hnames name List.mem_cons_self).ne_empty (by simpa using hname)
  · rintro rfl
    rfl

theorem ofNames_injective (hfront : ∀ name ∈ front, Ordinary name)
    (hrest : ∀ name ∈ rest, Ordinary name) (heq : ofNames front = ofNames rest) :
    front = rest := by
  by_cases hfrontEmpty : front = []
  · rw [hfrontEmpty, ofNames_nil] at heq
    rw [hfrontEmpty, (ofNames_eq_empty_iff hrest).mp heq.symm]
  · by_cases hrestEmpty : rest = []
    · rw [hrestEmpty, ofNames_nil] at heq
      exact absurd ((ofNames_eq_empty_iff hfront).mp heq) hfrontEmpty
    · have hsegments := segments_ofNames hfront hfrontEmpty
      rw [heq, segments_ofNames hrest hrestEmpty] at hsegments
      exact (List.map_injective_iff.mpr (fun _ _ => String.toList_injective) hsegments).symm

theorem split_ofNames (front rest : List Char) (hnames : ∀ name ∈ names, Ordinary name)
    (htext : (ofNames names).toList = front ++ '/' :: rest) :
    ∃ folder more, names = folder ++ more ∧ folder ≠ [] ∧ more ≠ [] ∧
      front = (ofNames folder).toList ∧ rest = (ofNames more).toList := by
  have hne : names ≠ [] := by
    rintro rfl
    simp at htext
  have hsegments := segments_ofNames hnames hne
  rw [htext, segments_append_slash] at hsegments
  obtain ⟨folder, more, rfl, hfolder, hmore⟩ := List.map_eq_append_iff.mp hsegments.symm
  refine ⟨folder, more, rfl, ?_, ?_, eq_of_segments_eq_map hfolder.symm,
    eq_of_segments_eq_map hmore.symm⟩
  · rintro rfl
    exact List.splitOn_ne_nil '/' front hfolder.symm
  · rintro rfl
    exact List.splitOn_ne_nil '/' rest hmore.symm

theorem ofNames_ne_slash_cons (hnames : ∀ name ∈ names, Ordinary name) (rest : List Char) :
    (ofNames names).toList ≠ '/' :: rest := by
  intro htext
  obtain ⟨folder, more, rfl, hfolder, -, hempty, -⟩ :=
    split_ofNames [] rest hnames htext
  have hall := (List.forall_mem_append.mp hnames).1
  exact hfolder ((ofNames_eq_empty_iff hall).mp (by simpa using hempty.symm))

theorem ofNames_ne_append_slash (hnames : ∀ name ∈ names, Ordinary name) (front : List Char) :
    (ofNames names).toList ≠ front ++ ['/'] := by
  intro htext
  obtain ⟨folder, more, rfl, -, hmore, -, hempty⟩ := split_ofNames front [] hnames htext
  have hall := (List.forall_mem_append.mp hnames).2
  exact hmore ((ofNames_eq_empty_iff hall).mp (by simpa using hempty.symm))

theorem getLast?_append_ofNames (front : String) (hnames : ∀ name ∈ names, Ordinary name)
    (hne : names ≠ []) :
    (front ++ ofNames names).toList.getLast? = (ofNames names).toList.getLast? := by
  have htext : (ofNames names).toList ≠ [] := by
    simpa using mt (ofNames_eq_empty_iff hnames).mp hne
  rw [String.toList_append, List.getLast?_append_of_ne_nil _ htext]

theorem ofNames_ne_here (hnames : ∀ name ∈ names, Ordinary name) (rest : List Char) :
    (ofNames names).toList ≠ ['.'] ++ '/' :: rest := by
  intro htext
  obtain ⟨folder, more, rfl, hfolder, -, hdot, -⟩ := split_ofNames ['.'] rest hnames htext
  have hall := (List.forall_mem_append.mp hnames).1
  have hsegments := segments_ofNames hall hfolder
  rw [← hdot] at hsegments
  have hmem : ['.'] ∈ folder.map String.toList := by
    rw [← hsegments]
    decide
  obtain ⟨name, hname, heq⟩ := List.mem_map.mp hmem
  exact (hall name hname).ne_dot (String.toList_injective heq)

theorem not_here_of_within {folder path : String} (hfolder : Ordinary folder)
    (hwithin : isWithin folder path = true) : ¬ ['.', '/'] <+: path.toList := by
  rintro ⟨rest, hrest⟩
  have hname : '/' ∉ ['.'] := by decide
  have hdot : segments (['.', '/'] ++ rest) = ['.'] :: segments rest :=
    segments_name_slash hname rest
  rw [isWithin, within_iff_segments, segments_eq_singleton hfolder.no_slash, ← hrest, hdot,
    List.cons_prefix_cons] at hwithin
  exact hfolder.ne_dot (String.toList_injective hwithin.1)

theorem within_ofNames_iff (hfolder : ∀ name ∈ folder, Ordinary name)
    (hpath : ∀ name ∈ path, Ordinary name) (hfolderNe : folder ≠ []) (hpathNe : path ≠ []) :
    within (ofNames folder).toList (ofNames path).toList = true ↔ folder <+: path := by
  rw [within_iff_segments, segments_ofNames hfolder hfolderNe, segments_ofNames hpath hpathNe]
  exact List.prefix_map_iff_of_injective fun _ _ => String.toList_injective

theorem startsWith_folder_iff (hfolder : ∀ name ∈ folder, Ordinary name)
    (hpath : ∀ name ∈ path, Ordinary name) (hne : folder ≠ []) :
    Text.startsWith (ofNames folder ++ "/") (ofNames path) = true ↔
      ∃ more, more ≠ [] ∧ path = folder ++ more := by
  rw [Text.startsWith_iff]
  constructor
  · rintro ⟨rest, hrest⟩
    obtain ⟨front, more, rfl, -, hmore, hfront, -⟩ :=
      split_ofNames (ofNames folder).toList rest hpath (by rw [← hrest]; simp)
    refine ⟨more, hmore, ?_⟩
    rw [ofNames_injective hfolder (List.forall_mem_append.mp hpath).1
      (String.toList_injective hfront)]
  · rintro ⟨more, hmore, rfl⟩
    rw [ofNames_append hne hmore]
    exact ⟨(ofNames more).toList, by simp⟩

theorem contains_slash_ofNames (hnames : ∀ name ∈ names, Ordinary name) (hne : names ≠ []) :
    (ofNames names).toList.contains '/' = (names.length != 1) := by
  cases names with
  | nil => contradiction
  | cons name names =>
      by_cases hempty : names = []
      · subst hempty
        have hslash := (hnames name List.mem_cons_self).no_slash
        simpa using hslash
      · rw [← List.singleton_append, ofNames_append (by simp) hempty]
        simp [hempty]

theorem utf8ByteSize_le_append (rest : List String) (hfront : front ≠ []) :
    (ofNames front).utf8ByteSize ≤ (ofNames (front ++ rest)).utf8ByteSize := by
  by_cases hrest : rest = []
  · simp [hrest]
  · rw [ofNames_append hfront hrest, String.utf8ByteSize_append, String.utf8ByteSize_append]
    omega

theorem map_slashed_eq_self {text : List Char} (hback : '\\' ∉ text) : text.map slashed = text := by
  refine (List.map_congr_left ?_).trans (List.map_id text)
  intro c hc
  refine if_neg ?_
  rintro rfl
  exact hback hc

theorem dropHere_eq_self {text : List Char} (hhere : ¬ ['.', '/'] <+: text) :
    dropHere text = text := by
  unfold dropHere
  split
  · rename_i rest
    exact absurd (List.prefix_append ['.', '/'] rest) hhere
  · rfl

theorem rdropWhile_eq_self {text : List Char} (h : text.getLast? ≠ some '/') :
    text.rdropWhile (· == '/') = text := by
  refine List.rdropWhile_eq_self_iff.mpr fun hne hlast => h ?_
  rw [List.getLast?_eq_some_getLast hne]
  simpa using hlast

theorem normalized_eq_self {text : List Char} (hback : '\\' ∉ text)
    (hhere : ¬ ['.', '/'] <+: text) (hfirst : text.head? ≠ some '/')
    (hlast : text.getLast? ≠ some '/') : normalized text = text := by
  rw [normalized, map_slashed_eq_self hback, dropHere_eq_self hhere, trimSlashes,
    List.dropWhile_beq_eq_self_of_head?_ne hfirst,
    List.dropWhile_beq_eq_self_of_head?_ne (by simpa using hlast), List.reverse_reverse]

theorem normalized_append_slash {text : List Char} (hback : '\\' ∉ text)
    (hhere : ¬ ['.', '/'] <+: text ++ ['/']) (hfirst : text.head? ≠ some '/')
    (hlast : text.getLast? ≠ some '/') (hne : text ≠ []) : normalized (text ++ ['/']) = text := by
  have hfirst' : (text ++ ['/']).head? ≠ some '/' := by
    rwa [List.head?_append_of_ne_nil _ hne]
  rw [normalized, map_slashed_eq_self (by simpa using hback), dropHere_eq_self hhere, trimSlashes,
    List.dropWhile_beq_eq_self_of_head?_ne hfirst', List.reverse_append, List.reverse_singleton,
    List.singleton_append, List.dropWhile_cons_of_pos (by simp),
    List.dropWhile_beq_eq_self_of_head?_ne (by simpa using hlast), List.reverse_reverse]

theorem backslash_not_mem_ofNames (hnames : ∀ name ∈ names, Ordinary name) :
    '\\' ∉ (ofNames names).toList :=
  not_mem_ofNames (by decide) fun name hname => (hnames name hname).no_backslash

theorem head?_ofNames (hnames : ∀ name ∈ names, Ordinary name) :
    (ofNames names).toList.head? ≠ some '/' := by
  intro hhead
  obtain ⟨rest, hrest⟩ := List.head?_eq_some_iff.mp hhead
  exact ofNames_ne_slash_cons hnames rest hrest

theorem getLast?_ofNames (hnames : ∀ name ∈ names, Ordinary name) :
    (ofNames names).toList.getLast? ≠ some '/' := by
  intro hlast
  obtain ⟨front, hfront⟩ := List.getLast?_eq_some_iff.mp hlast
  exact ofNames_ne_append_slash hnames front hfront

theorem normalize_ofNames (hnames : ∀ name ∈ names, Ordinary name) :
    normalize (ofNames names) = ofNames names := by
  apply String.toList_injective
  rw [toList_normalize]
  refine normalized_eq_self (backslash_not_mem_ofNames hnames) ?_ (head?_ofNames hnames)
    (getLast?_ofNames hnames)
  rintro ⟨rest, hrest⟩
  exact ofNames_ne_here hnames rest hrest.symm

end Conformance.Path
