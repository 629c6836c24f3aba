namespace Conformance.Text

def after? : List Char → List Char → Option (List Char)
  | [], text => some text
  | _ :: _, [] => none
  | m :: mark, c :: text => if m = c then after? mark text else none

def before? (mark text : List Char) : Option (List Char) :=
  (after? mark.reverse text.reverse).map List.reverse

def cutFrom (mark : List Char) (seen : List Char) :
    List Char → Option (List Char × List Char)
  | [] => (after? mark []).map fun rest => (seen.reverse, rest)
  | c :: text =>
    match after? mark (c :: text) with
    | some rest => some (seen.reverse, rest)
    | none => cutFrom mark (c :: seen) text

def cut? (mark text : List Char) : Option (List Char × List Char) :=
  cutFrom mark [] text

def occursIn (mark text : List Char) : Bool :=
  (cut? mark text).isSome

theorem after?_eq_some_iff {mark text rest : List Char} :
    after? mark text = some rest ↔ text = mark ++ rest := by
  induction mark generalizing text with
  | nil => simp [after?, eq_comm]
  | cons m mark ih =>
    cases text with
    | nil => simp [after?]
    | cons c text =>
      by_cases h : m = c
      · subst h; simp [after?, ih]
      · simp [after?, h, Ne.symm h]

theorem before?_eq_some_iff {mark text rest : List Char} :
    before? mark text = some rest ↔ text = rest ++ mark := by
  simp only [before?, Option.map_eq_some_iff, after?_eq_some_iff]
  constructor
  · rintro ⟨back, hback, rfl⟩
    have := congrArg List.reverse hback
    simpa using this
  · rintro rfl
    exact ⟨rest.reverse, by simp, by simp⟩

theorem cutFrom_eq_some {mark seen text left right : List Char}
    (h : cutFrom mark seen text = some (left, right)) :
    seen.reverse ++ text = left ++ mark ++ right := by
  induction text generalizing seen with
  | nil =>
    simp only [cutFrom, Option.map_eq_some_iff, after?_eq_some_iff] at h
    obtain ⟨rest, hrest, heq⟩ := h
    cases heq
    simp [hrest]
  | cons c text ih =>
    unfold cutFrom at h
    split at h
    · rename_i rest hrest
      cases h
      simp [after?_eq_some_iff.1 hrest]
    · simpa using ih h

theorem eq_append_of_cut? {mark text left right : List Char}
    (h : cut? mark text = some (left, right)) :
    text = left ++ mark ++ right := by
  simpa using cutFrom_eq_some h

def stripStart? (mark text : String) : Option String :=
  (after? mark.toList text.toList).map .ofList

def stripEnd? (mark text : String) : Option String :=
  (before? mark.toList text.toList).map .ofList

def startsWith (mark text : String) : Bool :=
  (stripStart? mark text).isSome

def endsWith (mark text : String) : Bool :=
  (stripEnd? mark text).isSome

def contains (mark text : String) : Bool :=
  occursIn mark.toList text.toList

theorem stripStart?_eq_some_iff {mark text rest : String} :
    stripStart? mark text = some rest ↔ text = mark ++ rest := by
  simp only [stripStart?, Option.map_eq_some_iff, after?_eq_some_iff]
  constructor
  · rintro ⟨chars, hchars, rfl⟩
    apply String.toList_injective
    simp [hchars]
  · rintro rfl
    exact ⟨rest.toList, by simp, by simp⟩

end Conformance.Text
