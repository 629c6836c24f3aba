import Conformance.Proofs.Case.Block
import Conformance.Proofs.Text.Order

namespace Conformance

/-! A text by its bytes. A mark is looked for among the bytes, and a part of a text is given
by two offsets, which may not be inside a character. The marks of a block are found where
they stand among the characters, so that no offset is ever inside one. -/

namespace Text

def encoded (text : List Char) : List UInt8 :=
  text.flatMap String.utf8EncodeChar

/-- Where a mark first stands in some bytes. -/
def offset? (mark bytes : List UInt8) : Option Nat :=
  bytes.tails.findIdx? mark.isPrefixOf

/-- A character starts there, or the bytes end. -/
def IsBoundary (bytes : List UInt8) (offset : Nat) : Prop :=
  offset ≤ bytes.length ∧ ∀ byte ∈ bytes[offset]?, byte.IsUTF8FirstByte

instance (bytes : List UInt8) (offset : Nat) : Decidable (IsBoundary bytes offset) :=
  inferInstanceAs (Decidable (_ ∧ _))

/-- The bytes from one offset to another. There is no such part where the offsets are in the
wrong order, or one of them is inside a character or behind the end. -/
def slice? (bytes : List UInt8) (first last : Nat) : Option (List UInt8) :=
  if first ≤ last ∧ IsBoundary bytes first ∧ IsBoundary bytes last then
    some ((bytes.take last).drop first)
  else none

variable {c d : Char} {mark text left right middle : List Char} {bytes front rest : List UInt8}

@[simp] theorem encoded_nil : encoded [] = [] := rfl

theorem encoded_cons (c : Char) (text : List Char) :
    encoded (c :: text) = String.utf8EncodeChar c ++ encoded text := rfl

@[simp] theorem encoded_append (left right : List Char) :
    encoded (left ++ right) = encoded left ++ encoded right :=
  List.flatMap_append

theorem bytesOf_eq_encoded (text : String) : bytesOf text = encoded text.toList :=
  bytesOf_eq_flatMap text

theorem utf8EncodeChar_append_inj {left right : List UInt8}
    (h : String.utf8EncodeChar c ++ left = String.utf8EncodeChar d ++ right) :
    c = d ∧ left = right := by
  have hchar : c = d := by
    rcases lt_trichotomy c d with hlt | heq | hlt
    · exact absurd (h ▸ utf8EncodeChar_append_lt hlt left right) (List.lt_irrefl _)
    · exact heq
    · exact absurd (h ▸ utf8EncodeChar_append_lt hlt right left) (List.lt_irrefl _)
  subst hchar
  exact ⟨rfl, List.append_cancel_left h⟩

theorem encoded_prefix_iff : encoded mark <+: encoded text ↔ mark <+: text := by
  constructor
  · intro h
    induction mark generalizing text with
    | nil => exact List.nil_prefix
    | cons m mark ih =>
        obtain ⟨behind, hbehind⟩ := h
        cases text with
        | nil => simp [encoded_cons] at hbehind
        | cons c text =>
            rw [encoded_cons, encoded_cons, List.append_assoc] at hbehind
            obtain ⟨rfl, hrest⟩ := utf8EncodeChar_append_inj hbehind
            exact (List.prefix_cons_inj m).mpr (ih ⟨behind, hrest⟩)
  · rintro ⟨behind, rfl⟩
    exact ⟨encoded behind, (encoded_append mark behind).symm⟩

theorem isUTF8FirstByte_of_encoded_eq {byte : UInt8} (h : encoded text = byte :: rest) :
    byte.IsUTF8FirstByte := by
  cases text with
  | nil => cases h
  | cons c text =>
      obtain ⟨first, others, hchar⟩ :=
        List.exists_cons_of_ne_nil (String.utf8EncodeChar_ne_nil (c := c))
      have hfirst : (String.utf8EncodeChar c)[0]? = some byte := by
        rw [encoded_cons, hchar] at h
        rw [hchar]
        exact congrArg some (List.cons.inj h).1
      obtain ⟨hlength, rfl⟩ := List.getElem?_eq_some_iff.mp hfirst
      exact UInt8.isUTF8FirstByte_getElem_utf8EncodeChar.mpr rfl

theorem not_encoded_prefix_inside (hmark : mark ≠ []) {index : Nat} (hpos : 0 < index)
    (hlength : index < (String.utf8EncodeChar c).length) :
    ¬ encoded mark <+: (encoded (c :: text)).drop index := by
  rintro ⟨behind, hbehind⟩
  obtain ⟨m, more, rfl⟩ := List.exists_cons_of_ne_nil hmark
  obtain ⟨byte, bytes, hbytes⟩ :=
    List.exists_cons_of_ne_nil (String.utf8EncodeChar_ne_nil (c := m))
  have hcode : encoded [m] = byte :: bytes := by simp [encoded_cons, hbytes]
  have hfirst : byte.IsUTF8FirstByte := isUTF8FirstByte_of_encoded_eq hcode
  rw [encoded_cons, encoded_cons, List.drop_append_of_le_length hlength.le,
    List.drop_eq_getElem_cons hlength, hbytes] at hbehind
  have hsame : byte = (String.utf8EncodeChar c)[index] := (List.cons.inj hbehind).1
  rw [hsame] at hfirst
  exact Nat.ne_of_gt hpos (UInt8.isUTF8FirstByte_getElem_utf8EncodeChar.mp hfirst)

theorem offset?_of_prefix {mark : List UInt8} (h : mark <+: bytes) :
    offset? mark bytes = some 0 := by
  have hfound : mark.isPrefixOf bytes = true := List.isPrefixOf_iff_prefix.mpr h
  cases bytes with
  | nil => simp [offset?, hfound]
  | cons byte rest => simp [offset?, List.findIdx?_cons, hfound]

theorem offset?_cons_of_not {mark : List UInt8} {byte : UInt8} (h : ¬ mark <+: byte :: rest) :
    offset? mark (byte :: rest) = (offset? mark rest).map (· + 1) := by
  have hmissed : mark.isPrefixOf (byte :: rest) = false :=
    Bool.eq_false_iff.mpr fun hfound => h (List.isPrefixOf_iff_prefix.mp hfound)
  simp [offset?, List.findIdx?_cons, hmissed]

theorem offset?_append_of_not {mark : List UInt8}
    (h : ∀ index < front.length, ¬ mark <+: (front ++ rest).drop index) :
    offset? mark (front ++ rest) = (offset? mark rest).map (front.length + ·) := by
  induction front with
  | nil => simp
  | cons byte front ih =>
      have hfirst : ¬ mark <+: byte :: (front ++ rest) := h 0 (Nat.succ_pos _)
      have hothers := ih fun index hindex => h (index + 1) (Nat.succ_lt_succ hindex)
      rw [List.cons_append, offset?_cons_of_not hfirst, hothers, Option.map_map]
      refine congrArg (Option.map · _) (funext fun offset => ?_)
      simp only [Function.comp_apply, List.length_cons]
      omega

theorem cut?_cons_of_not (h : ¬ mark <+: c :: text) :
    cut? mark (c :: text) = (cut? mark text).map fun sides => (c :: sides.1, sides.2) := by
  have hfirst : ∀ back, c :: text ≠ mark ++ back := fun back hback => h ⟨back, hback.symm⟩
  refine Option.ext fun ⟨left, right⟩ => ?_
  simp only [cut?_eq_some_iff, Option.map_eq_some_iff, Prod.exists, Prod.mk.injEq]
  constructor
  · intro hcut
    obtain ⟨passed, rfl, hrest⟩ := hcut.exists_cons hfirst
    exact ⟨passed, right, hrest, rfl, rfl⟩
  · rintro ⟨passed, _, hrest, rfl, rfl⟩
    exact hrest.cons hfirst

theorem offset?_encoded (hmark : mark ≠ []) (text : List Char) :
    offset? (encoded mark) (encoded text) =
      (cut? mark text).map fun sides => (encoded sides.1).length := by
  induction text with
  | nil =>
      obtain ⟨m, more, rfl⟩ := List.exists_cons_of_ne_nil hmark
      obtain ⟨byte, bytes, hbytes⟩ :=
        List.exists_cons_of_ne_nil (String.utf8EncodeChar_ne_nil (c := m))
      simp [offset?, encoded_cons, hbytes, cut?, cutFrom, after?]
  | cons c text ih =>
      by_cases hfirst : mark <+: c :: text
      · obtain ⟨back, hback⟩ := hfirst
        rw [cut?_eq_some_iff.mpr (isCut_nil_left hback.symm),
          offset?_of_prefix (encoded_prefix_iff.mpr ⟨back, hback⟩)]
        rfl
      · have hinside : ∀ index < (String.utf8EncodeChar c).length,
            ¬ encoded mark <+: (String.utf8EncodeChar c ++ encoded text).drop index := by
          intro index hindex
          rcases Nat.eq_zero_or_pos index with rfl | hpos
          · exact fun hfound => hfirst (encoded_prefix_iff.mp hfound)
          · exact not_encoded_prefix_inside hmark hpos hindex
        rw [cut?_cons_of_not hfirst, encoded_cons, offset?_append_of_not hinside, ih,
          Option.map_map, Option.map_map]
        refine congrArg (Option.map · _) (funext fun sides => ?_)
        simp [encoded_cons]

theorem isBoundary_encoded (left right : List Char) :
    IsBoundary (encoded (left ++ right)) (encoded left).length := by
  rw [encoded_append]
  refine ⟨by simp, fun byte hbyte => ?_⟩
  rw [List.getElem?_append_right le_rfl, Nat.sub_self] at hbyte
  obtain ⟨rest, hrest⟩ := List.head?_eq_some_iff.mp (List.head?_eq_getElem? ▸ hbyte)
  exact isUTF8FirstByte_of_encoded_eq hrest

theorem slice?_encoded (left middle right : List Char) :
    slice? (encoded (left ++ middle ++ right)) (encoded left).length
      (encoded (left ++ middle)).length = some (encoded middle) := by
  have hfirst : IsBoundary (encoded (left ++ middle ++ right)) (encoded left).length := by
    rw [List.append_assoc]
    exact isBoundary_encoded left (middle ++ right)
  have hlast := isBoundary_encoded (left ++ middle) right
  have hle : (encoded left).length ≤ (encoded (left ++ middle)).length := by simp
  rw [slice?, if_pos ⟨hle, hfirst, hlast⟩, encoded_append (left ++ middle), List.take_left,
    encoded_append, List.drop_left]

end Text

namespace Block

open Text

/-- The bytes of a block's body: all behind the first opening is sliced off, and of this what
is in front of the first closing. Nothing is given where the bytes cannot be sliced so. -/
def sliced? (bytes : List UInt8) : Option (Except Problem (List UInt8)) :=
  match offset? (encoded opening) bytes with
  | none => some (.error .noStart)
  | some start => do
    let first := start + (encoded opening).length
    let rest ← slice? bytes first bytes.length
    match offset? (encoded closing) rest with
    | none => return .error .noEnd
    | some last => return .ok (← slice? bytes first (first + last))

theorem sliced?_encoded (contents : List Char) :
    sliced? (encoded contents) = some ((split contents).map fun parts => encoded parts.body) := by
  rw [sliced?, offset?_encoded (by decide), split]
  cases hopen : cut? opening contents with
  | none => rfl
  | some sides =>
      obtain ⟨before, rest⟩ := sides
      obtain rfl := eq_append_of_cut? hopen
      have hfirst : (encoded before).length + (encoded opening).length =
          (encoded (before ++ opening)).length := by simp
      have hrest : slice? (encoded (before ++ opening ++ rest)) (encoded (before ++ opening)).length
          (encoded (before ++ opening ++ rest)).length = some (encoded rest) := by
        simpa using slice?_encoded (before ++ opening) rest []
      simp only [Option.map_some, hfirst, hrest, Option.bind_eq_bind, Option.bind_some]
      rw [offset?_encoded (by decide)]
      cases hclose : cut? closing rest with
      | none => rfl
      | some sides =>
          obtain ⟨body, after⟩ := sides
          obtain rfl := eq_append_of_cut? hclose
          have hlast : (encoded (before ++ opening)).length + (encoded body).length =
              (encoded (before ++ opening ++ body)).length := by simp [Nat.add_assoc]
          have hbody := slice?_encoded (before ++ opening) body (closing ++ after)
          rw [← hlast] at hbody
          simp only [Option.map_some, ← List.append_assoc] at hbody ⊢
          rw [hbody]
          rfl

end Block

end Conformance
