import Conformance.Toml.Layout

namespace Conformance.Toml

/-! Quoted texts. Between double quotes a backslash opens an escape; between
single quotes every character stands for itself. Three quotes open a text that
may run over several lines. Texts under construction are kept last character
first. -/

def hexValue? (c : Char) : Option Nat :=
  if '0' ≤ c && c ≤ '9' then some (c.toNat - 48)
  else if 'a' ≤ c && c ≤ 'f' then some (c.toNat - 87)
  else if 'A' ≤ c && c ≤ 'F' then some (c.toNat - 55)
  else none

def hexDigits? (value : Nat) : Nat → List Char → Option (Nat × List Char)
  | 0, rest => some (value, rest)
  | _ + 1, [] => none
  | count + 1, c :: rest =>
    match hexValue? c with
    | some digit => hexDigits? (16 * value + digit) count rest
    | none => none

theorem length_hexDigits?_le {value count : Nat} {text rest : List Char} {found : Nat}
    (h : hexDigits? value count text = some (found, rest)) : rest.length ≤ text.length := by
  induction count generalizing value text with
  | zero =>
    cases h
    exact Nat.le_refl _
  | succ count ih =>
    cases text with
    | nil => simp [hexDigits?] at h
    | cons c text =>
      unfold hexDigits? at h
      split at h
      · exact Nat.le_succ_of_le (ih h)
      · simp at h

def numbered? (count : Nat) (text : List Char) : Option (Char × List Char) :=
  match hexDigits? 0 count text with
  | some (n, rest) => if n.isValidChar then some (Char.ofNat n, rest) else none
  | none => none

theorem length_numbered?_le {count : Nat} {text rest : List Char} {c : Char}
    (h : numbered? count text = some (c, rest)) : rest.length ≤ text.length := by
  unfold numbered? at h
  split at h
  · rename_i n left hleft
    split at h
    · cases h
      exact length_hexDigits?_le hleft
    · simp at h
  · simp at h

def letter? : Char → Option Char
  | 'b' => some '\x08'
  | 't' => some '\t'
  | 'n' => some '\n'
  | 'f' => some '\x0c'
  | 'r' => some '\r'
  | 'e' => some '\x1b'
  | '"' => some '"'
  | '\\' => some '\\'
  | _ => none

def escape? : List Char → Option (Char × List Char)
  | [] => none
  | 'x' :: rest => numbered? 2 rest
  | 'u' :: rest => numbered? 4 rest
  | 'U' :: rest => numbered? 8 rest
  | c :: rest => (letter? c).map fun found => (found, rest)

theorem length_escape?_le {text rest : List Char} {c : Char}
    (h : escape? text = some (c, rest)) : rest.length ≤ text.length := by
  unfold escape? at h
  split at h
  · simp at h
  · exact Nat.le_succ_of_le (length_numbered?_le h)
  · exact Nat.le_succ_of_le (length_numbered?_le h)
  · exact Nat.le_succ_of_le (length_numbered?_le h)
  · obtain ⟨found, _, heq⟩ := Option.map_eq_some_iff.1 h
    cases heq
    exact Nat.le_succ _

def basic (seen : List Char) (text : List Char) : Option (List Char × List Char) :=
  match text with
  | [] => none
  | '"' :: rest => some (seen.reverse, rest)
  | '\\' :: escaped =>
    match _h : escape? escaped with
    | some (c, rest) => basic (c :: seen) rest
    | none => none
  | c :: rest => if isVisible c then basic (c :: seen) rest else none
termination_by text.length
decreasing_by
  · exact Nat.lt_succ_of_le (length_escape?_le _h)
  · exact Nat.lt_succ_self _

def literal (seen : List Char) : List Char → Option (List Char × List Char)
  | [] => none
  | c :: rest =>
    if c == '\'' then some (seen.reverse, rest)
    else if isVisible c then literal (c :: seen) rest
    else none

def closing? (quote : Char) (text : List Char) : Option (Nat × List Char) :=
  let quotes := (text.takeWhile (· == quote)).length
  if quotes < 3 then none else some (min quotes 5 - 3, text.drop (min quotes 5))

def skipGaps : List Char → List Char
  | [] => []
  | '\r' :: '\n' :: rest => skipGaps rest
  | c :: rest => if isSpace c || c == '\n' then skipGaps rest else c :: rest

theorem length_skipGaps_le (text : List Char) : (skipGaps text).length ≤ text.length := by
  fun_induction skipGaps text with
  | case1 => exact Nat.le_refl _
  | case2 rest ih => exact Nat.le_succ_of_le (Nat.le_succ_of_le ih)
  | case3 c rest _ _ ih => exact Nat.le_succ_of_le ih
  | case4 => exact Nat.le_refl _

def foldedBreak? (text : List Char) : Option (List Char) :=
  (afterBreak? (skipSpaces text)).map skipGaps

theorem length_afterBreak?_lt {text rest : List Char} (h : afterBreak? text = some rest) :
    rest.length < text.length := by
  unfold afterBreak? at h
  split at h
  · cases h
    exact Nat.lt_succ_self _
  · cases h
    exact Nat.lt_succ_of_lt (Nat.lt_succ_self _)
  · simp at h

theorem length_foldedBreak?_lt {text rest : List Char} (h : foldedBreak? text = some rest) :
    rest.length < text.length := by
  obtain ⟨after, hafter, rfl⟩ := Option.map_eq_some_iff.1 h
  exact Nat.lt_of_le_of_lt (length_skipGaps_le after)
    (Nat.lt_of_lt_of_le (length_afterBreak?_lt hafter) (length_skipSpaces_le text))

def basicLines (seen : List Char) (text : List Char) : Option (List Char × List Char) :=
  match closing? '"' text with
  | some (quotes, rest) => some (seen.reverse ++ List.replicate quotes '"', rest)
  | none =>
    match text with
    | [] => none
    | '\r' :: '\n' :: rest => basicLines ('\n' :: '\r' :: seen) rest
    | '\\' :: escaped =>
      match _h : foldedBreak? escaped with
      | some rest => basicLines seen rest
      | none =>
        match _h : escape? escaped with
        | some (c, rest) => basicLines (c :: seen) rest
        | none => none
    | c :: rest => if isVisible c || c == '\n' then basicLines (c :: seen) rest else none
termination_by text.length
decreasing_by
  · exact Nat.lt_succ_of_lt (Nat.lt_succ_self _)
  · exact Nat.lt_succ_of_lt (length_foldedBreak?_lt _h)
  · exact Nat.lt_succ_of_le (length_escape?_le _h)
  · exact Nat.lt_succ_self _

def literalLines (seen : List Char) (text : List Char) : Option (List Char × List Char) :=
  match closing? '\'' text with
  | some (quotes, rest) => some (seen.reverse ++ List.replicate quotes '\'', rest)
  | none =>
    match text with
    | [] => none
    | '\r' :: '\n' :: rest => literalLines ('\n' :: '\r' :: seen) rest
    | c :: rest => if isVisible c || c == '\n' then literalLines (c :: seen) rest else none
termination_by text.length

def skipFirstBreak (text : List Char) : List Char :=
  (afterBreak? text).getD text

def quoted? : List Char → Option (String × List Char)
  | '"' :: '"' :: '"' :: rest => (basicLines [] (skipFirstBreak rest)).map asString
  | '\'' :: '\'' :: '\'' :: rest => (literalLines [] (skipFirstBreak rest)).map asString
  | '"' :: rest => (basic [] rest).map asString
  | '\'' :: rest => (literal [] rest).map asString
  | _ => none
where
  asString (found : List Char × List Char) : String × List Char :=
    (.ofList found.1, found.2)

def quotedKey? : List Char → Option (String × List Char)
  | '"' :: rest => (basic [] rest).map quoted?.asString
  | '\'' :: rest => (literal [] rest).map quoted?.asString
  | _ => none

end Conformance.Toml
