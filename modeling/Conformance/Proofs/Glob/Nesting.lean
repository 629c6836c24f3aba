import Conformance.Glob.Pattern

namespace Conformance.Glob

/-! Whether a glob can be read is told by the brackets and groups that are open at each of its
characters. Characters that open and close nothing may stand in front of it or not. -/

/-- What of a reading decides whether it can go on. -/
structure Nesting where
  brackets : Option Brackets := none
  depth : Nat := 0

namespace Nesting

def add (nesting : Nesting) (c : Char) : Except Problem Nesting :=
  match nesting.brackets with
  | some brackets => (brackets.add c).map fun more => { nesting with brackets := more }
  | none =>
    if c = '[' then .ok { nesting with brackets := some {} }
    else if c = '{' then .ok { nesting with depth := nesting.depth + 1 }
    else if c = '}' then
      match nesting.depth with
      | 0 => .error .unopenedGroup
      | depth + 1 => .ok { nesting with depth }
    else .ok nesting

def finish (nesting : Nesting) : Except Problem Unit :=
  if nesting.brackets.isSome then .error .unclosedClass
  else if nesting.depth = 0 then .ok ()
  else .error .unclosedGroup

def run (nesting : Nesting) : List Char → Except Problem Unit
  | [] => nesting.finish
  | c :: rest => do run (← nesting.add c) rest

/-- Neither opens nor closes anything outside of brackets. -/
structure Plain (c : Char) : Prop where
  bracket : c ≠ '['
  opened : c ≠ '{'
  closed : c ≠ '}'

theorem add_plain {nesting : Nesting} {c : Char} (hout : nesting.brackets = none)
    (hplain : Plain c) : nesting.add c = .ok nesting := by
  simp only [add, hout, if_neg hplain.bracket, if_neg hplain.opened, if_neg hplain.closed]

theorem run_append {nesting : Nesting} {front : List Char} (hout : nesting.brackets = none)
    (hfront : ∀ c ∈ front, Plain c) (rest : List Char) :
    nesting.run (front ++ rest) = nesting.run rest := by
  induction front with
  | nil => rfl
  | cons c front ih =>
      obtain ⟨hplain, hfront⟩ := List.forall_mem_cons.mp hfront
      rw [List.cons_append, run, add_plain hout hplain]
      exact ih hfront

end Nesting

namespace Reading

def nesting (reading : Reading) : Nesting where
  brackets := reading.brackets
  depth := reading.groups.length

/-- A slash that is taken is the character that comes next, and stands outside of brackets. -/
def Ready (reading : Reading) (next : Option Char) : Prop :=
  reading.takesSlash = true → reading.brackets = none ∧ next = some '/'

variable {reading : Reading} {c : Char} {next : Option Char} {text : List Char}

theorem ready_of_free (h : reading.takesSlash = false) : reading.Ready next := by
  intro htakes
  rw [h] at htakes
  cases htakes

/-- A step of the reading against one that sees no more than what is open. -/
inductive Tracks (next : Option Char) : Except Problem Reading → Except Problem Nesting → Prop
  | failed (problem : Problem) : Tracks next (.error problem) (.error problem)
  | read {reading : Reading} {nesting : Nesting} (hnesting : reading.nesting = nesting)
      (hready : reading.Ready next) : Tracks next (.ok reading) (.ok nesting)

theorem tracks_star (hout : reading.brackets = none) (hfree : reading.takesSlash = false) :
    Tracks next (.ok (reading.star next)) (.ok reading.nesting) := by
  rw [star]
  split
  · refine .read rfl fun htakes => ?_
    simp only [Bool.and_eq_true, beq_iff_eq] at htakes
    exact ⟨hout, htakes.2⟩
  · split
    · exact .read rfl (ready_of_free hfree)
    · exact .read rfl (ready_of_free hfree)

theorem tracks_bracketed {brackets : Brackets} (hin : reading.brackets = some brackets)
    (hfree : reading.takesSlash = false) :
    Tracks next (reading.bracketed brackets c) (reading.nesting.add c) := by
  simp only [bracketed, Nesting.add, nesting, hin]
  cases brackets.add c with
  | error problem => exact .failed problem
  | ok more => cases more <;> exact .read rfl (ready_of_free hfree)

theorem tracks_closeGroup (hout : reading.brackets = none) (hfree : reading.takesSlash = false) :
    Tracks next reading.closeGroup (reading.nesting.add '}') := by
  simp only [closeGroup, Nesting.add, nesting, hout]
  cases reading.groups with
  | nil => exact .failed .unopenedGroup
  | cons group groups => exact .read rfl (ready_of_free hfree)

theorem tracks_comma (hfree : reading.takesSlash = false) :
    Tracks next (.ok reading.comma) (.ok reading.nesting) := by
  rw [comma]
  split
  · exact .read rfl (ready_of_free hfree)
  · rename_i group groups hgroups
    refine .read ?_ (ready_of_free hfree)
    rw [nesting, nesting, hgroups]
    rfl

theorem tracks_token (token : Token) (hout : reading.brackets = none)
    (hfree : reading.takesSlash = false) (hplain : Nesting.Plain c) :
    Tracks next (.ok (reading.token c token)) (reading.nesting.add c) := by
  rw [Nesting.add_plain hout hplain]
  exact .read rfl (ready_of_free hfree)

theorem tracks_outside (hout : reading.brackets = none) (hfree : reading.takesSlash = false) :
    Tracks next (reading.add c next) (reading.nesting.add c) := by
  have hnesting : reading.nesting.brackets = none := hout
  simp only [add, hout, hfree, Bool.false_eq_true, if_false]
  by_cases hstar : c = '*'
  · subst hstar
    rw [Nesting.add_plain hnesting ⟨by decide, by decide, by decide⟩]
    exact tracks_star hout hfree
  by_cases hone : c = '?'
  · subst hone
    exact tracks_token .one hout hfree ⟨by decide, by decide, by decide⟩
  by_cases hbracket : c = '['
  · subst hbracket
    simp only [Nesting.add, hnesting]
    exact .read rfl (ready_of_free rfl)
  by_cases hopened : c = '{'
  · subst hopened
    simp only [Nesting.add, hnesting]
    exact .read (congrArg (Nesting.mk · _) hout) (ready_of_free hfree)
  by_cases hclosed : c = '}'
  · subst hclosed
    exact tracks_closeGroup hout hfree
  rw [if_neg hstar, if_neg hone, if_neg hbracket, if_neg hopened, if_neg hclosed]
  split
  · rw [Nesting.add_plain hnesting ⟨hbracket, hopened, hclosed⟩]
    exact tracks_comma hfree
  · exact tracks_token (.literal c) hout hfree ⟨hbracket, hopened, hclosed⟩

theorem tracks_add (h : reading.Ready (some c)) :
    Tracks next (reading.add c next) (reading.nesting.add c) := by
  cases htakes : reading.takesSlash with
  | true =>
      obtain ⟨hout, hslash⟩ := h htakes
      obtain rfl : c = '/' := Option.some.inj hslash
      rw [Nesting.add_plain hout ⟨by decide, by decide, by decide⟩]
      simp only [add, hout, if_pos htakes]
      exact .read (by rw [nesting, nesting, hout]) (ready_of_free rfl)
  | false =>
      cases hbrackets : reading.brackets with
      | none => exact tracks_outside hbrackets htakes
      | some brackets =>
          rw [add, hbrackets]
          exact tracks_bracketed hbrackets htakes

/-- What can go wrong with a glob is told by what is open at each of its characters. -/
theorem run_eq (h : reading.Ready text.head?) :
    (reading.run text).map (fun _ => ()) = reading.nesting.run text := by
  induction text generalizing reading with
  | nil =>
      rw [run, finish, Nesting.run, Nesting.finish, nesting]
      simp only [List.length_eq_zero_iff, List.isEmpty_iff]
      split
      · rfl
      · split <;> rfl
  | cons c rest ih =>
      rw [run, Nesting.run]
      have htracks : Tracks rest.head? (reading.add c rest.head?) (reading.nesting.add c) :=
        tracks_add h
      generalize reading.add c rest.head? = step at htracks ⊢
      generalize reading.nesting.add c = plain at htracks ⊢
      cases htracks with
      | failed problem => rfl
      | read hnesting hready => exact hnesting ▸ ih hready

end Reading

theorem Pattern.read_append {front : List Char} (hfront : ∀ c ∈ front, Nesting.Plain c)
    (rest : List Char) :
    (Pattern.read (front ++ rest)).map (fun _ => ()) = (Pattern.read rest).map fun _ => () := by
  have hready (text : List Char) : Reading.Ready {} text.head? := Reading.ready_of_free rfl
  rw [Pattern.read, Pattern.read, Reading.run_eq (hready _), Reading.run_eq (hready _)]
  exact Nesting.run_append rfl hfront rest

theorem Pattern.exists_read_append_iff {front rest : List Char}
    (hfront : ∀ c ∈ front, Nesting.Plain c) :
    (∃ pattern, Pattern.read (front ++ rest) = .ok pattern) ↔
      ∃ pattern, Pattern.read rest = .ok pattern := by
  have hread := Pattern.read_append hfront rest
  cases hlong : Pattern.read (front ++ rest) <;> cases hshort : Pattern.read rest <;>
    simp [hlong, hshort, Except.map] at hread ⊢

end Conformance.Glob
