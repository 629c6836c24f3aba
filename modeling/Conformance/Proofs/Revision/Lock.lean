import Conformance.Proofs.Revision.Stages
import Conformance.Revision.Sharing
import Mathlib.Data.Prod.Lex

namespace Conformance.Sharing

open Conformance.Cache (Stage)

/-! Runs of calls that share a cache: at most one holds the lock, and a call that does
not leaves the cache alone. -/

variable {fetcher : Fetcher} {reader : Zip.Reader} {sharing next now middle : Sharing}
  {cache : Cache} {call : Call} {number : Nat}

/-- The stage that a call did, and the one that it came to. -/
structure Move where
  number : Nat
  before : Stage
  after : Stage

structure Moves (fetcher : Fetcher) (reader : Zip.Reader) (sharing : Sharing) (move : Move)
    (next : Sharing) : Prop where
  taken : sharing.move? fetcher reader move.number = some next
  before : sharing.calls[move.number]?.map (·.stage) = some move.before
  after : next.calls[move.number]?.map (·.stage) = some move.after

inductive Traces (fetcher : Fetcher) (reader : Zip.Reader) : Sharing → List Move → Sharing → Prop
  | refl {sharing : Sharing} : Traces fetcher reader sharing [] sharing
  | move {sharing next now : Sharing} {move : Move} {moves : List Move}
      (first : sharing.Moves fetcher reader move next)
      (rest : Traces fetcher reader next moves now) :
      Traces fetcher reader sharing (move :: moves) now

/-- What the next stage of a call takes, and what it comes to. -/
theorem move?_eq_some_iff :
    sharing.move? fetcher reader number = some next ↔
      ∃ call, sharing.calls[number]? = some call ∧ call.stage.result? = none ∧
        (call.stage.awaitsLock = true → sharing.isLocked = false) ∧
        next = sharing.setStage number call
          (Cache.act fetcher reader call.revision call.goal sharing.cache call.stage).1
          (Cache.act fetcher reader call.revision call.goal sharing.cache call.stage).2 := by
  unfold move?
  cases hcall : sharing.calls[number]? with
  | none => simp
  | some call =>
      by_cases hblocked : (call.stage.result?.isSome ||
          (call.stage.awaitsLock && sharing.isLocked)) = true
      · simp only [hblocked, if_true]
        simp only [Bool.or_eq_true, Bool.and_eq_true] at hblocked
        constructor
        · intro h
          cases h
        · rintro ⟨other, hother, hresult, hfree, -⟩
          cases hother
          rcases hblocked with hended | ⟨hawaits, hlocked⟩
          · simp [hresult] at hended
          · rw [hfree hawaits] at hlocked
            cases hlocked
      · simp only [hblocked]
        simp only [Bool.or_eq_true, Bool.and_eq_true, not_or, not_and, Bool.not_eq_true] at hblocked
        constructor
        · intro h
          cases h
          exact ⟨call, rfl, by simpa using hblocked.1, hblocked.2, rfl⟩
        · rintro ⟨other, hother, -, -, rfl⟩
          cases hother
          rfl

theorem Moves.exists_call {move : Move} (h : sharing.Moves fetcher reader move next) :
    ∃ call, sharing.calls[move.number]? = some call ∧ call.stage = move.before ∧
      call.stage.result? = none ∧ (call.stage.awaitsLock = true → sharing.isLocked = false) ∧
      next = sharing.setStage move.number call
        (Cache.act fetcher reader call.revision call.goal sharing.cache call.stage).1 move.after ∧
      move.after =
        (Cache.act fetcher reader call.revision call.goal sharing.cache call.stage).2 := by
  obtain ⟨call, hcall, hresult, hfree, hnext⟩ := move?_eq_some_iff.mp h.taken
  have hbefore := h.before
  have hafter := h.after
  obtain ⟨hbound, -⟩ := List.getElem?_eq_some_iff.mp hcall
  simp only [hcall, Option.map_some, Option.some.injEq] at hbefore
  simp only [hnext, setStage, List.getElem?_set_self hbound, Option.map_some,
    Option.some.injEq] at hafter
  exact ⟨call, hcall, hbefore, hresult, hfree, by rw [hnext, hafter], hafter.symm⟩

theorem Moves.getElem?_calls_self {move : Move} (h : sharing.Moves fetcher reader move next)
    (hcall : sharing.calls[move.number]? = some call) :
    next.calls[move.number]? = some { call with stage := move.after } := by
  obtain ⟨mover, hmover, -, -, -, hnext, -⟩ := h.exists_call
  obtain ⟨hbound, -⟩ := List.getElem?_eq_some_iff.mp hcall
  rw [hcall] at hmover
  cases hmover
  rw [hnext, setStage, List.getElem?_set_self hbound]

theorem Moves.getElem?_calls_ne {move : Move} (h : sharing.Moves fetcher reader move next)
    (hne : move.number ≠ number) : next.calls[number]? = sharing.calls[number]? := by
  obtain ⟨mover, -, -, -, -, hnext, -⟩ := h.exists_call
  rw [hnext, setStage, List.getElem?_set_ne hne]

theorem act_fst_of_not_holdsLock {revision : Revision} {goal : Cache.Goal} {stage : Stage}
    (hstage : stage.holdsLock = false) :
    (Cache.act fetcher reader revision goal cache stage).1 = cache := by
  have hask : (cache.ask revision).1 = cache := by
    unfold Cache.ask
    split <;> rfl
  have hlook : (cache.lookForTree revision .awaitingTree).1 = cache := by
    unfold Cache.lookForTree
    split <;> rfl
  cases stage with
  | asked => exact hask
  | choosing => exact hlook
  | awaitingArchive => rfl
  | awaitingTree => rfl
  | ended => rfl
  | _ => cases hstage

def Exclusive (sharing : Sharing) : Prop :=
  sharing.calls.countP (·.stage.holdsLock) ≤ 1

theorem exclusive_of_asked (hcalls : ∀ call ∈ sharing.calls, call.stage = .asked) :
    sharing.Exclusive := by
  have hnone : sharing.calls.countP (·.stage.holdsLock) = 0 := by
    rw [List.countP_eq_zero]
    intro call hcall
    rw [hcalls call hcall]
    decide
  unfold Exclusive
  omega

theorem countP_setStage {calls : List Call} (hcall : calls[number]? = some call) (stage : Stage) :
    (calls.set number { call with stage }).countP (·.stage.holdsLock) +
        (if call.stage.holdsLock then 1 else 0) =
      calls.countP (·.stage.holdsLock) + if stage.holdsLock then 1 else 0 := by
  obtain ⟨hbound, hget⟩ := List.getElem?_eq_some_iff.mp hcall
  have hpos : (if call.stage.holdsLock then 1 else 0) ≤ calls.countP (·.stage.holdsLock) := by
    split
    · rename_i hlock
      exact List.countP_pos_iff.mpr ⟨call, List.mem_of_getElem? hcall, hlock⟩
    · exact Nat.zero_le _
  rw [List.countP_set hbound, hget]
  dsimp only
  omega

theorem Exclusive.not_holdsLock (hexclusive : sharing.Exclusive)
    (hcall : sharing.calls[number]? = some call) (hlock : call.stage.holdsLock = true)
    {other : Nat} {waiting : Call} (hne : number ≠ other)
    (hwaiting : sharing.calls[other]? = some waiting) : waiting.stage.holdsLock = false := by
  have hcount := countP_setStage hcall .asked
  rw [if_pos hlock, if_neg (by decide)] at hcount
  have hnone : (sharing.calls.set number { call with stage := .asked }).countP
      (·.stage.holdsLock) = 0 := by
    unfold Exclusive at hexclusive
    omega
  rw [List.countP_eq_zero] at hnone
  have hmem : waiting ∈ sharing.calls.set number { call with stage := .asked } := by
    refine List.mem_of_getElem? (i := other) ?_
    rw [List.getElem?_set_ne hne, hwaiting]
  simpa using hnone waiting hmem

theorem Exclusive.moves {move : Move} (hexclusive : sharing.Exclusive)
    (h : sharing.Moves fetcher reader move next) : next.Exclusive := by
  obtain ⟨call, hcall, -, hresult, hfree, hnext, hafter⟩ := h.exists_call
  have hcount := countP_setStage hcall move.after
  unfold Exclusive at hexclusive ⊢
  rw [hnext]
  change (sharing.calls.set move.number { call with stage := move.after }).countP _ ≤ 1
  cases hlock : move.after.holdsLock with
  | false =>
      rw [hlock] at hcount
      simp only [Bool.false_eq_true, if_false] at hcount
      omega
  | true =>
      rw [hlock] at hcount
      simp only [if_true] at hcount
      rw [hafter] at hlock
      have hway := Cache.next_act fetcher reader call.revision call.goal sharing.cache hresult
      rcases hway.holdsLock hlock with hbefore | hawaits
      · rw [if_pos hbefore] at hcount
        omega
      · have hnone : sharing.calls.countP (·.stage.holdsLock) = 0 := by
          rw [List.countP_eq_zero]
          have hunlocked := hfree hawaits
          simpa [isLocked] using hunlocked
        omega

theorem Traces.exclusive {moves : List Move} (h : Traces fetcher reader sharing moves now)
    (hexclusive : sharing.Exclusive) : now.Exclusive := by
  induction h with
  | refl => exact hexclusive
  | move first rest ih => exact ih (hexclusive.moves first)

theorem Traces.exists_taking {moves : List Move} (h : Traces fetcher reader sharing moves now)
    (hfree : ∀ call ∈ sharing.calls[number]?, call.stage.holdsLock = false)
    (hcall : now.calls[number]? = some call) (hlock : call.stage.holdsLock = true) :
    ∃ move ∈ moves, move.number = number ∧ move.before.awaitsLock = true := by
  induction h with
  | refl =>
      rw [hfree call hcall] at hlock
      cases hlock
  | @move sharing next now first moves hfirst rest ih =>
      by_cases hsame : first.number = number
      · subst hsame
        obtain ⟨mover, hmover, hbefore, hresult, -, -, hafter⟩ := hfirst.exists_call
        cases hheld : first.after.holdsLock with
        | true =>
            rw [hafter] at hheld
            have hway := Cache.next_act fetcher reader mover.revision mover.goal sharing.cache
              hresult
            rcases hway.holdsLock hheld with hholds | hawaits
            · rw [hfree mover hmover] at hholds
              cases hholds
            · exact ⟨first, List.mem_cons_self, rfl, hbefore ▸ hawaits⟩
        | false =>
            obtain ⟨move, hmove, htaken⟩ := ih (fun waiting hwaiting => by
              rw [hfirst.getElem?_calls_self hmover] at hwaiting
              cases hwaiting
              exact hheld) hcall
            exact ⟨move, List.mem_cons_of_mem _ hmove, htaken⟩
      · rw [← hfirst.getElem?_calls_ne hsame] at hfree
        obtain ⟨move, hmove, htaken⟩ := ih hfree hcall
        exact ⟨move, List.mem_cons_of_mem _ hmove, htaken⟩

/-- Something holds of the cache, and something of each call in view of it. -/
structure Holds (base : Cache → Prop) (each : Cache → Call → Prop) (sharing : Sharing) : Prop where
  exclusive : sharing.Exclusive
  base : base sharing.cache
  each : ∀ call ∈ sharing.calls, each sharing.cache call

/-- A call's stage keeps up what holds of the cache and of the call itself, and of each
call that does not hold the lock meanwhile. -/
structure KeepsUp (fetcher : Fetcher) (reader : Zip.Reader) (base : Cache → Prop)
    (each : Cache → Call → Prop) :
    Prop where
  own : ∀ cache call, base cache → each cache call → call.stage.result? = none →
    base (Cache.act fetcher reader call.revision call.goal cache call.stage).1 ∧
      each (Cache.act fetcher reader call.revision call.goal cache call.stage).1
        { call with stage := (Cache.act fetcher reader call.revision call.goal cache call.stage).2 }
  others : ∀ cache call other, base cache → each cache call → call.stage.result? = none →
    each cache other → other.stage.holdsLock = false →
    each (Cache.act fetcher reader call.revision call.goal cache call.stage).1 other

variable {base : Cache → Prop} {each : Cache → Call → Prop}

theorem Holds.moves {move : Move} (hkeeps : KeepsUp fetcher reader base each)
    (hholds : sharing.Holds base each) (h : sharing.Moves fetcher reader move next) :
    next.Holds base each := by
  obtain ⟨call, hcall, -, hresult, -, hnext, hafter⟩ := h.exists_call
  have hmem := List.mem_of_getElem? hcall
  obtain ⟨hbase, hown⟩ := hkeeps.own sharing.cache call hholds.base (hholds.each call hmem) hresult
  refine ⟨hholds.exclusive.moves h, by rw [hnext]; exact hbase, fun other hother => ?_⟩
  obtain ⟨position, hposition⟩ := List.getElem?_of_mem hother
  rw [hnext]
  change each (Cache.act fetcher reader call.revision call.goal sharing.cache call.stage).1 other
  by_cases hsame : move.number = position
  · subst hsame
    rw [h.getElem?_calls_self hcall, Option.some.injEq, hafter] at hposition
    exact hposition ▸ hown
  · rw [h.getElem?_calls_ne hsame] at hposition
    have hsound := hholds.each other (List.mem_of_getElem? hposition)
    cases hlock : call.stage.holdsLock with
    | false =>
        rw [act_fst_of_not_holdsLock hlock]
        exact hsound
    | true =>
        exact hkeeps.others sharing.cache call other hholds.base (hholds.each call hmem) hresult
          hsound (hholds.exclusive.not_holdsLock hcall hlock hsame hposition)

theorem Traces.holds {moves : List Move} (hkeeps : KeepsUp fetcher reader base each)
    (h : Traces fetcher reader sharing moves now) (hholds : sharing.Holds base each) :
    now.Holds base each := by
  induction h with
  | refl => exact hholds
  | move first rest ih => exact ih (hholds.moves hkeeps first)

theorem Traces.lasts {moves : List Move} {good : Move → Prop} (known : Host → Prop)
    (hkeeps : KeepsUp fetcher reader base each)
    (hmoves : ∀ (sharing : Sharing) (move : Move) (next : Sharing), sharing.Holds base each →
      known sharing.cache.host → sharing.Moves fetcher reader move next →
        next.cache.host = sharing.cache.host ∧ good move)
    (h : Traces fetcher reader sharing moves now) (hholds : sharing.Holds base each)
    (hknown : known sharing.cache.host) :
    now.cache.host = sharing.cache.host ∧ ∀ move ∈ moves, good move := by
  induction h with
  | refl => exact ⟨rfl, by simp⟩
  | @move sharing next now first moves hfirst rest ih =>
      obtain ⟨hsame, hgood⟩ := hmoves sharing first next hholds hknown hfirst
      have hnext : known next.cache.host := hsame ▸ hknown
      obtain ⟨hhost, hrest⟩ := ih (hholds.moves hkeeps hfirst) hnext
      exact ⟨hhost.trans hsame, List.forall_mem_cons.mpr ⟨hgood, hrest⟩⟩

theorem rank_act_le {revision : Revision} {goal : Cache.Goal} {stage : Stage}
    (hresult : stage.result? = none) :
    (Cache.act fetcher reader revision goal cache stage).2.rank ≤ stage.rank := by
  have hlex := Cache.lex_act fetcher reader revision goal cache hresult
  rw [Prod.lex_def] at hlex
  rcases hlex with hless | ⟨hsame, -⟩
  · exact Nat.le_of_lt hless
  · exact Nat.le_of_eq hsame

theorem Traces.rank_le {moves : List Move} (h : Traces fetcher reader sharing moves now)
    (hcall : sharing.calls[number]? = some call) :
    ∀ move ∈ moves, move.number = number → move.before.rank ≤ call.stage.rank := by
  induction h generalizing call with
  | refl => simp
  | @move sharing next now first moves hfirst rest ih =>
      obtain ⟨mover, hmover, hbefore, hresult, -, -, hafter⟩ := hfirst.exists_call
      intro move hmove hnumber
      rcases List.mem_cons.mp hmove with rfl | hmove
      · rw [hnumber, hcall] at hmover
        cases hmover
        rw [hbefore]
      · by_cases hsame : first.number = number
        · subst hsame
          rw [hcall] at hmover
          cases hmover
          refine (ih (hfirst.getElem?_calls_self hcall) move hmove hnumber).trans ?_
          rw [hafter]
          exact rank_act_le hresult
        · exact ih ((hfirst.getElem?_calls_ne hsame).trans hcall) move hmove hnumber

theorem Traces.trans {moves more : List Move} (h : Traces fetcher reader sharing moves middle)
    (hmore : Traces fetcher reader middle more now) :
    Traces fetcher reader sharing (moves ++ more) now := by
  induction h with
  | refl => exact hmore
  | move first rest ih => exact .move first (ih hmore)

theorem isLocked_eq_false (hcall : sharing.calls[number]? = some call)
    (hself : call.stage.holdsLock = false)
    (hothers : ∀ other ∈ sharing.calls.eraseIdx number, other.stage.holdsLock = false) :
    sharing.isLocked = false := by
  rw [isLocked, List.any_eq_false]
  intro waiting hmem
  obtain ⟨position, hwaiting⟩ := List.getElem?_of_mem hmem
  rw [Bool.not_eq_true]
  by_cases hsame : position = number
  · subst hsame
    rw [hcall] at hwaiting
    cases hwaiting
    exact hself
  · exact hothers waiting (List.mem_eraseIdx_iff_getElem?.mpr ⟨position, hsame, hwaiting⟩)

theorem exists_traces_complete (number : Nat) (calls : List Call) {result : Except Error Unit}
    {last : Cache}
    (hcall : calls[number]? = some call)
    (hothers : ∀ other ∈ calls.eraseIdx number, other.stage.holdsLock = false)
    (h : Cache.complete fetcher reader call.revision call.goal cache call.stage = (last, result)) :
    ∃ moves, Traces fetcher reader ⟨cache, calls⟩ moves
      ⟨last, calls.set number { call with stage := .ended result }⟩ := by
  obtain ⟨revision, goal, stage⟩ := call
  dsimp only at h
  fun_induction Cache.complete fetcher reader revision goal cache stage generalizing calls with
  | case1 cache stage ended hended =>
      obtain ⟨hbound, hget⟩ := List.getElem?_eq_some_iff.mp hcall
      cases h
      obtain rfl : stage = .ended result := by
        cases stage <;> cases hended
        rfl
      rw [← hget, List.set_getElem_self]
      exact ⟨[], .refl⟩
  | case2 cache stage hresult next =>
      rename_i ih
      obtain ⟨hbound, -⟩ := List.getElem?_eq_some_iff.mp hcall
      have hfree (hawaits : stage.awaitsLock = true) :
          (⟨cache, calls⟩ : Sharing).isLocked = false :=
        isLocked_eq_false hcall (Stage.not_holdsLock_of_awaitsLock hawaits) hothers
      have hmove : Moves fetcher reader ⟨cache, calls⟩ ⟨number, stage, next.2⟩
          ⟨next.1, calls.set number ⟨revision, goal, next.2⟩⟩ :=
        ⟨move?_eq_some_iff.mpr ⟨_, hcall, hresult, hfree, rfl⟩, by simp [hcall],
          by simp [hbound]⟩
      obtain ⟨moves, hrest⟩ := ih (calls.set number ⟨revision, goal, next.2⟩)
        (by rwa [List.eraseIdx_set_eq]) (List.getElem?_set_self hbound) h
      rw [List.set_set] at hrest
      exact ⟨_, .move hmove hrest⟩

end Conformance.Sharing
