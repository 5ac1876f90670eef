import Mathlib

/-! A loop that asks for the next item until there is none, as the items of its first
rounds and whether it has ended within them. -/

set_option autoImplicit false

namespace TradingEngine.Library.Unroll

variable {α β : Type} (next : β → Option (α × β))

def unroll : Nat → β → List α × Bool
  | 0, _ => ([], false)
  | rounds + 1, state =>
      match next state with
      | none => ([], true)
      | some (item, later) => (item :: (unroll rounds later).1, (unroll rounds later).2)

variable {next}

theorem unroll_none {state : β} (ends : next state = none) (rounds : Nat) : unroll next (rounds + 1) state = ([], true) := by
  rw [unroll, ends]

theorem unroll_some {state later : β} {item : α} (goes : next state = some (item, later)) (rounds : Nat) :
    unroll next (rounds + 1) state = (item :: (unroll next rounds later).1, (unroll next rounds later).2) := by
  rw [unroll, goes]

/-- A loop that has ended takes no more rounds. -/
theorem unroll_more {rounds more : Nat} {state : β} (ended : (unroll next rounds state).2 = true) (least : rounds ≤ more) :
    unroll next more state = unroll next rounds state := by
  induction rounds generalizing more state with
  | zero => cases ended
  | succ rounds ih =>
      obtain ⟨more, rfl⟩ : ∃ fewer, more = fewer + 1 := ⟨more - 1, by omega⟩
      cases round : next state with
      | none => rw [unroll_none round, unroll_none round]
      | some entry =>
          obtain ⟨item, later⟩ := entry
          rw [unroll_some round] at ended
          rw [unroll_some round, unroll_some round, ih ended (by omega)]

/-- A loop whose rounds all shrink something ends. -/
theorem unroll_ends (size : β → Nat) (shrinks : ∀ state item later, next state = some (item, later) → size later < size state)
    {rounds : Nat} {state : β} (enough : size state < rounds) : (unroll next rounds state).2 = true := by
  induction rounds generalizing state with
  | zero => omega
  | succ rounds ih =>
      cases round : next state with
      | none => rw [unroll_none round]
      | some entry =>
          obtain ⟨item, later⟩ := entry
          have smaller := shrinks state item later round
          rw [unroll_some round]
          exact ih (by omega)

/-- What every round keeps, and what it says of its item. -/
theorem unroll_items {inside : α → Prop} {holds : β → Prop}
    (keeps : ∀ state item later, holds state → next state = some (item, later) → inside item ∧ holds later)
    {rounds : Nat} {state : β} (initially : holds state) : ∀ item ∈ (unroll next rounds state).1, inside item := by
  induction rounds generalizing state with
  | zero => simp [unroll]
  | succ rounds ih =>
      cases round : next state with
      | none => simp [unroll_none round]
      | some entry =>
          obtain ⟨item, later⟩ := entry
          obtain ⟨here, kept⟩ := keeps state item later initially round
          rw [unroll_some round]
          rintro other (_ | ⟨_, member⟩)
          · exact here
          · exact ih kept other member

variable (next) in
/-- The loop never ends. -/
def Endless (state : β) : Prop := ∀ rounds, (unroll next rounds state).2 = false

theorem endless_of_some {state later : β} {item : α} (goes : next state = some (item, later)) :
    Endless next state ↔ Endless next later := by
  constructor
  · intro endless rounds
    have round := endless (rounds + 1)
    rw [unroll_some goes] at round
    exact round
  · intro endless rounds
    cases rounds with
    | zero => rfl
    | succ rounds =>
        rw [unroll_some goes]
        exact endless rounds

theorem not_endless_of_none {state : β} (ends : next state = none) : ¬Endless next state := by
  intro endless
  have round := endless 1
  rw [unroll_none ends] at round
  cases round

theorem endless_congr {state other : β} (same : next state = next other) : Endless next state ↔ Endless next other := by
  cases round : next other with
  | none =>
      exact ⟨fun endless => absurd endless (not_endless_of_none (same.trans round)),
        fun endless => absurd endless (not_endless_of_none round)⟩
  | some entry =>
      obtain ⟨item, later⟩ := entry
      rw [endless_of_some (same.trans round), endless_of_some round]

/-- A round that leaves the state as it was is taken again and again. -/
theorem endless_of_same {state : β} {item : α} (same : next state = some (item, state)) : Endless next state := by
  intro rounds
  induction rounds with
  | zero => rfl
  | succ rounds ih =>
      rw [unroll_some same]
      exact ih

theorem ended_of_not_endless {state : β} (ends : ¬Endless next state) : ∃ rounds, (unroll next rounds state).2 = true := by
  by_contra never
  push Not at never
  exact ends fun rounds => by simpa using never rounds

end TradingEngine.Library.Unroll
