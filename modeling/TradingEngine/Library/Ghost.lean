import Mathlib
import TradingEngine.Library.Exec

/-! Ghost state: notes about a program kept beside its state. They are taken after
each part of the program that is watched, whether it returned or threw, and the
program never reads them. -/

set_option autoImplicit false

namespace TradingEngine.Library.Exec

variable {ε σ τ α β : Type}

/-- A program whose two end states are noted. -/
def watching (note : σ → σ → τ → τ) (program : EStateM ε σ α) : EStateM ε (σ × τ) α := fun state =>
  match program state.1 with
  | .ok value next => .ok value (next, note state.1 next state.2)
  | .error exception next => .error exception (next, note state.1 next state.2)

def withoutGhost : EStateM.Result ε (σ × τ) α → EStateM.Result ε σ α
  | .ok value state => .ok value state.1
  | .error exception state => .error exception state.1

/-- The watched program is the program, up to the notes. -/
def Watches (watched : EStateM ε (σ × τ) α) (program : EStateM ε σ α) : Prop :=
  ∀ state ghost, withoutGhost (watched (state, ghost)) = program state

theorem watches_watching (note : σ → σ → τ → τ) (program : EStateM ε σ α) :
    Watches (watching note program) program := by
  intro state ghost
  rw [watching]
  cases program state <;> rfl

theorem watches_onFirst (program : EStateM ε σ α) : Watches (onFirst program : EStateM ε (σ × τ) α) program := by
  intro state ghost
  rw [onFirst]
  cases program state <;> rfl

theorem watches_bind {first : EStateM ε σ α} {next : α → EStateM ε σ β} {watchedFirst : EStateM ε (σ × τ) α}
    {watchedNext : α → EStateM ε (σ × τ) β} (firstWatched : Watches watchedFirst first)
    (nextWatched : ∀ value, Watches (watchedNext value) (next value)) :
    Watches (watchedFirst >>= watchedNext) (first >>= next) := by
  intro state ghost
  rw [run_bind, run_bind, ← firstWatched state ghost]
  cases watchedFirst (state, ghost) with
  | ok value middle => exact nextWatched value middle.1 middle.2
  | error exception middle => rfl

theorem finalState_onFirst (program : EStateM ε σ α) (state : σ × τ) :
    finalState (onFirst program state) = (finalState (program state.1), state.2) := by
  rw [onFirst]
  cases program state.1 <;> rfl

theorem finalState_watching (note : σ → σ → τ → τ) (program : EStateM ε σ α) (state : σ × τ) :
    finalState (watching note program state) =
      (finalState (program state.1), note state.1 (finalState (program state.1)) state.2) := by
  rw [watching]
  cases program state.1 <;> rfl

variable {returns : α → σ × τ → Prop} {throws : ε → σ × τ → Prop}

theorem wp_onFirst (program : EStateM ε σ α) (state : σ × τ) :
    Wp (onFirst program) returns throws state =
      Wp program (fun value next => returns value (next, state.2))
        (fun exception next => throws exception (next, state.2)) state.1 := by
  rw [Wp, Wp, onFirst]
  cases program state.1 <;> rfl

theorem wp_watching (note : σ → σ → τ → τ) (program : EStateM ε σ α) (state : σ × τ) :
    Wp (watching note program) returns throws state =
      Wp program (fun value next => returns value (next, note state.1 next state.2))
        (fun exception next => throws exception (next, note state.1 next state.2)) state.1 := by
  rw [Wp, Wp, watching]
  cases program state.1 <;> rfl

end TradingEngine.Library.Exec
