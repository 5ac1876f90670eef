import Mathlib

/-! Reasoning about imperative code that may throw. A program is an `EStateM`
computation: an exception leaves every mutation made before it in place, as in
the languages such code is translated from. -/

set_option autoImplicit false

namespace TradingEngine.Library.Exec

variable {ε σ ι α β : Type}

/-- The state a program stops in, whether it returned or threw. -/
def finalState : EStateM.Result ε σ α → σ
  | .ok _ state => state
  | .error _ state => state

@[simp] theorem finalState_ok (value : α) (state : σ) :
    finalState (.ok value state : EStateM.Result ε σ α) = state := rfl

@[simp] theorem finalState_error (exception : ε) (state : σ) :
    finalState (.error exception state : EStateM.Result ε σ α) = state := rfl

/-- What a program returned, if it did. -/
def returned : EStateM.Result ε σ α → Option α
  | .ok value _ => some value
  | .error _ _ => none

theorem eq_ok_of_returned {result : EStateM.Result ε σ α} {value : α} (ran : returned result = some value) :
    result = .ok value (finalState result) := by
  cases result with
  | error exception state => cases ran
  | ok other state =>
      obtain rfl : other = value := by simpa [returned] using ran
      rfl

def thrown : EStateM.Result ε σ α → Option ε
  | .ok _ _ => none
  | .error exception _ => some exception

/-- A computation without state, run inside a program. -/
def lift : Except ε α → EStateM ε σ α
  | .ok value => pure value
  | .error exception => throw exception

theorem except_bind_eq_ok {first : Except ε α} {next : α → Except ε β} {result : β}
    (ran : (first >>= next) = .ok result) : ∃ value, first = .ok value ∧ next value = .ok result := by
  cases first with
  | error exception => cases ran
  | ok value => exact ⟨value, rfl, ran⟩

/-- A program on the first component of a pair. -/
def onFirst {τ : Type} (program : EStateM ε σ α) : EStateM ε (σ × τ) α := fun state =>
  match program state.1 with
  | .ok value next => .ok value (next, state.2)
  | .error exception next => .error exception (next, state.2)

/-- A program with a local variable, whose last value is returned. -/
def withLocal {τ : Type} (initial : τ) (program : EStateM ε (σ × τ) PUnit) : EStateM ε σ τ := fun state =>
  match program (state, initial) with
  | .ok _ next => .ok next.2 next.1
  | .error exception next => .error exception next.1

/-!
## Stepping
-/

variable {state : σ}

theorem run_bind (first : EStateM ε σ α) (next : α → EStateM ε σ β) (state : σ) :
    (first >>= next) state = match first state with
      | .ok value middle => next value middle
      | .error exception middle => .error exception middle := rfl

theorem run_bind_ok {first : EStateM ε σ α} {value : α} {middle : σ} (ran : first state = .ok value middle)
    (next : α → EStateM ε σ β) : (first >>= next) state = next value middle := by
  rw [run_bind, ran]

theorem run_bind_error {first : EStateM ε σ α} {exception : ε} {middle : σ}
    (ran : first state = .error exception middle) (next : α → EStateM ε σ β) :
    (first >>= next) state = .error exception middle := by
  rw [run_bind, ran]

theorem of_bind_ok {first : EStateM ε σ α} {next : α → EStateM ε σ β} {value : β} {final : σ}
    (ran : (first >>= next) state = .ok value final) :
    ∃ result middle, first state = .ok result middle ∧ next result middle = .ok value final := by
  rw [run_bind] at ran
  cases early : first state with
  | error exception middle =>
      rw [early] at ran
      cases ran
  | ok result middle =>
      rw [early] at ran
      exact ⟨result, middle, rfl, ran⟩

theorem of_bind_error {first : EStateM ε σ α} {next : α → EStateM ε σ β} {exception : ε} {final : σ}
    (threw : (first >>= next) state = .error exception final) :
    first state = .error exception final ∨
      ∃ result middle, first state = .ok result middle ∧ next result middle = .error exception final := by
  rw [run_bind] at threw
  cases early : first state with
  | error exception middle =>
      rw [early] at threw
      cases threw
      exact .inl rfl
  | ok result middle =>
      rw [early] at threw
      exact .inr ⟨result, middle, rfl, threw⟩

theorem run_pure (value : α) (state : σ) : (pure value : EStateM ε σ α) state = .ok value state := rfl

theorem run_get (state : σ) : (get : EStateM ε σ σ) state = .ok state state := rfl

theorem run_modify (update : σ → σ) (state : σ) :
    (modify update : EStateM ε σ PUnit) state = .ok .unit (update state) := rfl

theorem run_lift (outcome : Except ε α) (state : σ) :
    (lift outcome : EStateM ε σ α) state = match outcome with
      | .ok value => .ok value state
      | .error exception => .error exception state := by
  cases outcome <;> rfl

/-- The end of a program whose outcome and last state are known apart. -/
def conclude : Except ε α → σ → EStateM.Result ε σ α
  | .ok value, state => .ok value state
  | .error exception, state => .error exception state

@[simp] theorem finalState_conclude (outcome : Except ε α) (state : σ) :
    finalState (conclude outcome state) = state := by
  cases outcome <;> rfl

/-- A program followed by whoever catches what it throws. -/
def settle (program : EStateM ε σ α) : EStateM ε σ PUnit :=
  fun state => .ok .unit (finalState (program state))

/-!
## Weakest preconditions
-/

/-- From `state` the program returns into `returns` or throws into `throws`. -/
def Wp (program : EStateM ε σ α) (returns : α → σ → Prop) (throws : ε → σ → Prop)
    (state : σ) : Prop :=
  match program state with
  | .ok value next => returns value next
  | .error exception next => throws exception next

variable {returns : α → σ → Prop} {throws : ε → σ → Prop}

theorem wp_def (program : EStateM ε σ α) :
    Wp program returns throws state = match program state with
      | .ok value next => returns value next
      | .error exception next => throws exception next := rfl

theorem Wp.of_ok {program : EStateM ε σ α} (holds : Wp program returns throws state)
    {value : α} {next : σ} (ran : program state = .ok value next) : returns value next := by
  simpa [Wp, ran] using holds

@[simp] theorem wp_pure (value : α) :
    Wp (pure value : EStateM ε σ α) returns throws state = returns value state := rfl

@[simp] theorem wp_throw (exception : ε) :
    Wp (throw exception : EStateM ε σ α) returns throws state = throws exception state := rfl

@[simp] theorem wp_get {returns : σ → σ → Prop} :
    Wp (get : EStateM ε σ σ) returns throws state = returns state state := rfl

@[simp] theorem wp_modify {returns : PUnit → σ → Prop} (update : σ → σ) :
    Wp (modify update : EStateM ε σ PUnit) returns throws state =
      returns .unit (update state) := rfl

@[simp] theorem wp_bind (first : EStateM ε σ α) (next : α → EStateM ε σ β)
    {returns : β → σ → Prop} :
    Wp (first >>= next) returns throws state =
      Wp first (fun value middle => Wp (next value) returns throws middle) throws state := by
  simp only [Wp, bind, EStateM.bind]
  cases first state <;> rfl

@[simp] theorem wp_lift_ok (value : α) :
    Wp (lift (.ok value) : EStateM ε σ α) returns throws state = returns value state := rfl

@[simp] theorem wp_lift_error (exception : ε) :
    Wp (lift (.error exception) : EStateM ε σ α) returns throws state = throws exception state := rfl

theorem wp_ite (condition : Prop) [Decidable condition] (yes no : EStateM ε σ α) :
    Wp (if condition then yes else no) returns throws state =
      if condition then Wp yes returns throws state else Wp no returns throws state := by
  split <;> rfl

theorem Wp.mono {program : EStateM ε σ α} {returns' : α → σ → Prop} {throws' : ε → σ → Prop}
    (holds : Wp program returns throws state)
    (onReturn : ∀ value next, returns value next → returns' value next)
    (onThrow : ∀ exception next, throws exception next → throws' exception next) :
    Wp program returns' throws' state := by
  unfold Wp at holds ⊢
  cases ran : program state with
  | ok value next => exact onReturn value next (by simpa [ran] using holds)
  | error exception next => exact onThrow exception next (by simpa [ran] using holds)

/-!
## Footprints
-/

/-- Every run of the program, thrown or not, relates its two end states. -/
def Moves (relation : σ → σ → Prop) (program : EStateM ε σ α) : Prop :=
  ∀ state, relation state (finalState (program state))

variable {relation : σ → σ → Prop}

theorem Moves.ok {program : EStateM ε σ α} (moves : Moves relation program)
    {start next : σ} {value : α} (ran : program start = .ok value next) : relation start next := by
  simpa [ran] using moves start

theorem Moves.imp {wider : σ → σ → Prop} {program : EStateM ε σ α}
    (moves : Moves relation program) (widen : ∀ before after, relation before after → wider before after) :
    Moves wider program :=
  fun start => widen _ _ (moves start)

theorem moves_pure (reflexive : ∀ current, relation current current) (value : α) :
    Moves relation (pure value : EStateM ε σ α) :=
  fun start => reflexive start

theorem moves_throw (reflexive : ∀ current, relation current current) (exception : ε) :
    Moves relation (throw exception : EStateM ε σ α) :=
  fun start => reflexive start

theorem moves_get (reflexive : ∀ current, relation current current) :
    Moves relation (get : EStateM ε σ σ) :=
  fun start => reflexive start

theorem moves_lift (reflexive : ∀ current, relation current current) (result : Except ε α) :
    Moves relation (lift result : EStateM ε σ α) := by
  cases result with
  | ok value => exact moves_pure reflexive value
  | error exception => exact moves_throw reflexive exception

theorem moves_modify (update : σ → σ) (changes : ∀ current, relation current (update current)) :
    Moves relation (modify update : EStateM ε σ PUnit) :=
  fun start => changes start

/-- Two programs in turn; a throw ends the run after the first. -/
theorem moves_seq {early late total : σ → σ → Prop} (stops : ∀ first second, early first second → total first second)
    (continues : ∀ first second third, early first second → late second third → total first third)
    {first : EStateM ε σ α} {next : α → EStateM ε σ β}
    (firstMoves : Moves early first) (nextMoves : ∀ value, Moves late (next value)) :
    Moves total (first >>= next) := by
  intro start
  have moved := firstMoves start
  simp only [bind, EStateM.bind]
  cases ran : first start with
  | ok value middle =>
      rw [ran] at moved
      exact continues _ _ _ moved (nextMoves value middle)
  | error exception middle =>
      rw [ran] at moved
      exact stops _ _ moved

theorem moves_bind (transitive : ∀ first second third,
      relation first second → relation second third → relation first third)
    {first : EStateM ε σ α} {next : α → EStateM ε σ β}
    (firstMoves : Moves relation first) (nextMoves : ∀ value, Moves relation (next value)) :
    Moves relation (first >>= next) :=
  moves_seq (fun _ _ moved => moved) transitive firstMoves nextMoves

theorem moves_forM (reflexive : ∀ current, relation current current)
    (transitive : ∀ first second third,
      relation first second → relation second third → relation first third)
    {items : List ι} {body : ι → EStateM ε σ PUnit}
    (iterate : ∀ item ∈ items, Moves relation (body item)) : Moves relation (forM items body) := by
  induction items with
  | nil => exact moves_pure reflexive _
  | cons item rest ih =>
      rw [List.forM_cons]
      exact moves_bind transitive (iterate item List.mem_cons_self)
        fun _ => ih fun other member => iterate other (List.mem_cons_of_mem item member)

theorem moves_onFirst {τ : Type} {program : EStateM ε σ α} (moves : Moves relation program) :
    Moves (fun before after : σ × τ => relation before.1 after.1) (onFirst program) := by
  intro start
  have moved := moves start.1
  rw [onFirst]
  cases ran : program start.1 with
  | ok value next => simpa [ran] using moved
  | error exception next => simpa [ran] using moved

theorem moves_withLocal {τ : Type} {initial : τ} {program : EStateM ε (σ × τ) PUnit}
    (moves : Moves (fun before after => relation before.1 after.1) program) :
    Moves relation (withLocal initial program) := by
  intro start
  have moved := moves (start, initial)
  rw [withLocal]
  cases ran : program (start, initial) with
  | ok value next => simpa [ran] using moved
  | error exception next => simpa [ran] using moved

/-- The steps that keep a predicate. -/
def Kept (holds : σ → Prop) (before after : σ) : Prop := holds before → holds after

theorem Kept.refl {holds : σ → Prop} (state : σ) : Kept holds state state := id

theorem Kept.trans {holds : σ → Prop} (first second third : σ) (early : Kept holds first second)
    (late : Kept holds second third) : Kept holds first third :=
  late ∘ early

/-!
## Exceptions
-/

/-- The program throws nothing but what `allowed` admits. -/
def Raises (allowed : ε → Prop) (program : EStateM ε σ α) : Prop :=
  ∀ state exception next, program state = .error exception next → allowed exception

variable {allowed : ε → Prop}

theorem raises_of_returns {program : EStateM ε σ α} (returns : ∀ state, ∃ value next, program state = .ok value next) :
    Raises allowed program := by
  intro state exception next threw
  obtain ⟨value, final, ran⟩ := returns state
  rw [ran] at threw
  cases threw

theorem raises_bind {first : EStateM ε σ α} {next : α → EStateM ε σ β} (firstRaises : Raises allowed first)
    (nextRaises : ∀ value, Raises allowed (next value)) : Raises allowed (first >>= next) := by
  intro state exception final threw
  rcases of_bind_error threw with early | ⟨value, middle, -, late⟩
  · exact firstRaises state exception final early
  · exact nextRaises value middle exception final late

/-!
## Runs
-/

/-- The states a machine passes through between inputs, while every input it
is given meets `admits` in the state that receives it. -/
inductive Reaches (step : ι → EStateM ε σ PUnit) (admits : σ → ι → Prop) (start : σ) : σ → Prop where
  | start : Reaches step admits start start
  | step {current next : σ} {input : ι} : Reaches step admits start current →
      admits current input → step input current = .ok .unit next → Reaches step admits start next

/-- An invariant kept by every admitted input that returns holds throughout. -/
theorem Reaches.invariant {step : ι → EStateM ε σ PUnit} {admits : σ → ι → Prop} {start : σ}
    (holds : σ → Prop) (initially : holds start)
    (kept : ∀ current input next, holds current → admits current input →
      step input current = .ok .unit next → holds next)
    {reached : σ} (run : Reaches step admits start reached) : holds reached := by
  induction run with
  | start => exact initially
  | step _ admitted ran ih => exact kept _ _ _ ih admitted ran

theorem Reaches.trans {step : ι → EStateM ε σ PUnit} {admits : σ → ι → Prop} {start middle reached : σ}
    (early : Reaches step admits start middle) (late : Reaches step admits middle reached) :
    Reaches step admits start reached := by
  induction late with
  | start => exact early
  | step _ admitted ran ih => exact .step ih admitted ran

/-- Every input of a list returns and is admitted where it arrives. -/
def AdmitsAll (step : ι → EStateM ε σ PUnit) (admits : σ → ι → Prop) : σ → List ι → Prop
  | _, [] => True
  | current, input :: rest =>
      admits current input ∧ match step input current with
        | .ok _ next => AdmitsAll step admits next rest
        | .error _ _ => False

instance decidableAdmitsAll (step : ι → EStateM ε σ PUnit) (admits : σ → ι → Prop)
    [decideAdmits : ∀ current input, Decidable (admits current input)] :
    (current : σ) → (inputs : List ι) → Decidable (AdmitsAll step admits current inputs)
  | _, [] => isTrue trivial
  | current, input :: rest =>
      have : Decidable (match step input current with
          | .ok _ next => AdmitsAll step admits next rest
          | .error _ _ => False) :=
        match step input current with
        | .ok _ next => decidableAdmitsAll step admits next rest
        | .error _ _ => isFalse id
      inferInstanceAs (Decidable (_ ∧ _))

theorem Reaches.all {step : ι → EStateM ε σ PUnit} {admits : σ → ι → Prop} {start current : σ}
    (run : Reaches step admits start current) (inputs : List ι)
    (admitted : AdmitsAll step admits current inputs) :
    Reaches step admits start (finalState (forM inputs step current)) := by
  induction inputs generalizing current with
  | nil => exact run
  | cons input rest ih =>
      obtain ⟨first, later⟩ := admitted
      rw [List.forM_cons]
      cases ran : step input current with
      | error exception next => simp [ran] at later
      | ok value next =>
          rw [run_bind_ok ran]
          simp only [ran] at later
          exact ih (.step run first ran) later

theorem Reaches.mono {step : ι → EStateM ε σ PUnit} {admits weaker : σ → ι → Prop} {start : σ}
    (weaken : ∀ current input, admits current input → weaker current input)
    {reached : σ} (run : Reaches step admits start reached) : Reaches step weaker start reached := by
  induction run with
  | start => exact .start
  | step _ admitted ran ih => exact .step ih (weaken _ _ admitted) ran

end TradingEngine.Library.Exec
