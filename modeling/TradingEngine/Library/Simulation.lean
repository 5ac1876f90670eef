import TradingEngine.Library.Exec

/-! Two programs side by side. They agree if both return the same or both throw the
same, into related states; programs that agree step by step agree over whole runs.
A program expands into inputs of a step function if those inputs, one after
another, do what it does. -/

set_option autoImplicit false

namespace TradingEngine.Library.Exec

variable {ε σ τ ι α β : Type}

inductive Agree (related : σ → τ → Prop) : EStateM.Result ε σ α → EStateM.Result ε τ α → Prop where
  | returns {value : α} {first : σ} {second : τ} : related first second →
      Agree related (.ok value first) (.ok value second)
  | throws {exception : ε} {first : σ} {second : τ} : related first second →
      Agree related (.error exception first) (.error exception second)

variable {related : σ → τ → Prop}

theorem Agree.bind {first : EStateM ε σ α} {next : α → EStateM ε σ β} {otherFirst : EStateM ε τ α}
    {otherNext : α → EStateM ε τ β} {state : σ} {other : τ} (early : Agree related (first state) (otherFirst other))
    (late : ∀ value middle otherMiddle, related middle otherMiddle →
      otherFirst other = .ok value otherMiddle → Agree related (next value middle) (otherNext value otherMiddle)) :
    Agree related ((first >>= next) state) ((otherFirst >>= otherNext) other) := by
  rw [run_bind, run_bind]
  generalize ran : first state = result at early
  generalize otherRan : otherFirst other = otherResult at early
  cases early with
  | returns holds => exact late _ _ _ holds otherRan
  | throws holds => exact .throws holds

/-- Every input of a list is admitted where it arrives, up to the first that throws. -/
def Follows (step : ι → EStateM ε τ PUnit) (admits : τ → ι → Prop) : τ → List ι → Prop
  | _, [] => True
  | current, input :: rest =>
      admits current input ∧ match step input current with
        | .ok _ next => Follows step admits next rest
        | .error _ _ => True

instance decidableFollows (step : ι → EStateM ε τ PUnit) (admits : τ → ι → Prop)
    [decideAdmits : ∀ current input, Decidable (admits current input)] :
    (current : τ) → (inputs : List ι) → Decidable (Follows step admits current inputs)
  | _, [] => isTrue trivial
  | current, input :: rest =>
      have : Decidable (match step input current with
          | .ok _ next => Follows step admits next rest
          | .error _ _ => True) :=
        match step input current with
        | .ok _ next => decidableFollows step admits next rest
        | .error _ _ => isTrue trivial
      inferInstanceAs (Decidable (_ ∧ _))

theorem agree_forM {step : ι → EStateM ε σ PUnit} {otherStep : ι → EStateM ε τ PUnit} {admits : τ → ι → Prop}
    (agrees : ∀ input state other, related state other → admits other input →
      Agree related (step input state) (otherStep input other))
    (inputs : List ι) {state : σ} {other : τ} (holds : related state other)
    (follows : Follows otherStep admits other inputs) :
    Agree related (forM inputs step state) (forM inputs otherStep other) := by
  induction inputs generalizing state other with
  | nil => exact .returns holds
  | cons input rest ih =>
      obtain ⟨admitted, later⟩ := follows
      rw [List.forM_cons, List.forM_cons]
      refine (agrees input state other holds admitted).bind fun value middle otherMiddle kept ran => ih kept ?_
      rw [ran] at later
      exact later

/-- Loops whose bodies do the same as long as something holds that they keep. -/
theorem forM_eq_of_kept {holds : σ → Prop} {items : List α} {body other : α → EStateM ε σ PUnit}
    (same : ∀ item state, holds state → body item state = other item state)
    (kept : ∀ item, Moves (Kept holds) (body item)) {state : σ} (initially : holds state) :
    forM items body state = forM items other state := by
  induction items generalizing state with
  | nil => rfl
  | cons item rest ih =>
      rw [List.forM_cons, List.forM_cons, run_bind, run_bind, ← same item state initially]
      have next := kept item state initially
      cases ran : body item state with
      | error exception middle => rfl
      | ok value middle =>
          rw [ran] at next
          exact ih next

/-!
## Expansion
-/

/-- The inputs end in the state the program ends in, and all of them return if the
program does. -/
def Expands (step : ι → EStateM ε σ PUnit) (genuine : ι → Prop) (program : EStateM ε σ α) (state : σ) : Prop :=
  ∃ inputs : List ι, (∀ input ∈ inputs, genuine input) ∧
    finalState (forM inputs step state) = finalState (program state) ∧
    ((returned (program state)).isSome = true → returned (forM inputs step state) = some .unit)

variable {step : ι → EStateM ε σ PUnit} {genuine : ι → Prop} {state : σ}

theorem Expands.none {program : EStateM ε σ α} (idle : finalState (program state) = state) :
    Expands step genuine program state :=
  ⟨[], by simp, idle.symm, fun _ => rfl⟩

theorem Expands.one {program : EStateM ε σ PUnit} {input : ι} (admits : genuine input)
    (same : program state = step input state) : Expands step genuine program state := by
  have single : forM [input] step state = step input state := by
    rw [List.forM_cons, run_bind]
    cases step input state <;> rfl
  refine ⟨[input], by simpa using admits, ?_, ?_⟩
  · rw [single, same]
  · rw [single, same]
    cases step input state with
    | ok value next => exact fun _ => rfl
    | error exception next => exact fun returns => absurd returns (by simp [returned])

theorem Expands.cons {program : EStateM ε σ PUnit} {next : EStateM ε σ α} {input : ι} (admits : genuine input)
    (same : program state = step input state)
    (later : ∀ middle, program state = .ok .unit middle → Expands step genuine next middle) :
    Expands step genuine (program >>= fun _ => next) state := by
  cases ran : program state with
  | error exception middle =>
      obtain ⟨inputs, admitted, final, returns⟩ := Expands.one admits same
      refine ⟨inputs, admitted, ?_, fun finished => ?_⟩
      · rw [final, run_bind_error ran, ran]
        rfl
      · rw [run_bind_error ran] at finished
        cases finished
  | ok value middle =>
      obtain ⟨inputs, admitted, final, returns⟩ := later middle ran
      refine ⟨input :: inputs, by simpa using ⟨admits, admitted⟩, ?_, ?_⟩
      · rw [List.forM_cons, run_bind_ok (same.symm.trans ran), run_bind_ok ran, final]
      · rw [List.forM_cons, run_bind_ok (same.symm.trans ran), run_bind_ok ran]
        exact returns

/-- A loop that reads each item before it acts on it: the items read until one
cannot be. -/
theorem expands_forM_lift {read : α → Except ε ι} {items : List α}
    (admits : ∀ item ∈ items, ∀ input, read item = .ok input → genuine input) (state : σ) :
    Expands step genuine (forM items fun item => lift (read item) >>= step) state := by
  induction items generalizing state with
  | nil => exact .none rfl
  | cons item rest ih =>
      have later := ih fun other member => admits other (List.mem_cons_of_mem _ member)
      rw [List.forM_cons]
      cases input : read item with
      | error exception => exact .none rfl
      | ok input => exact .cons (admits item List.mem_cons_self _ ‹_›) rfl fun middle _ => later middle

theorem Expands.congr {program other : EStateM ε σ α} (same : program state = other state)
    (expands : Expands step genuine other state) : Expands step genuine program state := by
  unfold Expands
  rw [same]
  exact expands

/-- What follows a program and leaves the state alone adds no inputs. -/
theorem Expands.bind_idle {program : EStateM ε σ α} {next : α → EStateM ε σ β}
    (expands : Expands step genuine program state)
    (idle : ∀ value middle, finalState (next value middle) = middle) :
    Expands step genuine (program >>= next) state := by
  obtain ⟨inputs, admitted, final, returns⟩ := expands
  refine ⟨inputs, admitted, ?_, ?_⟩
  · rw [final, run_bind]
    cases program state with
    | error exception middle => rfl
    | ok value middle => exact (idle value middle).symm
  · rw [run_bind]
    cases ran : program state with
    | error exception middle => exact fun finished => by cases finished
    | ok value middle => exact fun _ => returns (by rw [ran]; rfl)

theorem admitsAll_of_returned {admits : σ → ι → Prop} (inputs : List ι)
    (admitted : ∀ input ∈ inputs, ∀ current, admits current input)
    (returns : returned (forM inputs step state) = some .unit) : AdmitsAll step admits state inputs := by
  induction inputs generalizing state with
  | nil => trivial
  | cons input rest ih =>
      refine ⟨admitted input List.mem_cons_self state, ?_⟩
      rw [List.forM_cons] at returns
      cases ran : step input state with
      | error exception next =>
          rw [run_bind_error ran] at returns
          cases returns
      | ok value next =>
          rw [run_bind_ok ran] at returns
          exact ih (fun other member => admitted other (List.mem_cons_of_mem _ member)) returns

/-- A run goes on through inputs that all return. -/
theorem Reaches.through {start : σ} {inputs : List ι} (run : Reaches step (fun _ => genuine) start state)
    (admitted : ∀ input ∈ inputs, genuine input) (returns : returned (forM inputs step state) = some .unit) :
    Reaches step (fun _ => genuine) start (finalState (forM inputs step state)) :=
  run.all inputs (admitsAll_of_returned inputs (fun input member _ => admitted input member) returns)

end TradingEngine.Library.Exec
