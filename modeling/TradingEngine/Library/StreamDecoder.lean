import TradingEngine.Library.Exec

/-! Decoding a stream that arrives in pieces. Each piece is appended to a buffer, and
the values complete at the front of the buffer are handled and removed one by one.
If an encoding is recognised whatever follows it, and never before its end, then
where the pieces are cut is invisible. -/

set_option autoImplicit false

namespace TradingEngine.Library.StreamDecoder

open Exec

variable {β γ ε σ : Type}

/-- A buffer beside the state that the handlers of its values work on. -/
structure Receiver (β σ : Type) where
  buffer : List β
  state : σ

namespace Receiver

def onState {α : Type} (program : EStateM ε σ α) : EStateM ε (Receiver β σ) α := fun receiver =>
  match program receiver.state with
  | .ok value next => .ok value { receiver with state := next }
  | .error exception next => .error exception { receiver with state := next }

/-- A result of the state, with a buffer beside it. -/
def attach {α : Type} (buffer : List β) : EStateM.Result ε σ α → EStateM.Result ε (Receiver β σ) α
  | .ok value state => .ok value ⟨buffer, state⟩
  | .error exception state => .error exception ⟨buffer, state⟩

theorem onState_ok {α : Type} {program : EStateM ε σ α} {receiver next : Receiver β σ} {value : α}
    (ran : onState program receiver = .ok value next) :
    program receiver.state = .ok value next.state ∧ next.buffer = receiver.buffer := by
  unfold onState at ran
  split at ran
  · rename_i returned
    cases ran
    exact ⟨returned, rfl⟩
  · cases ran

theorem run_onState {α : Type} {program : EStateM ε σ α} {receiver : Receiver β σ} {value : α} {next : σ}
    (ran : program receiver.state = .ok value next) :
    onState program receiver = .ok value { receiver with state := next } := by
  unfold onState
  rw [ran]

theorem moves_onState {α : Type} {relation : σ → σ → Prop} {program : EStateM ε σ α} (moves : Moves relation program) :
    Moves (fun before after : Receiver β σ => relation before.state after.state ∧ after.buffer = before.buffer)
      (onState program) := by
  intro receiver
  have moved := moves receiver.state
  unfold onState
  cases ran : program receiver.state <;> simpa [ran] using moved

end Receiver

/-- Reads the value at the front of a buffer, if it is complete there. -/
structure Decoder (β γ ε : Type) where
  decode : List β → Except ε (Option γ)
  /-- The part of the buffer a value takes. -/
  size : γ → Nat
  /-- Marks a loop that goes on for longer than the buffer can make it. -/
  outOfFuel : ε

variable (decoder : Decoder β γ ε)

/-- Handles and removes values until none is complete. -/
def drain (handle : γ → EStateM ε σ PUnit) : Nat → EStateM ε (Receiver β σ) PUnit
  | 0 => throw decoder.outOfFuel
  | fuel + 1 => do
      let receiver ← get
      match ← lift (decoder.decode receiver.buffer) with
      | none => pure .unit
      | some value =>
          Receiver.onState (handle value)
          modify fun receiver => { receiver with buffer := receiver.buffer.drop (decoder.size value) }
          drain handle fuel

/-- A piece of the stream arrives. -/
def receive (handle : γ → EStateM ε σ PUnit) (piece : List β) : EStateM ε (Receiver β σ) PUnit := do
  modify fun receiver => { receiver with buffer := receiver.buffer ++ piece }
  let receiver ← get
  drain decoder handle (receiver.buffer.length + 1)

/-!
## The values of a buffer
-/

/-- The values a buffer is split into, and what is left of it or the exception. -/
def split : Nat → List β → List γ × Except ε (List β)
  | 0, _ => ([], .error decoder.outOfFuel)
  | fuel + 1, data =>
      match decoder.decode data with
      | .error exception => ([], .error exception)
      | .ok none => ([], .ok data)
      | .ok (some value) =>
          let later := split fuel (data.drop (decoder.size value))
          (value :: later.1, later.2)

def splitAll : List β → List (List β) → List γ × Except ε (List β)
  | buffer, [] => ([], .ok buffer)
  | buffer, piece :: pieces =>
      let values := split decoder ((buffer ++ piece).length + 1) (buffer ++ piece)
      match values.2 with
      | .error exception => (values.1, .error exception)
      | .ok rest =>
          let later := splitAll rest pieces
          (values.1 ++ later.1, later.2)

/-- Handles values, and then throws if no more could be read. -/
def handleAll (handle : γ → EStateM ε σ PUnit) (values : List γ × Except ε (List β)) : EStateM ε σ PUnit := do
  forM values.1 handle
  let _ ← lift values.2

theorem handleAll_cons (handle : γ → EStateM ε σ PUnit) (value : γ) (values : List γ × Except ε (List β)) :
    handleAll handle (value :: values.1, values.2) = (do handle value; handleAll handle values) := by
  simp only [handleAll, List.forM_cons, bind_assoc]

/-- The buffer after a result is what the split left. -/
def Leaves (result : EStateM.Result ε σ PUnit) (left : Except ε (List β)) (buffer : List β) : Prop :=
  ∀ state rest, result = .ok .unit state → left = .ok rest → buffer = rest

theorem run_drain (handle : γ → EStateM ε σ PUnit) (fuel : Nat) (data : List β) (state : σ) :
    ∃ buffer, drain decoder handle fuel ⟨data, state⟩ =
        Receiver.attach buffer (handleAll handle (split decoder fuel data) state) ∧
      Leaves (handleAll handle (split decoder fuel data) state) (split decoder fuel data).2 buffer := by
  induction fuel generalizing data state with
  | zero => exact ⟨data, rfl, fun _ _ threw => by cases threw⟩
  | succ fuel ih =>
      rw [drain, run_bind_ok (run_get _), run_bind, run_lift]
      unfold split
      cases decoded : decoder.decode data with
      | error exception =>
          exact ⟨data, rfl, fun _ _ threw => by cases threw⟩
      | ok found =>
          cases found with
          | none =>
              refine ⟨data, rfl, fun _ rest _ left => ?_⟩
              injection left
          | some value =>
              dsimp only
              rw [handleAll_cons, run_bind, run_bind, Receiver.onState]
              dsimp only
              cases handle value state with
              | error exception next => exact ⟨data, rfl, fun _ _ threw => by cases threw⟩
              | ok _ next =>
                  dsimp only
                  rw [run_bind_ok (run_modify _ _)]
                  exact ih _ _

theorem handleAll_append {handle : γ → EStateM ε σ PUnit} {values : List γ} {later : List γ × Except ε (List β)} :
    handleAll handle (values ++ later.1, later.2) = (do forM values handle; handleAll handle later) := by
  induction values with
  | nil => simp only [List.nil_append, List.forM_nil, pure_bind]
  | cons value values ih =>
      simp only [List.cons_append, handleAll_cons handle value (values ++ later.1, later.2), ih, List.forM_cons, bind_assoc]

/-- Receiving the pieces is handling the values they are split into. -/
theorem run_receive (handle : γ → EStateM ε σ PUnit) (pieces : List (List β)) (buffer : List β) (state : σ) :
    ∃ final, (forM pieces (receive decoder handle)) ⟨buffer, state⟩ =
        Receiver.attach final (handleAll handle (splitAll decoder buffer pieces) state) ∧
      Leaves (handleAll handle (splitAll decoder buffer pieces) state) (splitAll decoder buffer pieces).2 final := by
  induction pieces generalizing buffer state with
  | nil => exact ⟨buffer, rfl, fun _ rest _ left => by injection left⟩
  | cons piece pieces ih =>
      rw [List.forM_cons, run_bind, receive, run_bind_ok (run_modify _ _), run_bind_ok (run_get _)]
      obtain ⟨middle, drained, leaves⟩ :=
        run_drain decoder handle ((buffer ++ piece).length + 1) (buffer ++ piece) state
      dsimp only
      rw [drained, splitAll]
      generalize split decoder ((buffer ++ piece).length + 1) (buffer ++ piece) = values at leaves ⊢
      obtain ⟨values, left⟩ := values
      cases left with
      | error exception =>
          dsimp only
          cases ran : handleAll handle (values, .error exception) state with
          | error thrown next => exact ⟨middle, rfl, fun _ _ threw => by cases threw⟩
          | ok _ next =>
              rw [handleAll] at ran
              obtain ⟨_, _, _, threw⟩ := of_bind_ok ran
              cases threw
      | ok rest =>
          dsimp only
          rw [handleAll_append]
          cases ran : (forM values handle : EStateM ε σ PUnit) state with
          | error thrown next =>
              have threw : handleAll handle (values, (.ok rest : Except ε (List β))) state = .error thrown next := by
                rw [handleAll, run_bind_error ran]
              rw [threw, run_bind_error ran]
              exact ⟨middle, rfl, fun _ _ threw => by cases threw⟩
          | ok _ next =>
              have handled : handleAll handle (values, (.ok rest : Except ε (List β))) state = .ok .unit next := by
                rw [handleAll, run_bind_ok ran]
                rfl
              rw [handled, run_bind_ok ran]
              obtain rfl : middle = rest := leaves next rest handled rfl
              exact ih _ _

/-- A piece whose handling returned was split into values that were handled one by one. -/
theorem receive_ok {handle : γ → EStateM ε σ PUnit} {piece : List β} {receiver next : Receiver β σ}
    (ran : receive decoder handle piece receiver = .ok .unit next) :
    ∃ values, split decoder ((receiver.buffer ++ piece).length + 1) (receiver.buffer ++ piece) = (values, .ok next.buffer) ∧
      (forM values handle) receiver.state = .ok .unit next.state := by
  rw [receive, run_bind_ok (run_modify _ _), run_bind_ok (run_get _)] at ran
  obtain ⟨buffer, drained, leaves⟩ := run_drain decoder handle ((receiver.buffer ++ piece).length + 1)
    (receiver.buffer ++ piece) receiver.state
  dsimp only at ran
  rw [drained] at ran
  generalize split decoder ((receiver.buffer ++ piece).length + 1) (receiver.buffer ++ piece) = values at ran leaves ⊢
  obtain ⟨values, left⟩ := values
  cases handled : handleAll handle (values, left) receiver.state with
  | error exception final =>
      rw [handled] at ran
      cases ran
  | ok _ final =>
      rw [handled] at ran
      cases ran
      rw [handleAll] at handled
      obtain ⟨_, middle, looped, lifted⟩ := of_bind_ok handled
      cases left with
      | error exception => cases lifted
      | ok rest =>
          cases lifted
          obtain rfl : buffer = rest := leaves _ rest (by rw [handleAll, run_bind_ok looped]; rfl) rfl
          exact ⟨values, rfl, looped⟩

theorem forM_receive_ok {handle : γ → EStateM ε σ PUnit} {pieces : List (List β)} {receiver next : Receiver β σ}
    (ran : (forM pieces (receive decoder handle)) receiver = .ok .unit next) :
    ∃ values, splitAll decoder receiver.buffer pieces = (values, .ok next.buffer) ∧
      (forM values handle) receiver.state = .ok .unit next.state := by
  induction pieces generalizing receiver with
  | nil =>
      cases ran
      exact ⟨[], rfl, rfl⟩
  | cons piece pieces ih =>
      rw [List.forM_cons] at ran
      obtain ⟨_, middle, received, ran⟩ := of_bind_ok ran
      obtain ⟨early, splits, handled⟩ := receive_ok decoder received
      obtain ⟨late, rest, later⟩ := ih ran
      refine ⟨early ++ late, by simp only [splitAll, splits, rest], ?_⟩
      rw [List.forM_append, run_bind_ok handled]
      exact later

/-- No value takes more than there is. -/
def Within : Prop := ∀ data value, decoder.decode data = .ok (some value) → decoder.size value ≤ data.length

theorem length_split (within : Within decoder) {fuel : Nat} {data rest : List β} {values : List γ}
    (splits : split decoder fuel data = (values, .ok rest)) :
    (values.map decoder.size).sum + rest.length = data.length := by
  induction fuel generalizing data values with
  | zero => cases splits
  | succ fuel ih =>
      unfold split at splits
      split at splits
      · cases splits
      · cases splits
        simp
      · rename_i value decoded
        have enough := within data value decoded
        cases after : split decoder fuel (data.drop (decoder.size value)) with
        | mk others left =>
            rw [after] at splits
            cases splits
            have later := ih after
            rw [List.length_drop] at later
            simp only [List.map_cons, List.sum_cons]
            omega

/-- The values take the bytes that arrived, but for what is left. -/
theorem length_splitAll (within : Within decoder) {buffer rest : List β} {pieces : List (List β)} {values : List γ}
    (splits : splitAll decoder buffer pieces = (values, .ok rest)) :
    (values.map decoder.size).sum + rest.length = buffer.length + pieces.flatten.length := by
  induction pieces generalizing buffer values with
  | nil =>
      cases splits
      simp
  | cons piece pieces ih =>
      unfold splitAll at splits
      cases first : split decoder ((buffer ++ piece).length + 1) (buffer ++ piece) with
      | mk early middle =>
          rw [first] at splits
          cases middle with
          | error exception => cases splits
          | ok middle =>
              cases second : splitAll decoder middle pieces with
              | mk late left =>
                  dsimp only at splits
                  rw [second] at splits
                  cases splits
                  have earlySize := length_split decoder within first
                  have lateSize := ih second
                  rw [List.length_append] at earlySize
                  simp only [List.map_append, List.sum_append, List.flatten_cons, List.length_append]
                  omega

/-!
## Encodings
-/

/-- A value is read from its encoding whatever follows it, and not before its end. -/
structure Encodes (bytes : List β) (value : γ) : Prop where
  decodes : ∀ rest, decoder.decode (bytes ++ rest) = .ok (some value)
  silent : ∀ front, front <+: bytes → front ≠ bytes → decoder.decode front = .ok none
  size : decoder.size value = bytes.length
  nonempty : bytes ≠ []

/-- No value is complete in any part that has arrived. -/
def Silent (tail : List β) : Prop := ∀ front, front <+: tail → decoder.decode front = .ok none

variable {decoder}

/-- What has arrived of a stream of encodings is some of them, and a part of the next. -/
theorem split_of_encoded {encodings : List (List β)} {values : List γ} {tail : List β}
    (encoded : List.Forall₂ (Encodes decoder) encodings values) (silent : Silent decoder tail) {data rest : List β}
    (stream : data ++ rest = encodings.flatten ++ tail) {fuel : Nat} (enough : data.length < fuel) :
    ∃ count left, split decoder fuel data = (values.take count, .ok left) ∧
      left ++ rest = (encodings.drop count).flatten ++ tail ∧ decoder.decode left = .ok none := by
  induction encoded generalizing data fuel with
  | nil =>
      have quiet : decoder.decode data = .ok none := silent data ⟨rest, by simpa using stream⟩
      obtain ⟨fuel, rfl⟩ := Nat.exists_eq_add_of_lt enough
      refine ⟨0, data, ?_, by simpa using stream, quiet⟩
      simp only [split, quiet, List.take_zero]
  | @cons bytes value encodings values first later ih =>
      obtain ⟨more, rfl⟩ : ∃ more, fuel = more + 1 := ⟨fuel - 1, by omega⟩
      rw [List.flatten_cons, List.append_assoc] at stream
      rcases List.append_eq_append_iff.mp stream with ⟨missing, whole, -⟩ | ⟨extra, whole, behind⟩
      · by_cases complete : data = bytes
        · subst complete
          obtain rfl : missing = [] := by simpa using whole
          have decoded := first.decodes []
          rw [List.append_nil] at decoded
          have remaining : [] ++ rest = encodings.flatten ++ tail := by simpa using stream
          have shorter : ([] : List β).length < more := by
            have := List.length_pos_iff.mpr first.nonempty
            simp only [List.length_nil]
            omega
          obtain ⟨count, left, splits, rejoins, quiet⟩ := ih remaining shorter
          refine ⟨count + 1, left, ?_, by simpa using rejoins, quiet⟩
          simp only [split, decoded, first.size, List.drop_length, splits, List.take_succ_cons]
        · have quiet := first.silent data ⟨missing, whole.symm⟩ complete
          refine ⟨0, data, ?_, by simpa using stream, quiet⟩
          simp only [split, quiet, List.take_zero]
      · subst whole
        have shorter : extra.length < more := by
          have := List.length_pos_iff.mpr first.nonempty
          rw [List.length_append] at enough
          omega
        obtain ⟨count, left, splits, rejoins, quiet⟩ := ih behind.symm shorter
        refine ⟨count + 1, left, ?_, by simpa using rejoins, quiet⟩
        simp only [split, first.decodes extra, first.size, List.drop_left, splits, List.take_succ_cons]

/-- Wherever a stream of encodings is cut, it is split into its values. -/
theorem splitAll_of_encoded {encodings : List (List β)} {values : List γ} {tail : List β}
    (encoded : List.Forall₂ (Encodes decoder) encodings values) (silent : Silent decoder tail)
    {buffer : List β} {pieces : List (List β)} (quiet : decoder.decode buffer = .ok none)
    (stream : buffer ++ pieces.flatten = encodings.flatten ++ tail) :
    splitAll decoder buffer pieces = (values, .ok tail) := by
  induction pieces generalizing buffer encodings values with
  | nil =>
      cases encoded with
      | nil => simp_all [splitAll]
      | @cons bytes value encodings values first later =>
          have decoded := first.decodes (encodings.flatten ++ tail)
          rw [← List.append_assoc, ← List.flatten_cons, ← stream, List.flatten_nil, List.append_nil, quiet] at decoded
          cases decoded
  | cons piece pieces ih =>
      rw [List.flatten_cons, ← List.append_assoc] at stream
      obtain ⟨count, left, splits, rejoins, silentLeft⟩ :=
        split_of_encoded encoded silent stream (Nat.lt_succ_self _)
      have later := ih ((List.forall₂_drop count encoded)) silentLeft rejoins
      simp only [splitAll, splits, later, List.take_append_drop]

end TradingEngine.Library.StreamDecoder
