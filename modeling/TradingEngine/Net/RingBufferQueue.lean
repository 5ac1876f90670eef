import TradingEngine.Library.Exec
import TradingEngine.Net.RingBuffer

/-! The transmit ring refines a queue of bytes with a capacity, over every sequence
of writes, reads and resets. -/

set_option autoImplicit false

namespace TradingEngine

open Library.Exec

inductive RingCall where
  | write (data : Bytes)
  | commitRead (n : Nat)
  | reset

/-- The queue the ring stands for. -/
def queueCall (N : Nat) : RingCall → EStateM Exn Bytes PUnit
  | .write data => do
      let queue ← get
      if data.length ≤ N - queue.length then modify fun queue => queue ++ data
      else throw (.runtimeError "RingBuffer overflow".toList)
  | .commitRead n => modify fun queue => queue.drop n
  | .reset => modify fun _ => []

namespace RingBuffer

variable {N : Nat}

/-- `Write` throws before it touches the ring. -/
def call : RingCall → EStateM Exn (RingBuffer N) PUnit
  | .write data => fun ring =>
      match write data ring with
      | .ok next => .ok .unit next
      | .error exception => .error exception ring
  | .commitRead n => modify fun ring => ring.commitRead n
  | .reset => modify fun ring => ring.reset

/-!
## Two passes
-/

theorem copyPasses_mono {passes more : Nat} {data : Bytes} {ring next : RingBuffer N}
    (ran : copyPasses passes data ring = .ok next) (enough : passes ≤ more) : copyPasses more data ring = .ok next := by
  induction passes generalizing more data ring with
  | zero =>
      rw [copyPasses] at ran
      split at ran
      · rename_i none
        cases ran
        cases more <;> simp [copyPasses, none]
      · cases ran
  | succ passes ih =>
      obtain ⟨more, rfl⟩ : ∃ rest, more = rest + 1 := ⟨more - 1, by omega⟩
      rw [copyPasses] at ran ⊢
      split
      · rename_i none
        rwa [if_pos none] at ran
      · rename_i some
        rw [if_neg some] at ran
        exact ih ran (by omega)

theorem copyPasses_nil (passes : Nat) (ring : RingBuffer N) : copyPasses passes [] ring = .ok ring := by
  cases passes <;> rfl

/-- The first pass ends with the data or at the end of the array; from its start
there is room for the rest. -/
theorem Valid.copyPasses_two {ring : RingBuffer N} (valid : ring.Valid) {data : Bytes}
    (fits : ring.size + data.length ≤ N) : ∃ next, RingBuffer.copyPasses 2 data ring = .ok next := by
  by_cases none : data = []
  · exact ⟨ring, none ▸ copyPasses_nil 2 ring⟩
  · rw [valid.copyPasses_succ none]
    have positive : 0 < N := Nat.zero_lt_of_lt valid.readPos
    have writePos : (ring.readPos + ring.size) % N < N := Nat.mod_lt _ positive
    generalize length_eq : ring.passLength data = n
    rw [passLength] at length_eq
    have taken : (data.take n).length = n := by
      rw [List.length_take]
      omega
    by_cases all : data.drop n = []
    · exact ⟨_, all ▸ copyPasses_nil 1 _⟩
    · have longer : n < data.length := by
        rw [List.drop_eq_nil_iff] at all
        omega
      have atEnd : (ring.readPos + ring.size) % N + n = N := by omega
      have copied : (ring.copied (data.take n)).Valid := valid.copied (by omega)
      have wrapped : (ring.readPos + (ring.size + n)) % N = 0 := by
        rw [← Nat.add_assoc, ← Nat.mod_add_mod, atEnd, Nat.mod_self]
      have whole : (ring.copied (data.take n)).passLength (data.drop n) = (data.drop n).length := by
        simp only [passLength, RingBuffer.copied, taken, wrapped, List.length_drop]
        omega
      rw [copied.copyPasses_succ all, whole, List.drop_length]
      exact ⟨_, copyPasses_nil 0 _⟩

theorem Valid.write_two {ring : RingBuffer N} (valid : ring.Valid) {data : Bytes} (fits : ring.size + data.length ≤ N) :
    ∃ next, RingBuffer.copyPasses 2 data ring = .ok next ∧ RingBuffer.write data ring = .ok next ∧
      ring.Appends data next := by
  have outcome := valid.write data
  rw [if_pos fits] at outcome
  obtain ⟨next, ran, appends⟩ := outcome
  obtain ⟨second, two⟩ := valid.copyPasses_two fits
  have size := valid.size
  have long : RingBuffer.copyPasses data.length data ring = .ok next := by
    rwa [RingBuffer.write, if_neg (by rw [valid.freeSpace_eq]; omega)] at ran
  have same := (copyPasses_mono two (Nat.le_max_left 2 data.length)).symm.trans
    (copyPasses_mono long (Nat.le_max_right 2 data.length))
  cases same
  exact ⟨next, two, ran, appends⟩

/-!
## Runs
-/

/-- The ring in a state in which it stands for the queue, and what each call does there. -/
structure StandsFor (ring : RingBuffer N) (queue : Bytes) : Prop where
  contents : ring.contents = queue
  fits : ∀ data : Bytes, data.length ≤ N - queue.length →
    ∃ next, RingBuffer.copyPasses 2 data ring = .ok next ∧ RingBuffer.write data ring = .ok next ∧
      next.contents = queue ++ data
  overflows : ∀ data : Bytes, N - queue.length < data.length →
    RingBuffer.write data ring = .error (.runtimeError "RingBuffer overflow".toList)
  front : ring.bytesAt ring.contiguousReadableRegion <+: queue
  nonempty : queue ≠ [] → ring.bytesAt ring.contiguousReadableRegion ≠ []
  reads : ∀ n ≤ ring.contiguousReadableRegion.size, (ring.commitRead n).contents = queue.drop n
  resets : ring.reset.contents = []

theorem readable_le (ring : RingBuffer N) : ring.contiguousReadableRegion.size ≤ ring.size := Nat.min_le_left _ _

theorem Valid.standsFor {ring : RingBuffer N} (valid : ring.Valid) : ring.StandsFor ring.contents where
  contents := rfl
  fits data room := by
    rw [length_contents] at room
    have size := valid.size
    have enough : ring.size + data.length ≤ N := by omega
    obtain ⟨next, two, ran, appends⟩ := valid.write_two enough
    exact ⟨next, two, ran, appends.contents⟩
  overflows data long := by
    rw [length_contents] at long
    have outcome := valid.write data
    rwa [if_neg (by omega)] at outcome
  front := by
    rw [valid.readable]
    exact List.take_prefix _ _
  nonempty some := by
    have positive : 0 < ring.contiguousReadableRegion.size := by
      rw [valid.readable_pos, ← length_contents]
      exact List.length_pos_iff.mpr some
    have length : (ring.bytesAt ring.contiguousReadableRegion).length = ring.contiguousReadableRegion.size :=
      Library.CircularMemory.length_block
    exact List.length_pos_iff.mp (length ▸ positive)
  reads n within := (valid.commitRead (within.trans ring.readable_le)).2
  resets := rfl

/-- Reads are confined to what the region offers. -/
def CommitsRegion (current : RingBuffer N × Bytes) : RingCall → Prop
  | .commitRead n => n ≤ current.1.contiguousReadableRegion.size
  | _ => True

instance (current : RingBuffer N × Bytes) : (call : RingCall) → Decidable (CommitsRegion current call)
  | .commitRead n => inferInstanceAs (Decidable (n ≤ current.1.contiguousReadableRegion.size))
  | .write _ | .reset => inferInstanceAs (Decidable True)

/-- The ring and the queue take the same call; either may throw. -/
def callBoth (ringCall : RingCall) : EStateM Exn (RingBuffer N × Bytes) PUnit := fun current =>
  .ok .unit (finalState (call ringCall current.1), finalState (queueCall N ringCall current.2))

theorem call_write_ok {ring next : RingBuffer N} {data : Bytes} (ran : write data ring = .ok next) :
    call (.write data) ring = .ok .unit next := by
  rw [call]
  beta_reduce
  rw [ran]

theorem call_write_error {ring : RingBuffer N} {data : Bytes} {exception : Exn} (ran : write data ring = .error exception) :
    call (.write data) ring = .error exception ring := by
  rw [call]
  beta_reduce
  rw [ran]

theorem call_refines {ring : RingBuffer N} {ringCall : RingCall} (valid : ring.Valid)
    (admitted : CommitsRegion (ring, ring.contents) ringCall) :
    (finalState (call ringCall ring)).Valid ∧
      (finalState (call ringCall ring)).contents = finalState (queueCall N ringCall ring.contents) := by
  cases ringCall with
  | write data =>
      rw [queueCall, run_bind_ok (run_get _), length_contents]
      have size := valid.size
      have outcome := valid.write data
      split at outcome
      · obtain ⟨next, ran, appends⟩ := outcome
        rw [call_write_ok ran, if_pos (by omega)]
        exact ⟨appends.valid, appends.contents⟩
      · rw [call_write_error outcome, if_neg (by omega)]
        exact ⟨valid, rfl⟩
  | commitRead n => exact valid.commitRead (le_trans admitted ring.readable_le)
  | reset => exact ⟨valid.reset, rfl⟩

/-- Over every sequence of calls a ring of positive capacity is a queue of bytes. The
capacity is that of an array that can exist. -/
theorem ring_buffer_fifo (positive : 0 < N) (allocated : N < 2 ^ 63) {ring : RingBuffer N} {queue : Bytes}
    (run : Reaches callBoth CommitsRegion ((empty : RingBuffer N), []) (ring, queue)) : ring.StandsFor queue := by
  have kept := run.invariant (fun current => current.1.Valid ∧ current.1.contents = current.2)
    ⟨valid_empty allocated positive, rfl⟩ (by
      rintro ⟨current, contents⟩ ringCall next ⟨valid, same⟩ admitted ran
      obtain rfl : current.contents = contents := same
      cases ran
      exact call_refines valid admitted)
  obtain ⟨valid, same⟩ : ring.Valid ∧ ring.contents = queue := kept
  exact same ▸ valid.standsFor

/-- A write around the end of a ring of four bytes, and one that is refused. -/
def wrappingCalls : List RingCall :=
  [.write [1, 2, 3], .commitRead 2, .write [4, 5, 6], .write [7], .commitRead 2]

theorem ring_buffer_fifo_wrapping :
    ∃ ring : RingBuffer 4, Reaches callBoth CommitsRegion (empty, []) (ring, [5, 6]) ∧ ring.StandsFor [5, 6] := by
  have run : Reaches callBoth CommitsRegion ((empty : RingBuffer 4), []) _ :=
    Reaches.start.all wrappingCalls (by decide +kernel)
  have queue : (finalState (forM wrappingCalls callBoth ((empty : RingBuffer 4), []))).2 = [5, 6] := by decide +kernel
  have reached : Reaches callBoth CommitsRegion ((empty : RingBuffer 4), [])
      ((finalState (forM wrappingCalls callBoth ((empty : RingBuffer 4), []))).1, [5, 6]) := by
    rw [← queue]
    exact run
  exact ⟨_, reached, ring_buffer_fifo (by decide) (by decide) reached⟩

end RingBuffer

end TradingEngine
