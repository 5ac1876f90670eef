import TradingEngine.Common.Basic
import TradingEngine.Library.CircularMemory

/-! The transmit ring: a fixed array, the position of the oldest byte and a count.
The count is unsigned and nothing stops it from wrapping below zero; while it stays
within the capacity the ring is a queue of bytes. -/

set_option autoImplicit false

namespace TradingEngine

open Library.CircularMemory

structure RingBuffer (N : Nat) where
  data : Nat → UInt8
  readPos : Nat
  size : Nat

/-- An `asio` buffer over the array. -/
structure Region where
  offset : Nat
  size : Nat
  deriving DecidableEq, Repr

namespace RingBuffer

variable {N : Nat}

def empty : RingBuffer N := ⟨fun _ => 0, 0, 0⟩

def freeSpace (ring : RingBuffer N) : Nat := sizeSub N ring.size

def contiguousWritableRegion (ring : RingBuffer N) : Region :=
  let writePos := sizeAdd ring.readPos ring.size % N
  ⟨writePos, min (sizeSub N ring.size) (N - writePos)⟩

/-- The copy loop of `Write`; every pass copies a byte at least. -/
def copyPasses : Nat → Bytes → RingBuffer N → Except Exn (RingBuffer N)
  | 0, data, ring => if data = [] then .ok ring else .error .outOfFuel
  | passes + 1, data, ring =>
      if data = [] then .ok ring
      else
        let region := ring.contiguousWritableRegion
        let n := min region.size data.length
        copyPasses passes (data.drop n)
          { ring with data := store ring.data region.offset (data.take n), size := sizeAdd ring.size n }

def write (data : Bytes) (ring : RingBuffer N) : Except Exn (RingBuffer N) :=
  if ring.freeSpace < data.length then .error (.runtimeError "RingBuffer overflow".toList)
  else copyPasses data.length data ring

def contiguousReadableRegion (ring : RingBuffer N) : Region := ⟨ring.readPos, min ring.size (N - ring.readPos)⟩

def commitRead (n : Nat) (ring : RingBuffer N) : RingBuffer N :=
  { ring with readPos := sizeAdd ring.readPos n % N, size := sizeSub ring.size n }

def reset (ring : RingBuffer N) : RingBuffer N := { ring with readPos := 0, size := 0 }

/-- The bytes of a region, as the socket reads them. -/
def bytesAt (ring : RingBuffer N) (region : Region) : Bytes := block ring.data region.offset region.size

/-!
## As a queue
-/

/-- The position is inside the array and the count within the capacity, which is
below that of any array. -/
structure Valid (ring : RingBuffer N) : Prop where
  capacity : N < 2 ^ 63
  readPos : ring.readPos < N
  size : ring.size ≤ N

/-- What was written and not yet read. -/
def contents (ring : RingBuffer N) : Bytes := window N ring.data ring.readPos ring.size

@[simp] theorem length_contents (ring : RingBuffer N) : ring.contents.length = ring.size := length_window

theorem valid_empty (capacity : N < 2 ^ 63) (positive : 0 < N) : (empty : RingBuffer N).Valid :=
  ⟨capacity, positive, Nat.zero_le _⟩

theorem Valid.reset {ring : RingBuffer N} (valid : ring.Valid) : ring.reset.Valid :=
  ⟨valid.capacity, Nat.zero_lt_of_lt valid.readPos, Nat.zero_le _⟩

section Queue

variable {ring : RingBuffer N} (valid : ring.Valid)

include valid

theorem Valid.freeSpace_eq : ring.freeSpace = N - ring.size :=
  sizeSub_eq valid.size (by have := valid.capacity; omega)

theorem Valid.contiguousWritableRegion_eq : ring.contiguousWritableRegion =
    ⟨(ring.readPos + ring.size) % N, min (N - ring.size) (N - (ring.readPos + ring.size) % N)⟩ := by
  obtain ⟨capacity, readPos, size⟩ := valid
  simp only [contiguousWritableRegion, sizeAdd_eq (show ring.readPos + ring.size < 2 ^ 64 by omega),
    sizeSub_eq size (show N < 2 ^ 64 by omega)]

/-- Bytes copied behind the contents by one pass. -/
def copied (ring : RingBuffer N) (data : Bytes) : RingBuffer N :=
  { ring with
    data := store ring.data ((ring.readPos + ring.size) % N) data
    size := ring.size + data.length }

theorem Valid.copied {data : Bytes} (fits : ring.size + data.length ≤ N) : (ring.copied data).Valid :=
  ⟨valid.capacity, valid.readPos, fits⟩

end Queue

theorem contents_copied {ring : RingBuffer N} {data : Bytes} (fits : ring.size + data.length ≤ N)
    (contiguous : (ring.readPos + ring.size) % N + data.length ≤ N) :
    (ring.copied data).contents = ring.contents ++ data := window_store fits contiguous

/-- Data went behind the contents, which stayed where they were. -/
structure Appends (ring : RingBuffer N) (data : Bytes) (next : RingBuffer N) : Prop where
  valid : next.Valid
  readPos : next.readPos = ring.readPos
  contents : next.contents = ring.contents ++ data

theorem Appends.size {ring next : RingBuffer N} {data : Bytes} (appends : ring.Appends data next) :
    next.size = ring.size + data.length := by
  have lengths := congrArg List.length appends.contents
  simpa using lengths

/-- How much of the data one pass copies. -/
def passLength (ring : RingBuffer N) (data : Bytes) : Nat :=
  min (min (N - ring.size) (N - (ring.readPos + ring.size) % N)) data.length

/-- One pass puts the first of the data behind the contents. -/
theorem Valid.copyPasses_succ {ring : RingBuffer N} {data : Bytes} (valid : ring.Valid) (some : data ≠ []) (passes : Nat) :
    copyPasses (passes + 1) data ring =
      copyPasses passes (data.drop (ring.passLength data)) (ring.copied (data.take (ring.passLength data))) := by
  rw [RingBuffer.copyPasses, if_neg some, valid.contiguousWritableRegion_eq]
  dsimp only
  rw [← passLength]
  have taken : (data.take (ring.passLength data)).length = ring.passLength data := by
    rw [List.length_take, passLength]
    omega
  have bounded : ring.passLength data ≤ N - ring.size := by
    rw [passLength]
    omega
  have := valid.capacity
  have := valid.size
  rw [sizeAdd_eq (by omega), RingBuffer.copied, taken]

theorem Valid.copyPasses {ring : RingBuffer N} {data : Bytes} {passes : Nat} (valid : ring.Valid)
    (fits : ring.size + data.length ≤ N) (enough : data.length ≤ passes) :
    ∃ next, copyPasses passes data ring = .ok next ∧ ring.Appends data next := by
  induction passes generalizing data ring with
  | zero =>
      obtain rfl : data = [] := List.eq_nil_of_length_eq_zero (by omega)
      exact ⟨ring, rfl, valid, rfl, (List.append_nil _).symm⟩
  | succ passes ih =>
      by_cases none : data = []
      · subst none
        exact ⟨ring, rfl, valid, rfl, (List.append_nil _).symm⟩
      · have long : 0 < data.length := List.length_pos_iff.mpr none
        have writePos : (ring.readPos + ring.size) % N < N := Nat.mod_lt _ (by omega)
        rw [valid.copyPasses_succ none]
        generalize length_eq : ring.passLength data = n
        rw [passLength] at length_eq
        have taken : (data.take n).length = n := by
          rw [List.length_take]
          omega
        have front : ring.size + (data.take n).length ≤ N := by omega
        have contiguous : (ring.readPos + ring.size) % N + (data.take n).length ≤ N := by omega
        have remaining : (ring.copied (data.take n)).size + (data.drop n).length ≤ N := by
          simp only [RingBuffer.copied, List.length_drop]
          omega
        obtain ⟨next, ran, appends⟩ := ih (valid.copied front) remaining (by rw [List.length_drop]; omega)
        refine ⟨next, ran, appends.valid, appends.readPos, ?_⟩
        rw [appends.contents, contents_copied front contiguous, List.append_assoc, List.take_append_drop]

/-- A write that fits is appended whole; one that does not throws. -/
theorem Valid.write {ring : RingBuffer N} (valid : ring.Valid) (data : Bytes) :
    if ring.size + data.length ≤ N then ∃ next, write data ring = .ok next ∧ ring.Appends data next
    else write data ring = .error (.runtimeError "RingBuffer overflow".toList) := by
  unfold RingBuffer.write
  rw [valid.freeSpace_eq]
  have := valid.size
  split
  · rename_i fits
    rw [if_neg (by omega)]
    exact valid.copyPasses fits le_rfl
  · rw [if_pos (by omega)]

theorem Valid.write_ok {ring next : RingBuffer N} (valid : ring.Valid) {data : Bytes}
    (ran : RingBuffer.write data ring = .ok next) : ring.size + data.length ≤ N ∧ ring.Appends data next := by
  have outcome := valid.write data
  split at outcome
  · rename_i fits
    obtain ⟨same, again, appends⟩ := outcome
    obtain rfl : next = same := by
      have equal := ran.symm.trans again
      injection equal
    exact ⟨fits, appends⟩
  · rw [ran] at outcome
    cases outcome

/-- A write leaves the bytes of every region inside the contents alone. -/
theorem Appends.bytesAt {ring next : RingBuffer N} {data : Bytes} (appends : ring.Appends data next) {count : Nat}
    (within : count ≤ ring.size) (contiguous : ring.readPos + count ≤ N) :
    next.bytesAt ⟨ring.readPos, count⟩ = ring.bytesAt ⟨ring.readPos, count⟩ := by
  have before : ring.contents.take count = ring.bytesAt ⟨ring.readPos, count⟩ := by
    rw [RingBuffer.contents, window_take within, window_eq_block contiguous]
    rfl
  have after : next.contents.take count = next.bytesAt ⟨ring.readPos, count⟩ := by
    rw [← appends.readPos] at contiguous ⊢
    rw [RingBuffer.contents, window_take (by rw [appends.size]; omega), window_eq_block contiguous]
    rfl
  rw [← before, ← after, appends.contents, List.take_append_of_le_length (by rwa [length_contents])]

/-- The readable region holds the oldest bytes. -/
theorem Valid.readable {ring : RingBuffer N} (valid : ring.Valid) :
    ring.bytesAt ring.contiguousReadableRegion = ring.contents.take ring.contiguousReadableRegion.size := by
  have := valid.readPos
  have contiguous : ring.readPos + min ring.size (N - ring.readPos) ≤ N := by omega
  simp only [contiguousReadableRegion, RingBuffer.contents, window_take (Nat.min_le_left _ _), window_eq_block contiguous]
  rfl

theorem Valid.readable_pos {ring : RingBuffer N} (valid : ring.Valid) :
    0 < ring.contiguousReadableRegion.size ↔ 0 < ring.size := by
  have := valid.readPos
  simp only [contiguousReadableRegion]
  omega

theorem Valid.commitRead {ring : RingBuffer N} (valid : ring.Valid) {n : Nat} (within : n ≤ ring.size) :
    (ring.commitRead n).Valid ∧ (ring.commitRead n).contents = ring.contents.drop n := by
  obtain ⟨capacity, readPos, size⟩ := valid
  have step : ring.commitRead n = { ring with readPos := (ring.readPos + n) % N, size := ring.size - n } := by
    rw [RingBuffer.commitRead, sizeAdd_eq (by omega), sizeSub_eq within (by omega)]
  rw [step]
  refine ⟨⟨capacity, Nat.mod_lt _ (by omega), Nat.le_trans (Nat.sub_le _ _) size⟩, ?_⟩
  rw [RingBuffer.contents, RingBuffer.contents, window_mod, window_drop within]

end RingBuffer

end TradingEngine
