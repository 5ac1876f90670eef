import TradingEngine.Connectivity.RateLimiterProperties
import TradingEngine.Library.CircularMemory
import TradingEngine.Library.SlotArray

/-! The limiter as it stands in memory: a vector of timestamps, the position of the
oldest and a count. An index outside the vector, or a remainder by zero, has no
result. -/

set_option autoImplicit false

namespace TradingEngine

open Library Library.CircularMemory

structure TimestampRing where
  capacity : Nat
  window : Int
  timestamps : List Int
  head : Nat
  count : Nat

namespace TimestampRing

def create (capacity : Nat) (window : Int) : TimestampRing :=
  ⟨capacity, window, List.replicate capacity 0, 0, 0⟩

def remainder (dividend divisor : Nat) : Option Nat := if divisor = 0 then none else some (dividend % divisor)

/-- The loop that lets old timestamps go. -/
def evict (ring : TimestampRing) (cutoff : Int) : Nat → Nat → Option (Nat × Nat)
  | head, 0 => some (head, 0)
  | head, count + 1 => do
      let oldest ← ring.timestamps[head]?
      if oldest < cutoff then
        let next ← remainder (head + 1) ring.capacity
        evict ring cutoff next count
      else some (head, count + 1)

def tryAcquire (ring : TimestampRing) (now : Int) : Option (Bool × TimestampRing) := do
  let (head, count) ← ring.evict (now - ring.window) ring.head ring.count
  if ring.capacity ≤ count then return (false, { ring with head := head, count := count })
  else
    let slot ← remainder (head + count) ring.capacity
    let timestamps ← SlotArray.Checked.write ring.timestamps slot now
    return (true, { ring with timestamps := timestamps, head := head, count := count + 1 })

/-!
## As a queue
-/

def memory (ring : TimestampRing) (index : Nat) : Int := ring.timestamps.getD index 0

/-- The timestamps counted, oldest first. -/
def queue (ring : TimestampRing) (head count : Nat) : List Int :=
  CircularMemory.window ring.capacity ring.memory head count

structure Valid (ring : TimestampRing) : Prop where
  length : ring.timestamps.length = ring.capacity
  head : 0 < ring.capacity → ring.head < ring.capacity
  count : ring.count ≤ ring.capacity

/-- The ring holds what the limiter keeps. -/
structure Holds (ring : TimestampRing) (limiter : SlidingWindowLimiter) : Prop where
  valid : ring.Valid
  capacity : limiter.capacity = ring.capacity
  window : limiter.window = ring.window
  timestamps : limiter.timestamps = ring.queue ring.head ring.count

theorem holds_create (capacity : Nat) (window : Int) :
    (create capacity window).Holds (SlidingWindowLimiter.create capacity window) where
  valid := ⟨List.length_replicate, id, Nat.zero_le _⟩
  capacity := rfl
  window := rfl
  timestamps := rfl

theorem queue_cons (ring : TimestampRing) {head : Nat} (inside : head < ring.capacity) (count : Nat) :
    ring.queue head (count + 1) = ring.memory head :: ring.queue ((head + 1) % ring.capacity) count := by
  rw [queue, Nat.add_comm, window_add, queue, window_mod]
  simp [CircularMemory.window, Nat.mod_eq_of_lt inside]

/-- The loop lets go what a queue would, and never leaves the vector. -/
theorem evict_eq {ring : TimestampRing} (length : ring.timestamps.length = ring.capacity) (cutoff : Int)
    {head count : Nat} (inside : 0 < ring.capacity → head < ring.capacity) (bounded : count ≤ ring.capacity) :
    ∃ next left, ring.evict cutoff head count = some (next, left) ∧ left ≤ ring.capacity ∧
      (0 < ring.capacity → next < ring.capacity) ∧
      ring.queue next left = (ring.queue head count).dropWhile (· < cutoff) := by
  induction count generalizing head with
  | zero => exact ⟨head, 0, rfl, bounded, inside, rfl⟩
  | succ count ih =>
      have positive : 0 < ring.capacity := by omega
      have bound := inside positive
      have oldest : ring.timestamps[head]? = some (ring.memory head) := by
        rw [memory, List.getD_eq_getElem?_getD, List.getElem?_eq_getElem (by omega), Option.getD_some]
      rw [evict, oldest, Option.bind_eq_bind, Option.bind_some, ring.queue_cons bound]
      by_cases old : ring.memory head < cutoff
      · rw [if_pos old, remainder, if_neg (by omega), Option.bind_eq_bind, Option.bind_some,
          List.dropWhile_cons_of_pos (by simpa using old)]
        exact ih (fun _ => Nat.mod_lt _ positive) (by omega)
      · rw [if_neg old, List.dropWhile_cons_of_neg (by simpa using old), ← ring.queue_cons bound]
        exact ⟨head, count + 1, rfl, bounded, inside, rfl⟩

theorem memory_set {ring : TimestampRing} (next : TimestampRing) {slot : Nat} {now : Int} (inside : slot < ring.timestamps.length)
    (written : next.timestamps = ring.timestamps.set slot now) : next.memory = store ring.memory slot [now] := by
  funext address
  simp only [memory, store, written, List.getD_eq_getElem?_getD, List.getElem?_set]
  by_cases here : slot = address
  · subst here
    simp [inside]
  · rw [if_neg here]
    split
    · have behind : [now][address - slot]? = none := List.getElem?_eq_none (by simp; omega)
      rw [behind, Option.getD_none]
    · rfl

/-- The ring grants what the limiter grants. -/
theorem Holds.tryAcquire {ring : TimestampRing} {limiter : SlidingWindowLimiter} (holds : ring.Holds limiter) (now : Int) :
    ∃ next, ring.tryAcquire now = some ((limiter.tryAcquire now).1, next) ∧ next.Holds (limiter.tryAcquire now).2 := by
  obtain ⟨⟨length, inside, bounded⟩, capacity, window, timestamps⟩ := holds
  obtain ⟨head, count, evicted, fewer, within, same⟩ := evict_eq length (now - ring.window) inside bounded
  have kept : limiter.recent now = ring.queue head count := by
    rw [SlidingWindowLimiter.recent, timestamps, window, same]
  have counted : (ring.queue head count).length = count := length_window
  unfold TimestampRing.tryAcquire SlidingWindowLimiter.tryAcquire
  rw [evicted, Option.bind_eq_bind, Option.bind_some]
  dsimp only
  rw [kept, counted, capacity]
  by_cases full : ring.capacity ≤ count
  · rw [if_pos full, if_pos full]
    exact ⟨_, rfl, ⟨length, within, fewer⟩, rfl, window, rfl⟩
  · have positive : 0 < ring.capacity := by omega
    have slot : (head + count) % ring.capacity < ring.timestamps.length := by
      rw [length]
      exact Nat.mod_lt _ positive
    rw [if_neg full, if_neg full, remainder, if_neg (by omega), Option.bind_eq_bind, Option.bind_some,
      SlotArray.Checked.write, if_pos slot]
    refine ⟨_, rfl, ⟨by simpa using length, within, Nat.lt_of_not_le full⟩, rfl, window, ?_⟩
    have appended : CircularMemory.window ring.capacity (store ring.memory ((head + count) % ring.capacity) [now])
        head (count + 1) = ring.queue head count ++ [now] :=
      window_store (show count + 1 ≤ ring.capacity by omega) (show (head + count) % ring.capacity + 1 ≤ _ by omega)
    rw [← memory_set { ring with
      timestamps := ring.timestamps.set ((head + count) % ring.capacity) now, head := head, count := count + 1 }
      slot rfl] at appended
    exact appended.symm

/-!
## Runs
-/

/-- Calls at these times, and what each returned. -/
def callAll (ring : TimestampRing) : List Int → Option (List Bool × TimestampRing)
  | [] => some ([], ring)
  | now :: later => do
      let (answer, next) ← ring.tryAcquire now
      let (answers, last) ← next.callAll later
      return (answer :: answers, last)

end TimestampRing

namespace SlidingWindowLimiter

/-- A limiter that remembers every grant: a call is granted if fewer than `capacity`
of the grants so far are at or after the start of its window. -/
def specification (capacity : Nat) (window : Int) : List Int → List Int → List Bool
  | _, [] => []
  | granted, now :: later =>
      let answer := decide (inWindow window now granted < capacity)
      answer :: specification capacity window (granted ++ List.replicate answer.toNat now) later

/-- The times of the calls that were granted. -/
def grants (times : List Int) (answers : List Bool) : List Int :=
  ((times.zip answers).filter Prod.snd).map Prod.fst

/-- Grants in the closed interval of length `window` from `start` on. -/
def within (window start : Int) (granted : List Int) : Nat :=
  granted.countP fun time => start ≤ time ∧ time ≤ start + window

theorem grants_cons (now : Int) (later : List Int) (answer : Bool) (answers : List Bool) :
    grants (now :: later) (answer :: answers) = List.replicate answer.toNat now ++ grants later answers := by
  cases answer <;> rfl

theorem within_append {capacity : Nat} {window start now : Int} {granted : List Int}
    (bounded : within window start granted ≤ capacity) :
    within window start (granted ++ List.replicate (decide (inWindow window now granted < capacity)).toNat now) ≤
      capacity := by
  unfold within at bounded ⊢
  rw [List.countP_append]
  by_cases room : inWindow window now granted < capacity
  · by_cases inside : start ≤ now ∧ now ≤ start + window
    · -- every grant of the interval is in the window that ends now
      have fewer : granted.countP (fun time => decide (start ≤ time ∧ time ≤ start + window)) ≤
          inWindow window now granted := by
        refine List.countP_mono_left fun time _ within => ?_
        simp only [decide_eq_true_eq] at within ⊢
        omega
      have one : [now].countP (fun time => decide (start ≤ time ∧ time ≤ start + window)) = 1 := by simp [inside]
      simp only [room, decide_true, Bool.toNat_true, List.replicate_one, one]
      omega
    · simpa [room, inside] using bounded
  · simpa [room] using bounded

theorem within_specification {capacity : Nat} {window start : Int} {granted : List Int} (times : List Int)
    (bounded : within window start granted ≤ capacity) :
    within window start (granted ++ grants times (specification capacity window granted times)) ≤ capacity := by
  induction times generalizing granted with
  | nil => simpa [specification, grants] using bounded
  | cons now later ih =>
      rw [specification, grants_cons, ← List.append_assoc]
      exact ih (within_append bounded)

end SlidingWindowLimiter

namespace TimestampRing

open SlidingWindowLimiter

theorem Holds.callAll {ring : TimestampRing} {limiter : SlidingWindowLimiter} {earlier : Int} {granted times : List Int}
    (holds : ring.Holds limiter) (remembers : limiter.Remembers earlier granted)
    (later : ∀ time ∈ times, earlier ≤ time) (ordered : times.Pairwise (· ≤ ·)) :
    ∃ last, ring.callAll times = some (specification limiter.capacity limiter.window granted times, last) := by
  induction times generalizing ring limiter earlier granted with
  | nil => exact ⟨ring, rfl⟩
  | cons now rest ih =>
      obtain ⟨next, ran, heldNext⟩ := holds.tryAcquire now
      obtain ⟨after, ordered⟩ := List.pairwise_cons.mp ordered
      have known := remembers.later (later now List.mem_cons_self)
      have acquired : limiter.tryAcquire now = ((limiter.tryAcquire now).1, (limiter.tryAcquire now).2) := rfl
      have answer : (limiter.tryAcquire now).1 =
          decide (inWindow limiter.window now granted < limiter.capacity) := by
        have exactly := tryAcquire_granted acquired
        rw [known.inUse_eq] at exactly
        exact Bool.eq_iff_iff.mpr (exactly.trans decide_eq_true_iff.symm)
      obtain ⟨capacity, window⟩ := tryAcquire_same acquired
      have remembered := known.tryAcquire acquired
      rw [answer] at remembered
      obtain ⟨last, ranLater⟩ := ih heldNext remembered after ordered
      rw [capacity, window] at ranLater
      refine ⟨last, ?_⟩
      rw [TimestampRing.callAll, ran, Option.bind_eq_bind, Option.bind_some]
      dsimp only
      rw [ranLater, answer]
      rfl

/-- For every capacity, window and sequence of call times in order, no call leaves the
vector, each is answered as specified, and no interval of the window's length holds
more grants than the capacity. -/
theorem limiter_meets_specification (capacity : Nat) (window : Int) {times : List Int}
    (ordered : times.Pairwise (· ≤ ·)) :
    ∃ answers last, (create capacity window).callAll times = some (answers, last) ∧
      answers = specification capacity window [] times ∧
      ∀ start, within window start (grants times answers) ≤ capacity := by
  have bounded (start : Int) : within window start (grants times (specification capacity window [] times)) ≤ capacity :=
    @within_specification capacity window start [] times (Nat.zero_le _)
  cases times with
  | nil => exact ⟨[], _, rfl, rfl, bounded⟩
  | cons now later =>
      have after (time : Int) (member : time ∈ now :: later) : now ≤ time := by
        rcases List.mem_cons.mp member with rfl | isLater
        · exact le_rfl
        · exact (List.pairwise_cons.mp ordered).1 time isLater
      obtain ⟨last, ran⟩ := (holds_create capacity window).callAll (remembers_create capacity window now) after ordered
      exact ⟨_, last, ran, rfl, bounded⟩

/-- Two slots in ten ticks: the third call is refused, the one at the edge still
counts, and the ring turns. -/
theorem limiter_meets_specification_at_edge :
    ∃ last, (create 2 10).callAll [0, 3, 10, 11, 14] = some ([true, true, false, true, true], last) := by
  have ordered : [(0 : Int), 3, 10, 11, 14].Pairwise (· ≤ ·) := by decide
  obtain ⟨answers, last, ran, same, -⟩ := limiter_meets_specification 2 10 ordered
  have specified : specification 2 10 [] [0, 3, 10, 11, 14] = [true, true, false, true, true] := by decide
  rw [specified] at same
  exact ⟨last, same ▸ ran⟩

end TimestampRing

end TradingEngine
