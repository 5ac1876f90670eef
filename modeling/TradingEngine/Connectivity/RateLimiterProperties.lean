import TradingEngine.Connectivity.RateLimiter

/-! What a sliding-window limiter knows of the slots it has granted: all that are
not older than its window, and never more of them than its capacity. -/

set_option autoImplicit false

namespace TradingEngine.SlidingWindowLimiter

variable {limiter next : SlidingWindowLimiter} {now earlier : Int} {granted : List Int}

/-- How many of the times are at or after the start of the window that ends now. -/
def inWindow (window now : Int) (times : List Int) : Nat := times.countP fun time => now - window ≤ time

/-- Slots in use now. -/
def inUse (limiter : SlidingWindowLimiter) (now : Int) : Nat := (limiter.recent now).length

theorem tryAcquire_refused (full : limiter.capacity ≤ limiter.inUse now) :
    limiter.tryAcquire now = (false, { limiter with timestamps := limiter.recent now }) := if_pos full

theorem dropWhile_lt_dropWhile_lt (times : List Int) {early late : Int} (ordered : early ≤ late) :
    (times.dropWhile (· < early)).dropWhile (· < late) = times.dropWhile (· < late) := by
  induction times with
  | nil => rfl
  | cons time times ih =>
      by_cases old : time < early
      · rw [List.dropWhile_cons_of_pos (by simpa using old), ih,
          List.dropWhile_cons_of_pos (by simpa using old.trans_le ordered)]
      · rw [List.dropWhile_cons_of_neg (by simpa using old)]

/-- The oldest slot kept is not older than the window. -/
theorem le_of_recent_eq_cons {oldest : Int} {others : List Int} (kept : limiter.recent now = oldest :: others) :
    now - limiter.window ≤ oldest := by
  unfold recent at kept
  have first := List.head_dropWhile_not (fun time => decide (time < now - limiter.window))
    (show limiter.timestamps.dropWhile (fun time => decide (time < now - limiter.window)) ≠ [] by simp [kept])
  simp only [kept, List.head_cons, decide_eq_false_iff_not] at first
  omega

/-- A limiter that is full now, and would have been then, is full then too. -/
theorem full_after_refusal {later : Int} (full : limiter.capacity ≤ limiter.inUse now)
    (also : limiter.capacity ≤ limiter.inUse later) :
    limiter.capacity ≤ inUse { limiter with timestamps := limiter.recent now } later := by
  rcases Int.le_total now later with forward | backward
  · have same : ({ limiter with timestamps := limiter.recent now } : SlidingWindowLimiter).recent later =
        limiter.recent later := dropWhile_lt_dropWhile_lt _ (by dsimp only; omega)
    rw [inUse, same]
    exact also
  · have same : ({ limiter with timestamps := limiter.recent now } : SlidingWindowLimiter).recent later =
        limiter.recent now := by
      cases kept : limiter.recent now with
      | nil => rfl
      | cons time times =>
          have young := le_of_recent_eq_cons kept
          rw [recent, List.dropWhile_cons_of_neg]
          simp only [decide_eq_true_eq]
          omega
    rw [inUse, same]
    exact full

/-- The slots kept are those granted last; the others had left the window. -/
structure Remembers (limiter : SlidingWindowLimiter) (now : Int) (granted : List Int) : Prop where
  kept : ∃ left, granted = left ++ limiter.timestamps ∧ ∀ time ∈ left, time < now - limiter.window
  ordered : limiter.timestamps.Pairwise (· ≤ ·)
  past : ∀ time ∈ limiter.timestamps, time ≤ now
  bounded : limiter.timestamps.length ≤ limiter.capacity

theorem remembers_create (capacity : Nat) (window now : Int) : Remembers (create capacity window) now [] where
  kept := ⟨[], rfl, by simp⟩
  ordered := List.Pairwise.nil
  past := by simp [create]
  bounded := Nat.zero_le capacity

theorem Remembers.later (remembers : Remembers limiter earlier granted) (after : earlier ≤ now) :
    Remembers limiter now granted where
  kept := by
    obtain ⟨left, same, old⟩ := remembers.kept
    refine ⟨left, same, fun time member => ?_⟩
    have older := old time member
    omega
  ordered := remembers.ordered
  past time member := (remembers.past time member).trans after
  bounded := remembers.bounded

theorem recent_sublist : (limiter.recent now).Sublist limiter.timestamps := List.dropWhile_sublist _

/-- Timestamps in order leave from the head only. -/
theorem mem_recent_ge (ordered : limiter.timestamps.Pairwise (· ≤ ·)) {time : Int} (member : time ∈ limiter.recent now) :
    now - limiter.window ≤ time := by
  have inOrder : (limiter.recent now).Pairwise (· ≤ ·) := ordered.sublist (List.dropWhile_sublist _)
  cases kept : limiter.recent now with
  | nil => simp [kept] at member
  | cons oldest others =>
      have fresh := le_of_recent_eq_cons kept
      rw [kept] at member inOrder
      rcases List.mem_cons.mp member with rfl | later
      · exact fresh
      · exact fresh.trans ((List.pairwise_cons.mp inOrder).1 time later)

theorem Remembers.recent (remembers : Remembers limiter now granted) :
    ∃ left, granted = left ++ limiter.recent now ∧ ∀ time ∈ left, time < now - limiter.window := by
  obtain ⟨left, same, old⟩ := remembers.kept
  refine ⟨left ++ limiter.timestamps.takeWhile (· < now - limiter.window), ?_, fun time member => ?_⟩
  · rw [same, SlidingWindowLimiter.recent, List.append_assoc, List.takeWhile_append_dropWhile]
  · rcases List.mem_append.mp member with isOld | taken
    · exact old time isOld
    · simpa using List.mem_takeWhile_imp taken

theorem Remembers.inUse_le (remembers : Remembers limiter now granted) : limiter.inUse now ≤ limiter.capacity :=
  recent_sublist.length_le.trans remembers.bounded

/-- The slots in use are those granted in the last window. -/
theorem Remembers.inUse_eq (remembers : Remembers limiter now granted) :
    limiter.inUse now = inWindow limiter.window now granted := by
  obtain ⟨left, same, old⟩ := remembers.recent
  have none : inWindow limiter.window now left = 0 := by
    rw [inWindow, List.countP_eq_zero]
    intro time member
    have older := old time member
    simp only [decide_eq_true_eq]
    omega
  have all : inWindow limiter.window now (limiter.recent now) = limiter.inUse now := by
    rw [inWindow, inUse, List.countP_eq_length]
    intro time member
    exact decide_eq_true (mem_recent_ge remembers.ordered member)
  have split : inWindow limiter.window now granted =
      inWindow limiter.window now left + inWindow limiter.window now (limiter.recent now) := by
    rw [same]
    exact List.countP_append
  rw [split, none, all, Nat.zero_add]

/-!
## Calls
-/

theorem tryAcquire_same {answer : Bool} (acquired : limiter.tryAcquire now = (answer, next)) :
    next.capacity = limiter.capacity ∧ next.window = limiter.window := by
  unfold tryAcquire at acquired
  dsimp only at acquired
  split at acquired
  · cases acquired
    exact ⟨rfl, rfl⟩
  · cases acquired
    exact ⟨rfl, rfl⟩

theorem tryAcquire_granted {answer : Bool} (acquired : limiter.tryAcquire now = (answer, next)) :
    answer = true ↔ limiter.inUse now < limiter.capacity := by
  unfold tryAcquire at acquired
  dsimp only at acquired
  split at acquired
  · rename_i full
    cases acquired
    simpa [inUse] using full
  · rename_i room
    cases acquired
    simpa [inUse] using room

theorem Remembers.tryAcquire {answer : Bool} (remembers : Remembers limiter now granted)
    (acquired : limiter.tryAcquire now = (answer, next)) :
    Remembers next now (granted ++ List.replicate answer.toNat now) := by
  obtain ⟨left, same, old⟩ := remembers.recent
  have kept : (limiter.recent now).Sublist limiter.timestamps := recent_sublist
  have ordered := remembers.ordered.sublist kept
  have past (time : Int) (member : time ∈ limiter.recent now) : time ≤ now :=
    remembers.past time (recent_sublist.mem member)
  unfold SlidingWindowLimiter.tryAcquire at acquired
  dsimp only at acquired
  split at acquired
  · cases acquired
    exact ⟨⟨left, by simpa using same, old⟩, ordered, past, remembers.inUse_le⟩
  · rename_i room
    cases acquired
    refine ⟨⟨left, by simp [same], old⟩, ?_, fun time member => ?_, ?_⟩
    · rw [List.pairwise_append]
      exact ⟨ordered, List.pairwise_singleton _ _, fun time member last isLast =>
        List.mem_singleton.mp isLast ▸ past time member⟩
    · rcases List.mem_append.mp member with kept | new
      · exact past time kept
      · exact (List.mem_singleton.mp new).le
    · simp only [List.length_append, List.length_singleton]
      omega

end TradingEngine.SlidingWindowLimiter
