import TradingEngine.Log.AsyncLoggerProperties

/-! The end of the logger. The writer reads the drop counter, the tail and the flag one
after the other and leaves when the flag is down; what the other thread did between these
reads is then never looked at. -/

set_option autoImplicit false

namespace TradingEngine.AsyncLogger

open Library.Exec

/-- Nothing that the writer is about to leave behind when it finds the flag down. -/
def Settled (logger : Logger) : Prop :=
  match logger.writer with
  | .top | .recordSeen _ | .recordPrinted _ => True
  | .exchanged | .headLoaded _ => logger.droppedCount = 0 ∨ logger.head ≠ logger.tail
  | .foundEmpty | .exited => logger.droppedCount = 0 ∧ logger.head = logger.tail

instance (logger : Logger) : Decidable (Settled logger) := by
  unfold Settled
  split <;> infer_instance

def Producer.isFull : Producer → Bool
  | .foundFull _ => true
  | .idle | .tailLoaded _ _ | .headLoaded _ _ | .recordWritten _ _ | .destroyed => false

/-- The flag is taken down when that is so, and the drop counter does not wrap. -/
def Careful (logger : Logger) : Turn → Prop
  | .destroy => Settled logger
  | .produce => logger.producer.isFull = true → logger.droppedCount + 1 < 2 ^ 64
  | .emit _ | .write => True

instance (logger : Logger) : (turn : Turn) → Decidable (Careful logger turn)
  | .destroy => inferInstanceAs (Decidable (Settled logger))
  | .produce => inferInstanceAs (Decidable (_ → _))
  | .emit _ => isTrue trivial
  | .write => isTrue trivial

/-- The flag goes down with the last step of the thread that logs. -/
structure ShutdownInv (logger : Logger) : Prop where
  ring : RingInv logger
  counted : reported logger.output + logger.droppedCount = logger.refused
  alive : logger.running = true → logger.producer ≠ .destroyed ∧ logger.writer ≠ .exited
  down : logger.running = false → logger.producer = .destroyed ∧ Settled logger

theorem shutdownInv_start : ShutdownInv start :=
  ⟨ringInv_start, rfl, fun _ => ⟨by decide, by decide⟩, fun down => by cases down⟩

theorem counted_careful {logger next : Logger} {turn : Turn}
    (counted : reported logger.output + logger.droppedCount = logger.refused) (careful : Careful logger turn)
    (ran : step turn logger = .ok .unit next) : reported next.output + next.droppedCount = next.refused := by
  cases counts_step ran with
  | keeps dropped refused output => rw [dropped, refused, output, counted]
  | refuses isFull dropped refused output =>
      have small : logger.droppedCount + 1 < 2 ^ 64 := careful (by rw [isFull]; rfl)
      rw [dropped, refused, output, Nat.mod_eq_of_lt small]
      omega
  | reports dropped refused output => rw [dropped, refused, output, Nat.add_zero, counted]

theorem produce_alive {logger next : Logger} (ran : produce logger = some next) :
    logger.producer ≠ .destroyed ∧ next.producer ≠ .destroyed ∧ next.writer = logger.writer ∧
      next.running = logger.running := by
  unfold produce at ran
  split at ran <;> rename_i at'
  · cases ran
  · cases ran
  · rw [at']
    dsimp only at ran
    split at ran <;> cases ran <;> simp
  all_goals
    rw [at']
    cases ran
    simp

theorem write_running {logger next : Logger} (ran : write logger = some next) :
    next.running = logger.running ∧ next.producer = logger.producer := by
  unfold write at ran
  split at ran <;> cases ran <;> exact ⟨rfl, rfl⟩

/-- The writer does not leave while the flag is up. -/
theorem write_alive {logger next : Logger} (up : logger.running = true) (ran : write logger = some next) :
    next.writer ≠ .exited := by
  unfold write at ran
  split at ran <;> cases ran
  · simp
  · simp
  · dsimp only
    split <;> simp
  · simp [up]
  · simp
  · simp

/-- With the flag down the writer leaves nothing behind. -/
theorem settled_write {logger next : Logger} (ring : RingInv logger) (settled : Settled logger)
    (down : logger.running = false) (ran : write logger = some next) : Settled next := by
  have knows := ring.writer
  unfold WriterKnows at knows
  unfold Settled at settled
  unfold write at ran
  split at ran <;> rename_i at' <;> rw [at'] at settled knows <;> cases ran
  · exact .inl rfl
  · exact settled
  · rename_i head
    obtain rfl : head = logger.head := knows
    unfold Settled
    by_cases empty : logger.head = logger.tail
    · simp only [if_pos empty]
      rcases settled with none | some
      · exact ⟨none, empty⟩
      · exact absurd empty some
    · simp only [if_neg empty]
  · unfold Settled
    simp only [down, Bool.false_eq_true, ↓reduceIte]
    exact settled
  · trivial
  · trivial

theorem ShutdownInv.step {logger next : Logger} {turn : Turn} (inv : ShutdownInv logger) (careful : Careful logger turn)
    (ran : step turn logger = .ok .unit next) : ShutdownInv next := by
  have ring := ringInv_step inv.ring ran
  have counted := counted_careful inv.counted careful ran
  have advanced := step_ok ran
  cases turn with
  | emit message =>
      obtain ⟨idle, rfl⟩ := emit_ok advanced
      refine ⟨ring, counted, fun up => ⟨by simp, (inv.alive up).2⟩, fun down => ?_⟩
      have destroyed := (inv.down down).1
      rw [idle] at destroyed
      cases destroyed
  | destroy =>
      obtain ⟨-, rfl⟩ := destroy_ok advanced
      refine ⟨ring, counted, fun up => (by cases up), fun _ => ⟨rfl, careful⟩⟩
  | produce =>
      obtain ⟨inCall, stillAlive, writer, running⟩ := produce_alive advanced
      refine ⟨ring, counted, fun up => ?_, fun down => ?_⟩
      · rw [running] at up
        exact ⟨stillAlive, by rw [writer]; exact (inv.alive up).2⟩
      · rw [running] at down
        exact absurd (inv.down down).1 inCall
  | write =>
      obtain ⟨running, producer⟩ := write_running advanced
      refine ⟨ring, counted, fun up => ?_, fun down => ?_⟩
      · rw [running] at up
        exact ⟨by rw [producer]; exact (inv.alive up).1, write_alive up advanced⟩
      · rw [running] at down
        obtain ⟨destroyed, settled⟩ := inv.down down
        exact ⟨producer.trans destroyed, settled_write inv.ring settled down advanced⟩

/-!
## The writer leaves
-/

/-- How many steps the writer may still take when nothing more is stored. -/
def toGo (logger : Logger) : Nat :=
  5 * (logger.accepted.length - logger.released) + match logger.writer with
    | .top => 4
    | .exchanged => 3
    | .headLoaded _ => 2
    | .foundEmpty | .recordSeen _ => 1
    | .recordPrinted _ | .exited => 0

/-- With the flag down a step of the writer is its last or brings it nearer to that. -/
theorem write_nearer {logger : Logger} (ring : RingInv logger) (down : logger.running = false)
    (stays : logger.writer ≠ .exited) :
    ∃ next, write logger = some next ∧ WriterRan logger next ∧ (next.writer = .exited ∨ toGo next < toGo logger) := by
  have knows := ring.writer
  unfold WriterKnows at knows
  unfold write
  split <;> rename_i at'
  case h_7 => exact absurd at' stays
  all_goals
    refine ⟨_, rfl, ⟨rfl, rfl, rfl, rfl, rfl⟩, ?_⟩
    simp only [toGo, at']
  · right
    omega
  · right
    omega
  · right
    split_ifs <;> dsimp only <;> omega
  · left
    rw [if_neg (by rw [down]; decide)]
  · right
    omega
  · right
    rw [at'] at knows
    have unread : logger.released + 1 ≤ logger.accepted.length := knows.2
    omega

/-- The writer of a logger that is destroyed leaves, whatever the ring still holds. -/
theorem writer_exits {admits : Logger → Turn → Prop} {logger : Logger} (ring : RingInv logger)
    (writes : ∀ current, admits current .write) (down : logger.running = false) :
    ∃ last, Reaches step admits logger last ∧ WriterRan logger last ∧ last.writer = .exited := by
  -- on the number of steps the writer has before it
  induction count : toGo logger using Nat.strong_induction_on generalizing logger with
  | _ count ih =>
      by_cases gone : logger.writer = .exited
      · exact ⟨logger, .start, ⟨rfl, rfl, rfl, rfl, rfl⟩, gone⟩
      obtain ⟨next, ran, same, nearer⟩ := write_nearer ring down gone
      have stepped : step .write logger = .ok .unit next := by rw [step, advance, ran]
      have toNext : Reaches step admits logger next := .step .start (writes _) stepped
      rcases nearer with exited | fewer
      · exact ⟨next, toNext, same, exited⟩
      · obtain ⟨last, toLast, sameLast, exited⟩ :=
          ih _ (count ▸ fewer) (ringInv_step ring stepped) (same.running.trans down) rfl
        exact ⟨last, toNext.trans toLast, same.trans sameLast, exited⟩

/-!
## What is left behind
-/

theorem shutdown_drains {logger : Logger} (run : Reaches step Careful start logger) :
    (logger.writer = .exited →
      records logger.output = logger.accepted.map Message.line ∧ reported logger.output = logger.refused) ∧
    (logger.running = false →
      ∃ last, Reaches step Careful logger last ∧ WriterRan logger last ∧ last.writer = .exited) := by
  have inv := run.invariant ShutdownInv shutdownInv_start fun _ _ _ inv careful ran => inv.step careful ran
  refine ⟨fun exited => ?_, writer_exits inv.ring fun _ => trivial⟩
  have down : logger.running = false := by
    cases up : logger.running with
    | false => rfl
    | true => exact absurd exited (inv.alive up).2
  have settled := (inv.down down).2
  unfold Settled at settled
  rw [exited] at settled
  have all := inv.ring.empty_iff.mp settled.2
  refine ⟨?_, ?_⟩
  · rw [inv.ring.printed, exited, Writer.ahead, Nat.add_zero, all, List.take_length]
  · rw [← inv.counted, settled.1, Nat.add_zero]

/-- The logger is destroyed behind a full ring and a message refused; nothing was printed yet. -/
theorem shutdown_drains_printed : ∃ closed last, Reaches step Careful start closed ∧ closed.producer = .destroyed ∧
    closed.accepted = ringful ∧ closed.refused = 1 ∧ closed.output = [] ∧
    Reaches step Careful closed last ∧ last.writer = .exited ∧
    records last.output = ringful.map Message.line ∧ reported last.output = 1 := by
  have unhindered (count : Nat) (few : count ≤ 1) : Unhindered Careful count := fun current counted => by
    refine ⟨fun _ => ?_, fun _ => trivial⟩
    rw [counted]
    omega
  obtain ⟨full, stalled⟩ := stalled_refused ringful greeting length_ringful 1 unhindered
  have settled : Settled full := by
    unfold Settled
    rw [stalled.writer]
    trivial
  have toClosed := reaches_next stalled.reached .destroy settled (if_pos stalled.producer)
  obtain ⟨last, toLast, same, exited⟩ := (shutdown_drains toClosed).2 rfl
  obtain ⟨printed, counted⟩ := (shutdown_drains (toClosed.trans toLast)).1 exited
  rw [same.accepted, stalled.accepted] at printed
  rw [same.refused, stalled.refusals] at counted
  exact ⟨_, last, toClosed, rfl, stalled.accepted, stalled.refusals, stalled.output, toLast, exited, printed, counted⟩

/-- A message is logged, and the logger destroyed, between the last two reads of the writer. -/
def overtaken : List Turn :=
  [.write, .write, .write, .emit greeting, .produce, .produce, .produce, .destroy, .write]

theorem last_message_lost : ∃ logger, Reachable logger ∧ logger.writer = .exited ∧
    logger.accepted = [greeting] ∧ logger.output = [] :=
  ⟨_, Reaches.start.all overtaken (by decide +kernel), by decide +kernel, by decide +kernel, by decide +kernel⟩

end TradingEngine.AsyncLogger
