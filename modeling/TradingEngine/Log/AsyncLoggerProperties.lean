import TradingEngine.Log.AsyncLogger

/-! The logger's ring over every interleaving of its two threads: what was printed is a
beginning of what was accepted, whatever view of the other's index a thread acts on. -/

set_option autoImplicit false

namespace TradingEngine.AsyncLogger

open Library.CircularMemory Library.Exec

/-!
## Lines
-/

@[simp] theorem records_append (first second : List Line) : records (first ++ second) = records first ++ records second :=
  List.filter_append ..

@[simp] theorem reported_append (first second : List Line) :
    reported (first ++ second) = reported first + reported second := by
  simp [reported]

theorem line_write (record : Record) (message : Message) : (record.write message).line = message.line := by
  have short : min message.message.length kMaxMessageLen % 2 ^ 16 = min message.message.length kMaxMessageLen := by
    unfold kMaxMessageLen
    omega
  have length : (message.message.take (min message.message.length kMaxMessageLen)).length =
      min message.message.length kMaxMessageLen := by
    rw [List.length_take]
    omega
  have cut : message.message.take (min message.message.length kMaxMessageLen) =
      message.message.take kMaxMessageLen := by
    rw [List.take_eq_take_iff]
    omega
  simp only [Record.line, Record.write, Message.line, memcpy, short]
  rw [List.take_left' length, cut]

theorem records_dropped (count : Nat) : records (if 0 < count then [.dropped count] else []) = [] := by
  split <;> rfl

theorem reported_dropped (count : Nat) : reported (if 0 < count then [.dropped count] else []) = count := by
  split
  · simp [reported, Line.count]
  · simp only [reported, List.map_nil, List.sum_nil]
    omega

/-!
## The ring
-/

/-- A record printed whose slot is not yet given back. -/
def Writer.ahead : Writer → Nat
  | .recordPrinted _ => 1
  | .top | .exchanged | .headLoaded _ | .foundEmpty | .recordSeen _ | .exited => 0

/-- What the producer knows of the ring. -/
def ProducerKnows (logger : Logger) : Prop :=
  match logger.producer with
  | .idle | .foundFull _ | .destroyed => True
  | .tailLoaded _ tail => tail = logger.tail
  | .headLoaded _ tail => tail = logger.tail ∧ logger.accepted.length < logger.released + 4095
  | .recordWritten message tail => tail = logger.tail ∧ logger.accepted.length < logger.released + 4095 ∧
      (logger.ring tail).line = message.line

def WriterKnows (logger : Logger) : Prop :=
  match logger.writer with
  | .top | .exchanged | .foundEmpty | .exited => True
  | .headLoaded head => head = logger.head
  | .recordSeen head | .recordPrinted head => head = logger.head ∧ logger.released < logger.accepted.length

structure RingInv (logger : Logger) : Prop where
  head : logger.head = logger.released % kRingCapacity
  tail : logger.tail = logger.accepted.length % kRingCapacity
  ordered : logger.released ≤ logger.accepted.length
  bounded : logger.accepted.length ≤ logger.released + 4095
  unread : (window kRingCapacity logger.ring logger.released (logger.accepted.length - logger.released)).map Record.line =
    (logger.accepted.drop logger.released).map Message.line
  printed : records logger.output = (logger.accepted.take (logger.released + logger.writer.ahead)).map Message.line
  producer : ProducerKnows logger
  writer : WriterKnows logger

theorem ringInv_start : RingInv start :=
  ⟨rfl, rfl, le_rfl, by decide, rfl, rfl, trivial, trivial⟩

namespace RingInv

variable {logger next : Logger}

/-- The ring is full for the producer only when 4095 records are unread. -/
theorem room (inv : RingInv logger) (notFull : (logger.tail + 1) % kRingCapacity ≠ logger.head) :
    logger.accepted.length < logger.released + 4095 := by
  have bounded := inv.bounded
  by_contra full
  rw [inv.tail, inv.head, show logger.accepted.length = logger.released + 4095 by omega] at notFull
  unfold kRingCapacity at notFull
  omega

theorem full (inv : RingInv logger) (isFull : (logger.tail + 1) % kRingCapacity = logger.head) :
    logger.accepted.length = logger.released + 4095 := by
  have ordered := inv.ordered
  have bounded := inv.bounded
  rw [inv.tail, inv.head] at isFull
  unfold kRingCapacity at isFull
  omega

theorem empty_iff (inv : RingInv logger) : logger.head = logger.tail ↔ logger.released = logger.accepted.length := by
  have ordered := inv.ordered
  have bounded := inv.bounded
  rw [inv.tail, inv.head]
  unfold kRingCapacity
  omega

/-- Printed records are among the accepted ones. -/
theorem ahead_le (inv : RingInv logger) : logger.released + logger.writer.ahead ≤ logger.accepted.length := by
  have ordered := inv.ordered
  have knows := inv.writer
  unfold WriterKnows at knows
  cases at' : logger.writer with
  | recordPrinted head =>
      rw [at'] at knows
      exact knows.2
  | _ => exact ordered

/-- The address of the slot at the tail, from the records that are unread. -/
theorem tail_eq (inv : RingInv logger) :
    logger.tail = (logger.released + (logger.accepted.length - logger.released)) % kRingCapacity := by
  have ordered := inv.ordered
  rw [inv.tail, show logger.released + (logger.accepted.length - logger.released) = logger.accepted.length by omega]

/-- The slot at the head holds the oldest unread message. -/
theorem oldest (inv : RingInv logger) (some : logger.released < logger.accepted.length) :
    (logger.ring logger.head).line = (logger.accepted.get ⟨logger.released, some⟩).line := by
  have first := congrArg (·[0]?) inv.unread
  obtain ⟨more, count⟩ : ∃ more, logger.accepted.length - logger.released = more + 1 :=
    ⟨logger.accepted.length - logger.released - 1, by omega⟩
  simp only [count, window, List.getElem?_map, List.getElem?_drop, Nat.add_zero, List.getElem?_eq_getElem some,
    Option.map_some] at first
  rw [List.getElem?_eq_getElem (by simp)] at first
  simpa [← inv.head] using first

theorem store (inv : RingInv logger) (record : Record) (room : logger.accepted.length < logger.released + 4095) :
    (window kRingCapacity (Library.CircularMemory.store logger.ring logger.tail [record]) logger.released
        (logger.accepted.length - logger.released)).map Record.line =
      (logger.accepted.drop logger.released).map Message.line := by
  have ordered := inv.ordered
  rw [inv.tail_eq, window_store_behind, inv.unread]
  · simp only [List.length_singleton, kRingCapacity]
    omega
  · have turn := Nat.mod_lt (logger.released + (logger.accepted.length - logger.released))
      (show 0 < kRingCapacity by decide)
    simpa using turn

theorem produce (inv : RingInv logger) (ran : produce logger = some next) : RingInv next := by
  have knows := inv.producer
  unfold ProducerKnows at knows
  unfold AsyncLogger.produce at ran
  split at ran
  · cases ran
  · cases ran
  · rename_i message tail loaded
    rw [loaded] at knows
    obtain rfl : tail = logger.tail := knows
    dsimp only at ran
    split at ran
    · cases ran
      exact ⟨inv.head, inv.tail, inv.ordered, inv.bounded, inv.unread, inv.printed, trivial, inv.writer⟩
    · rename_i notFull
      cases ran
      exact ⟨inv.head, inv.tail, inv.ordered, inv.bounded, inv.unread, inv.printed, ⟨rfl, inv.room notFull⟩, inv.writer⟩
  · cases ran
    exact ⟨inv.head, inv.tail, inv.ordered, inv.bounded, inv.unread, inv.printed, trivial, inv.writer⟩
  · rename_i message tail loaded
    rw [loaded] at knows
    obtain ⟨rfl, room⟩ := knows
    cases ran
    refine ⟨inv.head, inv.tail, inv.ordered, inv.bounded, inv.store _ room, inv.printed, ⟨rfl, room, ?_⟩, inv.writer⟩
    simp [Library.CircularMemory.store, line_write]
  · rename_i message tail written
    rw [written] at knows
    obtain ⟨rfl, room, stored⟩ := knows
    cases ran
    have ordered := inv.ordered
    have ahead := inv.ahead_le
    have knowsWriter := inv.writer
    refine ⟨inv.head, ?_, ?_, ?_, ?_, ?_, trivial, ?_⟩
    · simp only [inv.tail, List.length_append, List.length_singleton, Nat.mod_add_mod]
    · simp only [List.length_append, List.length_singleton]
      omega
    · simp only [List.length_append, List.length_singleton]
      omega
    · have grown : (logger.accepted ++ [message]).length - logger.released =
          logger.accepted.length - logger.released + 1 := by
        simp only [List.length_append, List.length_singleton]
        omega
      simp only [grown]
      rw [window_add, List.map_append, inv.unread, List.drop_append_of_le_length ordered, List.map_append,
        ← window_mod, ← inv.tail_eq]
      rw [inv.tail] at stored ⊢
      simp [window, stored]
    · exact inv.printed.trans (by rw [List.take_append_of_le_length ahead])
    · unfold WriterKnows at knowsWriter ⊢
      dsimp only
      cases at' : logger.writer with
      | top | exchanged | foundEmpty | exited => trivial
      | headLoaded head =>
          rw [at'] at knowsWriter
          exact knowsWriter
      | recordSeen head | recordPrinted head =>
          rw [at'] at knowsWriter
          exact ⟨knowsWriter.1, by simp only [List.length_append]; omega⟩

/-- A step that only takes the writer on. -/
theorem withWriter (inv : RingInv logger) {writer : Writer} (same : writer.ahead = logger.writer.ahead)
    (knows : WriterKnows { logger with writer := writer }) : RingInv { logger with writer := writer } where
  head := inv.head
  tail := inv.tail
  ordered := inv.ordered
  bounded := inv.bounded
  unread := inv.unread
  printed := by
    rw [same]
    exact inv.printed
  producer := inv.producer
  writer := knows

theorem write (inv : RingInv logger) (ran : write logger = some next) : RingInv next := by
  have knows := inv.writer
  have printed := inv.printed
  unfold WriterKnows at knows
  unfold AsyncLogger.write at ran
  split at ran
  all_goals rename_i at'
  all_goals rw [at'] at knows printed
  · cases ran
    refine ⟨inv.head, inv.tail, inv.ordered, inv.bounded, inv.unread, ?_, inv.producer, trivial⟩
    rw [records_append, records_dropped, List.append_nil]
    exact printed
  · cases ran
    exact inv.withWriter (by rw [at']; rfl) rfl
  · rename_i head
    obtain rfl : head = logger.head := knows
    cases ran
    by_cases empty : logger.head = logger.tail
    · rw [if_pos empty]
      exact inv.withWriter (by rw [at']; rfl) trivial
    · rw [if_neg empty]
      have some := lt_of_le_of_ne inv.ordered fun all => empty (inv.empty_iff.mpr all)
      exact inv.withWriter (by rw [at']; rfl) ⟨rfl, some⟩
  · cases ran
    by_cases alive : logger.running = true
    · rw [if_pos alive]
      exact inv.withWriter (by rw [at']; rfl) trivial
    · rw [if_neg alive]
      exact inv.withWriter (by rw [at']; rfl) trivial
  · rename_i head
    obtain ⟨rfl, some⟩ := knows
    cases ran
    refine ⟨inv.head, inv.tail, inv.ordered, inv.bounded, inv.unread, ?_, inv.producer, ⟨rfl, some⟩⟩
    have line : records [(logger.ring logger.head).line] = [(logger.ring logger.head).line] := rfl
    have next : logger.accepted.take (logger.released + 1) =
        logger.accepted.take logger.released ++ [logger.accepted.get ⟨logger.released, some⟩] :=
      List.take_succ_eq_append_getElem some
    rw [records_append, line, inv.oldest some]
    exact (congrArg (· ++ _) printed).trans (by rw [Writer.ahead, next, List.map_append]; rfl)
  · rename_i head
    obtain ⟨rfl, some⟩ := knows
    cases ran
    have bounded := inv.bounded
    have producer := inv.producer
    refine ⟨?_, inv.tail, some, ?_, ?_, printed, ?_, trivial⟩
    · simp only [inv.head, Nat.mod_add_mod]
    · simp only
      omega
    · have unread := congrArg (List.drop 1) inv.unread
      rw [← List.map_drop, ← List.map_drop, window_drop (by omega), List.drop_drop] at unread
      exact unread
    · unfold ProducerKnows at producer ⊢
      dsimp only
      cases from' : logger.producer with
      | idle | foundFull _ | destroyed => trivial
      | tailLoaded message tail =>
          rw [from'] at producer
          exact producer
      | headLoaded message tail =>
          rw [from'] at producer
          exact ⟨producer.1, by omega⟩
      | recordWritten message tail =>
          rw [from'] at producer
          exact ⟨producer.1, by omega, producer.2.2⟩
  · cases ran

end RingInv

theorem step_ok {logger next : Logger} {turn : Turn} (ran : step turn logger = .ok .unit next) :
    advance turn logger = some next := by
  unfold step at ran
  split at ran
  · rename_i advanced
    cases ran
    exact advanced
  · cases ran

/-- The calls begin when the thread is in no other call. -/
theorem emit_ok {logger next : Logger} {message : Message} (ran : advance (.emit message) logger = some next) :
    logger.producer = .idle ∧ next = { logger with producer := .tailLoaded message logger.tail } := by
  by_cases idle : logger.producer = .idle
  · rw [advance, if_pos idle] at ran
    exact ⟨idle, (Option.some.inj ran).symm⟩
  · rw [advance, if_neg idle] at ran
    cases ran

theorem destroy_ok {logger next : Logger} (ran : advance .destroy logger = some next) :
    logger.producer = .idle ∧ next = { logger with running := false, producer := .destroyed } := by
  by_cases idle : logger.producer = .idle
  · rw [advance, if_pos idle] at ran
    exact ⟨idle, (Option.some.inj ran).symm⟩
  · rw [advance, if_neg idle] at ran
    cases ran

theorem ringInv_step {logger next : Logger} {turn : Turn} (inv : RingInv logger)
    (ran : step turn logger = .ok .unit next) : RingInv next := by
  have advanced := step_ok ran
  cases turn with
  | emit message =>
      obtain ⟨-, rfl⟩ := emit_ok advanced
      exact ⟨inv.head, inv.tail, inv.ordered, inv.bounded, inv.unread, inv.printed, rfl, inv.writer⟩
  | destroy =>
      obtain ⟨-, rfl⟩ := destroy_ok advanced
      exact ⟨inv.head, inv.tail, inv.ordered, inv.bounded, inv.unread, inv.printed, trivial, inv.writer⟩
  | produce => exact inv.produce advanced
  | write => exact inv.write advanced

/-!
## The counter of dropped messages
-/

/-- The counter and what was printed of it, against the messages refused. -/
structure Counted (logger : Logger) : Prop where
  small : logger.droppedCount < 2 ^ 64
  atMost : reported logger.output + logger.droppedCount ≤ logger.refused
  congruent : (reported logger.output + logger.droppedCount) % 2 ^ 64 = logger.refused % 2 ^ 64

theorem counted_start : Counted start := ⟨by decide, le_rfl, rfl⟩

/-- What a step does to the counter, the messages refused and the counts printed. -/
inductive Counts (logger next : Logger) : Turn → Prop where
  | keeps {turn : Turn} : next.droppedCount = logger.droppedCount → next.refused = logger.refused →
      reported next.output = reported logger.output → Counts logger next turn
  | refuses {message : Message} : logger.producer = .foundFull message →
      next.droppedCount = (logger.droppedCount + 1) % 2 ^ 64 → next.refused = logger.refused + 1 →
      reported next.output = reported logger.output → Counts logger next .produce
  | reports : next.droppedCount = 0 → next.refused = logger.refused →
      reported next.output = reported logger.output + logger.droppedCount → Counts logger next .write

theorem counts_step {logger next : Logger} {turn : Turn} (ran : step turn logger = .ok .unit next) :
    Counts logger next turn := by
  have advanced := step_ok ran
  cases turn with
  | emit message =>
      obtain ⟨-, rfl⟩ := emit_ok advanced
      exact .keeps rfl rfl rfl
  | destroy =>
      obtain ⟨-, rfl⟩ := destroy_ok advanced
      exact .keeps rfl rfl rfl
  | produce =>
      rw [advance, produce] at advanced
      split at advanced
      · cases advanced
      · cases advanced
      · dsimp only at advanced
        split at advanced <;> cases advanced <;> exact .keeps rfl rfl rfl
      · rename_i isFull
        cases advanced
        exact .refuses isFull rfl rfl rfl
      · cases advanced
        exact .keeps rfl rfl rfl
      · cases advanced
        exact .keeps rfl rfl rfl
  | write =>
      rw [advance, write] at advanced
      split at advanced <;> cases advanced
      · exact .reports rfl rfl (by rw [reported_append, reported_dropped])
      · exact .keeps rfl rfl rfl
      · exact .keeps rfl rfl rfl
      · exact .keeps rfl rfl rfl
      · exact .keeps rfl rfl (by simp [reported, Record.line, Line.count])
      · exact .keeps rfl rfl rfl

theorem counted_step {logger next : Logger} {turn : Turn} (counted : Counted logger)
    (ran : step turn logger = .ok .unit next) : Counted next := by
  obtain ⟨small, atMost, congruent⟩ := counted
  cases counts_step ran with
  | keeps dropped refused output =>
      refine ⟨by rwa [dropped], ?_, ?_⟩ <;> rw [dropped, refused, output]
      · exact atMost
      · exact congruent
  | refuses _ dropped refused output =>
      refine ⟨by rw [dropped]; exact Nat.mod_lt _ (by decide), ?_, ?_⟩ <;> rw [dropped, refused, output]
      · omega
      · omega
  | reports dropped refused output =>
      refine ⟨by rw [dropped]; decide, ?_, ?_⟩ <;> rw [dropped, refused, output, Nat.add_zero]
      · exact atMost
      · exact congruent

/-!
## Every interleaving
-/

/-- The states the logger passes through in some interleaving of its threads. -/
def Reachable (logger : Logger) : Prop := Reaches step (fun _ _ => True) start logger

theorem Reachable.invariants {logger : Logger} (run : Reachable logger) : RingInv logger ∧ Counted logger :=
  run.invariant (fun logger => RingInv logger ∧ Counted logger) ⟨ringInv_start, counted_start⟩
    fun _ _ _ holds _ ran => ⟨ringInv_step holds.1 ran, counted_step holds.2 ran⟩

/-!
## A full ring
-/

section Filling

variable {admits : Logger → Turn → Prop} {logger : Logger} {stored : List Message} {refused : Nat}

/-- A writer that has not run yet, behind the messages stored and a number of refused ones. -/
structure Stalled (admits : Logger → Turn → Prop) (logger : Logger) (stored : List Message) (refused : Nat) : Prop where
  reached : Reaches step admits start logger
  producer : logger.producer = .idle
  writer : logger.writer = .top
  head : logger.head = 0
  tail : logger.tail = stored.length
  droppedCount : logger.droppedCount = refused % 2 ^ 64
  accepted : logger.accepted = stored
  released : logger.released = 0
  refusals : logger.refused = refused
  output : logger.output = []

/-- The thread that logs may go on while the drop counter stands at a number of messages. -/
def Unhindered (admits : Logger → Turn → Prop) (refused : Nat) : Prop :=
  ∀ current, current.droppedCount = refused % 2 ^ 64 →
    admits current .produce ∧ ∀ message, admits current (.emit message)

theorem reaches_next {origin next : Logger} (reached : Reaches step admits origin logger) (turn : Turn)
    (admitted : admits logger turn) (advanced : advance turn logger = some next) : Reaches step admits origin next :=
  .step reached admitted (by rw [step, advanced])

theorem Stalled.produces (stalled : Stalled admits logger stored refused) (unhindered : Unhindered admits refused)
    {current : Logger} (same : current.droppedCount = logger.droppedCount) : admits current .produce :=
  (unhindered current (same.trans stalled.droppedCount)).1

/-- Another message is stored. -/
theorem Stalled.store (stalled : Stalled admits logger stored refused) (unhindered : Unhindered admits refused)
    (message : Message) (room : stored.length < 4095) : ∃ next, Stalled admits next (stored ++ [message]) refused := by
  have notFull : ¬ (logger.tail + 1) % kRingCapacity = logger.head := by
    rw [stalled.tail, stalled.head, kRingCapacity]
    omega
  have begun := reaches_next stalled.reached (.emit message) ((unhindered _ stalled.droppedCount).2 message) (if_pos stalled.producer)
  have loaded := reaches_next begun .produce (stalled.produces unhindered rfl) (if_neg notFull)
  have written := reaches_next loaded .produce (stalled.produces unhindered rfl) rfl
  refine ⟨_, reaches_next written .produce (stalled.produces unhindered rfl) rfl, rfl, stalled.writer, stalled.head, ?_,
    stalled.droppedCount, congrArg (· ++ [message]) stalled.accepted, stalled.released, stalled.refusals,
    stalled.output⟩
  simp only [stalled.tail, kRingCapacity, List.length_append, List.length_singleton]
  omega

/-- Another message is refused, the ring being full. -/
theorem Stalled.refuse (stalled : Stalled admits logger stored refused) (unhindered : Unhindered admits refused)
    (message : Message) (isFull : stored.length = 4095) : ∃ next, Stalled admits next stored (refused + 1) := by
  have full : (logger.tail + 1) % kRingCapacity = logger.head := by
    rw [stalled.tail, stalled.head, isFull]
    rfl
  have begun := reaches_next stalled.reached (.emit message) ((unhindered _ stalled.droppedCount).2 message) (if_pos stalled.producer)
  have loaded := reaches_next begun .produce (stalled.produces unhindered rfl) (if_pos full)
  refine ⟨_, reaches_next loaded .produce (stalled.produces unhindered rfl) rfl, rfl, stalled.writer, stalled.head,
    stalled.tail, ?_, stalled.accepted, stalled.released, ?_, stalled.output⟩
  · simp only [stalled.droppedCount, Nat.mod_add_mod]
  · simp only [stalled.refusals]

theorem stalled_stored (unhindered : Unhindered admits 0) (messages : List Message) (room : messages.length ≤ 4095) :
    ∃ logger, Stalled admits logger messages 0 := by
  induction messages using List.reverseRecOn with
  | nil => exact ⟨start, .start, rfl, rfl, rfl, rfl, rfl, rfl, rfl, rfl, rfl⟩
  | append_singleton messages message ih =>
      rw [List.length_append, List.length_singleton] at room
      obtain ⟨logger, stalled⟩ := ih (by omega)
      exact stalled.store unhindered message (by omega)

/-- Behind a full ring any number of messages is refused. -/
theorem stalled_refused (messages : List Message) (message : Message) (isFull : messages.length = 4095) (refused : Nat)
    (unhindered : ∀ count ≤ refused, Unhindered admits count) : ∃ logger, Stalled admits logger messages refused := by
  induction refused with
  | zero => exact stalled_stored (unhindered 0 le_rfl) messages isFull.le
  | succ refused ih =>
      obtain ⟨logger, stalled⟩ := ih fun count few => unhindered count (by omega)
      exact stalled.refuse (unhindered refused (by omega)) message isFull

end Filling

/-!
## The writer alone
-/

/-- What the other thread holds is as it was. -/
structure WriterRan (before after : Logger) : Prop where
  tail : after.tail = before.tail
  running : after.running = before.running
  producer : after.producer = before.producer
  accepted : after.accepted = before.accepted
  refused : after.refused = before.refused

theorem WriterRan.trans {before between after : Logger} (early : WriterRan before between)
    (late : WriterRan between after) : WriterRan before after :=
  ⟨late.tail.trans early.tail, late.running.trans early.running, late.producer.trans early.producer,
    late.accepted.trans early.accepted, late.refused.trans early.refused⟩

/-- From the top of its loop the writer prints a record that is unread, and gives its slot back. -/
theorem prints_next {admits : Logger → Turn → Prop} {origin logger : Logger} (reached : Reaches step admits origin logger)
    (writes : ∀ current, admits current .write) (top : logger.writer = .top) (unread : logger.head ≠ logger.tail) :
    ∃ next, Reaches step admits origin next ∧ WriterRan logger next ∧ next.writer = .top ∧
      next.released = logger.released + 1 := by
  have exchanged := reaches_next reached .write (writes _) (by simp only [advance, write, top]; rfl)
  have loaded := reaches_next exchanged .write (writes _) rfl
  have seen := reaches_next loaded .write (writes _) rfl
  simp only [if_neg unread] at seen
  have printed := reaches_next seen .write (writes _) rfl
  exact ⟨_, reaches_next printed .write (writes _) rfl, ⟨rfl, rfl, rfl, rfl, rfl⟩, rfl, rfl⟩

/-!
## What is printed
-/

def greeting : Message := ⟨.kInfo, toBytes "hello".toList, "main".toList, 0⟩

/-- Three hundred bytes, of which a slot of the ring has room for 256. -/
def report : Message := ⟨.kWarn, List.replicate 300 120, "main".toList, 10 ^ 9⟩

def ringful : List Message := greeting :: report :: List.replicate 4093 greeting

theorem length_ringful : ringful.length = 4095 := by
  simp only [ringful, List.length_cons, List.length_replicate]

/-- Where every turn is admitted, any number of messages is refused behind a full ring. -/
theorem stalled_unbounded (refused : Nat) : ∃ logger, Stalled (fun _ _ => True) logger ringful refused :=
  stalled_refused ringful greeting length_ringful refused fun _ _ _ _ => ⟨trivial, fun _ => trivial⟩

theorem log_ring_faithful {logger : Logger} (run : Reachable logger) :
    records logger.output <+: logger.accepted.map Message.line ∧
      (∀ next message, produce logger = some next → next.producer = .foundFull message →
        logger.accepted.length = logger.released + 4095) ∧
      (reported logger.output + logger.droppedCount) % 2 ^ 64 = logger.refused % 2 ^ 64 ∧
      (logger.refused < 2 ^ 64 → reported logger.output + logger.droppedCount = logger.refused) := by
  obtain ⟨inv, counted⟩ := run.invariants
  refine ⟨?_, ?_, counted.congruent, fun few => ?_⟩
  · rw [inv.printed]
    exact (List.take_prefix _ _).map _
  · intro next message ran refuses
    have knows := inv.producer
    unfold ProducerKnows at knows
    unfold produce at ran
    split at ran <;> rename_i at'
    · cases ran
    · cases ran
    · rw [at'] at knows
      obtain rfl := knows
      dsimp only at ran
      split at ran
      · rename_i isFull
        exact inv.full isFull
      · cases ran
        cases refuses
    all_goals
      cases ran
      cases refuses
  · have congruent := counted.congruent
    have atMost := counted.atMost
    rw [Nat.mod_eq_of_lt few, Nat.mod_eq_of_lt (atMost.trans_lt few)] at congruent
    exact congruent

/-- The ring is filled, a message is refused, and the writer comes to its first two records. -/
theorem log_ring_faithful_printed : ∃ logger, Reachable logger ∧ logger.accepted = ringful ∧ logger.refused = 1 ∧
    records logger.output =
      [greeting.line, .record 28801000 "WARN".toList "main".toList (List.replicate kMaxMessageLen 120)] ∧
    records logger.output <+: logger.accepted.map Message.line ∧
    reported logger.output + logger.droppedCount = logger.refused := by
  obtain ⟨full, stalled⟩ := stalled_unbounded 1
  have unread : full.head ≠ full.tail := by
    rw [stalled.head, stalled.tail, length_ringful]
    decide
  obtain ⟨first, toFirst, ranFirst, top, one⟩ := prints_next stalled.reached (fun _ => trivial) stalled.writer unread
  have accepted : first.accepted = ringful := ranFirst.accepted.trans stalled.accepted
  rw [stalled.released] at one
  have unread : first.head ≠ first.tail := by
    rw [Ne, (Reachable.invariants toFirst).1.empty_iff, one, accepted, length_ringful]
    decide
  obtain ⟨second, toSecond, ranSecond, top, two⟩ := prints_next toFirst (fun _ => trivial) top unread
  rw [one] at two
  rw [← ranSecond.accepted] at accepted
  have refused : second.refused = 1 := by rw [ranSecond.refused, ranFirst.refused, stalled.refusals]
  have faithful := log_ring_faithful toSecond
  refine ⟨second, toSecond, accepted, refused, ?_, faithful.1, faithful.2.2.2 (by rw [refused]; decide)⟩
  rw [(Reachable.invariants toSecond).1.printed, two, top, accepted]
  decide +kernel

/-- The counter wraps: 2^64 refusals that the writer did not come to leave no trace. -/
theorem refusals_lost : ∃ logger, Reachable logger ∧ logger.refused = 2 ^ 64 ∧
    reported logger.output + logger.droppedCount = 0 := by
  obtain ⟨logger, stalled⟩ := stalled_unbounded (2 ^ 64)
  refine ⟨logger, stalled.reached, stalled.refusals, ?_⟩
  rw [stalled.output, stalled.droppedCount, Nat.mod_self]
  rfl

end TradingEngine.AsyncLogger
