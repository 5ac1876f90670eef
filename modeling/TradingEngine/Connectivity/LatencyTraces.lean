import TradingEngine.Connectivity.StaleCompletions

/-! Latency traces beside the frames they were sent with, which are followed along the
history of the ring. The traces wait in a queue of their own, which is emptied whenever
a write is started, whatever that write covers, and which a reconnect does not clear
with the ring. -/

set_option autoImplicit false

namespace TradingEngine.Ws

open Library.Exec Library.StreamDecoder

/-- What became of a traced frame. -/
inductive Fate where
  /-- In the ring, none of its bytes given to `AsyncWrite`. -/
  | waiting
  /-- Bytes of it were given to `AsyncWrite`. -/
  | given
  /-- A reconnect took it from the ring before that. -/
  | discarded
  /-- A completion took it from the ring before that. -/
  | passedOver
  deriving DecidableEq, Repr

/-- A frame with bytes in the ring. -/
structure RingFrame where
  bytes : Nat
  trace : Option TickToTradeTrace
  given : Bool

/-- The frames with bytes in the ring, and the traced frames that left it. -/
structure Frames where
  queue : List RingFrame
  left : List (TickToTradeTrace × Fate)

/-- The fate of a frame that is in the ring, or that leaves it. -/
def RingFrame.fate (otherwise : Fate) (frame : RingFrame) : Option (TickToTradeTrace × Fate) :=
  frame.trace.map fun trace => (trace, if frame.given then .given else otherwise)

/-- The traced frames queued so far, in order. -/
def Frames.traced (frames : Frames) : List (TickToTradeTrace × Fate) :=
  frames.left ++ frames.queue.filterMap (RingFrame.fate .waiting)

/-- The frames when so many of the oldest bytes were given to `AsyncWrite`. -/
def handOver : Nat → List RingFrame → List RingFrame
  | _, [] => []
  | bytes, frame :: rest =>
      if bytes = 0 then frame :: rest else { frame with given := true } :: handOver (bytes - frame.bytes) rest

/-- The frames that are gone with so many of the oldest bytes. -/
def finished : Nat → List RingFrame → List RingFrame
  | _, [] => []
  | bytes, frame :: rest => if frame.bytes ≤ bytes then frame :: finished (bytes - frame.bytes) rest else []

def unfinished : Nat → List RingFrame → List RingFrame
  | _, [] => []
  | bytes, frame :: rest =>
      if frame.bytes ≤ bytes then unfinished (bytes - frame.bytes) rest
      else { frame with bytes := frame.bytes - bytes } :: rest

/-- The link after `ScheduleReconnect`. -/
def reconnecting (link : Link) : Link :=
  { link with
    transport := none
    authenticated := false
    txRing := link.txRing.reset
    writeInFlight := false
    reconnectAttempt := link.reconnectAttempt + 1
    wire := link.wire ++ [.reset] }

def Frames.after (frames : Frames) : WireEvent → Frames
  | .queued bytes trace => { frames with queue := frames.queue ++ [⟨bytes, trace, false⟩] }
  | .given bytes => { frames with queue := handOver bytes frames.queue }
  | .taken bytes => ⟨unfinished bytes frames.queue,
      frames.left ++ (finished bytes frames.queue).filterMap (RingFrame.fate .passedOver)⟩
  | .reset => ⟨[], frames.left ++ frames.queue.filterMap (RingFrame.fate .discarded)⟩

/-- The frames at the end of a history of the ring. -/
def framesOf (events : List WireEvent) : Frames := events.foldl Frames.after ⟨[], []⟩

@[simp]
theorem framesOf_append (events : List WireEvent) (event : WireEvent) :
    framesOf (events ++ [event]) = (framesOf events).after event := by
  rw [framesOf, List.foldl_append]
  rfl

/-- The calls of `on_trace_resolved_` are for the traced frames in the order they were
queued; every frame given to `AsyncWrite` has had its call. -/
structure ResolvedInOrder (link : Link) : Prop where
  inOrder : link.resolved.map TickToTradeTrace.stages =
    ((framesOf link.wire).traced.take link.resolved.length).map fun entry => entry.1.stages
  given : ∀ index entry, (framesOf link.wire).traced[index]? = some entry → entry.2 = .given →
    index < link.resolved.length

/-- No discarded frame has had its call. -/
def DiscardedUnresolved (link : Link) : Prop :=
  ∀ index entry, (framesOf link.wire).traced[index]? = some entry → entry.2 = .discarded → link.resolved.length ≤ index

/-- Whenever the ring is reset, bytes of every traced frame in it were given to
`AsyncWrite`. -/
def SparesTraced (events : List WireEvent) : Prop :=
  ∀ index < events.length, events[index]? = some .reset →
    ∀ frame ∈ (framesOf (events.take index)).queue, frame.trace.isSome = true → frame.given = true

/-!
## Traces in order
-/

/-- The trace of a frame, and whether bytes of it were given to `AsyncWrite`. -/
def RingFrame.mark (frame : RingFrame) : Option (List Nat × Bool) := frame.trace.map fun trace => (trace.stages, frame.given)

def markOf (entry : TickToTradeTrace × Fate) : List Nat × Bool := (entry.1.stages, decide (entry.2 = .given))

theorem map_mark_fate {otherwise : Fate} (notGiven : otherwise ≠ .given) (frames : List RingFrame) :
    (frames.filterMap (RingFrame.fate otherwise)).map markOf = frames.filterMap RingFrame.mark := by
  rw [List.map_filterMap]
  congr 1
  funext frame
  rw [RingFrame.fate, RingFrame.mark, Option.map_map]
  congr 1
  funext trace
  cases frame.given with
  | true => rfl
  | false => simp [markOf, notGiven]

theorem marks_finished (bytes : Nat) (frames : List RingFrame) :
    (finished bytes frames).filterMap RingFrame.mark ++ (unfinished bytes frames).filterMap RingFrame.mark =
      frames.filterMap RingFrame.mark := by
  induction frames generalizing bytes with
  | nil => rfl
  | cons frame rest ih =>
      rw [finished, unfinished]
      split
      · rw [List.filterMap_cons, List.filterMap_cons]
        cases frame.mark with
        | none => exact ih _
        | some mark => exact congrArg (mark :: ·) (ih _)
      · rfl

theorem marks_handOver (bytes : Nat) (frames : List RingFrame) :
    ((handOver bytes frames).filterMap RingFrame.mark).map Prod.fst = (frames.filterMap RingFrame.mark).map Prod.fst := by
  induction frames generalizing bytes with
  | nil => rfl
  | cons frame rest ih =>
      rw [handOver]
      split
      · rfl
      · rw [List.filterMap_cons, List.filterMap_cons, RingFrame.mark, RingFrame.mark]
        cases frame.trace with
        | none => exact ih _
        | some trace => exact congrArg (trace.stages :: ·) (ih _)

def Frames.marks (frames : Frames) : List (List Nat × Bool) :=
  frames.left.map markOf ++ frames.queue.filterMap RingFrame.mark

theorem map_mark_traced (frames : Frames) : frames.traced.map markOf = frames.marks := by
  rw [Frames.traced, List.map_append, map_mark_fate (by decide), Frames.marks]

theorem marks_queued (frames : Frames) (bytes : Nat) (trace : Option TickToTradeTrace) :
    (frames.after (.queued bytes trace)).marks = frames.marks ++ trace.toList.map fun trace => (trace.stages, false) := by
  cases trace <;> simp [Frames.marks, Frames.after, RingFrame.mark, List.filterMap_cons]

theorem marks_given (frames : Frames) (bytes : Nat) :
    (frames.after (.given bytes)).marks.map Prod.fst = frames.marks.map Prod.fst := by
  rw [Frames.marks, Frames.marks, List.map_append, List.map_append, Frames.after, marks_handOver]

theorem marks_taken (frames : Frames) (bytes : Nat) : (frames.after (.taken bytes)).marks = frames.marks := by
  rw [Frames.after, Frames.marks, Frames.marks, List.map_append, map_mark_fate (by decide), List.append_assoc,
    marks_finished]

theorem marks_reset (frames : Frames) : (frames.after .reset).marks = frames.marks := by
  rw [Frames.after, Frames.marks, Frames.marks, List.map_append, map_mark_fate (by decide), List.filterMap_nil,
    List.append_nil]

/-- The traces resolved and those pending are the traces queued, and what was given to
`AsyncWrite` is among the former. -/
structure TraceInv (link : Link) : Prop where
  order : (link.resolved ++ link.pendingSendTraces).map TickToTradeTrace.stages = (framesOf link.wire).marks.map Prod.fst
  given : ∀ mark ∈ (framesOf link.wire).marks.drop link.resolved.length, mark.2 = false

namespace TraceInv

variable {link : Link}

/-- A step that leaves the marks and the traces alone. -/
theorem of_same (inv : TraceInv link) {next : Link} (resolved : next.resolved = link.resolved)
    (pending : next.pendingSendTraces = link.pendingSendTraces)
    (marks : (framesOf next.wire).marks = (framesOf link.wire).marks) : TraceInv next :=
  ⟨by rw [resolved, pending, marks]; exact inv.order, by rw [resolved, marks]; exact inv.given⟩

theorem queued (inv : TraceInv link) (ring : RingBuffer kTxRingCapacity) (frame : Bytes)
    (trace : Option TickToTradeTrace) : TraceInv (Ws.queued link ring frame trace) := by
  have length : link.resolved.length ≤ (framesOf link.wire).marks.length := by
    have := congrArg List.length inv.order
    simp only [List.length_map, List.length_append] at this
    omega
  have marks : (framesOf (Ws.queued link ring frame trace).wire).marks =
      (framesOf link.wire).marks ++ trace.toList.map fun trace => (trace.stages, false) := by
    rw [Ws.queued, framesOf_append, marks_queued]
  refine ⟨?_, ?_⟩
  · change (link.resolved ++ (link.pendingSendTraces ++ trace.toList)).map _ = _
    rw [marks, ← List.append_assoc, List.map_append, inv.order, List.map_append, List.map_map]
    rfl
  · change ∀ mark ∈ (framesOf (Ws.queued link ring frame trace).wire).marks.drop link.resolved.length, mark.2 = false
    rw [marks, List.drop_append_of_le_length length]
    intro mark member
    rcases List.mem_append.mp member with earlier | new
    · exact inv.given mark earlier
    · obtain ⟨trace, -, rfl⟩ := List.mem_map.mp new
      rfl

theorem started (inv : TraceInv link) : TraceInv (Ws.started link) := by
  cases current : link.transport with
  | none =>
      rw [Ws.started, current]
      exact inv
  | some transport =>
      have marks : (framesOf (Ws.started link).wire).marks.map Prod.fst = (framesOf link.wire).marks.map Prod.fst := by
        rw [Ws.started, current]
        dsimp only
        rw [framesOf_append, marks_given]
      have pending : (Ws.started link).pendingSendTraces = [] := by
        rw [Ws.started, current]
        rfl
      have order : (Ws.started link).resolved.map TickToTradeTrace.stages =
          (framesOf (Ws.started link).wire).marks.map Prod.fst := by
        rw [marks, ← inv.order, Ws.started, current]
        dsimp only [resolveTraces]
        rw [List.map_append, List.map_append, List.map_map]
        rfl
      have length := congrArg List.length order
      rw [List.length_map, List.length_map] at length
      refine ⟨?_, ?_⟩
      · rw [pending, List.append_nil]
        exact order
      · rw [length, List.drop_length]
        exact fun _ member => by cases member

theorem committed (inv : TraceInv link) (bytes : Nat) : TraceInv (Ws.committed link bytes) := by
  refine inv.of_same rfl rfl ?_
  rw [Ws.committed, framesOf_append, marks_taken]

theorem reconnecting (inv : TraceInv link) : TraceInv (Ws.reconnecting link) := by
  refine inv.of_same rfl rfl ?_
  rw [Ws.reconnecting, framesOf_append, marks_reset]

theorem resolvedInOrder (inv : TraceInv link) : ResolvedInOrder link := by
  have order := inv.order
  rw [← map_mark_traced, List.map_map, List.map_append] at order
  refine ⟨?_, fun index entry here isGiven => ?_⟩
  · have front := congrArg (List.take link.resolved.length) order
    rw [List.take_left' (List.length_map _), ← List.map_take] at front
    exact front
  · by_contra later
    have mark : markOf entry ∈ (framesOf link.wire).marks.drop link.resolved.length := by
      rw [← map_mark_traced, ← List.map_drop]
      refine List.mem_map_of_mem (List.mem_iff_getElem?.mpr ⟨index - link.resolved.length, ?_⟩)
      rw [List.getElem?_drop, Nat.add_sub_cancel' (Nat.le_of_not_lt later)]
      exact here
    have unmarked := inv.given _ mark
    rw [markOf, isGiven] at unmarked
    cases unmarked

/-- Once no trace is pending every traced frame has had its call. -/
theorem length_traced (inv : TraceInv link) (none_pending : link.pendingSendTraces = []) :
    (framesOf link.wire).traced.length = link.resolved.length := by
  have order := congrArg List.length inv.order
  rw [none_pending, List.append_nil, List.length_map, ← map_mark_traced, List.length_map, List.length_map] at order
  exact order.symm

end TraceInv

/-!
## Discarded frames
-/

/-- No traced frame was discarded. -/
def NoneDiscarded (frames : Frames) : Prop := ∀ entry ∈ frames.traced, entry.2 ≠ .discarded

theorem fate_ne_discarded {otherwise : Fate} (other : otherwise ≠ .discarded) {frames : List RingFrame}
    {entry : TickToTradeTrace × Fate} (member : entry ∈ frames.filterMap (RingFrame.fate otherwise)) :
    entry.2 ≠ .discarded := by
  obtain ⟨frame, -, here⟩ := List.mem_filterMap.mp member
  obtain ⟨trace, -, rfl⟩ := Option.map_eq_some_iff.mp here
  dsimp only
  split
  · decide
  · exact other

theorem noneDiscarded_iff {frames : Frames} : NoneDiscarded frames ↔ ∀ entry ∈ frames.left, entry.2 ≠ .discarded := by
  constructor
  · intro all entry member
    exact all entry (List.mem_append_left _ member)
  · intro left entry member
    rcases List.mem_append.mp member with gone | inRing
    · exact left entry gone
    · exact fate_ne_discarded (by decide) inRing

/-- Only a reset discards traced frames: those none of whose bytes were given away. -/
theorem noneDiscarded_after {frames : Frames} {event : WireEvent} :
    NoneDiscarded (frames.after event) ↔ NoneDiscarded frames ∧
      (event = .reset → ∀ frame ∈ frames.queue, frame.trace.isSome = true → frame.given = true) := by
  rw [noneDiscarded_iff, noneDiscarded_iff]
  cases event with
  | queued bytes trace => simp [Frames.after]
  | given bytes => simp [Frames.after]
  | taken bytes =>
      simp only [Frames.after, List.mem_append, or_imp, forall_and]
      refine ⟨fun both => ⟨both.1, fun isReset => by cases isReset⟩, fun both => ⟨both.1, fun entry member => ?_⟩⟩
      exact fate_ne_discarded (by decide) member
  | reset =>
      simp only [Frames.after, List.mem_append, or_imp, forall_and, true_implies]
      refine and_congr_right fun _ => ⟨fun spared frame member isTraced => ?_, fun spared entry member => ?_⟩
      · obtain ⟨trace, here⟩ := Option.isSome_iff_exists.mp isTraced
        by_contra unused
        refine spared (trace, .discarded) (List.mem_filterMap.mpr ⟨frame, member, ?_⟩) rfl
        simp [RingFrame.fate, here, unused]
      · obtain ⟨frame, inRing, here⟩ := List.mem_filterMap.mp member
        obtain ⟨trace, isTraced, rfl⟩ := Option.map_eq_some_iff.mp here
        have given := spared frame inRing (by rw [isTraced]; rfl)
        simp [given]

theorem sparesTraced_append {events : List WireEvent} {event : WireEvent} :
    SparesTraced (events ++ [event]) ↔ SparesTraced events ∧
      (event = .reset → ∀ frame ∈ (framesOf events).queue, frame.trace.isSome = true → frame.given = true) := by
  have earlier {index : Nat} (inside : index < events.length) :
      (events ++ [event])[index]? = events[index]? ∧ (events ++ [event]).take index = events.take index :=
    ⟨List.getElem?_append_left inside, List.take_append_of_le_length (Nat.le_of_lt inside)⟩
  have last : (events ++ [event])[events.length]? = some event ∧ (events ++ [event]).take events.length = events := by
    simp
  constructor
  · intro spares
    refine ⟨fun index inside here => ?_, fun isReset => ?_⟩
    · have spared := spares index (by simp; omega)
      rw [(earlier inside).1, (earlier inside).2] at spared
      exact spared here
    · have spared := spares events.length (by simp)
      rw [last.1, last.2, isReset] at spared
      exact spared rfl
  · rintro ⟨spares, spared⟩ index inside here
    rw [List.length_append, List.length_singleton] at inside
    rcases Nat.lt_succ_iff_lt_or_eq.mp inside with before | rfl
    · rw [(earlier before).1] at here
      rw [(earlier before).2]
      exact spares index before here
    · rw [last.1, Option.some.injEq] at here
      rw [last.2]
      exact spared here

/-- A traced frame is discarded by a reset that does not spare it, and not otherwise. -/
theorem noneDiscarded_framesOf (events : List WireEvent) : NoneDiscarded (framesOf events) ↔ SparesTraced events := by
  induction events using List.reverseRecOn with
  | nil => exact ⟨fun _ _ inside => absurd inside (Nat.not_lt_zero _), fun _ _ member => by cases member⟩
  | append_singleton events event ih => rw [framesOf_append, noneDiscarded_after, sparesTraced_append, ih]

theorem NoneDiscarded.unresolved {link : Link} (none : NoneDiscarded (framesOf link.wire)) : DiscardedUnresolved link :=
  fun _ entry here isDiscarded => absurd isDiscarded (none entry (List.mem_of_getElem? here))

/-!
## Runs of the client
-/

/-- What keeps an invariant of the ring, its history and the traces along every run of
the client in which completions take out only so many bytes as are allowed. -/
structure ClientRules (Allowed : Link → Nat → Prop) (Invariant : Link → Prop) : Prop where
  beside : ∀ before, Invariant before → ∀ after : Link, after.txRing = before.txRing →
    after.pendingSendTraces = before.pendingSendTraces → after.resolved = before.resolved → after.wire = before.wire →
    Invariant after
  queues : ∀ link frame ring trace, link.txRing.write frame = .ok ring → Invariant link →
    Invariant (queued link ring frame trace)
  starts : ∀ link, Invariant link → Invariant (started link)
  commits : ∀ link bytes, Allowed link bytes → Invariant link → Invariant (committed link bytes)
  reconnects : ∀ link, Invariant link → Invariant (reconnecting link)

namespace ClientRules

variable {Allowed : Link → Nat → Prop} {Invariant : Link → Prop} (rules : ClientRules Allowed Invariant)
include rules

theorem wire : WireRules (Kept Invariant) where
  refl := Kept.refl
  trans := Kept.trans
  beside := fun before after same holds =>
    rules.beside before holds after same.txRing same.pendingSendTraces same.resolved same.wire
  queue := rules.queues
  start := fun link _ => rules.starts link

theorem writeDone {link next : Link} (holds : Invariant link) {bytes : Nat} {failed : Bool}
    (allowed : failed = false → Allowed link bytes) (ran : onWriteDone bytes failed link = .ok .unit next) :
    Invariant next := by
  cases failed with
  | true =>
      cases ran
      exact rules.reconnects link holds
  | false =>
      have taken := rules.commits link bytes (allowed rfl) holds
      rw [run_onWriteDone] at ran
      split at ran
      · cases ran
        exact rules.starts _ taken
      · cases ran
        exact rules.beside _ taken _ rfl rfl rfl rfl

theorem connects {client next : OkxWsClient} (holds : Invariant client.state) {attempt : Attempt}
    (ran : connect attempt client = .ok .unit next) : Invariant next.state := by
  have tried := rules.wire.tryConnect (fun _ holds => rules.beside _ holds _ rfl rfl rfl rfl) attempt client holds
  unfold connect at ran
  split at ran
  · rename_i connected
    rw [connected] at tried
    cases ran
    exact tried
  · cases ran
  all_goals
    rename_i failed
    rw [failed] at tried
    cases ran
    exact rules.reconnects _ tried

theorem reads {client next : OkxWsClient} (holds : Invariant client.state) {index source : Nat}
    {onMessage : List (List Action)} {result : Except Text Bytes}
    (pending : client.state.pendingReads[index]? = some source)
    (ran : Ws.step (.readDone index onMessage result) client = .ok .unit next) : Invariant next.state := by
  cases result with
  | ok bytes =>
      have handling : Invariant (handling index source onMessage client.state) :=
        rules.beside _ holds _ rfl rfl rfl rfl
      rw [run_readDone pending] at ran
      obtain ⟨_, middle, received, looped⟩ := of_bind_ok ran
      obtain ⟨frames, -, handled⟩ := receive_ok frameDecoder received
      have after := (moves_forM Kept.refl Kept.trans fun frame _ => rules.wire.handleFrame frame).ok handled handling
      exact rules.wire.readLoop.ok (Receiver.onState_ok looped).1 after
  | error message =>
      rw [Ws.step, run_bind_ok (run_get _), pending] at ran
      cases ran
      exact rules.reconnects _ (rules.beside _ holds _ rfl rfl rfl rfl)

theorem writes {client next : OkxWsClient} (holds : Invariant client.state) {index : Nat} {write : PendingWrite}
    {failed : Bool} (pending : client.state.pendingWrites[index]? = some write)
    (allowed : failed = false → Allowed (erased index client.state) write.region.size)
    (ran : Ws.step (.writeDone index failed) client = .ok .unit next) : Invariant next.state := by
  have erased : Invariant (erased index client.state) := rules.beside _ holds _ rfl rfl rfl rfl
  rw [run_writeDone pending] at ran
  exact rules.writeDone erased allowed (Receiver.onState_ok ran).1

theorem step {client next : OkxWsClient} (holds : Invariant client.state) {input : Input}
    (allowed : ∀ index write, input = .writeDone index false → client.state.pendingWrites[index]? = some write →
      Allowed (erased index client.state) write.region.size)
    (ran : Ws.step input client = .ok .unit next) : Invariant next.state := by
  have sent {program : LinkM PUnit} (moves : Moves (Kept Invariant) program)
      (ran : Receiver.onState program client = .ok .unit next) : Invariant next.state :=
    moves.ok (Receiver.onState_ok ran).1 holds
  cases input with
  | send payload trace => exact sent (rules.wire.send payload trace) ran
  | beginBatch => exact sent (rules.wire.act .beginBatch) ran
  | endBatch => exact sent rules.wire.endBatch ran
  | heartbeat => exact sent rules.wire.heartbeat ran
  | scheduleReconnect =>
      cases ran
      exact rules.reconnects _ holds
  | connect attempt => exact rules.connects holds ran
  | readDone index onMessage result =>
      cases pending : client.state.pendingReads[index]? with
      | none =>
          rw [Ws.step, run_bind_ok (run_get _), pending] at ran
          cases ran
          exact holds
      | some source => exact rules.reads holds pending ran
  | writeDone index failed =>
      cases pending : client.state.pendingWrites[index]? with
      | none =>
          rw [Ws.step, run_bind_ok (run_get _), pending] at ran
          cases ran
          exact holds
      | some write => exact rules.writes holds pending (fun ok => allowed index write (by rw [ok]) pending) ran

end ClientRules

theorem traceRules : ClientRules (fun _ _ => True) TraceInv where
  beside := fun _ inv _ _ pending resolved wire => inv.of_same resolved pending (by rw [wire])
  queues := fun _ frame ring trace _ inv => inv.queued ring frame trace
  starts := fun _ inv => inv.started
  commits := fun _ bytes _ inv => inv.committed bytes
  reconnects := fun _ inv => inv.reconnecting

/-!
## The frames in the ring
-/

/-- The frames of the history make up the ring. -/
structure RingFrames (link : Link) : Prop where
  valid : link.txRing.Valid
  bytes : ((framesOf link.wire).queue.map RingFrame.bytes).sum = link.txRing.size

theorem bytes_handOver (bytes : Nat) (frames : List RingFrame) :
    (handOver bytes frames).map RingFrame.bytes = frames.map RingFrame.bytes := by
  induction frames generalizing bytes with
  | nil => rfl
  | cons frame rest ih =>
      rw [handOver]
      split
      · rfl
      · exact congrArg (frame.bytes :: ·) (ih _)

theorem bytes_unfinished (bytes : Nat) (frames : List RingFrame) :
    ((unfinished bytes frames).map RingFrame.bytes).sum = (frames.map RingFrame.bytes).sum - bytes := by
  induction frames generalizing bytes with
  | nil => exact (Nat.zero_sub _).symm
  | cons frame rest ih =>
      rw [unfinished]
      split
      · rw [ih, List.map_cons, List.sum_cons]
        omega
      · simp only [List.map_cons, List.sum_cons]
        omega

theorem RingFrames.started {link : Link} (frames : RingFrames link) : RingFrames (Ws.started link) := by
  cases current : link.transport with
  | none =>
      rw [Ws.started, current]
      exact frames
  | some transport =>
      have ring : (Ws.started link).txRing = link.txRing := startedIf_txRing true link
      refine ⟨ring ▸ frames.valid, ?_⟩
      rw [ring, ← frames.bytes, Ws.started, current]
      dsimp only
      rw [framesOf_append, Frames.after, bytes_handOver]

/-- No more is taken from the ring than it holds. -/
def Within (link : Link) (bytes : Nat) : Prop := bytes ≤ link.txRing.size

theorem ringFrameRules : ClientRules Within RingFrames where
  beside := fun _ frames _ ring _ _ wire => ⟨ring ▸ frames.valid, by rw [ring, wire]; exact frames.bytes⟩
  queues := by
    intro link frame ring trace written frames
    have appends := (frames.valid.write_ok written).2
    refine ⟨appends.valid, ?_⟩
    rw [queued, framesOf_append, appends.size, ← frames.bytes]
    simp [Frames.after]
  starts := fun _ frames => frames.started
  commits := by
    intro link bytes within frames
    have taken := frames.valid.commitRead within
    have size := congrArg List.length taken.2
    rw [RingBuffer.length_contents, List.length_drop, RingBuffer.length_contents] at size
    refine ⟨taken.1, ?_⟩
    rw [committed, framesOf_append, Frames.after, bytes_unfinished, frames.bytes]
    exact size.symm
  reconnects := by
    intro link frames
    refine ⟨frames.valid.reset, ?_⟩
    rw [reconnecting, framesOf_append]
    rfl

/-- A write that completes on its connection is one of the oldest bytes. -/
theorem within_of_connection {client : OkxWsClient} {index : Nat} {write : PendingWrite} (ring : RingInv client.state)
    (pending : client.state.pendingWrites[index]? = some write)
    (mine : client.state.transport = some write.transport) : Within (erased index client.state) write.region.size := by
  have member : write ∈ Transmission.outstanding client.state :=
    List.mem_filter.mpr ⟨List.mem_of_getElem? pending, by simpa using mine⟩
  rcases ring.flight with none | ⟨-, other, only, oldest⟩
  · rw [none] at member
    cases member
  · rw [only, List.mem_singleton] at member
    subst member
    exact oldest.within

/-!
## Traces and frames
-/

section Runs

variable (host path : Text) (auth : Option OkxAuth) (kind : WsEndpointKind) (maskKeys : Nat → Option MaskKey)
  (counter : Nat → Int)

theorem traceInv_run {client : OkxWsClient}
    (run : Reaches step (fun _ _ => True) (initial host path auth kind maskKeys counter) client) :
    TraceInv client.state := by
  refine run.invariant (fun client => TraceInv client.state) ⟨rfl, ?_⟩ fun _ _ _ inv _ ran =>
    traceRules.step inv (fun _ _ _ _ => trivial) ran
  exact fun _ member => by cases member

theorem ringFrames_run {client : OkxWsClient}
    (run : Reaches step OfConnection (initial host path auth kind maskKeys counter) client) :
    RingFrames client.state := by
  have both := run.invariant (fun client => ClientInv client.state ∧ RingFrames client.state)
    ⟨.initially host path auth kind maskKeys counter, ⟨RingBuffer.valid_empty (by decide) (by decide), rfl⟩⟩ ?_
  · exact both.2
  · rintro input client next ⟨inv, frames⟩ admitted ran
    refine ⟨inv.step admitted ran, ringFrameRules.step frames (fun index write isWrite pending => ?_) ran⟩
    rw [isWrite, OfConnection, pending, Option.all_some, decide_eq_true_eq] at admitted
    exact within_of_connection inv.ring pending admitted

/-- Every frame given to `AsyncWrite` has its call, once and in order. A frame that a
reconnect discards gets its call with the next write, so none is to be discarded before
it is written. Unless completions come late, the frames are those in the ring. -/
theorem traces_match_frames :
    (∀ client, Reaches step (fun _ _ => True) (initial host path auth kind maskKeys counter) client →
      ResolvedInOrder client.state ∧ (SparesTraced client.state.wire → DiscardedUnresolved client.state) ∧
        (client.state.pendingSendTraces = [] → DiscardedUnresolved client.state → SparesTraced client.state.wire)) ∧
    ∀ client, Reaches step OfConnection (initial host path auth kind maskKeys counter) client →
      ((framesOf client.state.wire).queue.map RingFrame.bytes).sum = client.state.txRing.size := by
  refine ⟨fun client run => ?_, fun client run => (ringFrames_run host path auth kind maskKeys counter run).bytes⟩
  have inv := traceInv_run host path auth kind maskKeys counter run
  refine ⟨inv.resolvedInOrder, fun spares => ?_, fun none_pending unresolved => ?_⟩
  · exact ((noneDiscarded_framesOf _).mpr spares).unresolved
  · rw [← noneDiscarded_framesOf]
    intro entry member isDiscarded
    obtain ⟨index, inside, rfl⟩ := List.mem_iff_getElem.mp member
    have late := unresolved index _ (List.getElem?_eq_getElem inside) isDiscarded
    have all := inv.length_traced none_pending
    omega

end Runs

def sampleTrace : TickToTradeTrace := ⟨[1, 2, 3], 0⟩

/-- A traced frame is written out before the connection breaks. -/
def writtenFirst : List Input :=
  [.connect sampleAttempt, .writeDone 0 false, .send [97] (some sampleTrace), .scheduleReconnect, .connect sampleAttempt]

instance (events : List WireEvent) : Decidable (SparesTraced events) := by
  unfold SparesTraced
  infer_instance

theorem traces_match_frames_written :
    (framesOf (finalState (forM writtenFirst step sampleClient)).state.wire).traced = [(sampleTrace, .given)] ∧
      ResolvedInOrder (finalState (forM writtenFirst step sampleClient)).state ∧
      DiscardedUnresolved (finalState (forM writtenFirst step sampleClient)).state ∧
      ((framesOf (finalState (forM writtenFirst step sampleClient)).state.wire).queue.map RingFrame.bytes).sum = 11 := by
  obtain ⟨admits, traced, spares, size⟩ : AdmitsAll step OfConnection sampleClient writtenFirst ∧
      (framesOf (finalState (forM writtenFirst step sampleClient)).state.wire).traced = [(sampleTrace, .given)] ∧
      SparesTraced (finalState (forM writtenFirst step sampleClient)).state.wire ∧
      (finalState (forM writtenFirst step sampleClient)).state.txRing.size = 11 := by decide +kernel
  have run : Reaches step OfConnection sampleClient (finalState (forM writtenFirst step sampleClient)) :=
    Reaches.start.all _ admits
  have matched := (traces_match_frames _ _ _ _ _ _).1 _ (run.mono fun _ _ _ => trivial)
  exact ⟨traced, matched.1, matched.2.1 spares, ((traces_match_frames _ _ _ _ _ _).2 _ run).trans size⟩

/-- A traced frame is queued behind the login when the connection breaks. -/
def brokenWhileQueued : List Input := [.connect sampleAttempt, .send [97] (some sampleTrace)]

/-- The ring is reset before the frame is written, and the login of the next connection
has its trace resolved. Only the two logins were given to `AsyncWrite`. -/
theorem discarded_trace_resolved :
    AdmitsAll step (fun _ _ => True) sampleClient (brokenWhileQueued ++ [.scheduleReconnect, .connect sampleAttempt]) ∧
      ((finalState (forM brokenWhileQueued step sampleClient)).state.resolved = [] ∧
        (finalState (forM brokenWhileQueued step sampleClient)).state.pendingWrites = [⟨0, 0, 11⟩] ∧
        (finalState (forM brokenWhileQueued step sampleClient)).state.txRing.size = 18) ∧
      (finalState (forM (brokenWhileQueued ++ [.scheduleReconnect]) step sampleClient)).state.txRing.size = 0 ∧
      (finalState (forM (brokenWhileQueued ++ [.scheduleReconnect, .connect sampleAttempt]) step
        sampleClient)).state.resolved.map TickToTradeTrace.stages = [sampleTrace.stages] ∧
      (finalState (forM (brokenWhileQueued ++ [.scheduleReconnect, .connect sampleAttempt]) step
        sampleClient)).state.pendingWrites = [⟨0, 0, 11⟩, ⟨1, 0, 11⟩] := by
  decide +kernel

end TradingEngine.Ws
