import TradingEngine.Connectivity.OkxWsClientProperties

/-! Transmission over one connection. One write at a time is outstanding and covers the
oldest bytes of the ring; its completion removes them and starts the next. So frames
leave in the order they were queued, and none is left behind. -/

set_option autoImplicit false

namespace TradingEngine.Ws

open Library.Exec

/-- The link beside what was queued on it, what the socket has taken, and the batch. -/
structure Transmission where
  link : Link
  /-- The frames queued so far, one after the other. -/
  frames : Bytes
  /-- The bytes of the completed writes. -/
  sent : Bytes
  /-- Whether `BeginBatch` was called and not yet `EndBatch`. -/
  batchOpen : Bool

inductive WireInput where
  | writeRaw (frame : Bytes) (trace : Option TickToTradeTrace)
  | send (payload : Bytes) (trace : Option TickToTradeTrace)
  | beginBatch
  | endBatch
  | written (index : Nat)

namespace Transmission

/-- The writes outstanding on the current transport. -/
def outstanding (link : Link) : List PendingWrite :=
  link.pendingWrites.filter fun write => link.transport = some write.transport

def onLink (program : LinkM PUnit) : EStateM Exn Transmission PUnit := fun transmission =>
  match program transmission.link with
  | .ok _ link => .ok .unit { transmission with link := link }
  | .error exception link => .error exception { transmission with link := link }

/-- `WriteRaw`; the frame counts as queued once it is in the ring. -/
def queueFrame (frame : Bytes) (trace : Option TickToTradeTrace) : EStateM Exn Transmission PUnit := do
  onLink (Ws.writeRaw frame trace)
  modify fun transmission => { transmission with frames := transmission.frames ++ frame }

def encoded (opcode : WebSocketOpcode) (payload : Bytes) : EStateM Exn Transmission Bytes := fun transmission =>
  match encode opcode payload transmission.link with
  | .ok frame link => .ok frame { transmission with link := link }
  | .error exception link => .error exception { transmission with link := link }

/-- A write succeeds: the socket has taken the bytes of its region. -/
def complete (index : Nat) (write : PendingWrite) : EStateM Exn Transmission PUnit := do
  modify fun transmission => { transmission with
    sent := transmission.sent ++ transmission.link.txRing.bytesAt write.region
    link := { transmission.link with pendingWrites := transmission.link.pendingWrites.eraseIdx index } }
  onLink (onWriteDone write.region.size false)

def wireStep : WireInput → EStateM Exn Transmission PUnit
  | .writeRaw frame trace => queueFrame frame trace
  | .send payload trace => do
      let frame ← encoded .kText payload
      queueFrame frame trace
  | .beginBatch => do
      onLink Ws.beginBatch
      modify fun transmission => { transmission with batchOpen := true }
  | .endBatch => do
      onLink Ws.endBatch
      modify fun transmission => { transmission with batchOpen := false }
  | .written index => do
      let transmission ← get
      match transmission.link.pendingWrites[index]? with
      | none => pure .unit
      | some write => complete index write

/-- Completions are those of the current transport. -/
def OfCurrent (transmission : Transmission) : WireInput → Prop
  | .written index => ∀ write ∈ transmission.link.pendingWrites[index]?,
      transmission.link.transport = some write.transport
  | .writeRaw _ _ | .send _ _ | .beginBatch | .endBatch => True

/-!
## Invariant
-/

/-- A region of the oldest bytes. -/
structure Oldest (ring : RingBuffer kTxRingCapacity) (region : Region) : Prop where
  offset : region.offset = ring.readPos
  within : region.size ≤ ring.size
  contiguous : region.offset + region.size ≤ kTxRingCapacity

/-- How the flag and the outstanding write go together. -/
structure LinkInv (link : Link) : Prop where
  valid : link.txRing.Valid
  live : link.transport.isSome = true
  flight : if link.writeInFlight = true then
      ∃ write, outstanding link = [write] ∧ Oldest link.txRing write.region
    else outstanding link = []
  flushed : link.writeInFlight = false → link.batching = false → link.txRing.size = 0

structure WireInv (transmission : Transmission) : Prop where
  link : LinkInv transmission.link
  order : transmission.sent ++ transmission.link.txRing.contents = transmission.frames
  batch : transmission.link.batching = transmission.batchOpen

theorem oldest_readable {ring : RingBuffer kTxRingCapacity} (valid : ring.Valid) :
    Oldest ring ring.contiguousReadableRegion := by
  have := valid.readPos
  refine ⟨rfl, Nat.min_le_left _ _, ?_⟩
  simp only [RingBuffer.contiguousReadableRegion]
  omega

theorem Oldest.append {ring next : RingBuffer kTxRingCapacity} {region : Region} {data : Bytes}
    (oldest : Oldest ring region) (appends : ring.Appends data next) : Oldest next region where
  offset := oldest.offset.trans appends.readPos.symm
  within := by
    rw [appends.size]
    have := oldest.within
    omega
  contiguous := oldest.contiguous

theorem outstanding_started {link : Link} {transport : Nat} (current : link.transport = some transport) :
    outstanding (started link) = outstanding link ++ [⟨transport, link.txRing.contiguousReadableRegion⟩] := by
  simp [outstanding, started, current, resolveTraces]

theorem started_fields {link : Link} (live : link.transport.isSome = true) :
    (started link).txRing = link.txRing ∧ (started link).transport = link.transport ∧
      (started link).writeInFlight = true := by
  obtain ⟨transport, current⟩ := Option.isSome_iff_exists.mp live
  rw [started, current]
  exact ⟨rfl, current, rfl⟩

/-- Starting a write where none is outstanding. -/
theorem linkInv_started {link : Link} (valid : link.txRing.Valid) (live : link.transport.isSome = true)
    (free : outstanding link = []) : LinkInv (started link) := by
  obtain ⟨transport, current⟩ := Option.isSome_iff_exists.mp live
  obtain ⟨ring, sameTransport, inFlight⟩ := started_fields live
  refine ⟨ring ▸ valid, sameTransport ▸ live, ?_, fun idle => by rw [inFlight] at idle; cases idle⟩
  rw [if_pos inFlight, outstanding_started current, free, ring]
  exact ⟨_, rfl, oldest_readable valid⟩

/-- A write is started where none is outstanding and the ring is to be flushed. -/
theorem linkInv_startedIf {link : Link} {idle : Bool} (valid : link.txRing.Valid) (live : link.transport.isSome = true)
    (flight : if link.writeInFlight = true then
        ∃ write, outstanding link = [write] ∧ Oldest link.txRing write.region
      else outstanding link = [])
    (free : idle = true → link.writeInFlight = false)
    (flushed : idle = false → link.writeInFlight = false → link.batching = false → link.txRing.size = 0) :
    LinkInv (startedIf idle link) := by
  cases idle with
  | true =>
      rw [if_neg (by simp [free rfl])] at flight
      exact linkInv_started valid live flight
  | false => exact ⟨valid, live, flight, flushed rfl⟩

theorem LinkInv.writeRaw {link next : Link} (inv : LinkInv link) {frame : Bytes} {trace : Option TickToTradeTrace}
    (ran : Ws.writeRaw frame trace link = .ok .unit next) :
    LinkInv next ∧ link.txRing.Appends frame next.txRing := by
  rw [run_writeRaw] at ran
  cases written : link.txRing.write frame with
  | error exception =>
      rw [written] at ran
      cases ran
  | ok ring =>
      rw [written] at ran
      cases ran
      obtain ⟨-, appends⟩ := inv.valid.write_ok written
      refine ⟨linkInv_startedIf appends.valid inv.live ?_ ?_ ?_, by rw [startedIf_txRing]; exact appends⟩
      · have flight := inv.flight
        split at flight
        · rename_i busy
          obtain ⟨write, only, oldest⟩ := flight
          rw [if_pos (by exact busy)]
          exact ⟨write, only, oldest.append appends⟩
        · rename_i idle
          rw [if_neg (by exact idle)]
          exact flight
      · intro idle
        simp only [Bool.and_eq_true, Bool.not_eq_true'] at idle
        exact idle.1
      · intro busy free unbatched
        have free : link.writeInFlight = false := free
        have unbatched : link.batching = false := unbatched
        rw [free, unbatched] at busy
        cases busy

theorem LinkInv.beginBatch {link : Link} (inv : LinkInv link) : LinkInv { link with batching := true } :=
  ⟨inv.valid, inv.live, inv.flight, fun _ open' => by cases open'⟩

theorem LinkInv.endBatch {link : Link} (inv : LinkInv link) :
    LinkInv (startedIf (!link.writeInFlight) { link with batching := false }) := by
  refine linkInv_startedIf inv.valid inv.live inv.flight (fun idle => by simpa using idle) fun busy free => ?_
  have free : link.writeInFlight = false := free
  rw [free] at busy
  cases busy

/-- The one outstanding write is taken out. -/
theorem outstanding_eraseIdx {link : Link} {index : Nat} {write other : PendingWrite}
    (here : link.pendingWrites[index]? = some write) (mine : link.transport = some write.transport)
    (only : outstanding link = [other]) :
    write = other ∧ outstanding { link with pendingWrites := link.pendingWrites.eraseIdx index } = [] := by
  obtain ⟨bound, rfl⟩ := List.getElem?_eq_some_iff.mp here
  have split : link.pendingWrites = link.pendingWrites.take index ++
      link.pendingWrites[index] :: link.pendingWrites.drop (index + 1) := by
    rw [List.getElem_cons_drop, List.take_append_drop]
  unfold outstanding at only ⊢
  rw [split, List.filter_append, List.filter_cons, if_pos (by simpa using mine), List.append_eq_singleton_iff] at only
  rw [List.eraseIdx_eq_take_drop_succ, List.filter_append]
  rcases only with ⟨front, rest⟩ | ⟨-, impossible⟩
  · obtain ⟨same, back⟩ := List.cons.inj rest
    exact ⟨same, by rw [front, back]; rfl⟩
  · cases impossible

/-- The completion of the outstanding write. -/
theorem LinkInv.written {link : Link} (inv : LinkInv link) {index : Nat} {write : PendingWrite}
    (here : link.pendingWrites[index]? = some write) (mine : link.transport = some write.transport) :
    Oldest link.txRing write.region ∧ ∀ next, onWriteDone write.region.size false
        { link with pendingWrites := link.pendingWrites.eraseIdx index } = .ok .unit next →
      LinkInv next ∧ next.txRing = link.txRing.commitRead write.region.size := by
  have busy : link.writeInFlight = true := by
    by_contra idle
    have flight := inv.flight
    rw [if_neg idle] at flight
    have member : write ∈ outstanding link :=
      List.mem_filter.mpr ⟨List.mem_of_getElem? here, by simpa using mine⟩
    rw [flight] at member
    cases member
  have flight := inv.flight
  rw [if_pos busy] at flight
  obtain ⟨other, only, oldest⟩ := flight
  obtain ⟨rfl, free⟩ := outstanding_eraseIdx here mine only
  refine ⟨oldest, fun next ran => ?_⟩
  have valid := (inv.valid.commitRead oldest.within).1
  rw [run_onWriteDone] at ran
  split at ran
  · cases ran
    have live : (committed { link with pendingWrites := link.pendingWrites.eraseIdx index }
        write.region.size).transport.isSome = true := inv.live
    exact ⟨linkInv_started valid live free, (started_fields live).1⟩
  · rename_i drained
    cases ran
    refine ⟨⟨valid, inv.live, free, fun _ _ => Nat.eq_zero_of_not_pos drained⟩, rfl⟩

/-!
## Runs
-/

theorem onLink_ok {program : LinkM PUnit} {transmission next : Transmission}
    (ran : onLink program transmission = .ok .unit next) :
    program transmission.link = .ok .unit next.link ∧ next = { transmission with link := next.link } := by
  unfold onLink at ran
  split at ran
  · rename_i link returned
    cases ran
    exact ⟨returned, rfl⟩
  · cases ran

theorem startedIf_batching (idle : Bool) (link : Link) : (startedIf idle link).batching = link.batching := by
  unfold startedIf started
  split
  · cases link.transport <;> rfl
  · rfl

theorem batching_writeRaw {link next : Link} {frame : Bytes} {trace : Option TickToTradeTrace}
    (ran : Ws.writeRaw frame trace link = .ok .unit next) : next.batching = link.batching := by
  rw [run_writeRaw] at ran
  split at ran
  · cases ran
  · cases ran
    rw [startedIf_batching]
    rfl

theorem batching_onWriteDone {link next : Link} {bytesWritten : Nat}
    (ran : onWriteDone bytesWritten false link = .ok .unit next) : next.batching = link.batching := by
  rw [run_onWriteDone] at ran
  split at ran
  · cases ran
    exact startedIf_batching true (committed link bytesWritten)
  · cases ran
    rfl

theorem WireInv.queueFrame {transmission next : Transmission} (inv : WireInv transmission) {frame : Bytes}
    {trace : Option TickToTradeTrace} (ran : Transmission.queueFrame frame trace transmission = .ok .unit next) :
    WireInv next := by
  obtain ⟨_, middle, wrote, noted⟩ := of_bind_ok ran
  obtain ⟨wrote, middle_eq⟩ := onLink_ok wrote
  obtain ⟨link, appends⟩ := inv.link.writeRaw wrote
  cases noted
  refine ⟨link, ?_, ?_⟩
  · dsimp only
    rw [appends.contents, middle_eq, ← List.append_assoc, inv.order]
  · dsimp only
    rw [batching_writeRaw wrote, inv.batch, middle_eq]

theorem WireInv.encoded {transmission next : Transmission} (inv : WireInv transmission) {opcode : WebSocketOpcode}
    {payload frame : Bytes} (ran : Transmission.encoded opcode payload transmission = .ok frame next) :
    WireInv next := by
  unfold Transmission.encoded at ran
  rw [run_encode] at ran
  cases drawn : transmission.link.maskKeys transmission.link.masked with
  | none =>
      rw [drawn] at ran
      cases ran
  | some key =>
      rw [drawn] at ran
      cases ran
      exact ⟨⟨inv.link.valid, inv.link.live, inv.link.flight, inv.link.flushed⟩, inv.order, inv.batch⟩

theorem WireInv.written {transmission next : Transmission} (inv : WireInv transmission) {index : Nat}
    {write : PendingWrite} (here : transmission.link.pendingWrites[index]? = some write)
    (mine : transmission.link.transport = some write.transport)
    (ran : complete index write transmission = .ok .unit next) : WireInv next := by
  rw [complete, run_bind_ok (run_modify _ _)] at ran
  obtain ⟨wrote, next_eq⟩ := onLink_ok ran
  obtain ⟨oldest, after⟩ := inv.link.written here mine
  obtain ⟨link, ring⟩ := after _ wrote
  refine ⟨link, ?_, by rw [batching_onWriteDone wrote, next_eq]; exact inv.batch⟩
  have bytes : transmission.link.txRing.bytesAt write.region =
      transmission.link.txRing.contents.take write.region.size := by
    rw [RingBuffer.contents, Library.CircularMemory.window_take oldest.within,
      Library.CircularMemory.window_eq_block (by rw [← oldest.offset]; exact oldest.contiguous), ← oldest.offset]
    rfl
  rw [ring, (inv.link.valid.commitRead oldest.within).2, next_eq]
  dsimp only
  rw [bytes, List.append_assoc, List.take_append_drop]
  exact inv.order

theorem WireInv.step {transmission next : Transmission} {input : WireInput} (inv : WireInv transmission)
    (admitted : OfCurrent transmission input) (ran : wireStep input transmission = .ok .unit next) : WireInv next := by
  cases input with
  | writeRaw frame trace => exact inv.queueFrame ran
  | send payload trace =>
      obtain ⟨frame, middle, encoded, queued⟩ := of_bind_ok ran
      exact (inv.encoded encoded).queueFrame queued
  | beginBatch =>
      cases ran
      exact ⟨inv.link.beginBatch, inv.order, rfl⟩
  | endBatch =>
      obtain ⟨_, middle, ended, closed⟩ := of_bind_ok ran
      obtain ⟨ended, middle_eq⟩ := onLink_ok ended
      rw [run_endBatch] at ended
      have link_eq : startedIf (!transmission.link.writeInFlight) { transmission.link with batching := false } =
          middle.link := by injection ended
      cases closed
      rw [middle_eq, ← link_eq]
      refine ⟨inv.link.endBatch, ?_, startedIf_batching _ _⟩
      rw [startedIf_txRing]
      exact inv.order
  | written index =>
      rw [wireStep, run_bind_ok (run_get _)] at ran
      cases here : transmission.link.pendingWrites[index]? with
      | none =>
          rw [here] at ran
          cases ran
          exact inv
      | some write =>
          rw [here] at ran
          exact inv.written here (admitted write here) ran

/-- What holds of a transmission between inputs. -/
structure Ordered (transmission : Transmission) : Prop where
  single : (outstanding transmission.link).length ≤ 1
  order : transmission.sent ++ transmission.link.txRing.contents = transmission.frames
  untouched : ∀ write ∈ outstanding transmission.link, ∀ frame trace next,
    Ws.writeRaw frame trace transmission.link = .ok .unit next →
      next.txRing.bytesAt write.region = transmission.link.txRing.bytesAt write.region
  progress : transmission.link.txRing.size ≠ 0 → transmission.batchOpen = false →
    outstanding transmission.link ≠ []

theorem WireInv.ordered {transmission : Transmission} (inv : WireInv transmission) : Ordered transmission := by
  have flight := inv.link.flight
  refine ⟨?_, inv.order, ?_, ?_⟩
  · split at flight
    · obtain ⟨write, only, -⟩ := flight
      rw [only]
      rfl
    · rw [flight]
      exact Nat.zero_le _
  · intro write member frame trace next ran
    split at flight
    · obtain ⟨other, only, oldest⟩ := flight
      rw [only, List.mem_singleton] at member
      subst member
      obtain ⟨-, appends⟩ := inv.link.writeRaw ran
      have region : write.region = ⟨transmission.link.txRing.readPos, write.region.size⟩ := by
        rw [← oldest.offset]
      rw [region]
      exact appends.bytesAt oldest.within (by rw [← oldest.offset]; exact oldest.contiguous)
    · rw [flight] at member
      cases member
  · intro waiting unbatched none
    split at flight
    · obtain ⟨write, only, -⟩ := flight
      rw [none] at only
      cases only
    · rename_i idle
      exact waiting (inv.link.flushed (Bool.eq_false_iff.mpr idle) (inv.batch.trans unbatched))

/-- A connection with nothing to send, but for a batch that is still open. -/
structure Opening (link : Link) : Prop where
  valid : link.txRing.Valid
  live : link.transport.isSome = true
  flushed : link.batching = false → link.txRing.size = 0
  idle : link.writeInFlight = false
  fresh : ∀ write ∈ link.pendingWrites, link.transport ≠ some write.transport

/-- Whatever is sent, batched and completed on a connection, at most one write is
outstanding, bytes leave in the order they were queued, the bytes of the outstanding
write stay put, and nothing waits in the ring without a write or a batch. -/
theorem ordered_transmission {link : Link} (opening : Opening link) {transmission : Transmission}
    (run : Reaches wireStep OfCurrent ⟨link, link.txRing.contents, [], link.batching⟩ transmission) :
    Ordered transmission := by
  have none : outstanding link = [] :=
    List.filter_eq_nil_iff.mpr fun write member => by simpa using opening.fresh write member
  have initially : WireInv ⟨link, link.txRing.contents, [], link.batching⟩ := by
    refine ⟨⟨opening.valid, opening.live, ?_, fun _ => opening.flushed⟩, rfl, rfl⟩
    rw [if_neg (by simp [opening.idle])]
    exact none
  have inv := run.invariant WireInv initially fun _ _ _ inv admitted ran => inv.step admitted ran
  exact inv.ordered

instance (transmission : Transmission) : (input : WireInput) → Decidable (OfCurrent transmission input)
  | .written index =>
      match here : transmission.link.pendingWrites[index]? with
      | none => isTrue fun write member => by simp [here] at member
      | some write => decidable_of_iff (transmission.link.transport = some write.transport) (by simp [OfCurrent, here])
  | .writeRaw _ _ | .send _ _ | .beginBatch | .endBatch => isTrue trivial

/-- A connected link whose ring is empty, two bytes before its end. -/
def nearlyWrapped : Link :=
  { sampleClient.state with transport := some 0, opened := 1, txRing := ⟨fun _ => 0, kTxRingCapacity - 2, 0⟩ }

/-- The first frame is written in two pieces, around the end; the second is queued
in a batch, and the third behind it while the batch is being written. -/
def wireRun : List WireInput :=
  [.writeRaw [1, 2, 3] none, .beginBatch, .writeRaw [4] none, .written 0, .written 0, .endBatch, .writeRaw [5, 6] none,
    .written 0]

theorem ordered_transmission_wrapped :
    (finalState (forM wireRun wireStep ⟨nearlyWrapped, [], [], false⟩)).sent = [1, 2, 3, 4] ∧
      Ordered (finalState (forM wireRun wireStep ⟨nearlyWrapped, [], [], false⟩)) :=
  have opening : Opening nearlyWrapped :=
    ⟨⟨by decide, by decide, Nat.zero_le _⟩, rfl, fun _ => rfl, rfl, fun write member => by cases member⟩
  ⟨by decide +kernel, ordered_transmission opening (Reaches.start.all wireRun (by decide +kernel))⟩

end Transmission

end TradingEngine.Ws
