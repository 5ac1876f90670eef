import TradingEngine.Connectivity.OkxWsClient

/-! What each operation of the client does to it, where it returns. -/

set_option autoImplicit false

namespace TradingEngine.Ws

open Library.Exec Library.StreamDecoder

/-!
## Writing
-/

/-- The link once a write was issued on its transport, if it has one. -/
def started (link : Link) : Link :=
  match link.transport with
  | none => link
  | some transport => { resolveTraces link with
      writeInFlight := true
      pendingWrites := link.pendingWrites ++ [⟨transport, link.txRing.contiguousReadableRegion⟩]
      wire := link.wire ++ [.given link.txRing.contiguousReadableRegion.size] }

theorem run_startWrite (link : Link) : startWrite link = .ok .unit (started link) := by
  rw [startWrite, run_bind_ok (run_get _), started]
  cases link.transport <;> rfl

/-- The link with a frame in its ring, before a write is started for it. -/
def queued (link : Link) (ring : RingBuffer kTxRingCapacity) (frame : Bytes) (trace : Option TickToTradeTrace) : Link :=
  { link with
    txRing := ring
    pendingSendTraces := link.pendingSendTraces ++ trace.toList
    wire := link.wire ++ [.queued frame.length trace] }

/-- Starts a write if `idle`. -/
def startedIf (idle : Bool) (link : Link) : Link := if idle then started link else link

theorem startedIf_txRing (idle : Bool) (link : Link) : (startedIf idle link).txRing = link.txRing := by
  unfold startedIf started
  split
  · cases link.transport <;> rfl
  · rfl

theorem run_writeRaw (frame : Bytes) (trace : Option TickToTradeTrace) (link : Link) :
    writeRaw frame trace link = match link.txRing.write frame with
      | .error exception => .error exception link
      | .ok ring => .ok .unit (startedIf (!link.writeInFlight && !link.batching) (queued link ring frame trace)) := by
  rw [writeRaw, run_bind_ok (run_get _), run_bind, run_lift]
  cases link.txRing.write frame with
  | error exception => rfl
  | ok ring =>
      dsimp only
      rw [run_bind_ok (run_modify _ _), startedIf]
      split
      · exact run_startWrite _
      · rfl

theorem run_endBatch (link : Link) :
    endBatch link = .ok .unit (startedIf (!link.writeInFlight) { link with batching := false }) := by
  rw [endBatch, run_bind_ok (run_modify _ _), run_bind_ok (run_get _), startedIf]
  dsimp only
  split
  · exact run_startWrite _
  · rfl

/-- The link when a write of this size has completed. -/
def committed (link : Link) (bytesWritten : Nat) : Link :=
  { link with
    txRing := link.txRing.commitRead bytesWritten
    wire := link.wire ++ [.taken bytesWritten] }

theorem run_onWriteDone (bytesWritten : Nat) (link : Link) :
    onWriteDone bytesWritten false link = .ok .unit (
      if (committed link bytesWritten).txRing.size > 0 then started (committed link bytesWritten)
      else { committed link bytesWritten with writeInFlight := false }) := by
  rw [onWriteDone, if_neg (by decide), run_bind_ok (run_modify _ _), run_bind_ok (run_get _)]
  split
  · rename_i more
    rw [if_pos (by exact more)]
    exact run_startWrite _
  · rename_i done
    rw [if_neg (by exact done)]
    rfl

theorem run_encode (opcode : WebSocketOpcode) (payload : Bytes) (link : Link) :
    encode opcode payload link = match link.maskKeys link.masked with
      | none => .error (.runtimeError "Failed to generate WebSocket frame masking key".toList)
          { link with masked := link.masked + 1 }
      | some key => .ok (encodeFrame key opcode payload) { link with masked := link.masked + 1 } := by
  rw [encode, run_bind, generateMaskingKey, run_bind_ok (run_get _), run_bind_ok (run_modify _ _)]
  cases link.maskKeys link.masked <;> rfl

/-!
## What sending leaves alone
-/

/-- Sending changes the ring, the writes and the batch, and nothing else. -/
structure Sends (before after : Link) : Prop where
  auth : after.auth = before.auth
  kind : after.kind = before.kind
  authenticated : after.authenticated = before.authenticated
  transport : after.transport = before.transport
  reconnectAttempt : after.reconnectAttempt = before.reconnectAttempt
  reassembler : after.reassembler = before.reassembler
  opened : after.opened = before.opened
  pendingReads : after.pendingReads = before.pendingReads
  maskKeys : after.maskKeys = before.maskKeys
  onMessage : after.onMessage = before.onMessage
  source : after.source = before.source
  dispatched : after.dispatched = before.dispatched

namespace Sends

theorem refl (link : Link) : Sends link link := ⟨rfl, rfl, rfl, rfl, rfl, rfl, rfl, rfl, rfl, rfl, rfl, rfl⟩

theorem trans (first second third : Link) (early : Sends first second) (late : Sends second third) :
    Sends first third where
  auth := late.auth.trans early.auth
  kind := late.kind.trans early.kind
  authenticated := late.authenticated.trans early.authenticated
  transport := late.transport.trans early.transport
  reconnectAttempt := late.reconnectAttempt.trans early.reconnectAttempt
  reassembler := late.reassembler.trans early.reassembler
  opened := late.opened.trans early.opened
  pendingReads := late.pendingReads.trans early.pendingReads
  maskKeys := late.maskKeys.trans early.maskKeys
  onMessage := late.onMessage.trans early.onMessage
  source := late.source.trans early.source
  dispatched := late.dispatched.trans early.dispatched

theorem started (link : Link) : Sends link (Ws.started link) := by
  unfold Ws.started
  cases link.transport with
  | none => exact refl link
  | some transport => exact ⟨rfl, rfl, rfl, rfl, rfl, rfl, rfl, rfl, rfl, rfl, rfl, rfl⟩

theorem startedIf (idle : Bool) (link : Link) : Sends link (Ws.startedIf idle link) := by
  unfold Ws.startedIf
  split
  · exact started link
  · exact refl link

end Sends

theorem sends_writeRaw (frame : Bytes) (trace : Option TickToTradeTrace) : Moves Sends (writeRaw frame trace) := by
  intro link
  rw [run_writeRaw]
  cases link.txRing.write frame with
  | error exception => exact Sends.refl link
  | ok ring =>
      have queues : Sends link (queued link ring frame trace) := ⟨rfl, rfl, rfl, rfl, rfl, rfl, rfl, rfl, rfl, rfl, rfl, rfl⟩
      exact queues.trans _ _ _ (.startedIf _ _)

theorem sends_encode (opcode : WebSocketOpcode) (payload : Bytes) : Moves Sends (encode opcode payload) := by
  intro link
  rw [run_encode]
  cases link.maskKeys link.masked <;> exact ⟨rfl, rfl, rfl, rfl, rfl, rfl, rfl, rfl, rfl, rfl, rfl, rfl⟩

theorem sends_send (payload : Bytes) (trace : Option TickToTradeTrace) : Moves Sends (send payload trace) :=
  moves_bind Sends.trans (sends_encode _ _) fun _ => sends_writeRaw _ _

theorem sends_beginBatch : Moves Sends beginBatch :=
  fun _ => ⟨rfl, rfl, rfl, rfl, rfl, rfl, rfl, rfl, rfl, rfl, rfl, rfl⟩

theorem sends_endBatch : Moves Sends endBatch := by
  intro link
  rw [run_endBatch]
  have ends : Sends link { link with batching := false } := ⟨rfl, rfl, rfl, rfl, rfl, rfl, rfl, rfl, rfl, rfl, rfl, rfl⟩
  exact ends.trans _ _ _ (.startedIf _ _)

theorem sends_act (action : Action) : Moves Sends (act action) := by
  cases action with
  | send payload trace => exact sends_send payload trace
  | beginBatch => exact sends_beginBatch
  | endBatch => exact sends_endBatch
  | raise exception => exact moves_throw Sends.refl exception

theorem sends_acts (actions : List Action) : Moves Sends (forM actions act) :=
  moves_forM Sends.refl Sends.trans fun action _ => sends_act action

theorem sends_heartbeat : Moves Sends heartbeat := by
  refine moves_bind Sends.trans (moves_get Sends.refl) fun link => ?_
  split
  · exact moves_pure Sends.refl _
  · exact moves_bind Sends.trans (sends_encode _ _) fun _ => sends_writeRaw _ _

theorem sends_buildControlResponse (frame : WebSocketFrame) : Moves Sends (buildControlResponse frame) := by
  unfold buildControlResponse
  split
  · exact moves_pure Sends.refl _
  · exact moves_bind Sends.trans (sends_encode _ _) fun _ => moves_pure Sends.refl _

/-!
## Receiving
-/

/-- The link when a message has been dispatched, before the owner's handler runs. -/
def noted (message : Bytes) (link : Link) : Link :=
  { noteLogin message { link with dispatched := link.dispatched ++ [(link.source, message)] } with
    onMessage := link.onMessage.tail }

theorem run_dispatchMessage (message : Bytes) (link : Link) :
    dispatchMessage message link = (forM (link.onMessage.headD []) act) (noted message link) := by
  rw [dispatchMessage, run_bind_ok (run_modify _ _), run_bind_ok (run_modify _ _), run_bind_ok (run_get _),
    run_bind_ok (run_modify _ _)]
  have same : (noteLogin message { link with dispatched := link.dispatched ++ [(link.source, message)] }).onMessage =
      link.onMessage := by
    unfold noteLogin
    split <;> rfl
  rw [noted, same]

theorem run_appendFragment (payload : Bytes) (fin : Bool) (link : Link) :
    appendFragment payload fin link = match link.reassembler.append kMaxMessageSize payload fin with
      | .error exception => .error exception link
      | .ok reassembler => .ok .unit { link with reassembler := reassembler } := by
  rw [appendFragment, run_bind_ok (run_get _), run_bind, run_lift]
  cases link.reassembler.append kMaxMessageSize payload fin <;> rfl

/-- Handling a frame moves within a relation that sending, dispatching and gathering
stay within. -/
theorem moves_handleFrame {relation : Link → Link → Prop} (reflexive : ∀ link, relation link link)
    (transitive : ∀ first second third, relation first second → relation second third → relation first third)
    (encodes : ∀ opcode payload, Moves relation (encode opcode payload))
    (writes : ∀ frame, Moves relation (writeRaw frame none))
    (dispatches : ∀ message, Moves relation (dispatchMessage message))
    (gathers : ∀ link reassembler, relation link { link with reassembler := reassembler }) (frame : WebSocketFrame) :
    Moves relation (handleFrame frame) := by
  have appends (payload : Bytes) (fin : Bool) : Moves relation (appendFragment payload fin) := by
    refine moves_bind transitive (moves_get reflexive) fun link => ?_
    exact moves_bind transitive (moves_lift reflexive _) fun _ => moves_modify _ fun link => gathers link _
  refine moves_bind transitive ?_ fun response => ?_
  · unfold buildControlResponse
    split
    · exact moves_pure reflexive _
    · exact moves_bind transitive (encodes _ _) fun _ => moves_pure reflexive _
  cases response with
  | some response => exact writes response
  | none =>
      dsimp only
      split
      · exact moves_pure reflexive _
      unfold handleData
      split
      · refine moves_bind transitive (appends _ _) fun _ => ?_
        refine moves_bind transitive (moves_get reflexive) fun link => ?_
        split
        · exact moves_bind transitive (dispatches _) fun _ => moves_modify _ fun link => gathers link _
        · exact moves_pure reflexive _
      · split
        · exact appends _ _
        · exact dispatches _

/-!
## What only reading changes
-/

/-- What was received so far. -/
structure Keeps (before after : Link) : Prop where
  auth : after.auth = before.auth
  kind : after.kind = before.kind
  reassembler : after.reassembler = before.reassembler
  source : after.source = before.source
  dispatched : after.dispatched = before.dispatched

theorem Keeps.refl (link : Link) : Keeps link link := ⟨rfl, rfl, rfl, rfl, rfl⟩

theorem Keeps.trans (first second third : Link) (early : Keeps first second) (late : Keeps second third) :
    Keeps first third :=
  ⟨late.auth.trans early.auth, late.kind.trans early.kind, late.reassembler.trans early.reassembler,
    late.source.trans early.source, late.dispatched.trans early.dispatched⟩

theorem Sends.keeps (before after : Link) (sends : Sends before after) : Keeps before after :=
  ⟨sends.auth, sends.kind, sends.reassembler, sends.source, sends.dispatched⟩

theorem keeps_scheduleReconnect : Moves Keeps scheduleReconnect := fun _ => ⟨rfl, rfl, rfl, rfl, rfl⟩

theorem keeps_readLoop : Moves Keeps readLoop := by
  refine moves_modify _ fun link => ?_
  cases link.transport <;> exact ⟨rfl, rfl, rfl, rfl, rfl⟩

theorem run_readLoop {link : Link} {transport : Nat} (current : link.transport = some transport) :
    readLoop link = .ok .unit { link with pendingReads := link.pendingReads ++ [transport] } := by
  simp only [readLoop, run_modify, current]

/-- The link with a new transport. -/
def emplaced (link : Link) : Link := { link with transport := some link.opened, opened := link.opened + 1 }

theorem moves_emplaceTransport (refused : Option Text) :
    Moves (fun before after : Link => after = emplaced before) (emplaceTransport refused) := by
  intro link
  unfold emplaceTransport
  rw [run_bind_ok (run_modify _ _)]
  cases refused <;> rfl

theorem keeps_emplaceTransport (refused : Option Text) : Moves Keeps (emplaceTransport refused) :=
  (moves_emplaceTransport refused).imp fun _ _ same => same ▸ ⟨rfl, rfl, rfl, rfl, rfl⟩

/-- The handshake talks to the transport only. -/
theorem moves_handshake (attempt : Attempt) : Moves (fun before after : Link => after = before) (handshake attempt) := by
  refine moves_bind (fun _ _ _ early late => late.trans early) (moves_get fun _ => rfl) fun link => ?_
  cases attempt.key with
  | none => exact fun _ => rfl
  | some key =>
      dsimp only
      split <;> exact fun _ => rfl

theorem sends_sendLogin : Moves Sends sendLogin := by
  refine moves_bind Sends.trans (moves_get Sends.refl) fun link => ?_
  cases link.auth with
  | none => exact moves_throw Sends.refl _
  | some auth => exact sends_send _ _

theorem keeps_signIn : Moves Keeps signIn := by
  refine moves_bind Keeps.trans (moves_modify _ fun link => ⟨rfl, rfl, rfl, rfl, rfl⟩) fun _ => ?_
  refine moves_bind Keeps.trans (moves_get Keeps.refl) fun link => ?_
  split
  · exact moves_modify _ fun link => ⟨rfl, rfl, rfl, rfl, rfl⟩
  · split
    · exact sends_sendLogin.imp Sends.keeps
    · exact moves_pure Keeps.refl _

theorem keeps_onWriteDone (bytesWritten : Nat) (failed : Bool) : Moves Keeps (onWriteDone bytesWritten failed) := by
  cases failed with
  | true => exact keeps_scheduleReconnect
  | false =>
      intro link
      rw [run_onWriteDone]
      have commits : Keeps link (committed link bytesWritten) := ⟨rfl, rfl, rfl, rfl, rfl⟩
      split
      · exact commits.trans _ _ _ (Sends.keeps _ _ (.started _))
      · exact ⟨rfl, rfl, rfl, rfl, rfl⟩

/-- The same of the client, and its buffer. -/
structure Unread (before after : OkxWsClient) : Prop where
  keeps : Keeps before.state after.state
  buffer : after.buffer = before.buffer

theorem Unread.refl (client : OkxWsClient) : Unread client client := ⟨Keeps.refl _, rfl⟩

theorem Unread.trans (first second third : OkxWsClient) (early : Unread first second) (late : Unread second third) :
    Unread first third :=
  ⟨early.keeps.trans _ _ _ late.keeps, late.buffer.trans early.buffer⟩

theorem unread_onState {program : LinkM PUnit} (moves : Moves Keeps program) : Moves Unread (Receiver.onState program) :=
  (Receiver.moves_onState moves).imp fun _ _ moved => ⟨moved.1, moved.2⟩

/-- An input that neither connects nor delivers bytes. -/
def Input.isQuiet : Input → Bool
  | .connect _ | .readDone _ _ (.ok _) => false
  | .send _ _ | .beginBatch | .endBatch | .heartbeat | .scheduleReconnect | .readDone _ _ (.error _) | .writeDone _ _ =>
      true

theorem unread_step {input : Input} (quiet : input.isQuiet = true) : Moves Unread (step input) := by
  cases input with
  | send payload trace => exact unread_onState ((sends_send payload trace).imp Sends.keeps)
  | beginBatch => exact unread_onState (sends_beginBatch.imp Sends.keeps)
  | endBatch => exact unread_onState (sends_endBatch.imp Sends.keeps)
  | heartbeat => exact unread_onState (sends_heartbeat.imp Sends.keeps)
  | scheduleReconnect => exact unread_onState keeps_scheduleReconnect
  | connect attempt => cases quiet
  | readDone index onMessage result =>
      cases result with
      | ok bytes => cases quiet
      | error message =>
          refine moves_bind Unread.trans (moves_get Unread.refl) fun client => ?_
          split
          · exact moves_pure Unread.refl _
          · exact moves_bind Unread.trans (unread_onState (moves_modify _ fun _ => ⟨rfl, rfl, rfl, rfl, rfl⟩))
              fun _ => unread_onState keeps_scheduleReconnect
  | writeDone index failed =>
      refine moves_bind Unread.trans (moves_get Unread.refl) fun client => ?_
      split
      · exact moves_pure Unread.refl _
      · exact moves_bind Unread.trans (unread_onState (moves_modify _ fun _ => ⟨rfl, rfl, rfl, rfl, rfl⟩))
          fun _ => unread_onState (keeps_onWriteDone _ _)

/-- Connecting empties the buffer, and keeps the rest. -/
theorem keeps_tryConnect (attempt : Attempt) :
    Moves (fun before after : OkxWsClient => Keeps before.state after.state) (tryConnect attempt) := by
  have onState {program : LinkM PUnit} (moves : Moves Keeps program) :
      Moves (fun before after : OkxWsClient => Keeps before.state after.state) (Receiver.onState program) :=
    (unread_onState moves).imp fun _ _ unread => unread.keeps
  have transitive (first second third : OkxWsClient) (early : Keeps first.state second.state)
      (late : Keeps second.state third.state) : Keeps first.state third.state := early.trans _ _ _ late
  refine moves_bind transitive (onState (keeps_emplaceTransport _)) fun _ => ?_
  refine moves_bind transitive (onState ((moves_handshake _).imp fun _ _ same => same ▸ Keeps.refl _)) fun _ => ?_
  refine moves_bind transitive (moves_modify _ fun client => Keeps.refl client.state) fun _ => ?_
  refine moves_bind transitive (onState keeps_signIn) fun _ => ?_
  exact moves_bind transitive (onState ((sends_acts _).imp Sends.keeps)) fun _ => onState keeps_readLoop

/-!
## Rules for what is on the wire
-/

/-- A change beside the ring and its history, the writes, the transport and the traces. -/
structure Beside (before after : Link) : Prop where
  txRing : after.txRing = before.txRing
  writeInFlight : after.writeInFlight = before.writeInFlight
  transport : after.transport = before.transport
  opened : after.opened = before.opened
  pendingWrites : after.pendingWrites = before.pendingWrites
  pendingSendTraces : after.pendingSendTraces = before.pendingSendTraces
  resolved : after.resolved = before.resolved
  wire : after.wire = before.wire

/-- A relation that queueing a frame and starting a write stay within, and every change
beside them. All sending and handling of frames then stays within it. -/
structure WireRules (relation : Link → Link → Prop) : Prop where
  refl : ∀ link, relation link link
  trans : ∀ first second third, relation first second → relation second third → relation first third
  beside : ∀ before after, Beside before after → relation before after
  queue : ∀ link frame ring trace, link.txRing.write frame = .ok ring → relation link (queued link ring frame trace)
  start : ∀ link, link.writeInFlight = false → relation link (started link)

namespace WireRules

variable {relation : Link → Link → Prop} (rules : WireRules relation)
include rules

theorem startedIf {idle : Bool} {link : Link} (free : idle = true → link.writeInFlight = false) :
    relation link (Ws.startedIf idle link) := by
  cases idle with
  | true => exact rules.start link (free rfl)
  | false => exact rules.refl link

theorem modify (update : Link → Link) (beside : ∀ link, Beside link (update link)) :
    Moves relation (modify update : LinkM PUnit) :=
  moves_modify _ fun link => rules.beside _ _ (beside link)

theorem encode (opcode : WebSocketOpcode) (payload : Bytes) : Moves relation (Ws.encode opcode payload) := by
  intro link
  rw [run_encode]
  cases link.maskKeys link.masked <;> exact rules.beside _ _ ⟨rfl, rfl, rfl, rfl, rfl, rfl, rfl, rfl⟩

theorem writeRaw (frame : Bytes) (trace : Option TickToTradeTrace) : Moves relation (Ws.writeRaw frame trace) := by
  intro link
  rw [run_writeRaw]
  cases written : link.txRing.write frame with
  | error exception => exact rules.refl link
  | ok ring =>
      refine rules.trans _ _ _ (rules.queue link frame ring trace written) (rules.startedIf fun idle => ?_)
      simp only [Bool.and_eq_true, Bool.not_eq_true'] at idle
      exact idle.1

theorem send (payload : Bytes) (trace : Option TickToTradeTrace) : Moves relation (Ws.send payload trace) :=
  moves_bind rules.trans (rules.encode _ _) fun _ => rules.writeRaw _ _

theorem endBatch : Moves relation Ws.endBatch := by
  intro link
  rw [run_endBatch]
  have ended : relation link { link with batching := false } := rules.beside _ _ ⟨rfl, rfl, rfl, rfl, rfl, rfl, rfl, rfl⟩
  exact rules.trans _ _ _ ended (rules.startedIf fun idle => by simpa using idle)

theorem act (action : Action) : Moves relation (Ws.act action) := by
  cases action with
  | send payload trace => exact rules.send payload trace
  | beginBatch => exact rules.modify _ fun _ => ⟨rfl, rfl, rfl, rfl, rfl, rfl, rfl, rfl⟩
  | endBatch => exact rules.endBatch
  | raise exception => exact moves_throw rules.refl exception

theorem acts (actions : List Action) : Moves relation (forM actions Ws.act) :=
  moves_forM rules.refl rules.trans fun action _ => rules.act action

theorem heartbeat : Moves relation Ws.heartbeat := by
  refine moves_bind rules.trans (moves_get rules.refl) fun link => ?_
  split
  · exact moves_pure rules.refl _
  · exact moves_bind rules.trans (rules.encode _ _) fun _ => rules.writeRaw _ _

theorem dispatchMessage (message : Bytes) : Moves relation (Ws.dispatchMessage message) := by
  intro link
  rw [run_dispatchMessage]
  have noted : relation link (Ws.noted message link) := by
    refine rules.beside _ _ ?_
    unfold Ws.noted noteLogin
    split <;> exact ⟨rfl, rfl, rfl, rfl, rfl, rfl, rfl, rfl⟩
  exact rules.trans _ _ _ noted (rules.acts _ _)

theorem handleFrame (frame : WebSocketFrame) : Moves relation (Ws.handleFrame frame) :=
  moves_handleFrame rules.refl rules.trans rules.encode (fun frame => rules.writeRaw frame none) rules.dispatchMessage
    (fun _ _ => rules.beside _ _ ⟨rfl, rfl, rfl, rfl, rfl, rfl, rfl, rfl⟩) frame

theorem signIn : Moves relation Ws.signIn := by
  refine moves_bind rules.trans (rules.modify _ fun _ => ⟨rfl, rfl, rfl, rfl, rfl, rfl, rfl, rfl⟩) fun _ => ?_
  refine moves_bind rules.trans (moves_get rules.refl) fun link => ?_
  split
  · exact rules.modify _ fun _ => ⟨rfl, rfl, rfl, rfl, rfl, rfl, rfl, rfl⟩
  · split
    · refine moves_bind rules.trans (moves_get rules.refl) fun link => ?_
      cases link.auth with
      | none => exact moves_throw rules.refl _
      | some auth => exact rules.send _ _
    · exact moves_pure rules.refl _

theorem readLoop : Moves relation Ws.readLoop := by
  refine moves_modify _ fun link => ?_
  cases current : link.transport with
  | none => exact rules.refl link
  | some transport => exact rules.beside _ _ ⟨rfl, rfl, current.symm, rfl, rfl, rfl, rfl, rfl⟩

theorem tryConnect (emplaces : ∀ link, relation link (emplaced link)) (attempt : Attempt) :
    Moves (fun before after : OkxWsClient => relation before.state after.state) (Ws.tryConnect attempt) := by
  have onState {program : LinkM PUnit} (moves : Moves relation program) :
      Moves (fun before after : OkxWsClient => relation before.state after.state) (Receiver.onState program) :=
    (Receiver.moves_onState moves).imp fun _ _ moved => moved.1
  have transitive (first second third : OkxWsClient) := rules.trans first.state second.state third.state
  refine moves_bind transitive (onState ((moves_emplaceTransport _).imp fun _ _ same => same ▸ emplaces _)) fun _ => ?_
  refine moves_bind transitive (onState ((moves_handshake _).imp fun _ _ same => same ▸ rules.refl _)) fun _ => ?_
  refine moves_bind transitive (moves_modify _ fun client => rules.refl client.state) fun _ => ?_
  refine moves_bind transitive (onState rules.signIn) fun _ => ?_
  exact moves_bind transitive (onState (rules.acts _)) fun _ => onState rules.readLoop

end WireRules

/-!
## Samples
-/

/-- A private client; the masking key is always the same. -/
def sampleClient : OkxWsClient :=
  initial "host".toList "/ws/v5/private".toList (some ⟨fun _ => "login".toList, fun _ => []⟩) .kJson
    (fun _ => some #v[1, 2, 3, 4]) fun reading => reading

def sampleResponse : Bytes :=
  toBytes "HTTP/1.1 101 Switching Protocols\r\nSec-WebSocket-Accept: accept\r\n\r\n".toList

/-- An attempt that succeeds. -/
def sampleAttempt : Attempt := ⟨none, some (toBytes "key".toList), fun _ => toBytes "accept".toList, [sampleResponse], []⟩

end TradingEngine.Ws
