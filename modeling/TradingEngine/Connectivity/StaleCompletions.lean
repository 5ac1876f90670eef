import TradingEngine.Connectivity.ConnectionHistory
import TradingEngine.Connectivity.OrderedTransmission

/-! Completions of transports that are gone. The handlers work on whatever connection
is current, so the ring and the login state can be trusted only while every completion
is delivered before its transport is torn down. -/

set_option autoImplicit false

namespace TradingEngine.Ws

open Library.Exec Library.StreamDecoder Transmission

/-- A completion is delivered only while its transport is the current one. -/
def OfConnection (client : OkxWsClient) : Input → Prop
  | .readDone index _ _ => (client.state.pendingReads[index]?).all (client.state.transport = some ·)
  | .writeDone index _ => (client.state.pendingWrites[index]?).all fun write =>
      client.state.transport = some write.transport
  | .send _ _ | .beginBatch | .endBatch | .heartbeat | .scheduleReconnect | .connect _ => True

/-- The state a completion of a dead connection must not touch. -/
structure Untouched (before after : OkxWsClient) : Prop where
  txRing : after.state.txRing = before.state.txRing
  rxBuffer : after.buffer = before.buffer
  reassembler : after.state.reassembler = before.state.reassembler
  authenticated : after.state.authenticated = before.state.authenticated
  writeInFlight : after.state.writeInFlight = before.state.writeInFlight
  reconnectAttempt : after.state.reconnectAttempt = before.state.reconnectAttempt

/-- A JSON endpoint counts as authenticated only after a login success on the current
transport. -/
def LoggedIn (link : Link) : Prop :=
  link.kind = .kJson → link.authenticated = true →
    ∃ transport message, link.transport = some transport ∧ (transport, message) ∈ link.dispatched ∧
      isLoginSuccess message = true

structure Sound (client : OkxWsClient) : Prop where
  capacity : client.state.txRing.size ≤ kTxRingCapacity
  login : LoggedIn client.state

/-!
## The ring
-/

/-- At most one write is outstanding on the current transport, and while it is, no other
is started. After a `Connect` on top of a live connection none may be. -/
structure RingInv (link : Link) : Prop where
  valid : link.txRing.Valid
  flight : outstanding link = [] ∨
    link.writeInFlight = true ∧ ∃ write, outstanding link = [write] ∧ Oldest link.txRing write.region
  known : ∀ transport, link.transport = some transport → transport < link.opened
  writes : ∀ write ∈ link.pendingWrites, write.transport < link.opened ∧ write.region.size ≤ kTxRingCapacity

/-- The link when a pending write is taken out to be completed. -/
def erased (index : Nat) (link : Link) : Link := { link with pendingWrites := link.pendingWrites.eraseIdx index }

theorem run_writeDone {index : Nat} {write : PendingWrite} {failed : Bool} {client : OkxWsClient}
    (pending : client.state.pendingWrites[index]? = some write) :
    step (.writeDone index failed) client =
      Receiver.onState (onWriteDone write.region.size failed) ⟨client.buffer, erased index client.state⟩ := by
  rw [step, run_bind_ok (run_get _), pending]
  dsimp only
  rw [run_bind_ok (Receiver.run_onState (run_modify _ _))]
  rfl

namespace RingInv

theorem free {link : Link} (inv : RingInv link) (idle : link.writeInFlight = false) : outstanding link = [] := by
  rcases inv.flight with none | ⟨busy, -⟩
  · exact none
  · rw [idle] at busy
    cases busy

theorem started {link : Link} (inv : RingInv link) (free : outstanding link = []) : RingInv (Ws.started link) := by
  cases current : link.transport with
  | none =>
      have same : Ws.started link = link := by rw [Ws.started, current]
      rw [same]
      exact inv
  | some transport =>
      obtain ⟨ring, sameTransport, busy⟩ := started_fields (by rw [current]; rfl : link.transport.isSome = true)
      have writes : (Ws.started link).pendingWrites =
          link.pendingWrites ++ [⟨transport, link.txRing.contiguousReadableRegion⟩] := by rw [Ws.started, current]
      have opened := (Sends.started link).opened
      refine ⟨ring ▸ inv.valid, .inr ⟨busy, ?_⟩, ?_, ?_⟩
      · rw [outstanding_started current, free, ring]
        exact ⟨_, rfl, oldest_readable inv.valid⟩
      · rw [sameTransport, opened]
        exact inv.known
      · rw [writes, opened]
        intro write member
        rcases List.mem_append.mp member with earlier | new
        · exact inv.writes write earlier
        · rw [List.mem_singleton] at new
          subst new
          exact ⟨inv.known transport current, (Nat.min_le_left _ _).trans inv.valid.size⟩

theorem queued {link : Link} (inv : RingInv link) {ring : RingBuffer kTxRingCapacity} {frame : Bytes}
    (appends : link.txRing.Appends frame ring) (trace : Option TickToTradeTrace) : RingInv (Ws.queued link ring frame trace) where
  valid := appends.valid
  flight := inv.flight.imp_right fun ⟨busy, write, only, oldest⟩ => ⟨busy, write, only, oldest.append appends⟩
  known := inv.known
  writes := inv.writes

theorem emplaced {link : Link} (inv : RingInv link) : RingInv (Ws.emplaced link) where
  valid := inv.valid
  flight := by
    refine .inl (List.filter_eq_nil_iff.mpr fun write member => ?_)
    have older := (inv.writes write member).1
    simp only [Ws.emplaced, Option.some.injEq, decide_eq_true_eq]
    omega
  known := by
    intro transport current
    simp only [Ws.emplaced, Option.some.injEq] at current ⊢
    omega
  writes := fun write member => ⟨Nat.lt_succ_of_lt (inv.writes write member).1, (inv.writes write member).2⟩

/-- The write that completes is the outstanding one. -/
theorem written {link next : Link} (inv : RingInv link) {index : Nat} {write : PendingWrite}
    (here : link.pendingWrites[index]? = some write) (mine : link.transport = some write.transport)
    (ran : onWriteDone write.region.size false (erased index link) = .ok .unit next) : RingInv next := by
  have member : write ∈ outstanding link :=
    List.mem_filter.mpr ⟨List.mem_of_getElem? here, by simpa using mine⟩
  rcases inv.flight with none | ⟨-, other, only, oldest⟩
  · rw [none] at member
    cases member
  · obtain ⟨rfl, free⟩ := outstanding_eraseIdx here mine only
    have after : RingInv (committed (erased index link) write.region.size) :=
      ⟨(inv.valid.commitRead oldest.within).1, .inl free, inv.known,
        fun write member => inv.writes write (List.mem_of_mem_eraseIdx member)⟩
    rw [run_onWriteDone] at ran
    split at ran
    · cases ran
      exact after.started free
    · cases ran
      exact ⟨after.valid, .inl free, after.known, after.writes⟩

end RingInv

/-- The program keeps the invariant of the ring, whether it returns or throws. -/
abbrev KeepsRing {α : Type} (program : LinkM α) : Prop := Moves (Kept RingInv) program

theorem ringRules : WireRules (Kept RingInv) where
  refl := Kept.refl
  trans := Kept.trans
  beside := by
    intro before after beside inv
    have sameOutstanding : outstanding after = outstanding before := by
      rw [outstanding, outstanding, beside.transport, beside.pendingWrites]
    refine ⟨beside.txRing ▸ inv.valid, ?_, ?_, ?_⟩
    · rw [sameOutstanding, beside.writeInFlight, beside.txRing]
      exact inv.flight
    · rw [beside.transport, beside.opened]
      exact inv.known
    · rw [beside.pendingWrites, beside.opened]
      exact inv.writes
  queue := fun _ _ _ trace written inv => inv.queued (inv.valid.write_ok written).2 trace
  start := fun _ idle inv => inv.started (inv.free idle)

/-- With the transport its writes are gone. -/
theorem ringInv_scheduleReconnect {link next : Link} (valid : link.txRing.Valid)
    (writes : ∀ write ∈ link.pendingWrites, write.transport < link.opened ∧ write.region.size ≤ kTxRingCapacity)
    (ran : scheduleReconnect link = .ok .unit next) : RingInv next := by
  cases ran
  refine ⟨valid.reset, .inl ?_, (fun _ gone => by cases gone), writes⟩
  exact List.filter_eq_nil_iff.mpr fun write _ => by simp

/-!
## The login
-/

theorem LoggedIn.sends {before after : Link} (login : LoggedIn before) (sends : Sends before after) : LoggedIn after := by
  rw [LoggedIn, sends.kind, sends.authenticated, sends.transport, sends.dispatched]
  exact login

/-- The link reads from its current transport. -/
structure Listening (link : Link) : Prop where
  source : link.transport = some link.source
  login : LoggedIn link

theorem Listening.sends {before after : Link} (sends : Sends before after) (listening : Listening before) :
    Listening after :=
  ⟨by rw [sends.transport, sends.source]; exact listening.source, listening.login.sends sends⟩

/-- A message that turns `authenticated` on is a login success of the current transport. -/
theorem Listening.noted {link : Link} (listening : Listening link) (message : Bytes) : Listening (noted message link) := by
  obtain ⟨source, login⟩ := listening
  unfold Ws.noted noteLogin
  split
  · rename_i event
    simp only [Bool.and_eq_true, decide_eq_true_eq] at event
    refine ⟨source, fun _ success => ⟨link.source, message, source, List.mem_append_right _ List.mem_cons_self, ?_⟩⟩
    simp only [decide_eq_true_eq] at success
    rw [isLoginSuccess, event.2, success]
    rfl
  · refine ⟨source, fun kind authenticated => ?_⟩
    obtain ⟨transport, earlier, current, member, success⟩ := login kind authenticated
    exact ⟨transport, earlier, current, List.mem_append_left _ member, success⟩

theorem listening_handleFrame (frame : WebSocketFrame) : Moves (Kept Listening) (handleFrame frame) := by
  have sends {α : Type} {program : LinkM α} (moves : Moves Sends program) : Moves (Kept Listening) program :=
    moves.imp fun _ _ sends => Listening.sends sends
  refine moves_handleFrame Kept.refl Kept.trans (fun _ _ => sends (sends_encode _ _))
    (fun _ => sends (sends_writeRaw _ _)) (fun message link listening => ?_)
    (fun _ _ listening => ⟨listening.source, listening.login⟩) frame
  rw [run_dispatchMessage]
  exact Listening.sends (sends_acts _ _) (listening.noted message)

/-- Connecting starts without a login. -/
theorem signIn_ok {link next : Link} (ran : signIn link = .ok .unit next) : LoggedIn next := by
  rw [signIn, run_bind_ok (run_modify _ _), run_bind_ok (run_get _)] at ran
  have out : LoggedIn { link with reconnectAttempt := 0, authenticated := false } := fun _ off => by cases off
  split at ran
  · rename_i sbe
    cases ran
    intro json
    have sbe : link.kind = .kSbe := sbe
    have json : link.kind = .kJson := json
    rw [sbe] at json
    cases json
  · split at ran
    · exact out.sends (sends_sendLogin.ok ran)
    · cases ran
      exact out

theorem loggedIn_readLoop {link next : Link} (login : LoggedIn link) (ran : readLoop link = .ok .unit next) :
    LoggedIn next := by
  cases current : link.transport with
  | none =>
      have same : readLoop link = .ok .unit link := by simp only [readLoop, run_modify, current]
      rw [same] at ran
      cases ran
      exact login
  | some transport =>
      rw [run_readLoop current] at ran
      cases ran
      exact login

theorem tryConnect_loggedIn {attempt : Attempt} {client next : OkxWsClient}
    (ran : tryConnect attempt client = .ok .unit next) : LoggedIn next.state := by
  rw [tryConnect] at ran
  obtain ⟨_, _, -, ran⟩ := of_bind_ok ran
  obtain ⟨_, _, -, ran⟩ := of_bind_ok ran
  rw [run_bind_ok (run_modify _ _)] at ran
  obtain ⟨_, signed, signIn, ran⟩ := of_bind_ok ran
  obtain ⟨_, acted, acts, looped⟩ := of_bind_ok ran
  have login := signIn_ok (Receiver.onState_ok signIn).1
  exact loggedIn_readLoop (login.sends ((sends_acts _).ok (Receiver.onState_ok acts).1)) (Receiver.onState_ok looped).1

theorem LoggedIn.written {link next : Link} {bytesWritten : Nat} (login : LoggedIn link)
    (ran : onWriteDone bytesWritten false link = .ok .unit next) : LoggedIn next := by
  have commits : LoggedIn (committed link bytesWritten) := login
  rw [run_onWriteDone] at ran
  split at ran
  · cases ran
    exact commits.sends (.started _)
  · cases ran
    exact commits

theorem scheduleReconnect_loggedIn {link next : Link} (ran : scheduleReconnect link = .ok .unit next) :
    LoggedIn next := by
  cases ran
  exact fun _ off => by cases off

/-!
## Runs
-/

structure ClientInv (link : Link) : Prop where
  ring : RingInv link
  login : LoggedIn link

namespace ClientInv

/-- An input that only sends. -/
theorem sent {client next : OkxWsClient} {program : LinkM PUnit} (inv : ClientInv client.state)
    (keeps : KeepsRing program) (sends : Moves Sends program)
    (ran : Receiver.onState program client = .ok .unit next) : ClientInv next.state := by
  obtain ⟨ran, -⟩ := Receiver.onState_ok ran
  exact ⟨keeps.ok ran inv.ring, inv.login.sends (sends.ok ran)⟩

theorem reconnects {link next : Link} (valid : link.txRing.Valid)
    (writes : ∀ write ∈ link.pendingWrites, write.transport < link.opened ∧ write.region.size ≤ kTxRingCapacity)
    (ran : scheduleReconnect link = .ok .unit next) : ClientInv next :=
  ⟨ringInv_scheduleReconnect valid writes ran, scheduleReconnect_loggedIn ran⟩

theorem connects {client next : OkxWsClient} (inv : ClientInv client.state) {attempt : Attempt}
    (ran : connect attempt client = .ok .unit next) : ClientInv next.state := by
  have ring := ringRules.tryConnect (fun _ inv => inv.emplaced) attempt client inv.ring
  unfold connect at ran
  split at ran
  · rename_i connected
    rw [connected] at ring
    cases ran
    exact ⟨ring, tryConnect_loggedIn connected⟩
  · cases ran
  all_goals
    rename_i failed
    rw [failed] at ring
    exact reconnects ring.valid ring.writes (Receiver.onState_ok ran).1

theorem handles {link next : Link} {frames : List WebSocketFrame} (ring : RingInv link) (listening : Listening link)
    (ran : (forM frames handleFrame) link = .ok .unit next) : ClientInv next :=
  ⟨(moves_forM Kept.refl Kept.trans fun frame _ => ringRules.handleFrame frame).ok ran ring,
    ((moves_forM Kept.refl Kept.trans fun frame _ => listening_handleFrame frame).ok ran listening).login⟩

theorem reads {client next : OkxWsClient} (inv : ClientInv client.state) {index source : Nat}
    {onMessage : List (List Action)} {result : Except Text Bytes}
    (pending : client.state.pendingReads[index]? = some source) (current : client.state.transport = some source)
    (ran : step (.readDone index onMessage result) client = .ok .unit next) : ClientInv next.state := by
  have ring : RingInv (handling index source onMessage client.state) :=
    ⟨inv.ring.valid, inv.ring.flight, inv.ring.known, inv.ring.writes⟩
  cases result with
  | ok bytes =>
      rw [run_readDone pending] at ran
      obtain ⟨_, middle, received, looped⟩ := of_bind_ok ran
      obtain ⟨frames, -, handled⟩ := receive_ok frameDecoder received
      have after := handles ring ⟨current, inv.login⟩ handled
      obtain ⟨looped, -⟩ := Receiver.onState_ok looped
      exact ⟨ringRules.readLoop.ok looped after.ring, loggedIn_readLoop after.login looped⟩
  | error message =>
      rw [step, run_bind_ok (run_get _), pending] at ran
      dsimp only at ran
      rw [run_bind_ok (Receiver.run_onState (run_modify _ _)), onReadDone] at ran
      exact reconnects (by exact ring.valid) (by exact ring.writes) (Receiver.onState_ok ran).1

theorem writes {client next : OkxWsClient} (inv : ClientInv client.state) {index : Nat} {write : PendingWrite}
    {failed : Bool} (pending : client.state.pendingWrites[index]? = some write)
    (current : client.state.transport = some write.transport)
    (ran : step (.writeDone index failed) client = .ok .unit next) : ClientInv next.state := by
  rw [run_writeDone pending] at ran
  obtain ⟨ran, -⟩ := Receiver.onState_ok ran
  cases failed with
  | true =>
      have others (write : PendingWrite) (member : write ∈ (erased index client.state).pendingWrites) :=
        inv.ring.writes write (List.mem_of_mem_eraseIdx member)
      exact reconnects (by exact inv.ring.valid) others ran
  | false => exact ⟨inv.ring.written pending current ran, LoggedIn.written (by exact inv.login) ran⟩

theorem step {client next : OkxWsClient} {input : Input} (inv : ClientInv client.state)
    (admitted : OfConnection client input) (ran : Ws.step input client = .ok .unit next) : ClientInv next.state := by
  cases input with
  | send payload trace => exact inv.sent (ringRules.send _ _) (sends_send _ _) ran
  | beginBatch => exact inv.sent (ringRules.act .beginBatch) sends_beginBatch ran
  | endBatch => exact inv.sent ringRules.endBatch sends_endBatch ran
  | heartbeat => exact inv.sent ringRules.heartbeat sends_heartbeat ran
  | scheduleReconnect =>
      rw [Ws.step] at ran
      exact reconnects inv.ring.valid inv.ring.writes (Receiver.onState_ok ran).1
  | connect attempt => exact inv.connects ran
  | readDone index onMessage result =>
      cases pending : client.state.pendingReads[index]? with
      | none =>
          rw [Ws.step, run_bind_ok (run_get _), pending] at ran
          cases ran
          exact inv
      | some source =>
          rw [OfConnection, pending, Option.all_some, decide_eq_true_eq] at admitted
          exact inv.reads pending admitted ran
  | writeDone index failed =>
      cases pending : client.state.pendingWrites[index]? with
      | none =>
          rw [Ws.step, run_bind_ok (run_get _), pending] at ran
          cases ran
          exact inv
      | some write =>
          rw [OfConnection, pending, Option.all_some, decide_eq_true_eq] at admitted
          exact inv.writes pending admitted ran

theorem initially (host path : Text) (auth : Option OkxAuth) (kind : WsEndpointKind) (maskKeys : Nat → Option MaskKey)
    (counter : Nat → Int) : ClientInv (initial host path auth kind maskKeys counter).state where
  ring := ⟨RingBuffer.valid_empty (by decide) (by decide), .inl rfl, nofun, nofun⟩
  login := fun _ off => by cases off

end ClientInv

/-!
## Frames read late
-/

def isPong (frame : WebSocketFrame) : Bool := frame.header.opcode = .kPong || isOkxPong frame

/-- A frame that is a message by itself. -/
def isMessage (frame : WebSocketFrame) : Bool :=
  controlReply frame.header.opcode = none && !isPong frame && frame.header.opcode ≠ .kContinuation && frame.header.fin

/-- The success of a login that is waited for. -/
def logsIn (link : Link) (frame : WebSocketFrame) : Bool :=
  link.auth.isSome && !link.authenticated && isMessage frame && isLoginSuccess frame.payload

/-- A frame that is answered, or logs the client in. -/
def alters (link : Link) (frame : WebSocketFrame) : Bool :=
  (controlReply frame.header.opcode).isSome || logsIn link frame

/-- A frame that is neither answered nor gathered nor logs the client in. -/
def isSilent (link : Link) (frame : WebSocketFrame) : Bool := (isPong frame || isMessage frame) && !logsIn link frame

theorem run_handleFrame_pong {frame : WebSocketFrame} (pong : isPong frame = true) (link : Link) :
    handleFrame frame link = .ok .unit link := by
  have unanswered : controlReply frame.header.opcode = none := by
    simp only [isPong, isOkxPong, Bool.or_eq_true, Bool.and_eq_true, decide_eq_true_eq] at pong
    rcases pong with pong | ⟨text, -⟩
    · rw [pong]
      rfl
    · rw [text]
      rfl
  rw [handleFrame, buildControlResponse, unanswered, pure_bind]
  dsimp only
  rw [if_pos (by exact pong)]
  rfl

theorem run_handleFrame_message {frame : WebSocketFrame} (message : isMessage frame = true) (link : Link) :
    handleFrame frame link = dispatchMessage frame.payload link := by
  simp only [isMessage, Bool.and_eq_true, decide_eq_true_eq, Bool.not_eq_true'] at message
  obtain ⟨⟨⟨unanswered, notPong⟩, starts⟩, whole⟩ := message
  rw [handleFrame, buildControlResponse, unanswered, pure_bind]
  dsimp only
  rw [if_neg (by rw [← isPong, notPong]; decide), handleData, if_neg starts, whole, if_neg (by decide)]

/-- The links agree in what a late read must leave alone, and in what it depends on. -/
structure Alike (before after : Link) : Prop where
  txRing : after.txRing = before.txRing
  reassembler : after.reassembler = before.reassembler
  auth : after.auth = before.auth
  authenticated : after.authenticated = before.authenticated
  writeInFlight : after.writeInFlight = before.writeInFlight
  reconnectAttempt : after.reconnectAttempt = before.reconnectAttempt

theorem Alike.refl (link : Link) : Alike link link := ⟨rfl, rfl, rfl, rfl, rfl, rfl⟩

theorem Alike.trans {first second third : Link} (early : Alike first second) (late : Alike second third) :
    Alike first third :=
  ⟨late.txRing.trans early.txRing, late.reassembler.trans early.reassembler, late.auth.trans early.auth,
    late.authenticated.trans early.authenticated, late.writeInFlight.trans early.writeInFlight,
    late.reconnectAttempt.trans early.reconnectAttempt⟩

theorem Alike.isSilent {before after : Link} (alike : Alike before after) (frame : WebSocketFrame) :
    isSilent after frame = isSilent before frame := by
  unfold Ws.isSilent logsIn
  rw [alike.auth, alike.authenticated]

theorem alike_readLoop {link next : Link} (ran : readLoop link = .ok .unit next) : Alike link next := by
  cases ran
  cases current : link.transport <;> exact ⟨by simp [current], by simp [current], by simp [current], by simp [current],
    by simp [current], by simp [current]⟩

/-- The message is no login success, or the client does not wait for one. -/
theorem alike_noted {link : Link} {frame : WebSocketFrame} (message : isMessage frame = true)
    (silent : logsIn link frame = false) : Alike link (noted frame.payload link) := by
  unfold noted noteLogin
  split
  · rename_i event
    simp only [Bool.and_eq_true, decide_eq_true_eq, Bool.not_eq_true'] at event
    refine ⟨rfl, rfl, rfl, ?_, rfl, rfl⟩
    have failed : isLoginSuccess frame.payload = false := by
      simpa [logsIn, event.1.1, event.1.2, message] using silent
    rw [isLoginSuccess, event.2, decide_eq_true rfl, Bool.true_and] at failed
    exact failed.trans event.1.2.symm
  · exact ⟨rfl, rfl, rfl, rfl, rfl, rfl⟩

/-- Silent frames, for which the handler does nothing, leave the fields alone. -/
theorem alike_frames {frames : List WebSocketFrame} {link next : Link} (idle : ∀ actions ∈ link.onMessage, actions = [])
    (silent : ∀ frame ∈ frames, isSilent link frame = true) (ran : (forM frames handleFrame) link = .ok .unit next) :
    Alike link next := by
  induction frames generalizing link with
  | nil =>
      cases ran
      exact .refl _
  | cons frame frames ih =>
      rw [List.forM_cons] at ran
      obtain ⟨_, middle, handled, ran⟩ := of_bind_ok ran
      have first := silent frame List.mem_cons_self
      simp only [isSilent, Bool.and_eq_true, Bool.or_eq_true, Bool.not_eq_true'] at first
      have alike : Alike link middle ∧ ∀ actions ∈ middle.onMessage, actions = [] := by
        rcases first with ⟨pong | message, quiet⟩
        · rw [run_handleFrame_pong pong] at handled
          cases handled
          exact ⟨.refl _, idle⟩
        · have none : link.onMessage.headD [] = [] := by
            cases handlers : link.onMessage with
            | nil => rfl
            | cons actions later => exact idle actions (by rw [handlers]; exact List.mem_cons_self)
          rw [run_handleFrame_message message, run_dispatchMessage, none] at handled
          cases handled
          exact ⟨alike_noted message quiet, fun actions member => idle actions (List.mem_of_mem_tail member)⟩
      refine alike.1.trans (ih alike.2 (fun later member => ?_) ran)
      rw [alike.1.isSilent]
      exact silent later (List.mem_cons_of_mem _ member)

/-- What a read never undoes. -/
structure Onward (before after : Link) : Prop where
  ring : before.txRing.Valid → after.txRing.Valid ∧ before.txRing.size ≤ after.txRing.size
  auth : after.auth = before.auth
  authenticated : before.authenticated = true → after.authenticated = true

theorem Onward.refl (link : Link) : Onward link link := ⟨fun valid => ⟨valid, le_rfl⟩, rfl, id⟩

theorem Onward.trans {first second third : Link} (early : Onward first second) (late : Onward second third) :
    Onward first third :=
  ⟨fun valid => ⟨(late.ring (early.ring valid).1).1, (early.ring valid).2.trans (late.ring (early.ring valid).1).2⟩,
    late.auth.trans early.auth, late.authenticated ∘ early.authenticated⟩

theorem Onward.sends {before after : Link} (sends : Sends before after)
    (ring : before.txRing.Valid → after.txRing.Valid ∧ before.txRing.size ≤ after.txRing.size) : Onward before after :=
  ⟨ring, sends.auth, fun on => sends.authenticated.trans on⟩

theorem growRules : WireRules fun before after : Link =>
    before.txRing.Valid → after.txRing.Valid ∧ before.txRing.size ≤ after.txRing.size where
  refl _ valid := ⟨valid, le_rfl⟩
  trans _ _ _ early late valid :=
    ⟨(late (early valid).1).1, (early valid).2.trans (late (early valid).1).2⟩
  beside before after same valid := by
    rw [same.txRing]
    exact ⟨valid, le_rfl⟩
  queue link frame ring trace written valid := by
    obtain ⟨-, appends⟩ := valid.write_ok written
    exact ⟨appends.valid, by rw [queued, appends.size]; exact Nat.le_add_right _ _⟩
  start link _ valid := by
    rw [show (started link).txRing = link.txRing from startedIf_txRing true link]
    exact ⟨valid, le_rfl⟩

theorem onward_noted (message : Bytes) (link : Link) : Onward link (noted message link) := by
  unfold noted noteLogin
  split
  · rename_i event
    simp only [Bool.and_eq_true, Bool.not_eq_true'] at event
    refine ⟨fun valid => ⟨valid, le_rfl⟩, rfl, fun on => ?_⟩
    rw [show link.authenticated = false from event.1.2] at on
    cases on
  · exact ⟨fun valid => ⟨valid, le_rfl⟩, rfl, id⟩

theorem onward_handleFrame (frame : WebSocketFrame) : Moves Onward (handleFrame frame) := by
  refine moves_handleFrame Onward.refl (fun _ _ _ => Onward.trans)
    (fun opcode payload link => .sends (sends_encode opcode payload link) (growRules.encode opcode payload link))
    (fun reply link => .sends (sends_writeRaw reply none link) (growRules.writeRaw reply none link))
    (fun message link => ?_) (fun _ _ => ⟨fun valid => ⟨valid, le_rfl⟩, rfl, id⟩) frame
  rw [run_dispatchMessage]
  exact (onward_noted message link).trans (.sends (sends_acts _ _) (growRules.acts _ _))

theorem onward_frames (frames : List WebSocketFrame) : Moves Onward (forM frames handleFrame) :=
  moves_forM Onward.refl (fun _ _ _ => Onward.trans) fun frame _ => onward_handleFrame frame

/-- The answer to a frame is left in the ring. -/
theorem answered_grows {frame : WebSocketFrame} {link next : Link} (valid : link.txRing.Valid)
    (answered : (controlReply frame.header.opcode).isSome = true) (ran : handleFrame frame link = .ok .unit next) :
    link.txRing.size < next.txRing.size := by
  obtain ⟨opcode, reply⟩ := Option.isSome_iff_exists.mp answered
  rw [handleFrame, buildControlResponse, reply, bind_assoc] at ran
  obtain ⟨response, keyed, encoded, ran⟩ := of_bind_ok ran
  rw [run_encode] at encoded
  split at encoded
  · cases encoded
  · rename_i key drawn
    cases encoded
    rw [pure_bind] at ran
    dsimp only at ran
    rw [run_writeRaw] at ran
    split at ran
    · cases ran
    · rename_i ring written
      cases ran
      have long : 0 < (encodeFrame key opcode frame.payload).length := by
        rw [length_encodeFrame]
        omega
      have grown := (RingBuffer.Valid.write_ok valid written).2.size
      rw [startedIf_txRing, queued, grown]
      omega

/-- A read with a frame that is answered or logs the client in is seen in the ring or in
the login. -/
theorem altered_frames {frames : List WebSocketFrame} {link next : Link} (valid : link.txRing.Valid)
    (altering : ∃ frame ∈ frames, alters link frame = true) (ran : (forM frames handleFrame) link = .ok .unit next) :
    link.txRing.size < next.txRing.size ∨ (link.authenticated = false ∧ next.authenticated = true) := by
  obtain ⟨frame, member, altering⟩ := altering
  obtain ⟨early, late, rfl⟩ := List.append_of_mem member
  rw [List.forM_append, List.forM_cons] at ran
  obtain ⟨_, before, handledEarly, ran⟩ := of_bind_ok ran
  obtain ⟨_, after, handled, handledLate⟩ := of_bind_ok ran
  have onwardEarly := (onward_frames early).ok handledEarly
  have onwardLate := (onward_frames late).ok handledLate
  have onward := (onward_handleFrame frame).ok handled
  obtain ⟨validBefore, grownBefore⟩ := onwardEarly.ring valid
  rw [alters, Bool.or_eq_true] at altering
  rcases altering with answered | success
  · have grown := answered_grows validBefore answered handled
    have later := (onwardLate.ring (onward.ring validBefore).1).2
    exact .inl (by omega)
  · simp only [logsIn, Bool.and_eq_true, Bool.not_eq_true'] at success
    obtain ⟨⟨⟨auth, out⟩, message⟩, success⟩ := success
    refine .inr ⟨out, onwardLate.authenticated ?_⟩
    cases already : before.authenticated with
    | true => exact onward.authenticated already
    | false =>
        rw [run_handleFrame_message message, run_dispatchMessage] at handled
        rw [((sends_acts _).ok handled).authenticated]
        simp only [isLoginSuccess, Bool.and_eq_true, decide_eq_true_eq] at success
        simp [noted, noteLogin, onwardEarly.auth, auth, already, success.1, success.2]

/-!
## Completions delivered late
-/

/-- A completion of a dead connection that the handlers act on: a failure, a write of at
least one byte, or a read that leaves other bytes behind or brings a frame that is answered
or logs the client in. -/
def Harms (client : OkxWsClient) : Input → Prop
  | .readDone index _ result => ∃ source, client.state.pendingReads[index]? = some source ∧
      client.state.transport ≠ some source ∧
      match result with
      | .error _ => True
      | .ok bytes =>
          let frames := split frameDecoder ((client.buffer ++ bytes).length + 1) (client.buffer ++ bytes)
          frames.2.toOption ≠ some client.buffer ∨ ∃ frame ∈ frames.1, alters client.state frame = true
  | .writeDone index failed => ∃ write, client.state.pendingWrites[index]? = some write ∧
      client.state.transport ≠ some write.transport ∧ (failed = true ∨ 0 < write.region.size)
  | .send _ _ | .beginBatch | .endBatch | .heartbeat | .scheduleReconnect | .connect _ => False

/-- A read of a dead connection without effect: it brings whole frames only, all of them
silent, and the handler of messages does nothing. -/
def Passes (client : OkxWsClient) : Input → Prop
  | .readDone index onMessage (.ok bytes) => ∃ source, client.state.pendingReads[index]? = some source ∧
      client.state.transport ≠ some source ∧ (∀ actions ∈ onMessage, actions = []) ∧
      ∃ frames, split frameDecoder ((client.buffer ++ bytes).length + 1) (client.buffer ++ bytes) =
          (frames, .ok client.buffer) ∧ ∀ frame ∈ frames, isSilent client.state frame = true
  | _ => False


theorem size_commitRead_ne (ring : RingBuffer kTxRingCapacity) {n : Nat} (positive : 0 < n) (bounded : n < 2 ^ 64) :
    (ring.commitRead n).size ≠ ring.size := by
  simp only [RingBuffer.commitRead, sizeSub]
  omega

theorem onWriteDone_txRing {link next : Link} {bytesWritten : Nat}
    (ran : onWriteDone bytesWritten false link = .ok .unit next) :
    next.txRing = link.txRing.commitRead bytesWritten := by
  rw [run_onWriteDone] at ran
  split at ran
  · cases ran
    exact startedIf_txRing true (committed link bytesWritten)
  · cases ran
    rfl

theorem ClientInv.harmed {client next : OkxWsClient} {input : Input} (inv : ClientInv client.state)
    (harms : Harms client input) (ran : Ws.step input client = .ok .unit next) : ¬Untouched client next := by
  intro untouched
  cases input with
  | readDone index onMessage result =>
      obtain ⟨source, pending, -, acts⟩ := harms
      cases result with
      | ok bytes =>
          rw [run_readDone pending] at ran
          obtain ⟨_, middle, received, looped⟩ := of_bind_ok ran
          obtain ⟨frames, splits, handled⟩ := receive_ok frameDecoder received
          obtain ⟨looped, buffer⟩ := Receiver.onState_ok looped
          have alike := alike_readLoop looped
          dsimp only at acts splits
          rw [splits] at acts
          rcases acts with left | altering
          · exact left (congrArg some (buffer.symm.trans untouched.rxBuffer))
          · rcases altered_frames (by exact inv.ring.valid) (by exact altering) handled with grown | ⟨out, on⟩
            · rw [← alike.txRing, untouched.txRing] at grown
              exact absurd grown (lt_irrefl _)
            · rw [← alike.authenticated, untouched.authenticated] at on
              exact absurd on (Bool.eq_false_iff.mp out)
      | error message =>
          rw [Ws.step, run_bind_ok (run_get _), pending] at ran
          cases ran
          exact absurd untouched.reconnectAttempt (Nat.succ_ne_self _)
  | writeDone index failed =>
      obtain ⟨write, pending, -, acts⟩ := harms
      have bounded := (inv.ring.writes write (List.mem_of_getElem? pending)).2
      rw [run_writeDone pending] at ran
      cases failed with
      | true =>
          cases ran
          exact absurd untouched.reconnectAttempt (Nat.succ_ne_self _)
      | false =>
          have ring := onWriteDone_txRing (Receiver.onState_ok ran).1
          have differs := size_commitRead_ne client.state.txRing (by simpa using acts)
            (Nat.lt_of_le_of_lt bounded (by decide))
          rw [untouched.txRing] at ring
          exact differs (congrArg RingBuffer.size ring).symm
  | send | beginBatch | endBatch | heartbeat | scheduleReconnect | connect => cases harms

theorem untouched_of_passes {client next : OkxWsClient} {input : Input} (passes : Passes client input)
    (ran : step input client = .ok .unit next) : Untouched client next := by
  cases input with
  | readDone index onMessage result =>
      cases result with
      | error message => cases passes
      | ok bytes =>
          obtain ⟨source, pending, -, idle, frames, splits, silent⟩ := passes
          rw [run_readDone pending] at ran
          obtain ⟨_, middle, received, looped⟩ := of_bind_ok ran
          obtain ⟨same, sameSplits, handled⟩ := receive_ok frameDecoder received
          obtain ⟨looped, buffer⟩ := Receiver.onState_ok looped
          rw [splits, Prod.mk.injEq, Except.ok.injEq] at sameSplits
          obtain ⟨rfl, kept⟩ := sameSplits
          have alike := (alike_frames (by exact idle) (by exact silent) handled).trans (alike_readLoop looped)
          exact ⟨alike.txRing, buffer.trans kept.symm, alike.reassembler, alike.authenticated, alike.writeInFlight,
            alike.reconnectAttempt⟩
  | send | beginBatch | endBatch | heartbeat | scheduleReconnect | connect | writeDone => cases passes

/-- While every completion is delivered before its transport is gone, the ring stays
within its capacity and the login state belongs to the current transport. The first one
delivered later changes what it must not touch if it is a failure, a non-empty write or a
read the client acts on; a read of silent frames does not. -/
theorem sound_without_stale {host path : Text} {auth : Option OkxAuth} {kind : WsEndpointKind}
    {maskKeys : Nat → Option MaskKey} {counter : Nat → Int} {client : OkxWsClient}
    (run : Reaches step OfConnection (initial host path auth kind maskKeys counter) client) :
    Sound client ∧ ∀ input next, step input client = .ok .unit next →
      (Harms client input → ¬Untouched client next) ∧ (Passes client input → Untouched client next) := by
  have inv := run.invariant (fun client => ClientInv client.state) (.initially host path auth kind maskKeys counter)
    fun _ _ _ inv admitted ran => inv.step admitted ran
  exact ⟨⟨inv.ring.valid.size, inv.login⟩,
    fun _ _ ran => ⟨fun harms => inv.harmed harms ran, fun passes => untouched_of_passes passes ran⟩⟩

instance (client : OkxWsClient) : (input : Input) → Decidable (OfConnection client input)
  | .readDone _ _ _ | .writeDone _ _ => inferInstanceAs (Decidable (_ = _))
  | .send _ _ | .beginBatch | .endBatch | .heartbeat | .scheduleReconnect | .connect _ => isTrue trivial

/-- The login success, as a text frame. -/
def loginFrame : Bytes :=
  [0x81, 28] ++ toBytes "\x7b\"event\":\"login\",\"code\":\"0\"\x7d".toList

/-- The connection breaks while the login is being written; a new one follows. -/
def reconnected : OkxWsClient :=
  finalState (forM [.connect sampleAttempt, .scheduleReconnect, .connect sampleAttempt] step sampleClient)

def pongFrame : Bytes := [0x8A, 0]

/-- The login arrives in time; and a pong of the dead connection passes. -/
theorem sound_without_stale_login :
    (finalState (forM [.connect sampleAttempt, .writeDone 0 false, .readDone 0 [] (.ok loginFrame)] step
        sampleClient)).state.authenticated = true ∧
      Sound (finalState (forM [.connect sampleAttempt, .writeDone 0 false, .readDone 0 [] (.ok loginFrame)] step
        sampleClient)) ∧
      Untouched reconnected (finalState (step (.readDone 0 [] (.ok pongFrame)) reconnected)) := by
  refine ⟨by decide +kernel, (sound_without_stale (Reaches.start.all _ (by decide +kernel))).1, ?_⟩
  have reached : Reaches step OfConnection sampleClient reconnected := Reaches.start.all _ (by decide +kernel)
  have passes : Passes reconnected (.readDone 0 [] (.ok pongFrame)) :=
    ⟨0, by decide +kernel, by decide +kernel, by simp, [⟨⟨true, .kPong, 0, 2⟩, [], 2⟩], by decide +kernel, by decide +kernel⟩
  exact ((sound_without_stale reached).2 _ _ (eq_ok_of_returned (by decide +kernel))).2 passes

/-- A write of the dead connection that succeeds late wraps the size of the reset ring,
and a login success it received late logs the new one in. -/
theorem stale_completions_act :
    (Reaches step (fun _ _ => True) sampleClient reconnected ∧ reconnected.state.transport = some 1) ∧
      (reconnected.state.pendingWrites.head?.map PendingWrite.transport = some 0 ∧
        returned (forM [.scheduleReconnect, .writeDone 0 false] step reconnected) = some .unit ∧
        (finalState (forM [.scheduleReconnect, .writeDone 0 false] step reconnected)).state.txRing.size >
          kTxRingCapacity) ∧
      (reconnected.state.pendingReads.head? = some 0 ∧
        returned (step (.readDone 0 [] (.ok loginFrame)) reconnected) = some .unit ∧
        (finalState (step (.readDone 0 [] (.ok loginFrame)) reconnected)).state.authenticated = true ∧
        ∀ message, (1, message) ∉ (finalState (step (.readDone 0 [] (.ok loginFrame)) reconnected)).state.dispatched) := by
  refine ⟨⟨Reaches.start.all _ (by decide +kernel), by decide +kernel⟩, by decide +kernel, by decide +kernel,
    by decide +kernel, by decide +kernel, fun message => ?_⟩
  have only : (finalState (step (.readDone 0 [] (.ok loginFrame)) reconnected)).state.dispatched =
      [(0, loginFrame.drop 2)] := by decide +kernel
  rw [only]
  simp

end TradingEngine.Ws
