import TradingEngine.Connectivity.OkxWsClientProperties
import TradingEngine.Engine.EngineProperties
import TradingEngine.Library.Simulation
import TradingEngine.Net.WebSocketFrameProperties
import TradingEngine.Net.HeaderLookup

/-! The connection as the engine has it, against the client behind it. The engine
keeps four facts about its private client: whether there is a transport, whether it is
logged in, whether it batches, and how full the transmit ring is. Every call either
way keeps the two in step, including the call that throws for want of room. -/

set_option autoImplicit false

namespace TradingEngine

open Library.Exec Library.StreamDecoder

def viewOf (link : Ws.Link) : OkxWsClient :=
  ⟨link.transport.isSome, link.authenticated, link.batching, link.txRing.size⟩

namespace Engine

variable {D : Type}

/-- The engine has the facts of its private client, which signs in with a message
and can always draw a masking key. -/
structure Shows (engine : Engine D) (client : Ws.OkxWsClient) : Prop where
  view : engine.ws = viewOf client.state
  ring : client.state.txRing.Valid
  kind : client.state.kind = .kJson
  signs : client.state.auth.isSome = true
  keys : ∀ index, (client.state.maskKeys index).isSome = true

/-!
## Calls
-/

inductive WireCall where
  | send (route : Route) (payload : Outgoing) (trace : Option Ws.TickToTradeTrace)
  | beginBatch
  | endBatch
  | heartbeat
  /-- A control frame that arrives. -/
  | control (frame : WebSocketFrame)
  /-- The client looks at a message before the engine does. -/
  | arrives (message : Bytes)
  | written (bytes : Nat)
  | disconnected
  | refused (attempt : Ws.Attempt)
  | connected (attempt : Ws.Attempt) (login : Text)

def clientCall : WireCall → Ws.ClientM PUnit
  | .send _ payload trace => Receiver.onState (Ws.send (toBytes payload.message) trace)
  | .beginBatch => Receiver.onState Ws.beginBatch
  | .endBatch => Receiver.onState Ws.endBatch
  | .heartbeat => Receiver.onState Ws.heartbeat
  | .control frame => Receiver.onState (Ws.handleFrame frame)
  | .arrives message => Receiver.onState (modify (Ws.noteLogin message))
  | .written bytes => Receiver.onState (Ws.onWriteDone bytes false)
  | .disconnected => Receiver.onState Ws.scheduleReconnect
  | .refused attempt | .connected attempt _ => Ws.connect attempt

/-- Why an attempt to connect fails, if it does. -/
def failure (client : Ws.OkxWsClient) (attempt : Ws.Attempt) : Option Exn :=
  match attempt.refused with
  | some what => some (.runtimeError what)
  | none => thrown (Ws.handshake attempt (Ws.emplaced client.state))

/-- What the call takes for granted. A write that completes was of bytes in the ring;
the response to a handshake fits a string; the private client has no handler for being
connected. -/
def Ready (client : Ws.OkxWsClient) : WireCall → Prop
  | .control frame => (controlReply frame.header.opcode).isSome = true
  | .written bytes => bytes ≤ client.state.txRing.size
  | .refused attempt => failure client attempt ≠ none ∧ attempt.reads.flatten.length < 2 ^ 64
  | .connected attempt login => failure client attempt = none ∧ attempt.onConnected = [] ∧
      client.state.auth.map (fun auth => auth.buildPrivateWsLoginMessage (client.state.opened + 1)) = some login
  | .send _ _ _ | .beginBatch | .endBatch | .heartbeat | .arrives _ | .disconnected => True

section Calls

variable [DoubleArith D]

def engineCall : WireCall → EngineM D PUnit
  | .send route payload _ => do
      let engine ← get
      send route payload engine.store
  | .beginBatch => beginBatch
  | .endBatch => endBatch
  | .heartbeat => handle (.controlFrame (frameSize kOkxPingText.length))
  | .control frame => handle (.controlFrame (frameSize frame.payload.length))
  | .arrives message => noteLogin message.toText
  | .written bytes => handle (.written bytes)
  | .disconnected | .refused _ => handle .disconnected
  | .connected _ login => handle (.connected login)

end Calls

/-!
## Frames
-/

theorem frameSize_eq (key : MaskKey) (opcode : WebSocketOpcode) (payload : Bytes) :
    (encodeFrame key opcode payload).length = frameSize payload.length := by
  rw [length_encodeFrame]
  rfl

theorem view_startedIf (idle : Bool) (link : Ws.Link) : viewOf (Ws.startedIf idle link) = viewOf link := by
  unfold Ws.startedIf Ws.started
  split
  · cases transport : link.transport with
    | none => rfl
    | some current => simp [viewOf, transport, Ws.resolveTraces]
  · rfl

variable {engine : Engine D} {client : Ws.OkxWsClient}

/-- A change of both sides that the facts follow. -/
theorem Shows.after (shows : Shows engine client) {next : Engine D} {link : Ws.Link} (view : next.ws = viewOf link)
    (ring : link.txRing.Valid) (kind : link.kind = client.state.kind) (auth : link.auth = client.state.auth)
    (keys : link.maskKeys = client.state.maskKeys) : Shows next { client with state := link } :=
  ⟨view, ring, kind.trans shows.kind, by rw [auth]; exact shows.signs, by rw [keys]; exact shows.keys⟩

theorem agree_writeRaw (shows : Shows engine client) (frame : Bytes) (trace : Option Ws.TickToTradeTrace) :
    Agree Shows (writeRaw frame.length engine) (Receiver.onState (Ws.writeRaw frame trace) client) := by
  have size : engine.ws.txSize = client.state.txRing.size := by rw [shows.view]; rfl
  have outcome := shows.ring.write frame
  have sends := Ws.sends_writeRaw frame trace client.state
  rw [writeRaw, run_bind_ok (run_get _), Receiver.onState]
  rw [Ws.run_writeRaw] at sends ⊢
  split at outcome
  · rename_i fits
    obtain ⟨ring, wrote, appends⟩ := outcome
    rw [wrote] at sends ⊢
    have room : ¬ kTxRingCapacity < engine.ws.txSize + frame.length := by
      rw [size]
      exact Nat.not_lt.mpr fits
    rw [if_neg room]
    refine .returns (shows.after ?_ ?_ sends.kind sends.auth sends.maskKeys)
    · rw [view_startedIf]
      dsimp only
      rw [shows.view]
      simp only [viewOf, Ws.queued, appends.size]
    · rw [Ws.startedIf_txRing]
      exact appends.valid
  · rename_i full
    rw [outcome]
    have overflow : kTxRingCapacity < engine.ws.txSize + frame.length := by
      rw [size]
      exact Nat.lt_of_not_le full
    rw [if_pos overflow]
    exact .throws shows

theorem agree_frame (shows : Shows engine client) (opcode : WebSocketOpcode) (payload : Bytes)
    (trace : Option Ws.TickToTradeTrace) :
    Agree Shows (writeRaw (frameSize payload.length) engine)
      (Receiver.onState (do let frame ← Ws.encode opcode payload; Ws.writeRaw frame trace) client) := by
  obtain ⟨key, drawn⟩ := Option.isSome_iff_exists.mp (shows.keys client.state.masked)
  have encoded : Ws.encode opcode payload client.state =
      .ok (encodeFrame key opcode payload) { client.state with masked := client.state.masked + 1 } := by
    rw [Ws.run_encode, drawn]
  have masked : Shows engine { client with state := { client.state with masked := client.state.masked + 1 } } :=
    shows.after shows.view shows.ring rfl rfl rfl
  have agrees := agree_writeRaw masked (encodeFrame key opcode payload) trace
  rw [frameSize_eq] at agrees
  rw [Receiver.onState, run_bind_ok encoded]
  exact agrees

theorem agree_send (shows : Shows engine client) (route : Route) (payload : Outgoing) (before : OrderStore)
    (trace : Option Ws.TickToTradeTrace) :
    Agree Shows (send route payload before engine) (Receiver.onState (Ws.send (toBytes payload.message) trace) client) := by
  have noted : Shows { engine with trace := engine.trace ++ [.send route payload before] } client :=
    ⟨shows.view, shows.ring, shows.kind, shows.signs, shows.keys⟩
  have agrees := agree_frame noted .kText (toBytes payload.message) trace
  rw [toBytes, List.length_map, ← toBytes] at agrees
  rw [send, run_bind_ok (run_emit engine _)]
  exact agrees

theorem agree_endBatch (shows : Shows engine client) :
    Agree Shows (endBatch engine) (Receiver.onState Ws.endBatch client) := by
  have sends := Ws.sends_endBatch client.state
  rw [Receiver.onState]
  rw [Ws.run_endBatch] at sends ⊢
  refine .returns (shows.after ?_ ?_ sends.kind sends.auth sends.maskKeys)
  · rw [view_startedIf]
    dsimp only
    rw [shows.view]
    rfl
  · rw [Ws.startedIf_txRing]
    exact shows.ring

theorem agree_heartbeat (shows : Shows engine client) :
    Agree Shows (writeRaw (frameSize kOkxPingText.length) engine) (Receiver.onState Ws.heartbeat client) := by
  have agrees := agree_frame shows .kText (toBytes kOkxPingText) none
  rw [toBytes, List.length_map, ← toBytes] at agrees
  have json : client.state.kind ≠ .kSbe := by
    rw [shows.kind]
    decide
  have ran : Ws.heartbeat client.state =
      (do let frame ← Ws.encode .kText (toBytes kOkxPingText); Ws.writeRaw frame none) client.state := by
    rw [Ws.heartbeat, run_bind_ok (run_get _), if_neg json]
  rw [Receiver.onState] at agrees ⊢
  rw [ran]
  exact agrees

theorem agree_control (shows : Shows engine client) {frame : WebSocketFrame}
    (replies : (controlReply frame.header.opcode).isSome = true) :
    Agree Shows (writeRaw (frameSize frame.payload.length) engine)
      (Receiver.onState (Ws.handleFrame frame) client) := by
  obtain ⟨opcode, reply⟩ := Option.isSome_iff_exists.mp replies
  have agrees := agree_frame shows opcode frame.payload none
  have ran : Ws.handleFrame frame client.state =
      (do let response ← Ws.encode opcode frame.payload; Ws.writeRaw response none) client.state := by
    rw [Ws.handleFrame, Ws.buildControlResponse, reply, run_bind]
    dsimp only
    rw [run_bind, run_bind]
    cases Ws.encode opcode frame.payload client.state <;> rfl
  rw [Receiver.onState] at agrees ⊢
  rw [ran]
  exact agrees

theorem agree_arrives (shows : Shows engine client) (message : Bytes) :
    Agree Shows (noteLogin message.toText engine) (Receiver.onState (modify (Ws.noteLogin message)) client) := by
  have authenticated : engine.ws.authenticated = client.state.authenticated := by rw [shows.view]; rfl
  rw [noteLogin, run_modify, Receiver.onState, run_modify, Ws.noteLogin, shows.signs, ← authenticated]
  by_cases login : engine.ws.authenticated = false ∧ Json.findString message.toText kEvent = some kLoginEvent
  · obtain ⟨out, isLogin⟩ := login
    simp only [out, isLogin, Bool.not_false, Bool.true_and, beq_self_eq_true, decide_true, ↓reduceIte]
    refine .returns (shows.after ?_ shows.ring rfl rfl rfl)
    dsimp only
    rw [shows.view, beq_eq_decide]
    rfl
  · have noClient : ¬ (true && !engine.ws.authenticated &&
        decide (Json.findString message.toText kEvent = some kLoginEvent)) = true := by simpa using login
    have noEngine : ¬ (!engine.ws.authenticated && Json.findString message.toText kEvent == some kLoginEvent) = true := by
      simpa using login
    rw [if_neg noClient, if_neg noEngine]
    exact .returns shows

theorem agree_written [DoubleArith D] (shows : Shows engine client) {bytes : Nat}
    (within : bytes ≤ client.state.txRing.size) :
    Agree Shows (handle (.written bytes) engine) (Receiver.onState (Ws.onWriteDone bytes false) client) := by
  obtain ⟨valid, contents⟩ := shows.ring.commitRead within
  have size : (client.state.txRing.commitRead bytes).size = client.state.txRing.size - bytes := by
    have lengths := congrArg List.length contents
    simpa using lengths
  have view : ({ engine with ws := { engine.ws with txSize := engine.ws.txSize - bytes } } : Engine D).ws =
      viewOf (Ws.committed client.state bytes) := by
    dsimp only
    rw [shows.view]
    simp only [viewOf, Ws.committed, size]
  rw [Receiver.onState, Ws.run_onWriteDone]
  dsimp only
  by_cases more : (Ws.committed client.state bytes).txRing.size > 0
  · rw [if_pos more]
    have started := Ws.Sends.started (Ws.committed client.state bytes)
    have stays := view_startedIf true (Ws.committed client.state bytes)
    have ring := Ws.startedIf_txRing true (Ws.committed client.state bytes)
    rw [Ws.startedIf, if_pos rfl] at stays ring
    refine .returns (shows.after (view.trans stays.symm) ?_ started.kind started.auth started.maskKeys)
    rw [ring]
    exact valid
  · rw [if_neg more]
    exact .returns (shows.after view valid rfl rfl rfl)

theorem Shows.lost (shows : Shows engine client) {link : Ws.Link} (ring : link.txRing.Valid)
    (kind : link.kind = client.state.kind) (auth : link.auth = client.state.auth)
    (keys : link.maskKeys = client.state.maskKeys) (batching : link.batching = client.state.batching) (buffer : Bytes) :
    Agree Shows (scheduleReconnect engine) (Receiver.onState Ws.scheduleReconnect ⟨buffer, link⟩) := by
  refine .returns ⟨?_, ring.reset, kind.trans shows.kind, ?_, ?_⟩
  · dsimp only
    rw [shows.view]
    simp only [viewOf, batching]
    rfl
  · dsimp only
    rw [auth]
    exact shows.signs
  · dsimp only
    rw [keys]
    exact shows.keys

/-!
## Connecting
-/

theorem run_emplaceTransport (refused : Option Text) (link : Ws.Link) :
    Ws.emplaceTransport refused link = match refused with
      | some what => .error (.runtimeError what) (Ws.emplaced link)
      | none => .ok .unit (Ws.emplaced link) := by
  cases refused <;> rfl

theorem handshake_ok {attempt : Ws.Attempt} {link : Ws.Link} (shook : thrown (Ws.handshake attempt link) = none) :
    Ws.handshake attempt link = .ok .unit link := by
  have same := Ws.moves_handshake attempt link
  cases ran : Ws.handshake attempt link with
  | error exception next => simp [ran, thrown] at shook
  | ok value next =>
      rw [ran] at same
      exact congrArg (EStateM.Result.ok value) same

theorem run_tryConnect {attempt : Ws.Attempt} {exception : Exn} (failed : failure client attempt = some exception) :
    Ws.tryConnect attempt client = .error exception { client with state := Ws.emplaced client.state } := by
  unfold failure at failed
  cases refused : attempt.refused with
  | some other =>
      rw [refused] at failed
      cases failed
      refine run_bind_error ?_ _
      rw [Receiver.onState, run_emplaceTransport, refused]
  | none =>
      rw [refused] at failed
      have emplaced : Receiver.onState (Ws.emplaceTransport attempt.refused) client =
          .ok .unit { client with state := Ws.emplaced client.state } := by
        rw [Receiver.onState, run_emplaceTransport, refused]
      refine (run_bind_ok emplaced _).trans (run_bind_error ?_ _)
      have same := Ws.moves_handshake attempt (Ws.emplaced client.state)
      rw [Receiver.onState]
      cases ran : Ws.handshake attempt (Ws.emplaced client.state) with
      | ok value next => simp [ran, thrown] at failed
      | error other next =>
          rw [ran] at same failed
          cases failed
          rw [show next = Ws.emplaced client.state from same]

/-- An attempt fails with an exception of the program. -/
theorem failure_ne_outOfFuel {attempt : Ws.Attempt} (bounded : attempt.reads.flatten.length < 2 ^ 64) :
    failure client attempt ≠ some .outOfFuel := by
  unfold failure
  cases attempt.refused with
  | some what => exact fun same => by cases same
  | none =>
      dsimp only
      rw [Ws.handshake, run_bind_ok (run_get _)]
      cases attempt.key with
      | none => exact fun same => by cases same
      | some key =>
          dsimp only
          generalize shook : performWebSocketHandshake _ _ _ key _ _ = result
          cases result with
          | ok value transport => exact fun same => by cases same
          | error exception transport =>
              intro same
              exact performWebSocketHandshake_ne_outOfFuel bounded shook (Option.some.inj same)

theorem agree_refused (shows : Shows engine client) {attempt : Ws.Attempt} (failed : failure client attempt ≠ none)
    (bounded : attempt.reads.flatten.length < 2 ^ 64) :
    Agree Shows (scheduleReconnect engine) (Ws.connect attempt client) := by
  obtain ⟨exception, failed⟩ := Option.ne_none_iff_exists'.mp failed
  have ring : (Ws.emplaced client.state).txRing.Valid := shows.ring
  have lost := shows.lost ring rfl rfl rfl rfl client.buffer
  rw [Ws.connect, run_tryConnect failed]
  cases exception with
  | outOfFuel => exact absurd failed (failure_ne_outOfFuel bounded)
  | runtimeError what => exact lost
  | invalidArgument what => exact lost

/-- The link when the handshake is over and before the login is sent. -/
def shaken (link : Ws.Link) : Ws.Link := { Ws.emplaced link with reconnectAttempt := 0, authenticated := false }

theorem tryConnect_accepted (shows : Shows engine client) {attempt : Ws.Attempt} (accepted : failure client attempt = none)
    (quiet : attempt.onConnected = []) {auth : Ws.OkxAuth} (signs : client.state.auth = some auth) :
    Ws.tryConnect attempt client = (do
      Receiver.onState (Ws.send (toBytes (auth.buildPrivateWsLoginMessage (client.state.opened + 1))) none)
      Receiver.onState Ws.readLoop) ⟨[], shaken client.state⟩ := by
  have open' : attempt.refused = none := by
    unfold failure at accepted
    cases refused : attempt.refused with
    | none => rfl
    | some exception => simp [refused] at accepted
  have shook : Ws.handshake attempt (Ws.emplaced client.state) = .ok .unit (Ws.emplaced client.state) := by
    refine handshake_ok ?_
    rw [failure, open'] at accepted
    exact accepted
  have emplaced : Receiver.onState (Ws.emplaceTransport attempt.refused) client =
      .ok .unit { client with state := Ws.emplaced client.state } := by
    rw [Receiver.onState, run_emplaceTransport, open']
  have handshake : Receiver.onState (Ws.handshake attempt) { client with state := Ws.emplaced client.state } =
      .ok .unit { client with state := Ws.emplaced client.state } := by
    rw [Receiver.onState, shook]
  have json : (shaken client.state).kind ≠ .kSbe := by
    show client.state.kind ≠ .kSbe
    rw [shows.kind]
    decide
  have signIn : Ws.signIn (Ws.emplaced client.state) =
      Ws.send (toBytes (auth.buildPrivateWsLoginMessage (client.state.opened + 1))) none (shaken client.state) := by
    have known : (shaken client.state).auth = some auth := signs
    rw [Ws.signIn, run_bind_ok (run_modify _ _), run_bind_ok (run_get _)]
    change (if (shaken client.state).kind = .kSbe then _ else if (shaken client.state).auth.isSome = true then Ws.sendLogin
      else _) (shaken client.state) = _
    rw [if_neg json, known, Option.isSome_some, if_pos rfl, Ws.sendLogin, run_bind_ok (run_get _), known]
    rfl
  rw [Ws.tryConnect, run_bind_ok emplaced, run_bind_ok handshake, run_bind_ok (run_modify _ _), quiet, run_bind, run_bind]
  rw [Receiver.onState, signIn, Receiver.onState]
  rfl

theorem send_throws {route : Route} {payload : Outgoing} {before : OrderStore} {next : Engine D} {exception : Exn}
    (threw : send route payload before engine = .error exception next) : ∃ what, exception = .runtimeError what := by
  rw [run_send] at threw
  split at threw
  · cases threw
    exact ⟨_, rfl⟩
  · cases threw

theorem Shows.reads (shows : Shows engine client) :
    ∃ next, Receiver.onState Ws.readLoop client = .ok .unit next ∧ Shows engine next := by
  refine ⟨_, rfl, ?_⟩
  dsimp only
  cases transport : client.state.transport with
  | none => exact shows
  | some current => exact shows.after (by rw [shows.view]; simp [viewOf, transport]) shows.ring rfl rfl rfl

theorem agree_connected [DoubleArith D] (shows : Shows engine client) {attempt : Ws.Attempt} (accepted : failure client attempt = none)
    (quiet : attempt.onConnected = []) {auth : Ws.OkxAuth} (signs : client.state.auth = some auth) :
    Agree Shows (connectOrReconnect (auth.buildPrivateWsLoginMessage (client.state.opened + 1)) engine)
      (Ws.connect attempt client) := by
  have ready : Shows { engine with ws := { engine.ws with connected := true, authenticated := false } }
      ⟨[], shaken client.state⟩ := by
    refine ⟨?_, shows.ring, shows.kind, shows.signs, shows.keys⟩
    dsimp only
    rw [shows.view]
    rfl
  rw [connectOrReconnect, connect, run_bind_ok (run_modify _ _), run_bind_ok (run_get _), Ws.connect,
    tryConnect_accepted shows accepted quiet signs, run_bind]
  generalize auth.buildPrivateWsLoginMessage (client.state.opened + 1) = login
  have sent : Agree Shows (send .engine (.other login) engine.store _)
      (Receiver.onState (Ws.send (toBytes login) none) ⟨[], shaken client.state⟩) := agree_send ready _ _ _ none
  dsimp only
  generalize engineRan : send .engine (.other login) engine.store _ = engineResult at sent ⊢
  generalize Receiver.onState (Ws.send (toBytes login) none) _ = clientResult at sent ⊢
  cases sent with
  | returns holds =>
      obtain ⟨next, read, kept⟩ := holds.reads
      dsimp only
      rw [read]
      exact .returns kept
  | throws holds =>
      obtain ⟨what, rfl⟩ := send_throws engineRan
      exact holds.lost holds.ring rfl rfl rfl rfl _

/-!
## Any interleaving
-/

variable [DoubleArith D]

theorem agree_call (call : WireCall) (shows : Shows engine client) (ready : Ready client call) :
    Agree Shows (engineCall call engine) (clientCall call client) := by
  cases call with
  | send route payload trace => exact agree_send shows route payload engine.store trace
  | beginBatch => exact .returns (shows.after (by dsimp only; rw [shows.view]; rfl) shows.ring rfl rfl rfl)
  | endBatch => exact agree_endBatch shows
  | heartbeat => exact agree_heartbeat shows
  | control frame => exact agree_control shows ready
  | arrives message => exact agree_arrives shows message
  | written bytes => exact agree_written shows ready
  | disconnected => exact shows.lost shows.ring rfl rfl rfl rfl client.buffer
  | refused attempt => exact agree_refused shows ready.1 ready.2
  | connected attempt login =>
      obtain ⟨accepted, quiet, message⟩ := ready
      obtain ⟨auth, signs, rfl⟩ := Option.map_eq_some_iff.mp message
      exact agree_connected shows accepted quiet signs

/-- Over any sequence of calls the engine's connection and the client return and
throw alike, and the engine's facts stay those of the client. -/
theorem connection_refined (calls : List WireCall) (shows : Shows engine client)
    (ready : Follows clientCall Ready client calls) :
    Agree Shows (forM calls engineCall engine) (forM calls clientCall client) :=
  agree_forM (fun call _ _ shows ready => agree_call call shows ready) calls shows ready

instance (client : Ws.OkxWsClient) : (call : WireCall) → Decidable (Ready client call)
  | .control frame => inferInstanceAs (Decidable ((controlReply frame.header.opcode).isSome = true))
  | .written bytes => inferInstanceAs (Decidable (bytes ≤ client.state.txRing.size))
  | .refused _ => inferInstanceAs (Decidable (_ ∧ _))
  | .connected _ _ => inferInstanceAs (Decidable (_ ∧ _ ∧ _))
  | .send _ _ _ | .beginBatch | .endBatch | .heartbeat | .arrives _ | .disconnected => isTrue trivial

theorem shows_initial : Shows sampleEngine Ws.sampleClient :=
  ⟨rfl, RingBuffer.valid_empty (by decide) (by decide), rfl, rfl, fun _ => rfl⟩

/-- A login, a batch of one message and a heartbeat; the login has been written by
then, and the connection goes. -/
def sampleCalls : List WireCall :=
  [.connected Ws.sampleAttempt "login".toList, .arrives (toBytes "\x7b\"event\":\"login\",\"code\":\"0\"\x7d".toList),
    .beginBatch, .send .quoter (.cancelOrder "1".toList 7 "9".toList) none, .endBatch, .written 11, .heartbeat, .disconnected]

theorem connection_refined_session :
    Agree Shows (forM sampleCalls engineCall sampleEngine) (forM sampleCalls clientCall Ws.sampleClient) :=
  connection_refined sampleCalls shows_initial (by decide +kernel)

end Engine

end TradingEngine
