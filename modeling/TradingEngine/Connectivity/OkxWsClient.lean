import TradingEngine.Net.RingBuffer
import TradingEngine.Net.WebSocketFrame
import TradingEngine.Net.WebSocketHandshake
import TradingEngine.Util.Json

/-! The WebSocket client. Asynchronous reads and writes stay pending, tagged with the
transport they were issued on, until a completion is delivered; the completion handlers
do not look at the tag. The handlers of the client's owner are arbitrary: what they do
comes with the input that runs them. Timers may fire at any time. -/

set_option autoImplicit false

namespace TradingEngine.Ws

open Library.Exec Library.StreamDecoder

inductive WsEndpointKind where
  | kJson
  | kSbe
  deriving DecidableEq, Repr

/-- Credentials. What is signed depends on the time, and so on the connection. -/
structure OkxAuth where
  buildPrivateWsLoginMessage : Nat → Text
  sbeWsLoginHeaders : Nat → List Text

structure TickToTradeTrace where
  /-- The counters of the stages before sending. -/
  stages : List Nat
  sendTicks : Nat
  deriving DecidableEq, Repr

/-- What a handler of the client's owner does with the client. -/
inductive Action where
  | send (payload : Bytes) (trace : Option TickToTradeTrace)
  | beginBatch
  | endBatch
  | raise (exception : Exn)

/-- An `AsyncWrite` that has not completed. -/
structure PendingWrite where
  transport : Nat
  region : Region
  deriving DecidableEq, Repr

/-- What happens to the bytes of `tx_ring_`. -/
inductive WireEvent where
  /-- A frame of so many bytes is behind the others. -/
  | queued (bytes : Nat) (trace : Option TickToTradeTrace)
  /-- So many of the oldest bytes are given to `AsyncWrite`. -/
  | given (bytes : Nat)
  /-- So many of the oldest bytes are taken out. -/
  | taken (bytes : Nat)
  | reset
  deriving DecidableEq, Repr

def kMaxMessageSize : Nat := 2 ^ 20
def kTxRingCapacity : Nat := 2 ^ 14

/-- The client without `rx_buffer_`, which only `Connect` and the read handler touch. -/
structure Link where
  host : Text
  path : Text
  auth : Option OkxAuth
  kind : WsEndpointKind
  authenticated : Bool
  /-- Which of the transports opened so far is the current one. -/
  transport : Option Nat
  reconnectAttempt : Nat
  txRing : RingBuffer kTxRingCapacity
  writeInFlight : Bool
  batching : Bool
  reassembler : WebSocketReassembler
  pendingSendTraces : List TickToTradeTrace
  opened : Nat
  pendingReads : List Nat
  pendingWrites : List PendingWrite
  /-- The outcomes of `RAND_bytes`. -/
  maskKeys : Nat → Option MaskKey
  masked : Nat
  counter : Clock
  /-- What `on_message_` will do, message by message. -/
  onMessage : List (List Action)
  /-- The transport of the read that is being handled. -/
  source : Nat
  /-- The messages given to `DispatchMessage`, with the transport they came on. -/
  dispatched : List (Nat × Bytes)
  /-- The traces given to `on_trace_resolved_`. -/
  resolved : List TickToTradeTrace
  /-- The history of `tx_ring_`. The code keeps none; nothing but proofs reads it. -/
  wire : List WireEvent

abbrev LinkM := EStateM Exn Link

abbrev OkxWsClient := Receiver UInt8 Link

abbrev ClientM := EStateM Exn OkxWsClient

/-!
## Sending
-/

def generateMaskingKey : LinkM MaskKey := do
  let link ← get
  modify fun link => { link with masked := link.masked + 1 }
  match link.maskKeys link.masked with
  | none => throw (.runtimeError "Failed to generate WebSocket frame masking key".toList)
  | some key => return key

def encode (opcode : WebSocketOpcode) (payload : Bytes) : LinkM Bytes := do
  let key ← generateMaskingKey
  return encodeFrame key opcode payload

/-- Every trace still pending is resolved with one reading of the counter. -/
def resolveTraces (link : Link) : Link :=
  { link with
    counter := link.counter.tick
    resolved := link.resolved ++
      link.pendingSendTraces.map fun trace => { trace with sendTicks := link.counter.now.toNat }
    pendingSendTraces := [] }

def asyncWrite (transport : Nat) (region : Region) : LinkM PUnit :=
  modify fun link => { link with
    pendingWrites := link.pendingWrites ++ [⟨transport, region⟩]
    wire := link.wire ++ [.given region.size] }

def startWrite : LinkM PUnit := do
  let link ← get
  match link.transport with
  | none => pure .unit
  | some transport =>
      modify resolveTraces
      modify fun link => { link with writeInFlight := true }
      asyncWrite transport link.txRing.contiguousReadableRegion

def writeRaw (frame : Bytes) (trace : Option TickToTradeTrace) : LinkM PUnit := do
  let link ← get
  let ring ← lift (link.txRing.write frame)
  modify fun link => { link with
    txRing := ring
    pendingSendTraces := link.pendingSendTraces ++ trace.toList
    wire := link.wire ++ [.queued frame.length trace] }
  if !link.writeInFlight && !link.batching then startWrite else pure .unit

def send (payload : Bytes) (trace : Option TickToTradeTrace) : LinkM PUnit := do
  let frame ← encode .kText payload
  writeRaw frame trace

def beginBatch : LinkM PUnit := modify fun link => { link with batching := true }

def endBatch : LinkM PUnit := do
  modify fun link => { link with batching := false }
  let link ← get
  if !link.writeInFlight then startWrite else pure .unit

def act : Action → LinkM PUnit
  | .send payload trace => send payload trace
  | .beginBatch => beginBatch
  | .endBatch => endBatch
  | .raise exception => throw exception

/-!
## Receiving
-/

def buildControlResponse (frame : WebSocketFrame) : LinkM (Option Bytes) :=
  match controlReply frame.header.opcode with
  | none => return none
  | some opcode => do
      let response ← encode opcode frame.payload
      return some response

/-- A login event that reports success. -/
def isLoginSuccess (message : Bytes) : Bool :=
  Json.findString message.toText kEvent = some kLoginEvent && Json.findString message.toText kCode = some kSuccessCode

def noteLogin (message : Bytes) (link : Link) : Link :=
  if link.auth.isSome && !link.authenticated && Json.findString message.toText kEvent = some kLoginEvent then
    { link with authenticated := Json.findString message.toText kCode = some kSuccessCode }
  else link

def dispatchMessage (message : Bytes) : LinkM PUnit := do
  modify fun link => { link with dispatched := link.dispatched ++ [(link.source, message)] }
  modify (noteLogin message)
  let link ← get
  modify fun link => { link with onMessage := link.onMessage.tail }
  forM (link.onMessage.headD []) act

def appendFragment (payload : Bytes) (fin : Bool) : LinkM PUnit := do
  let link ← get
  let reassembler ← lift (link.reassembler.append kMaxMessageSize payload fin)
  modify fun link => { link with reassembler := reassembler }

/-- A frame that is neither a control frame nor a heartbeat. -/
def handleData (frame : WebSocketFrame) : LinkM PUnit :=
  if frame.header.opcode = .kContinuation then do
    appendFragment frame.payload frame.header.fin
    let link ← get
    if link.reassembler.complete then do
      dispatchMessage link.reassembler.message
      modify fun link => { link with reassembler := .empty }
    else pure .unit
  else if !frame.header.fin then appendFragment frame.payload false
  else dispatchMessage frame.payload

def handleFrame (frame : WebSocketFrame) : LinkM PUnit := do
  match ← buildControlResponse frame with
  | some response => writeRaw response none
  | none =>
      if frame.header.opcode = .kPong || isOkxPong frame then pure .unit
      else handleData frame

/-!
## Connecting
-/

def scheduleReconnect : LinkM PUnit :=
  modify fun link => { link with
    transport := none
    authenticated := false
    txRing := link.txRing.reset
    writeInFlight := false
    reconnectAttempt := link.reconnectAttempt + 1
    wire := link.wire ++ [.reset] }

/-- Issues the next `AsyncReadSome`. -/
def readLoop : LinkM PUnit :=
  modify fun link => match link.transport with
    | none => link
    | some transport => { link with pendingReads := link.pendingReads ++ [transport] }

/-- The heartbeat timer fires; it is never set for SBE. -/
def heartbeat : LinkM PUnit := do
  let link ← get
  if link.kind = .kSbe then pure .unit
  else do
    let ping ← encode .kText (toBytes kOkxPingText)
    writeRaw ping none

def sendLogin : LinkM PUnit := do
  let link ← get
  match link.auth with
  | none => throw (.runtimeError "OkxWsClient::SendLogin called without auth".toList)
  | some auth => send (toBytes (auth.buildPrivateWsLoginMessage link.opened)) none

/-- What an attempt to connect meets. -/
structure Attempt where
  /-- The message of the transport's `Connect`, if it throws. -/
  refused : Option Text
  /-- The key drawn for the handshake, if one could be drawn. -/
  key : Option Bytes
  computeExpectedAccept : Bytes → Bytes
  /-- The reads of the handshake. -/
  reads : List Bytes
  /-- What `on_connected_` does. -/
  onConnected : List Action

def emplaceTransport (refused : Option Text) : LinkM PUnit := do
  modify fun link => { link with transport := some link.opened, opened := link.opened + 1 }
  match refused with
  | some what => throw (.runtimeError what)
  | none => pure .unit

def handshake (attempt : Attempt) : LinkM PUnit := do
  let link ← get
  let headers := match link.kind, link.auth with
    | .kSbe, some auth => auth.sbeWsLoginHeaders link.opened
    | _, _ => []
  match attempt.key with
  | none => throw (.runtimeError "Failed to generate random Sec-WebSocket-Key".toList)
  | some key =>
      match performWebSocketHandshake link.host link.path headers key attempt.computeExpectedAccept ⟨attempt.reads, []⟩ with
      | .ok _ _ => pure .unit
      | .error exception _ => throw exception

def signIn : LinkM PUnit := do
  modify fun link => { link with reconnectAttempt := 0, authenticated := false }
  let link ← get
  if link.kind = .kSbe then modify fun link => { link with authenticated := true }
  else if link.auth.isSome then sendLogin
  else pure .unit

/-- The body of the `try` of `Connect`. -/
def tryConnect (attempt : Attempt) : ClientM PUnit := do
  Receiver.onState (emplaceTransport attempt.refused)
  Receiver.onState (handshake attempt)
  modify fun client => { client with buffer := [] }
  Receiver.onState signIn
  Receiver.onState (forM attempt.onConnected act)
  Receiver.onState readLoop

def connect (attempt : Attempt) : ClientM PUnit := fun client =>
  match tryConnect attempt client with
  | .ok _ next => .ok .unit next
  | .error .outOfFuel next => .error .outOfFuel next
  | .error (.runtimeError _) next | .error (.invalidArgument _) next => Receiver.onState scheduleReconnect next

/-!
## Completions
-/

def onReadDone (source : Nat) (onMessage : List (List Action)) : Except Text Bytes → ClientM PUnit
  | .error _ => Receiver.onState scheduleReconnect
  | .ok bytes => do
      Receiver.onState (modify fun link => { link with source := source, onMessage := onMessage })
      receive frameDecoder handleFrame bytes
      Receiver.onState readLoop

/-- `asio::async_write` completes without error only when all of the buffer was written. -/
def onWriteDone (bytesWritten : Nat) (failed : Bool) : LinkM PUnit :=
  if failed then scheduleReconnect
  else do
    modify fun link => { link with
      txRing := link.txRing.commitRead bytesWritten
      wire := link.wire ++ [.taken bytesWritten] }
    let link ← get
    if link.txRing.size > 0 then startWrite
    else modify fun link => { link with writeInFlight := false }

/-!
## Event loop
-/

inductive Input where
  | send (payload : Bytes) (trace : Option TickToTradeTrace)
  | beginBatch
  | endBatch
  | heartbeat
  | scheduleReconnect
  | connect (attempt : Attempt)
  /-- The completion of a pending read. -/
  | readDone (index : Nat) (onMessage : List (List Action)) (result : Except Text Bytes)
  /-- The completion of a pending write. -/
  | writeDone (index : Nat) (failed : Bool)

def step : Input → ClientM PUnit
  | .send payload trace => Receiver.onState (send payload trace)
  | .beginBatch => Receiver.onState beginBatch
  | .endBatch => Receiver.onState endBatch
  | .heartbeat => Receiver.onState heartbeat
  | .scheduleReconnect => Receiver.onState scheduleReconnect
  | .connect attempt => connect attempt
  | .readDone index onMessage result => do
      let client ← get
      match client.state.pendingReads[index]? with
      | none => pure .unit
      | some source =>
          Receiver.onState (modify fun link => { link with pendingReads := link.pendingReads.eraseIdx index })
          onReadDone source onMessage result
  | .writeDone index failed => do
      let client ← get
      match client.state.pendingWrites[index]? with
      | none => pure .unit
      | some write => do
          Receiver.onState (modify fun link => { link with pendingWrites := link.pendingWrites.eraseIdx index })
          Receiver.onState (onWriteDone write.region.size failed)

/-- A client as it is constructed. -/
def initial (host path : Text) (auth : Option OkxAuth) (kind : WsEndpointKind) (maskKeys : Nat → Option MaskKey)
    (counter : Nat → Int) : OkxWsClient where
  buffer := []
  state := {
    host := host
    path := path
    auth := auth
    kind := kind
    authenticated := false
    transport := none
    reconnectAttempt := 0
    txRing := .empty
    writeInFlight := false
    batching := false
    reassembler := .empty
    pendingSendTraces := []
    opened := 0
    pendingReads := []
    pendingWrites := []
    maskKeys := maskKeys
    masked := 0
    counter := ⟨counter, 0⟩
    onMessage := []
    source := 0
    dispatched := []
    resolved := []
    wire := [] }

end TradingEngine.Ws
