import TradingEngine.Orders.Reconciliation
import TradingEngine.Orders.WsOrderRoundTrip
import TradingEngine.Risk.KillSwitch
import TradingEngine.Strategy.NaiveQuoter

/-! The engine: its constants, the handlers of the private connection, and the
inputs its event loop serves. After an exception the process ends; the shutdown
signal stops the loop. -/

set_option autoImplicit false

namespace TradingEngine

open Library.Exec

variable {D : Type} [DoubleArith D]

def kRiskLimits : RiskLimits D where
  maxOrderSz := DoubleArith.lit 1
  maxNotional := DoubleArith.lit 1000
  priceCollarPct := DoubleArith.lit (5 / 100)
  maxOpenOrders := 10

def kMaxRealizedLoss : D := DoubleArith.lit 50

def kQuoterSz : Text := "0.01".toList

def kQuoterBps : D := DoubleArith.lit (1 / 100)

def kRequoteThresholdBps : D := DoubleArith.lit (1 / 100)

def kRateLimit : SlidingWindowLimiter := SlidingWindowLimiter.create 60 (2 * Engine.kSecond)

def kPrivateSubscribeMsg : Text :=
  ("\x7b\"op\":\"subscribe\",\"args\":[\x7b\"channel\":\"orders\",\"instType\":\"SPOT\"\x7d," ++
    "\x7b\"channel\":\"account\"\x7d,\x7b\"channel\":\"positions\",\"instType\":\"ANY\"\x7d]\x7d").toList

/-- What the environment supplies to an engine. -/
structure Environment where
  steadyClock : Nat → Int
  systemClock : Nat → Int
  restAnswers : Nat → Except Text Text

namespace Engine

/-- The engine as constructed around a quoter. -/
def initial (environment : Environment) (quoter : NaiveQuoter D) (orderRequest : OrderRequest) (lastId : Nat) :
    Engine D where
  store := .empty
  quoter := quoter
  rateLimiter := ⟨kRateLimit, kRateLimit, kRateLimit⟩
  triggered := false
  position := .initial
  account := .initial
  pending := []
  roundTrip := ⟨orderRequest, [], []⟩
  ws := ⟨false, false, false, 0⟩
  rest := ⟨environment.restAnswers, 0⟩
  lastId := lastId
  steadyClock := ⟨environment.steadyClock, 0⟩
  systemClock := ⟨environment.systemClock, 0⟩
  stopped := false
  trace := []

/-- The constructor, for the instrument and test order found at startup. -/
def create (environment : Environment) (orderRequest : OrderRequest) (instIdCode : Int) (tickSz : Text)
    (lastId : Nat) : Except Exn (Engine D) := do
  let quoter ← NaiveQuoter.create kEthUsdt instIdCode kQuoterSz tickSz kQuoterBps kRequoteThresholdBps
  return initial environment quoter orderRequest lastId

/-!
## Handlers
-/

def startIfAllowed : EngineM D PUnit := do
  let engine ← get
  if engine.triggered then pure .unit
  else
    let riskCheck ← lift (checkPreTradeRisk (kRiskLimits : RiskLimits D)
      engine.roundTrip.orderRequest engine.store none)
    if riskCheck.passed then start else pure .unit

def handleLoginEvent (message : Text) : EngineM D PUnit := do
  if field message kCode ≠ kSuccessCode then pure .unit
  else
    let engine ← get
    send .engine (.other kPrivateSubscribeMsg) engine.store
    let pending ← getPendingOrders
    reconcileOrders pending
    startIfAllowed

/-- The fill of an event, where its type says it is one. -/
def eventFill (event : OrderEvent D) : Option (OrderFill D) :=
  if event.type = .kFill ∨ event.type = .kPartialFill then event.fill else none

def breached (position : Position D) : Bool :=
  DoubleArith.lt position.realizedPnl (DoubleArith.neg kMaxRealizedLoss)

def triggerIfBreached : EngineM D PUnit := do
  let engine ← get
  if breached engine.position then trigger "Max realized loss breached".toList else pure .unit

def applyFill (event : OrderEvent D) : EngineM D PUnit :=
  match eventFill event with
  | none => pure .unit
  | some fill => do
      modify fun engine => { engine with position := engine.position.applyFill event.side fill.px fill.sz }
      triggerIfBreached

def handleOrderEvent (event : OrderEvent D) : EngineM D PUnit := do
  applyFill event
  applyOrderEvent event

def handleAccountChannelMessage (message : Text) : EngineM D PUnit := fun engine =>
  match AccountState.applyMessage message engine.account with
  | .ok _ account => .ok .unit { engine with account := account }
  | .error exception account => .error exception { engine with account := account }

/-- `OnPrivateWsMessage`. -/
def onPrivateWsMessage (message : Text) : EngineM D PUnit := do
  if Json.findString message kEvent = some kLoginEvent then handleLoginEvent message
  else
    let dispatched ← dispatch message
    if dispatched then pure .unit
    else if Json.findString message kChannel = some kOrdersChannel then
      forEachOrderEvent message handleOrderEvent
    else if Json.findString message kChannel = some kAccountChannel then
      handleAccountChannelMessage message
    else pure .unit

/-- `OkxWsClient::DispatchMessage` on the private connection. -/
def noteLogin (message : Text) : EngineM D PUnit :=
  modify fun engine =>
    if !engine.ws.authenticated && Json.findString message kEvent == some kLoginEvent then
      { engine with ws := { engine.ws with
          authenticated := Json.findString message kCode == some kSuccessCode } }
    else engine

def dispatchMessage (message : Text) : EngineM D PUnit := do
  noteLogin message
  onPrivateWsMessage message

def ifQuoting (program : EngineM D PUnit) : EngineM D PUnit := do
  let engine ← get
  if !engine.triggered && engine.ws.authenticated then program else pure .unit

/-!
## Event loop
-/

inductive Input (D : Type) [DoubleArith D] where
  | bookUpdate (book : OrderBook D)
  | quoterTimer
  | login (message : Text)
  | response (message : Text)
  | orderEvent (event : OrderEvent D)
  | account (message : Text)
  | timeoutCheck
  | signal
  | connected (login : Text)
  | disconnected
  /-- The heartbeat or a control frame, of this many bytes. -/
  | controlFrame (bytes : Nat)
  | written (bytes : Nat)

def connect (login : Text) : EngineM D PUnit := do
  modify fun engine => { engine with ws := { engine.ws with connected := true, authenticated := false } }
  let engine ← get
  send .engine (.other login) engine.store

def scheduleReconnect : EngineM D PUnit :=
  modify fun engine =>
    { engine with ws := { engine.ws with connected := false, authenticated := false, txSize := 0 } }

/-- Connecting; a failure inside it is caught and ends in a reconnect. -/
def connectOrReconnect (login : Text) : EngineM D PUnit := fun engine =>
  match connect login engine with
  | .ok _ next => .ok .unit next
  | .error _ next => scheduleReconnect next

def handle : Input D → EngineM D PUnit
  | .bookUpdate book => ifQuoting (onBookUpdate book)
  | .quoterTimer => ifQuoting onTimer
  | .login message => do
      noteLogin message
      handleLoginEvent message
  | .response message => do
      let _ ← dispatch message
  | .orderEvent event => handleOrderEvent event
  | .account message => handleAccountChannelMessage message
  | .timeoutCheck => checkAndResolve
  | .signal => do
      trigger "manual (signal)".toList
      modify fun engine => { engine with stopped := true }
  | .connected login => connectOrReconnect login
  | .disconnected => scheduleReconnect
  | .controlFrame bytes => writeRaw bytes
  | .written bytes =>
      modify fun engine => { engine with ws := { engine.ws with txSize := engine.ws.txSize - bytes } }

/-- One turn of the event loop. -/
def step (input : Input D) : EngineM D PUnit := do
  let engine ← get
  if engine.stopped then pure .unit else handle input

end Engine

end TradingEngine
