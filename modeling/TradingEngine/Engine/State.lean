import TradingEngine.Connectivity.RateLimiter
import TradingEngine.MarketData.OrderBook
import TradingEngine.Risk.Risk

/-! The state the engine's components share, and the operations they reach it
through. Clocks and the REST client are oracles: their successive answers are
arbitrary. `trace` is the history of what left the engine; nothing reads it. -/

set_option autoImplicit false

namespace TradingEngine

open Library.Exec

inductive QuoteSide where
  | bid
  | ask
  deriving DecidableEq, Repr

def QuoteSide.name : QuoteSide → Text
  | .bid => kBuy
  | .ask => kSell

structure NaiveQuoter (D : Type) where
  instId : Text
  instIdCode : Int
  sz : Text
  tickSz : D
  tickDecimalPlaces : Nat
  quoteBps : D
  requoteThresholdBps : D
  lastQuotedMid : Option D
  bidClOrdId : Option Text
  askClOrdId : Option Text

namespace NaiveQuoter

variable {D : Type}

def handle (quoter : NaiveQuoter D) : QuoteSide → Option Text
  | .bid => quoter.bidClOrdId
  | .ask => quoter.askClOrdId

def setHandle (quoter : NaiveQuoter D) (side : QuoteSide) (clOrdId : Option Text) : NaiveQuoter D :=
  match side with
  | .bid => { quoter with bidClOrdId := clOrdId }
  | .ask => { quoter with askClOrdId := clOrdId }

def onOrderRemoved (quoter : NaiveQuoter D) (clOrdId : Text) : NaiveQuoter D :=
  if quoter.bidClOrdId = some clOrdId then quoter.setHandle .bid none
  else if quoter.askClOrdId = some clOrdId then quoter.setHandle .ask none
  else quoter

end NaiveQuoter

structure WsOrderRoundTrip where
  orderRequest : OrderRequest
  ordId : Text
  clOrdId : Text

/-- The callbacks of the round trip that wait in the demux. -/
inductive ResponseHandler where
  | onOrderResponse
  | onAmendResponse
  | onCancelResponse
  deriving DecidableEq, Repr

/-- The private connection. `txSize` counts the bytes in the transmit ring. -/
structure OkxWsClient where
  connected : Bool
  authenticated : Bool
  batching : Bool
  txSize : Nat

/-- The answers of successive REST calls: a body, or a transport error. -/
structure RestClient where
  answers : Nat → Except Text Text
  calls : Nat

inductive Route where
  | quoter
  | roundTrip
  | engine
  deriving DecidableEq, Repr

/-- What leaves the engine. A sent message carries the store as it was before
the order it places, if any, was added. -/
inductive Effect where
  | send (route : Route) (payload : Outgoing) (before : OrderStore)
  | restPlace (clOrdId : Text) (request : OrderRequest)
  | restCancel (instId ordId : Text)
  | restPending
  | triggered (reason : Text)
  | removed (clOrdId : Text)

structure Engine (D : Type) where
  store : OrderStore
  quoter : NaiveQuoter D
  rateLimiter : EndpointRateLimiter
  triggered : Bool
  position : Position D
  account : AccountState D
  /-- Pending responses of the demux, by request id. -/
  pending : List (Text × ResponseHandler)
  roundTrip : WsOrderRoundTrip
  ws : OkxWsClient
  rest : RestClient
  lastId : Nat
  steadyClock : Clock
  systemClock : Clock
  stopped : Bool
  trace : List Effect

abbrev EngineM (D : Type) := EStateM Exn (Engine D)

namespace Engine

variable {D : Type}

def emit (effect : Effect) : EngineM D PUnit :=
  modify fun engine => { engine with trace := engine.trace ++ [effect] }

def steadyNow : EngineM D Int :=
  modifyGet fun engine =>
    (engine.steadyClock.now, { engine with steadyClock := engine.steadyClock.tick })

def ids (engine : Engine D) : IdSource := ⟨engine.lastId, engine.systemClock⟩

def nextId (engine : Engine D) : Nat := engine.ids.nextId

/-- `IdSource.generateId` on the engine's state, as long as `last_id` stays in its range. -/
def generateId : EngineM D Text :=
  modifyGet fun engine =>
    (toDecimal engine.nextId,
      { engine with lastId := engine.nextId, systemClock := engine.systemClock.tick })

def tryAcquire (op : Text) : EngineM D Bool := do
  let now ← steadyNow
  let engine ← get
  let (granted, limiter) ← lift (engine.rateLimiter.tryAcquire op now)
  modify fun engine => { engine with rateLimiter := limiter }
  return granted

/-!
## Sending
-/

def kTxRingCapacity : Nat := 2 ^ 14

/-- Bytes of a masked text frame around a payload. -/
def frameSize (payload : Nat) : Nat :=
  let header := if payload ≤ 125 then 2 else if payload ≤ 65535 then 4 else 10
  header + 4 + payload

def writeRaw (bytes : Nat) : EngineM D PUnit := do
  let engine ← get
  if kTxRingCapacity < engine.ws.txSize + bytes then
    throw (.runtimeError "RingBuffer overflow".toList)
  else modify fun engine => { engine with ws := { engine.ws with txSize := engine.ws.txSize + bytes } }

def send (route : Route) (payload : Outgoing) (before : OrderStore) : EngineM D PUnit := do
  emit (.send route payload before)
  writeRaw (frameSize payload.message.length)

def setBatching (batching : Bool) : EngineM D PUnit :=
  modify fun engine => { engine with ws := { engine.ws with batching := batching } }

def beginBatch : EngineM D PUnit := setBatching true

def endBatch : EngineM D PUnit := setBatching false

/-- An order message under a new id; the id is drawn before the request is checked. -/
def buildWsOrderMessage (request : OrderRequest) : EngineM D Text := do
  let id ← generateId
  if request.ordType = kMarket then throw marketOrderError
  else return id

/-!
## Orders
-/

def addOrder (clOrdId instId side px sz : Text) : EngineM D PUnit := do
  let now ← steadyNow
  let engine ← get
  let store ← lift (engine.store.add (Order.create clOrdId instId side px sz now))
  modify fun engine => { engine with store := store }

def updateOrder (clOrdId : Text) (action : OrderAction) : EngineM D PUnit := fun engine =>
  match engine.store.update clOrdId action with
  | .ok _ store => .ok .unit { engine with store := store }
  | .error exception store => .error exception { engine with store := store }

/-- `OrderStore::Remove` with the quoter as its listener. -/
def removeOrder (clOrdId : Text) : EngineM D PUnit := do
  let engine ← get
  match engine.store.findByClOrdId clOrdId with
  | none => pure .unit
  | some _ =>
      emit (.removed clOrdId)
      modify fun engine => { engine with quoter := engine.quoter.onOrderRemoved clOrdId }
      modify fun engine => { engine with store := engine.store.erase clOrdId }

/-!
## REST
-/

def restCall : EngineM D Text := fun engine =>
  let called := { engine with rest := { engine.rest with calls := engine.rest.calls + 1 } }
  match engine.rest.answers engine.rest.calls with
  | .ok body => .ok body called
  | .error what => .error (.runtimeError ("Curl request failed: ".toList ++ what)) called

def placeOrder (request : OrderRequest) : EngineM D OrderResult := do
  if request.ordType = kMarket then throw marketOrderError
  else
    let clOrdId ← generateId
    emit (.restPlace clOrdId request)
    return parseOrderResult (← restCall)

def cancelOrder (instId ordId : Text) : EngineM D OrderResult := do
  emit (.restCancel instId ordId)
  return parseOrderResult (← restCall)

def getPendingOrders : EngineM D Text := do
  emit .restPending
  restCall

end Engine

end TradingEngine
