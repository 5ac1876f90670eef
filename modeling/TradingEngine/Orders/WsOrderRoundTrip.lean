import TradingEngine.Engine.State

/-! The order round trip: place, amend, cancel, each step started by the response
to the one before it, and the application of order events to the store. -/

set_option autoImplicit false

namespace TradingEngine.Engine

open Library.Exec

variable {D : Type}

def kSmokeTestAmendPx : Text := "101".toList

/-- `WsResponseDemux::Track`; an id that is already tracked keeps its handler. -/
def track (id : Text) (handler : ResponseHandler) : EngineM D PUnit :=
  modify fun engine =>
    if engine.pending.any (fun entry => entry.1 = id) then engine
    else { engine with pending := engine.pending ++ [(id, handler)] }

def setOrdId (ordId : Text) : EngineM D PUnit :=
  modify fun engine => { engine with roundTrip := { engine.roundTrip with ordId := ordId } }

def setClOrdId (clOrdId : Text) : EngineM D PUnit :=
  modify fun engine => { engine with roundTrip := { engine.roundTrip with clOrdId := clOrdId } }

def fallBackToRestCancel : EngineM D PUnit := do
  let engine ← get
  let _ ← cancelOrder engine.roundTrip.orderRequest.instId engine.roundTrip.ordId

/-- Placement over REST while the private connection is down. -/
def startOverRest (request : OrderRequest) : EngineM D PUnit := do
  let result ← placeOrder request
  if result.accepted then
    setOrdId result.ordId
    fallBackToRestCancel
  else pure .unit

def startOverWs (request : OrderRequest) (before : OrderStore) : EngineM D PUnit := do
  let id ← buildWsOrderMessage request
  setClOrdId id
  addOrder id request.instId request.side request.px request.sz
  send .roundTrip (.order id request) before
  track id .onOrderResponse

def start : EngineM D PUnit := do
  let engine ← get
  if engine.ws.connected then startOverWs engine.roundTrip.orderRequest engine.store
  else startOverRest engine.roundTrip.orderRequest

def removeIfTerminal (clOrdId : Text) : EngineM D PUnit := do
  let engine ← get
  match engine.store.findByClOrdId clOrdId with
  | some order => if isTerminal order.state then removeOrder clOrdId else pure .unit
  | none => pure .unit

def applyOrderEvent (event : OrderEvent D) : EngineM D PUnit := do
  let engine ← get
  match engine.store.findByClOrdId event.clOrdId with
  | none => pure .unit
  | some _ =>
      updateOrder event.clOrdId (.applyEvent event)
      removeIfTerminal event.clOrdId

/-- `GetOrder` followed by a transition of the order. -/
def updateOwnOrder (action : OrderAction) : EngineM D PUnit := do
  let engine ← get
  match engine.store.findByClOrdId engine.roundTrip.clOrdId with
  | none => throw (.runtimeError "WsOrderRoundTrip: order not found in order_store_".toList)
  | some _ => updateOrder engine.roundTrip.clOrdId action

def requestAmend (ordId : Text) : EngineM D PUnit := do
  let now ← steadyNow
  updateOwnOrder (.onAmendRequested now)
  let id ← generateId
  let engine ← get
  let request := engine.roundTrip.orderRequest
  send .roundTrip (.amendOrder id request.instIdCode ordId kSmokeTestAmendPx request.sz) engine.store
  track id .onAmendResponse

def onOrderResponse (response : Text) : EngineM D PUnit := do
  if !isRequestAccepted response then pure .unit
  else
    match (findData response).bind fun data => Json.findString data kOrdId with
    | none => pure .unit
    | some ordId =>
        setOrdId ordId
        let engine ← get
        if engine.ws.connected then requestAmend ordId else fallBackToRestCancel

def requestCancel : EngineM D PUnit := do
  let now ← steadyNow
  updateOwnOrder (.onCancelRequested now)
  let id ← generateId
  let engine ← get
  send .roundTrip
    (.cancelOrder id engine.roundTrip.orderRequest.instIdCode engine.roundTrip.ordId) engine.store
  track id .onCancelResponse

/-- A rejected amend or cancel returns the order to the state before the request. -/
def rejectUnlessAccepted (response : Text) : EngineM D PUnit :=
  if isRequestAccepted response then pure .unit else updateOwnOrder .onRequestRejected

def onAmendResponse (response : Text) : EngineM D PUnit := do
  rejectUnlessAccepted response
  let engine ← get
  if engine.ws.connected then requestCancel else fallBackToRestCancel

def onCancelResponse (response : Text) : EngineM D PUnit := rejectUnlessAccepted response

def runHandler (handler : ResponseHandler) (response : Text) : EngineM D PUnit :=
  match handler with
  | .onOrderResponse => onOrderResponse response
  | .onAmendResponse => onAmendResponse response
  | .onCancelResponse => onCancelResponse response

/-- The handler waiting for a message, by the message's id. -/
def handlerFor (engine : Engine D) (message : Text) : Option (Text × ResponseHandler) :=
  (Json.findString message kId).bind fun id => engine.pending.find? fun entry => entry.1 = id

/-- `WsResponseDemux::Dispatch`; returns whether the message was a tracked response. -/
def dispatch (message : Text) : EngineM D Bool := do
  let engine ← get
  match engine.handlerFor message with
  | none => return false
  | some (id, handler) =>
      modify fun engine => { engine with pending := engine.pending.filter fun entry => entry.1 ≠ id }
      runHandler handler message
      return true

end TradingEngine.Engine
