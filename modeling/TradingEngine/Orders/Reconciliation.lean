import TradingEngine.Engine.State

/-! Reconciliation of the store with the exchange's pending orders, and the
monitor that asks for it. -/

set_option autoImplicit false

namespace TradingEngine

open Library.Exec

def classifyPendingState (state : Text) : Except Exn OrderEventType :=
  if state = kStateLive then .ok .kLive
  else if state = kStatePartiallyFilled then .ok .kPartialFill
  else .error (.runtimeError ("Unexpected pending-order state: ".toList ++ state))

variable {D : Type}

/-- The event an adopted row is applied as. -/
def pendingEvent (type : OrderEventType) (clOrdId order : Text) : OrderEvent D where
  type := type
  ordId := field order kOrdId
  clOrdId := clOrdId
  instId := field order kInstId
  side := field order kSide
  px := field order kPx
  sz := field order kSz
  accFillSz := field order kAccFillSz
  avgPx := field order kAvgPx
  fill := none

namespace Engine

/-- What a well-formed row does to the store: nothing if its id is known. -/
def adopt (clOrdId state order : Text) : EngineM D PUnit := do
  let engine ← get
  match engine.store.findByClOrdId clOrdId with
  | some _ => pure .unit
  | none =>
      let type ← lift (classifyPendingState state)
      let event : OrderEvent D := pendingEvent type clOrdId order
      addOrder event.clOrdId event.instId event.side event.px event.sz
      let added ← get
      match added.store.findByClOrdId clOrdId with
      | none =>
          throw (.runtimeError ("Order ".toList ++ clOrdId ++
            " vanished immediately after Add during reconciliation".toList))
      | some _ => updateOrder clOrdId (.applyEvent event)

/-- The loop body; the second component is the set of ids on the exchange. -/
def reconcileRow (order : Text) : EStateM Exn (Engine D × List Text) PUnit := do
  match Json.findString order kClOrdId, Json.findString order kState with
  | some clOrdId, some state =>
      modify fun current => (current.1, clOrdId :: current.2)
      onFirst (adopt clOrdId state order)
  | _, _ => throw (.runtimeError ("Malformed pending order: ".toList ++ order))

def collectExchangeIds (response : Text) : EngineM D (List Text) :=
  withLocal [] (Json.forEachArrayElement response kData reconcileRow)

def toDrop (store : OrderStore) (exchangeClOrdIds : List Text) : List Text :=
  (store.orders.map Order.clOrdId).filter fun clOrdId => clOrdId ∉ exchangeClOrdIds

def reconcileOrders (response : Text) : EngineM D PUnit := do
  let exchangeClOrdIds ← collectExchangeIds response
  let engine ← get
  forM (toDrop engine.store exchangeClOrdIds) removeOrder

/-- Steady-clock readings are in nanoseconds. -/
def kSecond : Int := 10 ^ 9

def kOrderUnacknowledgedTimeout : Int := 5 * kSecond

def timedOut (now : Int) (order : Order) : Bool :=
  isPending order.state && kOrderUnacknowledgedTimeout < now - order.pendingSince

def checkAndResolve : EngineM D PUnit := do
  let now ← steadyNow
  let engine ← get
  if engine.store.orders.any (timedOut now) then
    let pending ← getPendingOrders
    reconcileOrders pending
  else pure .unit

end Engine

end TradingEngine
