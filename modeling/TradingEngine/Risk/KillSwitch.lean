import TradingEngine.Engine.State

/-! The kill switch: sets its flag once and cancels every order that has an ordId
over REST. -/

set_option autoImplicit false

namespace TradingEngine.Engine

variable {D : Type}

/-- The orders the switch can cancel, as instId and ordId. -/
def toCancel (store : OrderStore) : List (Text × Text) :=
  (store.orders.filter fun order => order.ordId ≠ []).map fun order => (order.instId, order.ordId)

def cancelEntry (entry : Text × Text) : EngineM D PUnit := do
  let _ ← cancelOrder entry.1 entry.2

def trigger (reason : Text) : EngineM D PUnit := do
  let engine ← get
  if engine.triggered then pure .unit
  else
    modify fun engine => { engine with triggered := true }
    emit (.triggered reason)
    forM (toCancel engine.store) cancelEntry

end TradingEngine.Engine
