import TradingEngine.Engine.StateProperties
import TradingEngine.Orders.WsOrderRoundTrip

/-! What an order event does to the engine: it moves the order it names, and removes
an order that has come to its end. A response runs the handler that waits for it. -/

set_option autoImplicit false

namespace TradingEngine.Engine

open Library.Exec

variable {D : Type}

/-- The event is the last of its order. -/
def ends (event : OrderEvent D) : Bool := event.type = .kFill || event.type = .kCancel

theorem applyEvent_ends {event : OrderEvent D} (last : ends event = true) {order : Order}
    (live : isTerminal order.state = false) :
    ∃ next, Order.applyEvent event order = .ok .unit next ∧ isTerminal next.state = true := by
  have recorded : isTerminal (order.record event).state = false := live
  unfold Order.applyEvent
  rcases Bool.or_eq_true_iff.mp last with filled | cancelled
  · rw [of_decide_eq_true filled]
    simp only [Order.advance, recorded]
    exact ⟨_, rfl, rfl⟩
  · rw [of_decide_eq_true cancelled]
    simp only [Order.advance, recorded]
    refine ⟨_, rfl, ?_⟩
    dsimp only
    split <;> rfl

/-- An order that can resume what it was is ended by no other event. -/
theorem ends_of_terminal {event : OrderEvent D} {order next : Order}
    (resumable : isTerminal order.prePendingState = false)
    (applied : Order.applyEvent event order = .ok .unit next) (terminal : isTerminal next.state = true) :
    ends event = true := by
  unfold Order.applyEvent at applied
  cases type : event.type with
  | kFill => simp [ends, type]
  | kCancel => simp [ends, type]
  | kPartialFill =>
      simp only [type, Order.advance] at applied
      split at applied
      · cases applied
      · cases applied
        cases terminal
  | kLive =>
      simp only [type] at applied
      split at applied
      · cases applied
        cases terminal
      · split at applied
        · cases applied
          dsimp only at terminal
          split at terminal
          · cases terminal
          · rw [show (Order.record event order).prePendingState = order.prePendingState from rfl, resumable] at terminal
            cases terminal
        · split at applied
          · rename_i stays
            cases applied
            dsimp only at terminal
            rcases stays with state | state | state
            · rw [state] at terminal
              cases terminal
            · rw [state] at terminal
              cases terminal
            · rw [state] at terminal
              cases terminal
          · cases applied

/-- The engine after an event that was applied without throwing. -/
inductive EventStep (event : OrderEvent D) (before : Engine D) : Engine D → Prop where
  | unknown : event.clOrdId ∉ before.store.ids → EventStep event before before
  | moved {store : OrderStore} {order : Order} :
      before.store.update event.clOrdId (.applyEvent event) = .ok .unit store →
      store.findByClOrdId event.clOrdId = some order → isTerminal order.state = false →
      EventStep event before { before with store := store }
  | ended {store : OrderStore} {order : Order} :
      before.store.update event.clOrdId (.applyEvent event) = .ok .unit store →
      store.findByClOrdId event.clOrdId = some order → isTerminal order.state = true →
      EventStep event before (withoutOrder { before with store := store } event.clOrdId)

def EventOutcome (event : OrderEvent D) (engine : Engine D) : EStateM.Result Exn (Engine D) PUnit → Prop
  | .ok _ next => EventStep event engine next
  | .error _ next => ∃ exception store,
      engine.store.update event.clOrdId (.applyEvent event) = .error exception store ∧
        next = { engine with store := store }

theorem applyOrderEvent_outcome (event : OrderEvent D) (engine : Engine D) :
    EventOutcome event engine (applyOrderEvent event engine) := by
  rw [applyOrderEvent, run_bind_ok (run_get _)]
  cases known : engine.store.findByClOrdId event.clOrdId with
  | none => exact .unknown (OrderStore.findByClOrdId_eq_none_iff.mp known)
  | some old =>
      dsimp only
      obtain ⟨member, same⟩ := OrderStore.of_findByClOrdId known
      have stored : event.clOrdId ∈ engine.store.ids := OrderStore.mem_ids.mpr ⟨old, member, same⟩
      rw [run_bind, updateOrder]
      cases updated : engine.store.update event.clOrdId (.applyEvent event) with
      | error exception store => exact ⟨exception, store, updated, rfl⟩
      | ok value store =>
          dsimp only
          rw [removeIfTerminal, run_bind_ok (run_get _)]
          have kept : event.clOrdId ∈ store.ids := OrderStore.ids_of_update updated ▸ stored
          cases found : store.findByClOrdId event.clOrdId with
          | none => exact absurd kept (OrderStore.findByClOrdId_eq_none_iff.mp found)
          | some order =>
              dsimp only
              split
              · rename_i terminal
                rw [run_removeOrder, if_pos kept]
                exact .ended updated found terminal
              · rename_i live
                exact .moved updated found (Bool.eq_false_iff.mpr live)

/-- The handler runs once its entry has left the demux. -/
theorem finalState_dispatch {engine : Engine D} {message id : Text} {handler : ResponseHandler}
    (found : engine.handlerFor message = some (id, handler)) :
    finalState (dispatch message engine) = finalState (runHandler handler message
      { engine with pending := engine.pending.filter fun entry => entry.1 ≠ id }) := by
  rw [dispatch, run_bind_ok (run_get _), found]
  dsimp only
  rw [run_bind_ok (run_modify _ _), run_bind]
  cases runHandler handler message { engine with pending := engine.pending.filter fun entry => entry.1 ≠ id } <;> rfl

theorem dispatch_unknown {engine : Engine D} {message : Text} (missing : engine.handlerFor message = none) :
    dispatch message engine = .ok false engine := by
  rw [dispatch, run_bind_ok (run_get _), missing]
  rfl

end TradingEngine.Engine
