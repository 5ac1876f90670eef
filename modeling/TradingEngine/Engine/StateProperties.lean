import TradingEngine.Engine.State
import TradingEngine.Orders.OrderStoreProperties

/-! What each operation of the shared state does, as one equation. -/

set_option autoImplicit false

namespace TradingEngine.Engine

open Library.Exec

variable {D : Type} (engine : Engine D)

theorem run_emit (effect : Effect) :
    emit effect engine = .ok .unit { engine with trace := engine.trace ++ [effect] } := rfl

theorem run_steadyNow :
    steadyNow engine = .ok engine.steadyClock.now { engine with steadyClock := engine.steadyClock.tick } := rfl

theorem run_generateId :
    generateId engine = .ok (toDecimal engine.nextId)
      { engine with lastId := engine.nextId, systemClock := engine.systemClock.tick } := rfl

theorem run_buildWsOrderMessage {request : OrderRequest} (priced : request.ordType ≠ kMarket) :
    buildWsOrderMessage request engine = .ok (toDecimal engine.nextId)
      { engine with lastId := engine.nextId, systemClock := engine.systemClock.tick } := by
  rw [buildWsOrderMessage, run_bind_ok (run_generateId engine), if_neg priced]
  rfl

theorem run_addOrder (clOrdId instId side px sz : Text) :
    addOrder clOrdId instId side px sz engine =
      match engine.store.add (Order.create clOrdId instId side px sz engine.steadyClock.now) with
      | .ok store => .ok .unit { engine with steadyClock := engine.steadyClock.tick, store := store }
      | .error exception => .error exception { engine with steadyClock := engine.steadyClock.tick } := by
  rw [addOrder, run_bind_ok (run_steadyNow engine), run_bind_ok (run_get _), run_bind, run_lift]
  cases engine.store.add (Order.create clOrdId instId side px sz engine.steadyClock.now) <;> rfl

theorem buildWsOrderMessage_ok {request : OrderRequest} {clOrdId : Text} {next : Engine D}
    (built : buildWsOrderMessage request engine = .ok clOrdId next) :
    clOrdId = toDecimal engine.nextId ∧
      next = { engine with lastId := engine.nextId, systemClock := engine.systemClock.tick } := by
  by_cases priced : request.ordType ≠ kMarket
  · rw [run_buildWsOrderMessage engine priced] at built
    cases built
    exact ⟨rfl, rfl⟩
  · rw [buildWsOrderMessage, run_bind_ok (run_generateId engine), if_pos (not_not.mp priced)] at built
    cases built

theorem addOrder_ok {clOrdId instId side px sz : Text} {next : Engine D}
    (ran : addOrder clOrdId instId side px sz engine = .ok .unit next) :
    engine.store.add (Order.create clOrdId instId side px sz engine.steadyClock.now) = .ok next.store ∧
      next = { engine with steadyClock := engine.steadyClock.tick, store := next.store } := by
  rw [run_addOrder] at ran
  cases added : engine.store.add (Order.create clOrdId instId side px sz engine.steadyClock.now) with
  | error exception =>
      rw [added] at ran
      cases ran
  | ok store =>
      rw [added] at ran
      cases ran
      exact ⟨rfl, rfl⟩

theorem run_tryAcquire {op : Text} (limited : op = kOrderOp ∨ op = kCancelOrderOp ∨ op = kAmendOrderOp) :
    ∃ granted limiter, engine.rateLimiter.tryAcquire op engine.steadyClock.now = .ok (granted, limiter) ∧
      tryAcquire op engine =
        .ok granted { engine with steadyClock := engine.steadyClock.tick, rateLimiter := limiter } := by
  have acquired : ∃ granted limiter,
      engine.rateLimiter.tryAcquire op engine.steadyClock.now = .ok (granted, limiter) := by
    unfold EndpointRateLimiter.tryAcquire
    rcases limited with rfl | rfl | rfl
    · exact ⟨_, _, rfl⟩
    · exact ⟨_, _, rfl⟩
    · exact ⟨_, _, rfl⟩
  obtain ⟨granted, limiter, acquired⟩ := acquired
  refine ⟨granted, limiter, acquired, ?_⟩
  rw [tryAcquire, run_bind_ok (run_steadyNow engine), run_bind_ok (run_get _), run_bind, run_lift, acquired]
  rfl

/-- A message counts as passed to the client whether or not it fits the ring. -/
theorem run_send (route : Route) (payload : Outgoing) (before : OrderStore) :
    send route payload before engine =
      if kTxRingCapacity < engine.ws.txSize + frameSize payload.message.length then
        .error (.runtimeError "RingBuffer overflow".toList)
          { engine with trace := engine.trace ++ [.send route payload before] }
      else
        .ok .unit { engine with
          ws := { engine.ws with txSize := engine.ws.txSize + frameSize payload.message.length }
          trace := engine.trace ++ [.send route payload before] } := by
  rw [send, run_bind_ok (run_emit engine _), writeRaw, run_bind_ok (run_get _)]
  split <;> rfl

theorem send_ok {route : Route} {payload : Outgoing} {before : OrderStore} {next : Engine D}
    (sent : send route payload before engine = .ok .unit next) :
    next = { engine with ws := next.ws, trace := engine.trace ++ [.send route payload before] } := by
  rw [run_send] at sent
  split at sent
  · cases sent
  · cases sent
    rfl

theorem lt_nextId : engine.lastId < engine.nextId := Nat.lt_of_lt_of_le (Nat.lt_succ_self _) (Nat.le_max_left _ _)

/-- In the range of `last_id` the engine draws what `GenerateId` gives. -/
theorem run_generateId_ids (range : engine.lastId + 1 < 2 ^ 63) :
    IdSource.generateId engine.ids = .ok (toDecimal engine.nextId) (finalState (generateId engine)).ids :=
  IdSource.run_generateId range

/-- An id that has been drawn. -/
def Drawn (engine : Engine D) (clOrdId : Text) : Prop := ∃ number ≤ engine.lastId, clOrdId = toDecimal number

theorem next_not_drawn : ¬ engine.Drawn (toDecimal engine.nextId) := by
  rintro ⟨number, bounded, same⟩
  have drawn := toDecimal_injective same
  have later := engine.lt_nextId
  omega

theorem updateOrder_ok {clOrdId : Text} {action : OrderAction} {next : Engine D}
    (ran : updateOrder clOrdId action engine = .ok .unit next) :
    ∃ store, engine.store.update clOrdId action = .ok .unit store ∧ next = { engine with store := store } := by
  rw [updateOrder] at ran
  split at ran
  · rename_i store updated
    cases ran
    exact ⟨store, updated, rfl⟩
  · cases ran

/-- The engine without an order it stored, its listener told. -/
def withoutOrder (clOrdId : Text) : Engine D :=
  { engine with
    trace := engine.trace ++ [.removed clOrdId]
    quoter := engine.quoter.onOrderRemoved clOrdId
    store := engine.store.erase clOrdId }

theorem run_removeOrder (clOrdId : Text) :
    removeOrder clOrdId engine =
      .ok .unit (if clOrdId ∈ engine.store.ids then engine.withoutOrder clOrdId else engine) := by
  rw [removeOrder, run_bind_ok (run_get _)]
  cases found : engine.store.findByClOrdId clOrdId with
  | none =>
      rw [if_neg (OrderStore.findByClOrdId_eq_none_iff.mp found)]
      rfl
  | some order =>
      obtain ⟨member, same⟩ := OrderStore.of_findByClOrdId found
      rw [if_pos (OrderStore.mem_ids.mpr ⟨order, member, same⟩)]
      rfl

/-- The engine that has asked for the pending orders. -/
def asking : Engine D :=
  { engine with
    trace := engine.trace ++ [.restPending]
    rest := { engine.rest with calls := engine.rest.calls + 1 } }

theorem run_getPendingOrders :
    getPendingOrders engine = match engine.rest.answers engine.rest.calls with
      | .ok body => .ok body engine.asking
      | .error what => .error (.runtimeError ("Curl request failed: ".toList ++ what)) engine.asking := by
  rw [getPendingOrders, run_bind_ok (run_emit engine _), restCall]
  cases engine.rest.answers engine.rest.calls <;> rfl

/-!
## What leaves the engine
-/

/-- Only effects that `allowed` admits were added to the trace. -/
def Emits (allowed : Effect → Prop) (before after : Engine D) : Prop :=
  ∃ new, after.trace = before.trace ++ new ∧ ∀ effect ∈ new, allowed effect

variable {engine} {allowed : Effect → Prop} {middle after : Engine D}

theorem emits_of_same (same : after.trace = engine.trace) : Emits allowed engine after :=
  ⟨[], by simp [same], by simp⟩

theorem emits_one {effect : Effect} (grown : after.trace = engine.trace ++ [effect]) (allows : allowed effect) :
    Emits allowed engine after :=
  ⟨[effect], grown, by simpa using allows⟩

theorem Emits.trans (first : Emits allowed engine middle) (second : Emits allowed middle after) :
    Emits allowed engine after := by
  obtain ⟨early, grown, allEarly⟩ := first
  obtain ⟨late, grownAgain, allLate⟩ := second
  refine ⟨early ++ late, by rw [grownAgain, grown, List.append_assoc], fun effect member => ?_⟩
  rcases List.mem_append.mp member with early | late
  · exact allEarly effect early
  · exact allLate effect late

theorem Emits.mono {wider : Effect → Prop} (emits : Emits allowed engine after)
    (widen : ∀ effect, allowed effect → wider effect) : Emits wider engine after := by
  obtain ⟨new, grown, all⟩ := emits
  exact ⟨new, grown, fun effect member => widen effect (all effect member)⟩

end TradingEngine.Engine
