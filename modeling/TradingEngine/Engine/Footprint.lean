import TradingEngine.Engine.Engine
import TradingEngine.Orders.WsOrderRoundTripProperties
import TradingEngine.Util.JsonProperties

/-! Relations between engine states that every single change of the engine's
bookkeeping respects. Such a relation holds from end to end of each handler that
places nothing, whether the handler returns or throws. -/

set_option autoImplicit false

namespace TradingEngine

open Library.Exec

/-- What leaves the engine besides orders, their changes and the report of the
kill switch. -/
def Effect.Background : Effect → Prop
  | .send _ (.other _) _ => True
  | .restCancel _ _ => True
  | .restPending => True
  | .removed _ => True
  | _ => False

namespace Engine

variable {D : Type}

structure Footprint (allowed : Effect → Prop) (relation : Engine D → Engine D → Prop) : Prop where
  refl : ∀ engine, relation engine engine
  trans : ∀ first second third, relation first second → relation second third → relation first third
  background : ∀ effect, effect.Background → allowed effect
  trace : ∀ engine effect, allowed effect → relation engine { engine with trace := engine.trace ++ [effect] }
  reads : ∀ engine, relation engine { engine with steadyClock := engine.steadyClock.tick }
  ids : ∀ engine, relation engine
    { engine with lastId := engine.nextId, systemClock := engine.systemClock.tick }
  calls : ∀ engine, relation engine { engine with rest := { engine.rest with calls := engine.rest.calls + 1 } }
  ws : ∀ engine ws, relation engine { engine with ws := ws }
  store : ∀ engine store, relation engine { engine with store := store }
  quoter : ∀ engine quoter, relation engine { engine with quoter := quoter }
  pending : ∀ engine pending, relation engine { engine with pending := pending }
  roundTrip : ∀ engine roundTrip, relation engine { engine with roundTrip := roundTrip }
  account : ∀ engine account, relation engine { engine with account := account }

namespace Footprint

variable {allowed : Effect → Prop} {relation : Engine D → Engine D → Prop} (footprint : Footprint allowed relation)

include footprint

theorem moves_bind {α β : Type} {first : EngineM D α} {next : α → EngineM D β}
    (firstMoves : Moves relation first) (nextMoves : ∀ value, Moves relation (next value)) :
    Moves relation (first >>= next) :=
  Library.Exec.moves_bind footprint.trans firstMoves nextMoves

theorem moves_pure {α : Type} (value : α) : Moves relation (pure value : EngineM D α) :=
  Library.Exec.moves_pure footprint.refl value

theorem moves_throw {α : Type} (exception : Exn) : Moves relation (throw exception : EngineM D α) :=
  Library.Exec.moves_throw footprint.refl exception

theorem moves_lift {α : Type} (result : Except Exn α) : Moves relation (lift result : EngineM D α) :=
  Library.Exec.moves_lift footprint.refl result

theorem moves_get {α : Type} {next : Engine D → EngineM D α} (nextMoves : ∀ engine, Moves relation (next engine)) :
    Moves relation (get >>= next) :=
  footprint.moves_bind (Library.Exec.moves_get footprint.refl) nextMoves

/-!
## Operations
-/

theorem moves_emit {effect : Effect} (allows : allowed effect) : Moves relation (emit effect : EngineM D PUnit) :=
  fun engine => footprint.trace engine effect allows

theorem moves_steadyNow : Moves relation (steadyNow : EngineM D Int) := footprint.reads

theorem moves_generateId : Moves relation (generateId : EngineM D Text) := footprint.ids

theorem moves_writeRaw (bytes : Nat) : Moves relation (writeRaw bytes : EngineM D PUnit) := by
  refine footprint.moves_get fun engine => ?_
  split
  · exact footprint.moves_throw _
  · exact fun current => footprint.ws current _

theorem moves_send {route : Route} {payload : Outgoing} {before : OrderStore}
    (allows : allowed (.send route payload before)) :
    Moves relation (send route payload before : EngineM D PUnit) :=
  footprint.moves_bind (footprint.moves_emit allows) fun _ => footprint.moves_writeRaw _

theorem moves_setBatching (batching : Bool) : Moves relation (setBatching batching : EngineM D PUnit) :=
  fun engine => footprint.ws engine _

theorem moves_buildWsOrderMessage (request : OrderRequest) :
    Moves relation (buildWsOrderMessage request : EngineM D Text) := by
  refine footprint.moves_bind footprint.moves_generateId fun id => ?_
  split
  · exact footprint.moves_throw _
  · exact footprint.moves_pure _

theorem moves_addOrder (clOrdId instId side px sz : Text) :
    Moves relation (addOrder clOrdId instId side px sz : EngineM D PUnit) :=
  footprint.moves_bind footprint.moves_steadyNow fun _ => footprint.moves_get fun _ =>
    footprint.moves_bind (footprint.moves_lift _) fun _ => fun engine => footprint.store engine _

theorem moves_updateOrder (clOrdId : Text) (action : OrderAction) :
    Moves relation (updateOrder clOrdId action : EngineM D PUnit) := by
  intro engine
  rw [updateOrder]
  cases engine.store.update clOrdId action with
  | ok value store => exact footprint.store engine store
  | error exception store => exact footprint.store engine store

theorem moves_removeOrder (clOrdId : Text) : Moves relation (removeOrder clOrdId : EngineM D PUnit) := by
  refine footprint.moves_get fun engine => ?_
  split
  · exact footprint.moves_pure _
  · exact footprint.moves_bind (footprint.moves_emit (footprint.background _ trivial)) fun _ =>
      footprint.moves_bind (fun current => footprint.quoter current _) fun _ current => footprint.store current _

theorem moves_restCall : Moves relation (restCall : EngineM D Text) := by
  intro engine
  rw [restCall]
  dsimp only
  split
  · exact footprint.calls engine
  · exact footprint.calls engine

theorem moves_placeOrder {request : OrderRequest} (places : ∀ clOrdId, allowed (.restPlace clOrdId request)) :
    Moves relation (placeOrder request : EngineM D OrderResult) := by
  unfold placeOrder
  split
  · exact footprint.moves_throw _
  · exact footprint.moves_bind footprint.moves_generateId fun clOrdId =>
      footprint.moves_bind (footprint.moves_emit (places clOrdId)) fun _ =>
        footprint.moves_bind footprint.moves_restCall fun _ => footprint.moves_pure _

theorem moves_cancelOrder (instId ordId : Text) : Moves relation (cancelOrder instId ordId : EngineM D OrderResult) :=
  footprint.moves_bind (footprint.moves_emit (footprint.background _ trivial)) fun _ =>
    footprint.moves_bind footprint.moves_restCall fun _ => footprint.moves_pure _

theorem moves_getPendingOrders : Moves relation (getPendingOrders : EngineM D Text) :=
  footprint.moves_bind (footprint.moves_emit (footprint.background _ trivial)) fun _ => footprint.moves_restCall

/-!
## Round trip
-/

theorem moves_track (id : Text) (handler : ResponseHandler) :
    Moves relation (track id handler : EngineM D PUnit) := by
  intro engine
  rw [track, run_modify]
  dsimp only [finalState]
  split
  · exact footprint.refl engine
  · exact footprint.pending engine _

theorem moves_setOrdId (ordId : Text) : Moves relation (setOrdId ordId : EngineM D PUnit) :=
  fun engine => footprint.roundTrip engine _

theorem moves_setClOrdId (clOrdId : Text) : Moves relation (setClOrdId clOrdId : EngineM D PUnit) :=
  fun engine => footprint.roundTrip engine _

theorem moves_fallBackToRestCancel : Moves relation (fallBackToRestCancel : EngineM D PUnit) :=
  footprint.moves_get fun _ => footprint.moves_bind (footprint.moves_cancelOrder _ _) fun _ => footprint.moves_pure _

theorem moves_startOverRest {request : OrderRequest} (places : ∀ clOrdId, allowed (.restPlace clOrdId request)) :
    Moves relation (startOverRest request : EngineM D PUnit) := by
  refine footprint.moves_bind (footprint.moves_placeOrder places) fun result => ?_
  split
  · exact footprint.moves_bind (footprint.moves_setOrdId _) fun _ => footprint.moves_fallBackToRestCancel
  · exact footprint.moves_pure _

theorem moves_startOverWs {request : OrderRequest} {before : OrderStore}
    (places : ∀ clOrdId, allowed (.send .roundTrip (.order clOrdId request) before)) :
    Moves relation (startOverWs request before : EngineM D PUnit) :=
  footprint.moves_bind (footprint.moves_buildWsOrderMessage request) fun clOrdId =>
    footprint.moves_bind (footprint.moves_setClOrdId clOrdId) fun _ =>
      footprint.moves_bind (footprint.moves_addOrder _ _ _ _ _) fun _ =>
        footprint.moves_bind (footprint.moves_send (places clOrdId)) fun _ => footprint.moves_track _ _

theorem moves_updateOwnOrder (action : OrderAction) : Moves relation (updateOwnOrder action : EngineM D PUnit) := by
  refine footprint.moves_get fun engine => ?_
  split
  · exact footprint.moves_throw _
  · exact footprint.moves_updateOrder _ _

theorem moves_requestAmend (ordId : Text)
    (amends : ∀ id instIdCode newPx newSz before,
      allowed (.send .roundTrip (.amendOrder id instIdCode ordId newPx newSz) before)) :
    Moves relation (requestAmend ordId : EngineM D PUnit) :=
  footprint.moves_bind footprint.moves_steadyNow fun _ =>
    footprint.moves_bind (footprint.moves_updateOwnOrder _) fun _ =>
      footprint.moves_bind footprint.moves_generateId fun _ => footprint.moves_get fun _ =>
        footprint.moves_bind (footprint.moves_send (amends _ _ _ _ _)) fun _ => footprint.moves_track _ _

theorem moves_requestCancel
    (cancels : ∀ id instIdCode ordId before, allowed (.send .roundTrip (.cancelOrder id instIdCode ordId) before)) :
    Moves relation (requestCancel : EngineM D PUnit) :=
  footprint.moves_bind footprint.moves_steadyNow fun _ =>
    footprint.moves_bind (footprint.moves_updateOwnOrder _) fun _ =>
      footprint.moves_bind footprint.moves_generateId fun _ => footprint.moves_get fun _ =>
        footprint.moves_bind (footprint.moves_send (cancels _ _ _ _)) fun _ => footprint.moves_track _ _

theorem moves_rejectUnlessAccepted (response : Text) :
    Moves relation (rejectUnlessAccepted response : EngineM D PUnit) := by
  unfold rejectUnlessAccepted
  split
  · exact footprint.moves_pure _
  · exact footprint.moves_updateOwnOrder _

theorem moves_onOrderResponse
    (amends : ∀ id instIdCode ordId newPx newSz before,
      allowed (.send .roundTrip (.amendOrder id instIdCode ordId newPx newSz) before)) (response : Text) :
    Moves relation (onOrderResponse response : EngineM D PUnit) := by
  unfold onOrderResponse
  split
  · exact footprint.moves_pure _
  · split
    · exact footprint.moves_pure _
    · refine footprint.moves_bind (footprint.moves_setOrdId _) fun _ => footprint.moves_get fun engine => ?_
      split
      · exact footprint.moves_requestAmend _ fun _ _ _ _ _ => amends _ _ _ _ _ _
      · exact footprint.moves_fallBackToRestCancel

theorem moves_onAmendResponse
    (cancels : ∀ id instIdCode ordId before, allowed (.send .roundTrip (.cancelOrder id instIdCode ordId) before))
    (response : Text) : Moves relation (onAmendResponse response : EngineM D PUnit) := by
  refine footprint.moves_bind (footprint.moves_rejectUnlessAccepted response) fun _ =>
    footprint.moves_get fun engine => ?_
  split
  · exact footprint.moves_requestCancel cancels
  · exact footprint.moves_fallBackToRestCancel

theorem moves_dispatch {message : Text}
    (handling : ∀ handler, Moves relation (runHandler handler message : EngineM D PUnit)) :
    Moves relation (dispatch message : EngineM D Bool) := by
  refine footprint.moves_get fun engine => ?_
  split
  · exact footprint.moves_pure _
  · exact footprint.moves_bind (fun current => footprint.pending current _) fun _ =>
      footprint.moves_bind (handling _) fun _ => footprint.moves_pure _

theorem moves_removeIfTerminal (clOrdId : Text) : Moves relation (removeIfTerminal clOrdId : EngineM D PUnit) := by
  refine footprint.moves_get fun engine => ?_
  split
  · split
    · exact footprint.moves_removeOrder clOrdId
    · exact footprint.moves_pure _
  · exact footprint.moves_pure _

theorem moves_applyOrderEvent (event : OrderEvent D) : Moves relation (applyOrderEvent event) := by
  refine footprint.moves_get fun engine => ?_
  split
  · exact footprint.moves_pure _
  · exact footprint.moves_bind (footprint.moves_updateOrder _ _) fun _ => footprint.moves_removeIfTerminal _

/-!
## Reconciliation
-/

theorem moves_adopt (clOrdId state order : Text) : Moves relation (adopt clOrdId state order : EngineM D PUnit) := by
  refine footprint.moves_get fun engine => ?_
  split
  · exact footprint.moves_pure _
  · refine footprint.moves_bind (footprint.moves_lift _) fun type => ?_
    refine footprint.moves_bind (footprint.moves_addOrder _ _ _ _ _) fun _ => footprint.moves_get fun added => ?_
    split
    · exact footprint.moves_throw _
    · exact footprint.moves_updateOrder _ _

theorem moves_collectExchangeIds (response : Text) :
    Moves relation (collectExchangeIds response : EngineM D (List Text)) := by
  have reflexive (current : Engine D × List Text) : relation current.1 current.1 := footprint.refl current.1
  have transitive (first second third : Engine D × List Text) (early : relation first.1 second.1)
      (late : relation second.1 third.1) : relation first.1 third.1 := footprint.trans _ _ _ early late
  refine moves_withLocal (Json.moves_forEachArrayElement reflexive transitive fun order => ?_)
  unfold reconcileRow
  split
  · exact Library.Exec.moves_bind transitive (fun current => footprint.refl current.1) fun _ =>
      moves_onFirst (footprint.moves_adopt _ _ _)
  · exact Library.Exec.moves_throw reflexive _

theorem moves_reconcileOrders (response : Text) : Moves relation (reconcileOrders response : EngineM D PUnit) :=
  footprint.moves_bind (footprint.moves_collectExchangeIds response) fun _ => footprint.moves_get fun _ =>
    moves_forM footprint.refl footprint.trans fun clOrdId _ => footprint.moves_removeOrder clOrdId

theorem moves_checkAndResolve : Moves relation (checkAndResolve : EngineM D PUnit) := by
  refine footprint.moves_bind footprint.moves_steadyNow fun now => footprint.moves_get fun engine => ?_
  split
  · exact footprint.moves_bind footprint.moves_getPendingOrders fun pending => footprint.moves_reconcileOrders pending
  · exact footprint.moves_pure _

/-!
## Connection
-/

theorem moves_noteLogin (message : Text) : Moves relation (noteLogin message : EngineM D PUnit) := by
  intro engine
  rw [noteLogin, run_modify]
  dsimp only [finalState]
  split
  · exact footprint.ws engine _
  · exact footprint.refl engine

theorem moves_connectOrReconnect (login : Text) :
    Moves relation (connectOrReconnect login : EngineM D PUnit) := by
  have connecting : Moves relation (connect login : EngineM D PUnit) :=
    footprint.moves_bind (fun engine => footprint.ws engine _) fun _ => footprint.moves_get fun _ =>
      footprint.moves_send (footprint.background _ trivial)
  intro engine
  have moved := connecting engine
  rw [connectOrReconnect]
  cases ran : connect login engine with
  | ok value next =>
      rw [ran] at moved
      exact moved
  | error exception next =>
      rw [ran] at moved
      exact footprint.trans _ _ _ moved (footprint.ws next _)

theorem moves_handleAccountChannelMessage [DoubleArith D] (message : Text) :
    Moves relation (handleAccountChannelMessage message : EngineM D PUnit) := by
  intro engine
  unfold handleAccountChannelMessage
  split
  · exact footprint.account engine _
  · exact footprint.account engine _

/-!
## Quoter
-/

theorem moves_tryAcquire (limits : ∀ engine limiter, relation engine { engine with rateLimiter := limiter })
    (op : Text) : Moves relation (tryAcquire op : EngineM D Bool) :=
  footprint.moves_bind footprint.moves_steadyNow fun _ => footprint.moves_get fun _ =>
    footprint.moves_bind (footprint.moves_lift _) fun _ =>
      footprint.moves_bind (fun engine => limits engine _) fun _ => footprint.moves_pure _

section Quoting

variable [DoubleArith D]

theorem moves_placeSide (limits : ∀ engine limiter, relation engine { engine with rateLimiter := limiter })
    (places : ∀ clOrdId request before, allowed (.send .quoter (.order clOrdId request) before))
    (side : QuoteSide) (px : D) : Moves relation (placeSide side px) := by
  refine footprint.moves_bind (footprint.moves_tryAcquire limits _) fun granted => ?_
  split
  · exact footprint.moves_get fun engine => footprint.moves_bind (footprint.moves_buildWsOrderMessage _) fun _ =>
      footprint.moves_bind (footprint.moves_addOrder _ _ _ _ _) fun _ =>
        footprint.moves_bind (footprint.moves_send (places _ _ _)) fun _ => footprint.moves_pure _
  · exact footprint.moves_pure _

theorem moves_amendSide (limits : ∀ engine limiter, relation engine { engine with rateLimiter := limiter })
    (amends : ∀ id instIdCode ordId newPx newSz before,
      allowed (.send .quoter (.amendOrder id instIdCode ordId newPx newSz) before))
    (clOrdId ordId : Text) (px : D) : Moves relation (amendSide clOrdId ordId px) := by
  refine footprint.moves_bind (footprint.moves_tryAcquire limits _) fun granted => ?_
  split
  · exact footprint.moves_bind footprint.moves_steadyNow fun _ =>
      footprint.moves_bind (footprint.moves_updateOrder _ _) fun _ =>
        footprint.moves_bind footprint.moves_generateId fun _ => footprint.moves_get fun _ =>
          footprint.moves_send (amends _ _ _ _ _ _)
  · exact footprint.moves_pure _

variable (placing : ∀ side (px : D), Moves relation (placeSide side px))

include placing

theorem moves_quoteSide (side : QuoteSide) (px : D) : Moves relation (quoteSide side px) :=
  footprint.moves_bind (placing side px) fun _ engine => footprint.quoter engine _

theorem moves_onTimer : Moves relation (onTimer : EngineM D PUnit) := by
  have filling (side : QuoteSide) (px : D) : Moves relation (quoteIfEmpty side px) := by
    refine footprint.moves_get fun engine => ?_
    split
    · exact footprint.moves_quoteSide placing side px
    · exact footprint.moves_pure _
  refine footprint.moves_get fun engine => ?_
  split
  · exact footprint.moves_pure _
  · exact footprint.moves_bind (footprint.moves_setBatching true) fun _ => footprint.moves_bind (filling .bid _) fun _ =>
      footprint.moves_bind (filling .ask _) fun _ => footprint.moves_setBatching false

theorem moves_replaceSide (amending : ∀ clOrdId ordId (px : D), Moves relation (amendSide clOrdId ordId px))
    (side : QuoteSide) (px : D) : Moves relation (replaceSide side px) := by
  have clearing : Moves relation (do setHandle side none; quoteSide side px : EngineM D PUnit) :=
    footprint.moves_bind (fun engine => footprint.quoter engine _) fun _ => footprint.moves_quoteSide placing side px
  refine footprint.moves_get fun engine => ?_
  split
  · exact footprint.moves_quoteSide placing side px
  · split
    · exact clearing
    · split
      · exact clearing
      · split
        · exact footprint.moves_pure _
        · exact amending _ _ px

theorem moves_onBookUpdate (amending : ∀ clOrdId ordId (px : D), Moves relation (amendSide clOrdId ordId px))
    (book : OrderBook D) : Moves relation (onBookUpdate book) := by
  refine footprint.moves_get fun engine => ?_
  split
  · exact footprint.moves_pure _
  · exact footprint.moves_get fun _ => footprint.moves_bind (footprint.moves_setBatching true) fun _ =>
      footprint.moves_bind (footprint.moves_replaceSide placing amending .bid _) fun _ =>
        footprint.moves_bind (footprint.moves_replaceSide placing amending .ask _) fun _ =>
          footprint.moves_bind (footprint.moves_setBatching false) fun _ current => footprint.quoter current _

end Quoting

end Footprint

end Engine

end TradingEngine
