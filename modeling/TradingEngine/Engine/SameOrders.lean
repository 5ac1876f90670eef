import TradingEngine.Engine.EngineProperties

/-! Handlers that neither add nor remove an order, and leave what the exchange calls
the orders alone. -/

set_option autoImplicit false

namespace TradingEngine.Engine

open Library.Exec

variable {D : Type}

structure SameOrders (before after : Engine D) : Prop where
  ids : after.store.ids = before.store.ids
  ordIds : ∀ order ∈ after.store.orders, ∃ old ∈ before.store.orders, old.ordId = order.ordId
  resumable : before.store.Resumable → after.store.Resumable
  lastId : before.lastId ≤ after.lastId

theorem sameOrders_of_store {before after : Engine D} (same : after.store = before.store)
    (lastId : before.lastId ≤ after.lastId) : SameOrders before after where
  ids := by rw [same]
  ordIds order member := ⟨order, same ▸ member, rfl⟩
  resumable := by
    rw [same]
    exact id
  lastId := lastId

theorem SameOrders.refl (engine : Engine D) : SameOrders engine engine := sameOrders_of_store rfl le_rfl

theorem SameOrders.trans (first second third : Engine D) (early : SameOrders first second)
    (late : SameOrders second third) : SameOrders first third where
  ids := late.ids.trans early.ids
  ordIds order member := by
    obtain ⟨middle, middleMember, sameLate⟩ := late.ordIds order member
    obtain ⟨old, oldMember, sameEarly⟩ := early.ordIds middle middleMember
    exact ⟨old, oldMember, sameEarly.trans sameLate⟩
  resumable := late.resumable ∘ early.resumable
  lastId := early.lastId.trans late.lastId

theorem sameOrders_bind {α β : Type} {first : EngineM D α} {next : α → EngineM D β}
    (firstSame : Moves SameOrders first) (nextSame : ∀ value, Moves SameOrders (next value)) :
    Moves SameOrders (first >>= next) :=
  moves_bind SameOrders.trans firstSame nextSame

theorem sameOrders_get {α : Type} {next : Engine D → EngineM D α} (nextSame : ∀ engine, Moves SameOrders (next engine)) :
    Moves SameOrders (get >>= next) :=
  sameOrders_bind (moves_get SameOrders.refl) nextSame

theorem sameOrders_steadyNow : Moves SameOrders (steadyNow : EngineM D Int) := fun _ => sameOrders_of_store rfl le_rfl

theorem sameOrders_generateId : Moves SameOrders (generateId : EngineM D Text) :=
  fun engine => sameOrders_of_store rfl engine.lt_nextId.le

theorem sameOrders_send (route : Route) (payload : Outgoing) (before : OrderStore) :
    Moves SameOrders (send route payload before : EngineM D PUnit) := by
  intro engine
  rw [run_send]
  split <;> exact sameOrders_of_store rfl le_rfl

theorem sameOrders_track (id : Text) (handler : ResponseHandler) :
    Moves SameOrders (track id handler : EngineM D PUnit) := by
  intro engine
  rw [track, run_modify]
  dsimp only [finalState]
  split <;> exact sameOrders_of_store rfl le_rfl

theorem sameOrders_restCall : Moves SameOrders (restCall : EngineM D Text) := by
  intro engine
  rw [restCall]
  dsimp only
  split <;> exact sameOrders_of_store rfl le_rfl

theorem sameOrders_cancelOrder (instId ordId : Text) :
    Moves SameOrders (cancelOrder instId ordId : EngineM D OrderResult) :=
  sameOrders_bind (fun _ => sameOrders_of_store rfl le_rfl) fun _ =>
    sameOrders_bind sameOrders_restCall fun _ => moves_pure SameOrders.refl _

theorem sameOrders_fallBackToRestCancel : Moves SameOrders (fallBackToRestCancel : EngineM D PUnit) :=
  sameOrders_get fun _ => sameOrders_bind (sameOrders_cancelOrder _ _) fun _ => moves_pure SameOrders.refl _

theorem sameOrders_updateOrder {action : OrderAction} (keepsOrdId : OrderStore.KeepsOrdId action)
    (keepsResumable : OrderStore.KeepsResumable action) (clOrdId : Text) :
    Moves SameOrders (updateOrder clOrdId action : EngineM D PUnit) := by
  intro engine
  have store : (finalState (updateOrder clOrdId action engine)).store =
      finalState (engine.store.update clOrdId action) := by
    rw [updateOrder]
    cases engine.store.update clOrdId action <;> rfl
  have lastId : engine.lastId ≤ (finalState (updateOrder clOrdId action engine)).lastId := by
    rw [updateOrder]
    cases engine.store.update clOrdId action <;> exact le_rfl
  refine ⟨by rw [store, OrderStore.ids_update], ?_, ?_, lastId⟩
  · intro order member
    rw [store] at member
    obtain ⟨old, oldMember, -, sameOrdId⟩ := OrderStore.ordId_update keepsOrdId member
    exact ⟨old, oldMember, sameOrdId⟩
  · intro resumable
    rw [store]
    exact OrderStore.resumable_update keepsResumable resumable clOrdId

theorem sameOrders_updateOwnOrder {action : OrderAction} (keepsOrdId : OrderStore.KeepsOrdId action)
    (keepsResumable : OrderStore.KeepsResumable action) :
    Moves SameOrders (updateOwnOrder action : EngineM D PUnit) := by
  refine sameOrders_get fun current => ?_
  split
  · exact moves_throw SameOrders.refl _
  · exact sameOrders_updateOrder keepsOrdId keepsResumable _

theorem sameOrders_requestAmend (ordId : Text) : Moves SameOrders (requestAmend ordId : EngineM D PUnit) :=
  sameOrders_bind sameOrders_steadyNow fun now =>
    sameOrders_bind (sameOrders_updateOwnOrder (OrderStore.keepsOrdId_onAmendRequested now)
      (OrderStore.keepsResumable_onAmendRequested now)) fun _ =>
      sameOrders_bind sameOrders_generateId fun _ => sameOrders_get fun _ =>
        sameOrders_bind (sameOrders_send _ _ _) fun _ => sameOrders_track _ _

theorem sameOrders_requestCancel : Moves SameOrders (requestCancel : EngineM D PUnit) :=
  sameOrders_bind sameOrders_steadyNow fun now =>
    sameOrders_bind (sameOrders_updateOwnOrder (OrderStore.keepsOrdId_onCancelRequested now)
      (OrderStore.keepsResumable_onCancelRequested now)) fun _ =>
      sameOrders_bind sameOrders_generateId fun _ => sameOrders_get fun _ =>
        sameOrders_bind (sameOrders_send _ _ _) fun _ => sameOrders_track _ _

theorem sameOrders_rejectUnlessAccepted (response : Text) :
    Moves SameOrders (rejectUnlessAccepted response : EngineM D PUnit) := by
  unfold rejectUnlessAccepted
  split
  · exact moves_pure SameOrders.refl _
  · exact sameOrders_updateOwnOrder OrderStore.keepsOrdId_onRequestRejected
      OrderStore.keepsResumable_onRequestRejected

theorem sameOrders_runHandler (handler : ResponseHandler) (response : Text) :
    Moves SameOrders (runHandler handler response : EngineM D PUnit) := by
  cases handler with
  | onOrderResponse =>
      unfold runHandler onOrderResponse
      dsimp only
      split
      · exact moves_pure SameOrders.refl _
      · split
        · exact moves_pure SameOrders.refl _
        · refine sameOrders_bind (fun _ => sameOrders_of_store rfl le_rfl) fun _ => sameOrders_get fun engine => ?_
          split
          · exact sameOrders_requestAmend _
          · exact sameOrders_fallBackToRestCancel
  | onAmendResponse =>
      refine sameOrders_bind (sameOrders_rejectUnlessAccepted response) fun _ => sameOrders_get fun engine => ?_
      split
      · exact sameOrders_requestCancel
      · exact sameOrders_fallBackToRestCancel
  | onCancelResponse => exact sameOrders_rejectUnlessAccepted response

theorem sameOrders_dispatch (message : Text) : Moves SameOrders (dispatch message : EngineM D Bool) := by
  intro engine
  cases found : engine.handlerFor message with
  | none =>
      rw [dispatch_unknown found]
      exact SameOrders.refl engine
  | some entry =>
      obtain ⟨id, handler⟩ := entry
      rw [finalState_dispatch found]
      refine SameOrders.trans _ _ _ ?_ (sameOrders_runHandler handler message _)
      exact sameOrders_of_store rfl le_rfl

theorem sameOrders_connectOrReconnect (login : Text) :
    Moves SameOrders (connectOrReconnect login : EngineM D PUnit) := by
  have connecting : Moves SameOrders (connect login : EngineM D PUnit) :=
    sameOrders_bind (fun _ => sameOrders_of_store rfl le_rfl) fun _ => sameOrders_get fun _ => sameOrders_send _ _ _
  intro engine
  have same := connecting engine
  rw [connectOrReconnect]
  cases ran : connect login engine with
  | ok value next =>
      rw [ran] at same
      exact same
  | error exception next =>
      rw [ran] at same
      exact same.trans _ _ _ (sameOrders_of_store rfl le_rfl)

theorem sameOrders_writeRaw (bytes : Nat) : Moves SameOrders (writeRaw bytes : EngineM D PUnit) := by
  refine sameOrders_get fun engine => ?_
  split
  · exact moves_throw SameOrders.refl _
  · exact fun _ => sameOrders_of_store rfl le_rfl

theorem sameOrders_handleAccountChannelMessage [DoubleArith D] (message : Text) :
    Moves SameOrders (handleAccountChannelMessage message : EngineM D PUnit) := by
  intro engine
  rw [handleAccountChannelMessage]
  split <;> exact sameOrders_of_store rfl le_rfl

end TradingEngine.Engine
