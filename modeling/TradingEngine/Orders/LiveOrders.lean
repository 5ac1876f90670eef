import TradingEngine.Engine.EngineProperties
import TradingEngine.Orders.ReconciliationProperties
import TradingEngine.Orders.WsOrderRoundTripProperties
import TradingEngine.Strategy.NaiveQuoterProperties

/-! Stored orders are live. An event that ends an order removes it, and a request
keeps a state to return to that is not over; so no event throws on a stored order,
and the quoter requests no amendment the order would refuse. -/

set_option autoImplicit false

namespace TradingEngine

open Library.Exec

/-- Not over, nor would it be after a rejected request. -/
structure Order.Live (order : Order) : Prop where
  state : isTerminal order.state = false
  prePendingState : order.prePendingState = .kPendingNew ∨ order.prePendingState = .kNew ∨
    order.prePendingState = .kPartiallyFilled

def OrderStore.Live (store : OrderStore) : Prop := ∀ order ∈ store.orders, order.Live

namespace Order

variable {D : Type} {order : Order}

theorem Live.resumable (live : order.Live) : isTerminal order.prePendingState = false := by
  rcases live.prePendingState with state | state | state <;> rw [state] <;> rfl

theorem live_create (clOrdId instId side px sz : Text) (now : Int) : (create clOrdId instId side px sz now).Live :=
  ⟨rfl, .inl rfl⟩

/-- The state of a live order, split as the requests split it. -/
theorem Live.cases (live : order.Live) :
    (order.state = .kPendingNew ∨ order.state = .kNew ∨ order.state = .kPartiallyFilled) ∨
      order.state = .kPendingCancel ∨ order.state = .kPendingAmend := by
  have state := live.state
  cases current : order.state with
  | kPendingNew => exact .inl (.inl rfl)
  | kNew => exact .inl (.inr (.inl rfl))
  | kPartiallyFilled => exact .inl (.inr (.inr rfl))
  | kPendingCancel => exact .inr (.inl rfl)
  | kPendingAmend => exact .inr (.inr rfl)
  | kFilled | kCanceled | kRejected =>
      rw [current] at state
      cases state

theorem Live.request {message : String} {other pending : OrderState} (live : order.Live)
    (goesOn : isTerminal pending = false) (now : Int) :
    (finalState (Order.request message other pending now order)).Live := by
  unfold Order.request
  split
  · exact live
  · rename_i admitted
    refine ⟨goesOn, ?_⟩
    split
    · rename_i different
      by_contra refused
      simp only [not_or] at refused
      exact admitted ⟨refused.1, refused.2.1, refused.2.2, different⟩
    · exact live.prePendingState

theorem Live.onRequestRejected (live : order.Live) : (finalState (Order.onRequestRejected order)).Live := by
  unfold Order.onRequestRejected
  split
  · exact live
  · exact ⟨live.resumable, live.prePendingState⟩

/-- An event never throws on a live order, which stays live unless the event ends it. -/
theorem Live.applyEvent (live : order.Live) (event : OrderEvent D) :
    ∃ next, Order.applyEvent event order = .ok .unit next ∧ (Engine.ends event = false → next.Live) := by
  have recorded : isTerminal (order.record event).state = false := live.state
  unfold Order.applyEvent
  cases type : event.type with
  | kLive =>
      dsimp only
      split
      · exact ⟨_, rfl, fun _ => ⟨rfl, live.prePendingState⟩⟩
      · split
        · refine ⟨_, rfl, fun _ => ⟨?_, live.prePendingState⟩⟩
          dsimp only
          split
          · rfl
          · exact live.resumable
        · split
          · exact ⟨_, rfl, fun _ => ⟨recorded, live.prePendingState⟩⟩
          · rename_i notNew notAmend refused
            have state : (order.record event).state = order.state := rfl
            rw [state] at notNew notAmend refused
            rcases live.cases with (pending | isNew | filled) | cancel | amend
            · exact absurd pending notNew
            · exact absurd (.inl isNew) refused
            · exact absurd (.inr (.inl filled)) refused
            · exact absurd (.inr (.inr cancel)) refused
            · exact absurd amend notAmend
  | kPartialFill =>
      simp only [Order.advance, recorded]
      exact ⟨_, rfl, fun _ => ⟨rfl, live.prePendingState⟩⟩
  | kFill | kCancel =>
      simp only [Order.advance, recorded]
      refine ⟨_, rfl, fun goesOn => ?_⟩
      simp [Engine.ends, type] at goesOn

theorem Live.onAmendRequested (live : order.Live) (free : order.state ≠ .kPendingAmend) (now : Int) :
    ∃ next, Order.onAmendRequested now order = .ok .unit next := by
  unfold Order.onAmendRequested Order.request
  rw [if_neg]
  · exact ⟨_, rfl⟩
  · rintro ⟨notPending, notNew, notFilled, notCancel⟩
    rcases live.cases with (pending | isNew | filled) | cancel | amend
    · exact notPending pending
    · exact notNew isNew
    · exact notFilled filled
    · exact notCancel cancel
    · exact free amend

end Order

namespace OrderStore

theorem Live.update {store : OrderStore} (live : store.Live) {action : OrderAction}
    (keeps : ∀ order : Order, order.Live → (finalState (action.run order)).Live) (clOrdId : Text) :
    (finalState (store.update clOrdId action)).Live := by
  intro order member
  rcases mem_update member with kept | ⟨old, found, rfl⟩
  · exact live order kept
  · exact keeps old (live old (of_findByClOrdId found).1)

/-- Distinct ids, and live orders. -/
structure Healthy (store : OrderStore) : Prop where
  distinct : store.ids.Nodup
  live : store.Live

theorem Healthy.update {store next : OrderStore} (healthy : store.Healthy) {action : OrderAction} {clOrdId : Text}
    (updated : store.update clOrdId action = .ok .unit next)
    (keeps : ∀ order : Order, order.Live → (finalState (action.run order)).Live) : next.Healthy := by
  have live := healthy.live.update keeps clOrdId
  rw [updated] at live
  exact ⟨ids_of_update updated ▸ healthy.distinct, live⟩

theorem Live.add {store next : OrderStore} {order : Order} (live : store.Live) (new : order.Live)
    (added : store.add order = .ok next) : next.Live := by
  intro other member
  rcases List.mem_cons.mp ((perm_add added).mem_iff.mp member) with rfl | old
  · exact new
  · exact live other old

theorem Healthy.add {store next : OrderStore} {order : Order} (healthy : store.Healthy)
    (fresh : order.clOrdId ∉ store.ids) (new : order.Live) (added : store.add order = .ok next) : next.Healthy where
  distinct := (ids_perm_add added).nodup_iff.mpr (List.nodup_cons.mpr ⟨fresh, healthy.distinct⟩)
  live := healthy.live.add new added

end OrderStore

namespace Engine

variable {D : Type}

/-!
## Events
-/

/-- An order an event was applied to is live, unless the event ends it, and then it is over. -/
theorem applied_healthy {engine : Engine D} (healthy : engine.store.Healthy) {event : OrderEvent D} {old order : Order}
    (found : engine.store.findByClOrdId event.clOrdId = some old)
    (applied : (OrderAction.applyEvent event).run old = .ok .unit order) :
    if ends event = true then isTerminal order.state = true else order.Live := by
  have live := healthy.live old (OrderStore.of_findByClOrdId found).1
  split
  · rename_i last
    obtain ⟨after, again, terminal⟩ := applyEvent_ends last live.state
    obtain rfl : after = order := by
      have same := again.symm.trans applied
      injection same
    exact terminal
  · rename_i goesOn
    obtain ⟨after, again, keeps⟩ := live.applyEvent event
    obtain rfl : after = order := by
      have same := again.symm.trans applied
      injection same
    exact keeps (Bool.eq_false_iff.mpr goesOn)

/-- An event returns and keeps what is stored healthy; the order it ends is gone. -/
theorem applyOrderEvent_healthy {engine : Engine D} (healthy : engine.store.Healthy) (event : OrderEvent D) :
    ∃ next, applyOrderEvent event engine = .ok .unit next ∧ next.store.Healthy ∧
      (ends event = true → event.clOrdId ∉ next.store.ids) := by
  have outcome := applyOrderEvent_outcome event engine
  cases ran : applyOrderEvent event engine with
  | error exception next =>
      rw [ran] at outcome
      obtain ⟨_, _, threw, -⟩ := outcome
      obtain ⟨written, updated⟩ : ∃ store, engine.store.update event.clOrdId (.applyEvent event) = .ok .unit store := by
        refine OrderStore.update_returns fun order found => ?_
        obtain ⟨next, applied, -⟩ := (healthy.live order (OrderStore.of_findByClOrdId found).1).applyEvent event
        exact ⟨next, applied⟩
      rw [updated] at threw
      cases threw
  | ok value next =>
      rw [ran] at outcome
      refine ⟨next, rfl, ?_⟩
      cases outcome with
      | unknown absent => exact ⟨healthy, fun _ => absent⟩
      | @moved store order updated found alive =>
          obtain ⟨old, wasFound, applied⟩ := OrderStore.found_of_update updated found
          have moved := applied_healthy healthy wasFound applied
          have distinct : store.ids.Nodup := OrderStore.ids_of_update updated ▸ healthy.distinct
          split at moved
          · rw [alive] at moved
            cases moved
          · rename_i goesOn
            refine ⟨⟨distinct, fun other member => ?_⟩, fun last => absurd last goesOn⟩
            have written : other ∈ (finalState (engine.store.update event.clOrdId (.applyEvent event))).orders := by
              rw [updated]
              exact member
            rcases OrderStore.mem_update written with kept | ⟨again, foundAgain, rfl⟩
            · exact healthy.live other kept
            · obtain rfl : old = again := Option.some.inj (wasFound.symm.trans foundAgain)
              rw [applied]
              exact moved
      | @ended store order updated found terminal =>
          have distinct : store.ids.Nodup := OrderStore.ids_of_update updated ▸ healthy.distinct
          have stored : event.clOrdId ∈ engine.store.ids := by
            rw [← OrderStore.ids_of_update updated]
            exact OrderStore.mem_ids.mpr ⟨order, OrderStore.of_findByClOrdId found⟩
          refine ⟨⟨OrderStore.nodup_erase distinct _, fun other member => healthy.live other ?_⟩, fun _ gone => ?_⟩
          · refine OrderStore.mem_of_mem_erase_update stored (.applyEvent event) ?_
            rw [updated]
            exact member
          · exact ((OrderStore.mem_ids_erase distinct).mp gone).2 rfl

/-!
## Reconciliation
-/

theorem live_adoptedOrder {type : OrderEventType} (clOrdId row : Text) (now : Int) :
    (adoptedOrder type clOrdId row now).Live := by
  refine ⟨?_, .inl rfl⟩
  cases type <;> rfl

theorem reconcileOrders_healthy {engine next : Engine D} (healthy : engine.store.Healthy) {response : Text}
    (ran : reconcileOrders response engine = .ok .unit next) : next.store.Healthy := by
  have outcome := reconcileOrders_outcome response engine
  rw [ran] at outcome
  obtain ⟨-, middle, adopts, drops, stays⟩ := outcome
  constructor
  · have kept := stays.map Order.clOrdId
    exact kept.nodup_iff.mpr ((adopts.nodup healthy.distinct).sublist (List.filter_sublist.map _))
  · intro order member
    rcases adopts.of_mem (List.mem_filter.mp (stays.mem_iff.mp member)).1 with old | ⟨row, -, type, now, -, rfl⟩
    · exact healthy.live order old
    · exact live_adoptedOrder _ _ _

/-!
## The quoter
-/

/-- The transmit ring or the store has no room left. -/
def NoRoom (exception : Exn) : Prop :=
  exception = .runtimeError "RingBuffer overflow".toList ∨ exception = .runtimeError "OrderStore is full".toList

theorem raises_send (route : Route) (payload : Outgoing) (before : OrderStore) :
    Raises NoRoom (send route payload before : EngineM D PUnit) := by
  intro engine exception next threw
  rw [run_send] at threw
  split at threw
  · cases threw
    exact .inl rfl
  · cases threw

theorem raises_addOrder (clOrdId instId side px sz : Text) :
    Raises NoRoom (addOrder clOrdId instId side px sz : EngineM D PUnit) := by
  intro engine exception next threw
  rw [run_addOrder] at threw
  unfold OrderStore.add at threw
  split at threw
  · cases threw
  · rename_i full
    split at full
    · cases full
    · cases full
      cases threw
      exact .inr rfl

theorem raises_tryAcquire {op : Text} (limited : op = kOrderOp ∨ op = kCancelOrderOp ∨ op = kAmendOrderOp) :
    Raises NoRoom (tryAcquire op : EngineM D Bool) := by
  refine raises_of_returns fun engine => ?_
  obtain ⟨granted, limiter, -, acquired⟩ := run_tryAcquire engine limited
  exact ⟨granted, _, acquired⟩

/-- A live order that has no amendment in flight takes one. -/
theorem amendSide_raises [DoubleArith D] {engine : Engine D} (healthy : engine.store.Healthy) {clOrdId : Text}
    (free : ∀ order, engine.store.findByClOrdId clOrdId = some order → order.state ≠ .kPendingAmend)
    {ordId : Text} {px : D} {exception : Exn} {next : Engine D}
    (threw : amendSide clOrdId ordId px engine = .error exception next) : NoRoom exception := by
  obtain ⟨granted, limiter, -, acquired⟩ := run_tryAcquire engine (.inr (.inr rfl))
  rw [amendSide, run_bind_ok acquired] at threw
  cases granted with
  | false => cases threw
  | true =>
      rw [if_pos rfl, run_bind_ok (run_steadyNow _)] at threw
      rcases of_bind_error threw with refused | ⟨_, updated, -, later⟩
      · obtain ⟨store, taken⟩ : ∃ store,
            engine.store.update clOrdId (.onAmendRequested engine.steadyClock.tick.now) = .ok .unit store :=
          OrderStore.update_returns fun order found =>
            (healthy.live order (OrderStore.of_findByClOrdId found).1).onAmendRequested (free order found) _
        rw [updateOrder] at refused
        dsimp only at refused
        rw [taken] at refused
        cases refused
      · rw [run_bind_ok (run_generateId _), run_bind_ok (run_get _)] at later
        exact raises_send _ _ _ _ _ _ later

section Quoting

variable [DoubleArith D]

theorem raises_placeSide (side : QuoteSide) (px : D) : Raises NoRoom (placeSide side px) := by
  refine raises_bind (raises_tryAcquire (.inl rfl)) fun granted => ?_
  split
  · refine raises_bind (raises_of_returns fun engine => ⟨engine, engine, rfl⟩) fun engine => ?_
    refine raises_bind (raises_of_returns fun current => ?_) fun clOrdId => ?_
    · exact ⟨_, _, run_buildWsOrderMessage current kLimit_ne_kMarket⟩
    · exact raises_bind (raises_addOrder _ _ _ _ _) fun _ => raises_bind (raises_send _ _ _) fun _ =>
        raises_of_returns fun current => ⟨_, current, rfl⟩
  · exact raises_of_returns fun current => ⟨_, current, rfl⟩

theorem raises_quoteSide (side : QuoteSide) (px : D) : Raises NoRoom (quoteSide side px) :=
  raises_bind (raises_placeSide side px) fun _ => raises_of_returns fun _ => ⟨_, _, rfl⟩

/-- Replacing a side throws only for want of room. -/
theorem replaceSide_raises {engine : Engine D} (healthy : engine.store.Healthy) {side : QuoteSide} {px : D}
    {exception : Exn} {next : Engine D} (threw : replaceSide side px engine = .error exception next) :
    NoRoom exception := by
  have quoting : Raises NoRoom (do setHandle side none; quoteSide side px : EngineM D PUnit) :=
    raises_bind (raises_of_returns fun _ => ⟨_, _, rfl⟩) fun _ => raises_quoteSide side px
  rw [replaceSide, run_bind_ok (run_get _)] at threw
  cases handle : engine.quoter.handle side with
  | none =>
      rw [handle] at threw
      exact raises_quoteSide side px _ _ _ threw
  | some clOrdId =>
      rw [handle] at threw
      dsimp only at threw
      cases found : engine.store.findByClOrdId clOrdId with
      | none =>
          rw [found] at threw
          exact quoting _ _ _ threw
      | some order =>
          rw [found] at threw
          dsimp only at threw
          split at threw
          · exact quoting _ _ _ threw
          · split at threw
            · cases threw
            · rename_i free
              refine amendSide_raises healthy (fun other foundOther => ?_) threw
              obtain rfl : order = other := Option.some.inj (found.symm.trans foundOther)
              exact free

theorem SideStep.healthy {wants : Engine D → QuoteSide → Bool} {before after : Engine D} {side : QuoteSide} {px : D}
    (step : SideStep wants side px before after) (healthy : before.store.Healthy)
    (fresh : wants before side = true → toDecimal before.nextId ∉ before.store.ids) : after.store.Healthy := by
  cases step with
  | waits waits =>
      obtain ⟨clock, limiter, rfl⟩ := waits
      exact healthy
  | denied _ waits =>
      obtain ⟨clock, limiter, rfl⟩ := waits
      exact healthy
  | places wanted places =>
      obtain ⟨clock, limiter, ws, now, store, added, rfl⟩ := places
      exact healthy.add (fresh wanted) (Order.live_create _ _ _ _ _ _) added
  | amends _ amends =>
      obtain ⟨clock, limiter, ws, now, store, effect, updated, rfl, -⟩ := amends
      exact healthy.update updated fun order live => live.request rfl now

/-!
## Runs
-/

/-- What may happen to the store. -/
inductive StoreInput (D : Type) [DoubleArith D] where
  | add (clOrdId instId side px sz : Text)
  | orderEvent (event : OrderEvent D)
  | replaceSide (side : QuoteSide) (px : D)
  | cancelRequested (clOrdId : Text)
  | requestRejected (clOrdId : Text)
  | reconcile (response : Text)

def storeStep : StoreInput D → EngineM D PUnit
  | .add clOrdId instId side px sz => addOrder clOrdId instId side px sz
  | .orderEvent event => applyOrderEvent event
  | .replaceSide side px => replaceSide side px
  | .cancelRequested clOrdId => do
      let now ← steadyNow
      updateOrder clOrdId (.onCancelRequested now)
  | .requestRejected clOrdId => updateOrder clOrdId .onRequestRejected
  | .reconcile response => reconcileOrders response

/-- Orders are added under fresh ids. -/
def AddsFresh (engine : Engine D) : StoreInput D → Prop
  | .add clOrdId _ _ _ _ => clOrdId ∉ engine.store.ids
  | .replaceSide side _ => engine.needsOrder side = true → toDecimal engine.nextId ∉ engine.store.ids
  | .orderEvent _ | .cancelRequested _ | .requestRejected _ | .reconcile _ => True

theorem storeStep_healthy {engine next : Engine D} {input : StoreInput D} (healthy : engine.store.Healthy)
    (admitted : AddsFresh engine input) (ran : storeStep input engine = .ok .unit next) : next.store.Healthy := by
  cases input with
  | add clOrdId instId side px sz =>
      obtain ⟨added, -⟩ := addOrder_ok engine ran
      refine healthy.add ?_ (Order.live_create _ _ _ _ _ _) added
      exact admitted
  | orderEvent event =>
      obtain ⟨after, applied, kept, -⟩ := applyOrderEvent_healthy healthy event
      obtain rfl : next = after := by
        have same := ran.symm.trans applied
        injection same
      exact kept
  | replaceSide side px =>
      have outcome := replaceSide_outcome side px engine
      rw [show replaceSide side px engine = .ok .unit next from ran] at outcome
      exact SideStep.healthy outcome healthy admitted
  | cancelRequested clOrdId =>
      rw [storeStep, run_bind_ok (run_steadyNow engine)] at ran
      obtain ⟨store, updated, rfl⟩ := updateOrder_ok _ ran
      exact healthy.update updated fun order live => live.request rfl _
  | requestRejected clOrdId =>
      obtain ⟨store, updated, rfl⟩ := updateOrder_ok _ ran
      exact healthy.update updated fun order live => live.onRequestRejected
  | reconcile response => exact reconcileOrders_healthy healthy ran

/-- What holds of the store between inputs. -/
structure StoredLive (engine : Engine D) : Prop where
  live : ∀ order ∈ engine.store.orders, order.Live
  applies : ∀ event : OrderEvent D, ∀ order ∈ engine.store.orders, ∃ next, order.applyEvent event = .ok .unit next
  replaces : ∀ side px exception next, replaceSide side px engine = .error exception next → NoRoom exception
  removes : ∀ event, ∃ next, applyOrderEvent event engine = .ok .unit next ∧
    (event.type = .kFill ∨ event.type = .kCancel → event.clOrdId ∉ next.store.ids)

/-- In every state of every run from an empty store, whatever the events, stored
orders are live, no event throws, and an order leaves with the event that ends it. -/
theorem stored_orders_live {start engine : Engine D} (empty : start.store = .empty)
    (run : Reaches storeStep AddsFresh start engine) : StoredLive engine := by
  have healthy : engine.store.Healthy := by
    refine run.invariant (fun current => current.store.Healthy) ?_ fun current input next => storeStep_healthy
    rw [empty]
    exact ⟨List.nodup_nil, fun order member => by cases member⟩
  refine ⟨healthy.live, fun event order member => ?_, fun _ _ _ _ => replaceSide_raises healthy, fun event => ?_⟩
  · obtain ⟨next, applied, -⟩ := (healthy.live order member).applyEvent event
    exact ⟨next, applied⟩
  · obtain ⟨next, applied, -, gone⟩ := applyOrderEvent_healthy healthy event
    exact ⟨next, applied, fun last => gone (by simpa [ends] using last)⟩

instance (engine : Engine D) : (input : StoreInput D) → Decidable (AddsFresh engine input)
  | .add _ _ _ _ _ => inferInstanceAs (Decidable (_ ∉ _))
  | .replaceSide _ _ => inferInstanceAs (Decidable (_ → _))
  | .orderEvent _ | .cancelRequested _ | .requestRejected _ | .reconcile _ => isTrue trivial

end Quoting

/-- A quote is placed, acknowledged, amended and partly filled; a cancellation is
refused, and a stale acknowledgement comes last. -/
def storeRun : List (StoreInput ℚ) :=
  [.replaceSide .bid 100, .orderEvent (acknowledgement "1" "71" "buy" "100.00"), .replaceSide .bid 101,
    .orderEvent { acknowledgement "1" "71" "buy" "101.00" with type := .kPartialFill }, .cancelRequested "1".toList,
    .requestRejected "1".toList, .reconcile samplePending, .orderEvent (acknowledgement "1" "71" "buy" "100.00")]

theorem stored_orders_live_after_rejection :
    (finalState (forM storeRun storeStep sampleEngine)).store.size = 1 ∧
      StoredLive (finalState (forM storeRun storeStep sampleEngine)) :=
  ⟨by decide +kernel, stored_orders_live rfl (Reaches.start.all storeRun (by decide +kernel))⟩

end Engine

end TradingEngine
