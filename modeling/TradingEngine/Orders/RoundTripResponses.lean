import TradingEngine.Orders.LiveOrders

/-! The round trip beside the pushes for its order. A response finds the order
unless a push has ended it, and a rejection finds the request in flight unless a
push has taken the order out of its pending state. -/

set_option autoImplicit false

namespace TradingEngine

open Library.Exec

variable {D : Type}

/-- Acknowledged or not, and with no request in flight. -/
def Working (state : OrderState) : Prop := state = .kPendingNew ∨ state = .kNew ∨ state = .kPartiallyFilled

namespace Order

theorem request_returns_iff {message : String} {other pending : OrderState} {now : Int} {order : Order} :
    (∃ next, request message other pending now order = .ok .unit next) ↔ Working order.state ∨ order.state = other := by
  unfold request
  split
  · rename_i refused
    obtain ⟨notPending, notNew, notFilled, notOther⟩ := refused
    constructor
    · rintro ⟨_, threw⟩
      cases threw
    · rintro ((pending | isNew | filled) | same)
      · exact absurd pending notPending
      · exact absurd isNew notNew
      · exact absurd filled notFilled
      · exact absurd same notOther
  · rename_i admitted
    refine ⟨fun _ => ?_, fun _ => ⟨_, rfl⟩⟩
    by_contra refused
    simp only [Working, not_or] at refused
    exact admitted ⟨refused.1.1, refused.1.2.1, refused.1.2.2, refused.2⟩

theorem state_request {message : String} {other pending : OrderState} {now : Int} {order next : Order}
    (ran : request message other pending now order = .ok .unit next) : next.state = pending := by
  unfold request at ran
  split at ran
  · cases ran
  · cases ran
    rfl

theorem onRequestRejected_returns_iff {order : Order} :
    (∃ next, onRequestRejected order = .ok .unit next) ↔ order.state = .kPendingCancel ∨ order.state = .kPendingAmend := by
  unfold onRequestRejected
  split
  · rename_i refused
    constructor
    · rintro ⟨_, threw⟩
      cases threw
    · rintro (cancel | amend)
      · exact absurd cancel refused.1
      · exact absurd amend refused.2
  · rename_i admitted
    refine ⟨fun _ => ?_, fun _ => ⟨_, rfl⟩⟩
    by_contra refused
    simp only [not_or] at refused
    exact admitted refused

theorem state_onRequestRejected {order next : Order} (ran : onRequestRejected order = .ok .unit next) :
    next.state = order.prePendingState := by
  unfold onRequestRejected at ran
  split at ran
  · cases ran
  · cases ran
    rfl

end Order

/-!
## The state an order is in when a response comes
-/

/-- The state of the order while a response is waited for, by the pushes since the
request was sent: the first one that moves the order ends its pending state. -/
def ExpectedState (pushes : List OrderEventType) (state : OrderState) : ResponseHandler → Prop
  | .onOrderResponse => Working state
  | .onAmendResponse =>
      if .kLive ∈ pushes ∨ .kPartialFill ∈ pushes then Working state else state = .kPendingAmend
  | .onCancelResponse => if .kPartialFill ∈ pushes then Working state else state = .kPendingCancel

/-- No push has taken the order out of the pending state the request left it in. -/
def InFlight (pushes : List OrderEventType) : ResponseHandler → Prop
  | .onOrderResponse => False
  | .onAmendResponse => .kLive ∉ pushes ∧ .kPartialFill ∉ pushes
  | .onCancelResponse => .kPartialFill ∉ pushes

theorem Working.not_pending {state : OrderState} (working : Working state) :
    ¬ (state = .kPendingCancel ∨ state = .kPendingAmend) := by
  rcases working with rfl | rfl | rfl <;> simp

theorem ExpectedState.pending_iff {pushes : List OrderEventType} {state : OrderState} {handler : ResponseHandler}
    (expected : ExpectedState pushes state handler) :
    state = .kPendingCancel ∨ state = .kPendingAmend ↔ InFlight pushes handler := by
  cases handler with
  | onOrderResponse => exact iff_of_false (Working.not_pending expected) id
  | onAmendResponse =>
      simp only [ExpectedState, InFlight, ← not_or] at expected ⊢
      split at expected
      · rename_i moved
        exact iff_of_false expected.not_pending (not_not.mpr moved)
      · rename_i unmoved
        exact iff_of_true (.inr expected) unmoved
  | onCancelResponse =>
      simp only [ExpectedState, InFlight] at expected ⊢
      split at expected
      · rename_i moved
        exact iff_of_false expected.not_pending (not_not.mpr moved)
      · rename_i unmoved
        exact iff_of_true (.inl expected) unmoved

theorem Order.Live.working {order next : Order} {event : OrderEvent D} (live : order.Live)
    (applied : Order.applyEvent event order = .ok .unit next) (goesOn : Engine.ends event = false)
    (free : event.type = .kLive → order.state ≠ .kPendingCancel) : Working next.state := by
  unfold Order.applyEvent at applied
  cases type : event.type with
  | kFill | kCancel => simp [Engine.ends, type] at goesOn
  | kPartialFill =>
      simp only [type, Order.advance] at applied
      split at applied
      · cases applied
      · cases applied
        exact .inr (.inr rfl)
  | kLive =>
      simp only [type] at applied
      split at applied
      · cases applied
        exact .inr (.inl rfl)
      · split at applied
        · cases applied
          dsimp only
          split
          · exact .inr (.inl rfl)
          · exact live.prePendingState
        · split at applied
          · rename_i stays
            cases applied
            rcases stays with isNew | filled | cancel
            · exact .inr (.inl isNew)
            · exact .inr (.inr filled)
            · exact absurd cancel (free type)
          · cases applied

theorem state_of_live_push {order next : Order} {event : OrderEvent D} (type : event.type = .kLive)
    (applied : Order.applyEvent event order = .ok .unit next) (cancel : order.state = .kPendingCancel) :
    next.state = .kPendingCancel := by
  unfold Order.applyEvent at applied
  simp only [type, show (order.record event).state = .kPendingCancel from cancel] at applied
  cases applied
  rfl

/-- A push that does not end the order. -/
theorem ExpectedState.push {pushes : List OrderEventType} {order next : Order} {event : OrderEvent D}
    {handler : ResponseHandler} (expected : ExpectedState pushes order.state handler) (live : order.Live)
    (applied : Order.applyEvent event order = .ok .unit next) (goesOn : Engine.ends event = false) :
    ExpectedState (event.type :: pushes) next.state handler := by
  have moves : event.type = .kLive ∨ event.type = .kPartialFill := by
    cases type : event.type with
    | kLive => exact .inl rfl
    | kPartialFill => exact .inr rfl
    | kFill | kCancel => simp [Engine.ends, type] at goesOn
  have notCancel {state : OrderState} (working : Working state) : state ≠ .kPendingCancel := fun cancel =>
    working.not_pending (.inl cancel)
  cases handler with
  | onOrderResponse => exact live.working applied goesOn fun _ => notCancel expected
  | onAmendResponse =>
      have free : order.state ≠ .kPendingCancel := by
        unfold ExpectedState at expected
        dsimp only at expected
        split at expected
        · exact notCancel expected
        · rw [expected]
          decide
      have known : .kLive ∈ event.type :: pushes ∨ .kPartialFill ∈ event.type :: pushes := by
        rcases moves with type | type
        · exact .inl (type ▸ List.mem_cons_self)
        · exact .inr (type ▸ List.mem_cons_self)
      simp only [ExpectedState, if_pos known]
      exact live.working applied goesOn fun _ => free
  | onCancelResponse =>
      simp only [ExpectedState] at expected ⊢
      rcases moves with type | type
      · have same : .kPartialFill ∈ event.type :: pushes ↔ OrderEventType.kPartialFill ∈ pushes := by simp [type]
        simp only [same]
        split at expected
        · rename_i moved
          rw [if_pos moved]
          exact live.working applied goesOn fun _ => notCancel expected
        · rename_i unmoved
          rw [if_neg unmoved]
          exact state_of_live_push type applied expected
      · rw [if_pos (type ▸ List.mem_cons_self)]
        exact live.working applied goesOn fun isLive => by rw [type] at isLive; cases isLive

namespace Engine

/-!
## Requests of the round trip
-/

def ownOrder (engine : Engine D) : Option Order := engine.store.findByClOrdId engine.roundTrip.clOrdId

theorem updateOwnOrder_returns {engine : Engine D} {action : OrderAction} {order changed : Order}
    (found : engine.ownOrder = some order) (ran : action.run order = .ok .unit changed) :
    ∃ store, updateOwnOrder action engine = .ok .unit { engine with store := store } := by
  obtain ⟨store, updated⟩ : ∃ store, engine.store.update engine.roundTrip.clOrdId action = .ok .unit store := by
    refine OrderStore.update_returns fun other foundOther => ?_
    obtain rfl : order = other := Option.some.inj (found.symm.trans foundOther)
    exact ⟨changed, ran⟩
  refine ⟨store, ?_⟩
  rw [updateOwnOrder, run_bind_ok (run_get _)]
  rw [ownOrder] at found
  simp only [found, updateOrder, updated]

/-- The order was found and took the action. -/
theorem updateOwnOrder_ok {engine next : Engine D} {action : OrderAction}
    (ran : updateOwnOrder action engine = .ok .unit next) :
    ∃ order changed store, engine.ownOrder = some order ∧ action.run order = .ok .unit changed ∧
      engine.store.update engine.roundTrip.clOrdId action = .ok .unit store ∧
      store.findByClOrdId engine.roundTrip.clOrdId = some changed ∧ next = { engine with store := store } := by
  rw [updateOwnOrder, run_bind_ok (run_get _)] at ran
  cases found : engine.store.findByClOrdId engine.roundTrip.clOrdId with
  | none =>
      rw [found] at ran
      cases ran
  | some order =>
      rw [found] at ran
      obtain ⟨store, updated, rfl⟩ := updateOrder_ok _ ran
      obtain ⟨changed, applied, again⟩ := OrderStore.applied_of_update found updated
      exact ⟨order, changed, store, found, applied, updated, again, rfl⟩

theorem updateOwnOrder_returns_iff {engine : Engine D} {action : OrderAction} :
    (∃ next, updateOwnOrder action engine = .ok .unit next) ↔
      ∃ order, engine.ownOrder = some order ∧ ∃ changed, action.run order = .ok .unit changed := by
  constructor
  · rintro ⟨next, ran⟩
    obtain ⟨order, changed, -, found, applied, -⟩ := updateOwnOrder_ok ran
    exact ⟨order, found, changed, applied⟩
  · rintro ⟨order, found, changed, applied⟩
    obtain ⟨store, ran⟩ := updateOwnOrder_returns found applied
    exact ⟨_, ran⟩

/-- The amendment and the cancellation are requested alike. -/
def makeRequest (action : Int → OrderAction) (payload : Text → WsOrderRoundTrip → Outgoing) (handler : ResponseHandler) :
    EngineM D PUnit := do
  let now ← steadyNow
  updateOwnOrder (action now)
  let id ← generateId
  let engine ← get
  send .roundTrip (payload id engine.roundTrip) engine.store
  track id handler

def amendPayload (ordId id : Text) (roundTrip : WsOrderRoundTrip) : Outgoing :=
  .amendOrder id roundTrip.orderRequest.instIdCode ordId kSmokeTestAmendPx roundTrip.orderRequest.sz

def cancelPayload (id : Text) (roundTrip : WsOrderRoundTrip) : Outgoing :=
  .cancelOrder id roundTrip.orderRequest.instIdCode roundTrip.ordId

theorem requestAmend_eq (ordId : Text) :
    (requestAmend ordId : EngineM D PUnit) = makeRequest .onAmendRequested (amendPayload ordId) .onAmendResponse := rfl

theorem requestCancel_eq :
    (requestCancel : EngineM D PUnit) = makeRequest .onCancelRequested cancelPayload .onCancelResponse := rfl

/-- The message fits the transmit ring. -/
def Fits (engine : Engine D) (payload : Outgoing) : Prop :=
  engine.ws.txSize + frameSize payload.message.length ≤ kTxRingCapacity

theorem fits_of_send {engine next : Engine D} {route : Route} {payload : Outgoing} {before : OrderStore}
    (sent : send route payload before engine = .ok .unit next) :
    engine.Fits payload ∧ next.ws.connected = engine.ws.connected := by
  rw [run_send] at sent
  split at sent
  · cases sent
  · rename_i fits
    cases sent
    exact ⟨not_lt.mp fits, rfl⟩

section Requests

variable {engine : Engine D} {action : Int → OrderAction} {payload : Text → WsOrderRoundTrip → Outgoing}
  {handler : ResponseHandler}

theorem makeRequest_returns {order changed : Order}
    (found : engine.ownOrder = some order) (ran : (action engine.steadyClock.now).run order = .ok .unit changed)
    (fits : engine.Fits (payload (toDecimal engine.nextId) engine.roundTrip)) :
    ∃ next, makeRequest action payload handler engine = .ok .unit next := by
  have same : ownOrder { engine with steadyClock := engine.steadyClock.tick } = some order := found
  obtain ⟨store, updated⟩ := updateOwnOrder_returns same ran
  rw [makeRequest, run_bind_ok (run_steadyNow engine), run_bind_ok updated, run_bind_ok (run_generateId _),
    run_bind_ok (run_get _), run_bind, run_send, if_neg]
  · exact ⟨_, rfl⟩
  · exact not_lt.mpr fits

theorem makeRequest_ok {next : Engine D} (unanswered : engine.pending = [])
    (ran : makeRequest action payload handler engine = .ok .unit next) :
    engine.Fits (payload (toDecimal engine.nextId) engine.roundTrip) ∧ next.ws.connected = engine.ws.connected ∧
      next.pending = [(toDecimal engine.nextId, handler)] ∧ next.roundTrip = engine.roundTrip ∧
      ∃ order changed, engine.ownOrder = some order ∧
        (action engine.steadyClock.now).run order = .ok .unit changed ∧ next.ownOrder = some changed ∧
        engine.store.update engine.roundTrip.clOrdId (action engine.steadyClock.now) = .ok .unit next.store := by
  rw [makeRequest, run_bind_ok (run_steadyNow engine)] at ran
  obtain ⟨_, middle, updated, ran⟩ := of_bind_ok ran
  obtain ⟨order, changed, store, found, applied, wrote, again, rfl⟩ := updateOwnOrder_ok updated
  rw [run_bind_ok (run_generateId _), run_bind_ok (run_get _)] at ran
  obtain ⟨_, sent, wasSent, tracked⟩ := of_bind_ok ran
  obtain ⟨fits, connected⟩ := fits_of_send wasSent
  have next_eq := send_ok _ wasSent
  have none : sent.pending = [] := by
    rw [next_eq]
    exact unanswered
  rw [track, run_modify, none] at tracked
  cases tracked
  rw [next_eq]
  exact ⟨fits, connected, rfl, rfl, order, changed, found, applied, again, wrote⟩

theorem makeRequest_returns_iff (unanswered : engine.pending = []) :
    (∃ next, makeRequest action payload handler engine = .ok .unit next) ↔
      (∃ order, engine.ownOrder = some order ∧ ∃ changed, (action engine.steadyClock.now).run order = .ok .unit changed) ∧
        engine.Fits (payload (toDecimal engine.nextId) engine.roundTrip) := by
  constructor
  · rintro ⟨next, ran⟩
    obtain ⟨fits, -, -, -, order, changed, found, applied, -⟩ := makeRequest_ok unanswered ran
    exact ⟨⟨order, found, changed, applied⟩, fits⟩
  · rintro ⟨⟨order, found, changed, applied⟩, fits⟩
    exact makeRequest_returns found applied fits

end Requests

/-!
## Responses
-/

/-- What the order is like while a response is waited for. -/
def Awaiting (engine : Engine D) (pushes : List OrderEventType) (ended : Bool) (handler : ResponseHandler) : Prop :=
  if ended = true then engine.ownOrder = none
  else ∃ order, engine.ownOrder = some order ∧ ExpectedState pushes order.state handler

theorem Awaiting.congr {engine next : Engine D} {pushes : List OrderEventType} {ended : Bool}
    {handler : ResponseHandler} (awaits : engine.Awaiting pushes ended handler) (same : next.ownOrder = engine.ownOrder) :
    next.Awaiting pushes ended handler := by
  rw [Awaiting, same]
  exact awaits

theorem awaiting_created {engine : Engine D} {clOrdId instId side px sz : Text} {now : Int}
    (found : engine.ownOrder = some (.create clOrdId instId side px sz now)) :
    engine.Awaiting [] false .onOrderResponse := ⟨_, found, .inl rfl⟩

/-- A push for the order. -/
theorem Awaiting.push {engine next : Engine D} {pushes : List OrderEventType} {ended : Bool} {event : OrderEvent D}
    {handler : ResponseHandler} (awaits : engine.Awaiting pushes ended handler) (healthy : engine.store.Healthy)
    (own : event.clOrdId = engine.roundTrip.clOrdId) (ran : applyOrderEvent event engine = .ok .unit next) :
    next.Awaiting (event.type :: pushes) (ended || ends event) handler := by
  have outcome := applyOrderEvent_outcome event engine
  rw [ran] at outcome
  cases outcome with
  | unknown absent =>
      have none : engine.ownOrder = none := by
        rw [ownOrder, ← own]
        exact OrderStore.findByClOrdId_eq_none_iff.mpr absent
      cases ended with
      | true => exact none
      | false =>
          obtain ⟨order, found, -⟩ := awaits
          rw [none] at found
          cases found
  | @moved store order updated found alive =>
      obtain ⟨old, wasFound, applied⟩ := OrderStore.found_of_update updated found
      have moved := applied_healthy healthy wasFound applied
      rw [own] at wasFound found
      cases ended with
      | true =>
          have none : engine.ownOrder = none := awaits
          exact absurd (none.symm.trans wasFound) (by simp)
      | false =>
          obtain ⟨again, foundAgain, expected⟩ := awaits
          obtain rfl : old = again := Option.some.inj (wasFound.symm.trans foundAgain)
          split at moved
          · rw [alive] at moved
            cases moved
          · rename_i goesOn
            rw [Bool.eq_false_iff.mpr goesOn]
            exact ⟨order, found, expected.push (healthy.live old (OrderStore.of_findByClOrdId wasFound).1) applied
              (Bool.eq_false_iff.mpr goesOn)⟩
  | @ended store order updated found terminal =>
      obtain ⟨old, wasFound, applied⟩ := OrderStore.found_of_update updated found
      have moved := applied_healthy healthy wasFound applied
      have distinct : store.ids.Nodup := OrderStore.ids_of_update updated ▸ healthy.distinct
      split at moved
      · rename_i last
        rw [last, Bool.or_true]
        refine OrderStore.findByClOrdId_eq_none_iff.mpr fun stored => ?_
        exact ((OrderStore.mem_ids_erase distinct).mp stored).2 own.symm
      · have goesOn := moved.state
        rw [terminal] at goesOn
        cases goesOn

/-- A push for another order. -/
theorem ownOrder_applyOrderEvent {engine next : Engine D} {event : OrderEvent D} (healthy : engine.store.Healthy)
    (other : event.clOrdId ≠ engine.roundTrip.clOrdId) (ran : applyOrderEvent event engine = .ok .unit next) :
    next.ownOrder = engine.ownOrder := by
  have outcome := applyOrderEvent_outcome event engine
  rw [ran] at outcome
  cases outcome with
  | unknown => rfl
  | moved updated => exact OrderStore.findByClOrdId_update_of_ne healthy.distinct updated other.symm
  | @ended store order updated =>
      have distinct : store.ids.Nodup := OrderStore.ids_of_update updated ▸ healthy.distinct
      exact (OrderStore.findByClOrdId_erase_of_ne distinct other.symm).trans
        (OrderStore.findByClOrdId_update_of_ne healthy.distinct updated other.symm)

section Handlers

variable {engine : Engine D} {pushes : List OrderEventType} {ended : Bool}

theorem Awaiting.takes_iff {handler : ResponseHandler} (awaits : engine.Awaiting pushes ended handler)
    (other : OrderState)
    (takes : ∀ state, ExpectedState pushes state handler → Working state ∨ state = other) :
    (∃ order, engine.ownOrder = some order ∧ (Working order.state ∨ order.state = other)) ↔ ended = false := by
  cases ended with
  | true =>
      have none : engine.ownOrder = none := awaits
      simp [none]
  | false =>
      obtain ⟨order, found, expected⟩ := awaits
      exact ⟨fun _ => rfl, fun _ => ⟨order, found, takes _ expected⟩⟩

/-- The ordId of an accepted placement. -/
def acceptedOrdId (response : Text) : Option Text :=
  if isRequestAccepted response then (findData response).bind fun data => Json.findString data kOrdId else none

/-- Without an ordId nothing happens; with one the amendment is requested. -/
theorem run_onOrderResponse (connected : engine.ws.connected = true) (response : Text) :
    onOrderResponse response engine = match acceptedOrdId response with
      | none => .ok .unit engine
      | some ordId => requestAmend ordId { engine with roundTrip := { engine.roundTrip with ordId := ordId } } := by
  unfold onOrderResponse acceptedOrdId
  cases accepted : isRequestAccepted response with
  | false => rfl
  | true =>
      simp only [Bool.not_true, Bool.false_eq_true, if_false, if_true]
      cases (findData response).bind fun data => Json.findString data kOrdId with
      | none => rfl
      | some ordId =>
          dsimp only
          rw [setOrdId, run_bind_ok (run_modify _ _), run_bind_ok (run_get _), if_pos connected]

theorem onOrderResponse_returns_iff (connected : engine.ws.connected = true) (unanswered : engine.pending = [])
    (awaits : engine.Awaiting pushes ended .onOrderResponse) (response : Text) :
    (∃ next, onOrderResponse response engine = .ok .unit next) ↔
      ∀ ordId, acceptedOrdId response = some ordId →
        ended = false ∧ engine.Fits (amendPayload ordId (toDecimal engine.nextId) engine.roundTrip) := by
  rw [run_onOrderResponse connected]
  cases acceptedOrdId response with
  | none => simp
  | some ordId =>
      simp only [Option.some.injEq, forall_eq']
      rw [requestAmend_eq, makeRequest_returns_iff (by exact unanswered)]
      refine and_congr ?_ Iff.rfl
      rw [← awaits.takes_iff .kPendingCancel fun state working => .inl working]
      exact exists_congr fun order => and_congr_right fun _ => Order.request_returns_iff

/-- A rejection is taken while the order is stored and the request is pending in it. -/
theorem Awaiting.rejected_returns_iff {handler : ResponseHandler} (awaits : engine.Awaiting pushes ended handler) :
    (∃ next, updateOwnOrder .onRequestRejected engine = .ok .unit next) ↔ ended = false ∧ InFlight pushes handler := by
  rw [updateOwnOrder_returns_iff]
  cases ended with
  | true =>
      have none : engine.ownOrder = none := awaits
      simp [none]
  | false =>
      obtain ⟨order, found, expected⟩ := awaits
      simp only [found, Option.some.injEq, exists_eq_left', true_and]
      exact Order.onRequestRejected_returns_iff.trans expected.pending_iff

theorem onCancelResponse_returns_iff (awaits : engine.Awaiting pushes ended .onCancelResponse) (response : Text) :
    (∃ next, onCancelResponse response engine = .ok .unit next) ↔
      (isRequestAccepted response = false → ended = false ∧ InFlight pushes .onCancelResponse) := by
  unfold onCancelResponse rejectUnlessAccepted
  cases isRequestAccepted response with
  | true => exact iff_of_true ⟨engine, rfl⟩ Bool.noConfusion
  | false =>
      simp only [Bool.false_eq_true, if_false, forall_const]
      exact awaits.rejected_returns_iff

/-- A rejected amendment leaves the order as it was before the request. -/
theorem rejected_ok (healthy : engine.store.Healthy) {next : Engine D}
    (ran : updateOwnOrder .onRequestRejected engine = .ok .unit next) :
    next.store.Healthy ∧ (∃ store, next = { engine with store := store }) ∧
      ∃ order, next.ownOrder = some order ∧ Working order.state := by
  obtain ⟨order, changed, store, found, applied, updated, again, rfl⟩ := updateOwnOrder_ok ran
  refine ⟨healthy.update updated fun _ live => live.onRequestRejected, ⟨store, rfl⟩, changed, again, ?_⟩
  rw [Order.state_onRequestRejected applied]
  exact (healthy.live order (OrderStore.of_findByClOrdId found).1).prePendingState

theorem requestCancel_returns_iff (unanswered : engine.pending = []) :
    (∃ next, requestCancel engine = .ok .unit next) ↔
      (∃ order, engine.ownOrder = some order ∧ (Working order.state ∨ order.state = .kPendingAmend)) ∧
        engine.Fits (cancelPayload (toDecimal engine.nextId) engine.roundTrip) := by
  rw [requestCancel_eq, makeRequest_returns_iff unanswered]
  refine and_congr (exists_congr fun order => and_congr_right fun _ => ?_) Iff.rfl
  exact Order.request_returns_iff

theorem onAmendResponse_returns_iff (connected : engine.ws.connected = true) (unanswered : engine.pending = [])
    (healthy : engine.store.Healthy) (awaits : engine.Awaiting pushes ended .onAmendResponse) (response : Text) :
    (∃ next, onAmendResponse response engine = .ok .unit next) ↔
      ended = false ∧ (isRequestAccepted response = false → InFlight pushes .onAmendResponse) ∧
        engine.Fits (cancelPayload (toDecimal engine.nextId) engine.roundTrip) := by
  unfold onAmendResponse rejectUnlessAccepted
  cases isRequestAccepted response with
  | true =>
      simp only [if_true]
      rw [run_bind_ok (run_pure _ _), run_bind_ok (run_get _), if_pos connected, requestCancel_returns_iff unanswered,
        awaits.takes_iff .kPendingAmend]
      · simp
      · intro state expected
        simp only [ExpectedState] at expected
        split at expected
        · exact .inl expected
        · exact .inr expected
  | false =>
      simp only [Bool.false_eq_true, if_false, forall_const, ← and_assoc, ← awaits.rejected_returns_iff]
      constructor
      · rintro ⟨next, ran⟩
        obtain ⟨_, middle, rejected, ran⟩ := of_bind_ok ran
        obtain ⟨-, ⟨store, rfl⟩, -⟩ := rejected_ok healthy rejected
        rw [run_bind_ok (run_get _), if_pos connected] at ran
        have free : pending { engine with store := store } = [] := unanswered
        exact ⟨⟨_, rejected⟩, ((requestCancel_returns_iff free).mp ⟨next, ran⟩).2⟩
      · rintro ⟨⟨middle, rejected⟩, fits⟩
        obtain ⟨-, ⟨store, rfl⟩, order, found, working⟩ := rejected_ok healthy rejected
        rw [run_bind_ok rejected, run_bind_ok (run_get _), if_pos connected]
        have free : pending { engine with store := store } = [] := unanswered
        exact (requestCancel_returns_iff free).mpr ⟨⟨order, found, .inl working⟩, fits⟩

end Handlers

end Engine

/-!
## The dialogue
-/

/-- The engine beside the exchange's pushes for the order of the round trip. -/
structure Dialogue (D : Type) where
  engine : Engine D
  /-- Those since the last request was sent. -/
  pushes : List OrderEventType
  /-- One of them was a fill or a cancellation. -/
  ended : Bool

inductive RoundTripInput (D : Type) where
  | response (message : Text)
  | push (event : OrderEvent D)
  /-- The socket has taken bytes out of the transmit ring. -/
  | written (bytes : Nat)

namespace Dialogue

open Engine

/-- The response is answered with a request. -/
def asksOn (engine : Engine D) (message : Text) : Bool :=
  match engine.handlerFor message with
  | some (_, .onOrderResponse) => (acceptedOrdId message).isSome
  | some (_, .onAmendResponse) => true
  | some (_, .onCancelResponse) | none => false

def pushed (dialogue : Dialogue D) (event : OrderEvent D) (engine : Engine D) : Dialogue D :=
  if event.clOrdId = engine.roundTrip.clOrdId then
    ⟨engine, event.type :: dialogue.pushes, dialogue.ended || ends event⟩
  else { dialogue with engine := engine }

def dialogueStep : RoundTripInput D → EStateM Exn (Dialogue D) PUnit
  | .response message => fun dialogue =>
      match dispatch message dialogue.engine with
      | .ok _ engine => .ok .unit { dialogue with
          engine := engine
          pushes := if asksOn dialogue.engine message then [] else dialogue.pushes }
      | .error exception engine => .error exception { dialogue with engine := engine }
  | .push event => fun dialogue =>
      match applyOrderEvent event dialogue.engine with
      | .ok _ engine => .ok .unit (dialogue.pushed event engine)
      | .error exception engine => .error exception (dialogue.pushed event engine)
  | .written bytes => modify fun dialogue =>
      let ws := { dialogue.engine.ws with txSize := dialogue.engine.ws.txSize - bytes }
      { dialogue with engine := { dialogue.engine with ws := ws } }

/-- The response comes in time: the order has not ended where it is needed, the
request a rejection is for is still pending, and the next request fits the ring. -/
def Timely (dialogue : Dialogue D) : RoundTripInput D → Prop
  | .push _ | .written _ => True
  | .response message =>
      match dialogue.engine.handlerFor message with
      | none => True
      | some (_, .onOrderResponse) => ∀ ordId, acceptedOrdId message = some ordId → dialogue.ended = false ∧
          dialogue.engine.Fits (amendPayload ordId (toDecimal dialogue.engine.nextId) dialogue.engine.roundTrip)
      | some (_, .onAmendResponse) => dialogue.ended = false ∧
          (isRequestAccepted message = false → InFlight dialogue.pushes .onAmendResponse) ∧
          dialogue.engine.Fits (cancelPayload (toDecimal dialogue.engine.nextId) dialogue.engine.roundTrip)
      | some (_, .onCancelResponse) =>
          isRequestAccepted message = false → dialogue.ended = false ∧ InFlight dialogue.pushes .onCancelResponse

structure DialogueInv (dialogue : Dialogue D) : Prop where
  connected : dialogue.engine.ws.connected = true
  healthy : dialogue.engine.store.Healthy
  awaits : dialogue.engine.pending = [] ∨ ∃ id handler, dialogue.engine.pending = [(id, handler)] ∧
    dialogue.engine.Awaiting dialogue.pushes dialogue.ended handler

/-- The engine a handler starts in, when its entry has left the demux. -/
def answering (engine : Engine D) : Engine D := { engine with pending := [] }

/-- The one entry of the demux. -/
theorem DialogueInv.handler {dialogue : Dialogue D} (inv : DialogueInv dialogue) {message id : Text}
    {handler : ResponseHandler} (found : dialogue.engine.handlerFor message = some (id, handler)) :
    (answering dialogue.engine).Awaiting dialogue.pushes dialogue.ended handler ∧
      { dialogue.engine with pending := dialogue.engine.pending.filter fun entry => entry.1 ≠ id } =
        answering dialogue.engine := by
  obtain ⟨key, -, here⟩ := Option.bind_eq_some_iff.mp found
  have member := List.mem_of_find?_eq_some here
  rcases inv.awaits with none | ⟨waiting, handler', only, awaits⟩
  · rw [none] at member
    cases member
  · rw [only, List.mem_singleton] at member
    cases member
    refine ⟨awaits.congr rfl, ?_⟩
    simp [only, answering]

theorem dispatch_of_handler {engine : Engine D} {message id : Text} {handler : ResponseHandler}
    (found : engine.handlerFor message = some (id, handler))
    (only : { engine with pending := engine.pending.filter fun entry => entry.1 ≠ id } = answering engine) :
    dispatch message engine = (do runHandler handler message; return true : EngineM D Bool) (answering engine) := by
  rw [dispatch, run_bind_ok (run_get _), found]
  dsimp only
  rw [run_bind_ok (run_modify _ _), only]

theorem dispatch_returns_iff {engine : Engine D} {message id : Text} {handler : ResponseHandler}
    (found : engine.handlerFor message = some (id, handler))
    (only : { engine with pending := engine.pending.filter fun entry => entry.1 ≠ id } = answering engine) :
    (∃ answered next, dispatch message engine = .ok answered next) ↔
      ∃ next, runHandler handler message (answering engine) = .ok .unit next := by
  rw [dispatch_of_handler found only]
  constructor
  · rintro ⟨answered, next, ran⟩
    obtain ⟨_, middle, handled, -⟩ := of_bind_ok ran
    exact ⟨middle, handled⟩
  · rintro ⟨next, handled⟩
    rw [run_bind_ok handled]
    exact ⟨true, next, rfl⟩

theorem response_returns_iff (dialogue : Dialogue D) (message : Text) :
    (∃ next, dialogueStep (.response message) dialogue = .ok .unit next) ↔
      ∃ answered engine, dispatch message dialogue.engine = .ok answered engine := by
  unfold dialogueStep
  dsimp only
  constructor
  · rintro ⟨next, ran⟩
    split at ran
    · rename_i answered engine handled
      exact ⟨answered, engine, handled⟩
    · cases ran
  · rintro ⟨answered, engine, handled⟩
    rw [handled]
    exact ⟨_, rfl⟩

/-- An input is taken exactly if it comes in time. -/
theorem DialogueInv.returns_iff {dialogue : Dialogue D} (inv : DialogueInv dialogue) (input : RoundTripInput D) :
    (∃ next, dialogueStep input dialogue = .ok .unit next) ↔ dialogue.Timely input := by
  cases input with
  | push event =>
      obtain ⟨next, applied, -⟩ := applyOrderEvent_healthy inv.healthy event
      refine iff_of_true ⟨dialogue.pushed event next, ?_⟩ trivial
      simp only [dialogueStep, applied]
  | written bytes => exact iff_of_true ⟨_, rfl⟩ trivial
  | response message =>
      rw [response_returns_iff]
      unfold Timely
      dsimp only
      cases found : dialogue.engine.handlerFor message with
      | none => exact iff_of_true ⟨false, _, dispatch_unknown found⟩ trivial
      | some entry =>
          obtain ⟨id, handler⟩ := entry
          obtain ⟨awaits, only⟩ := inv.handler found
          rw [dispatch_returns_iff found only]
          have connected : (answering dialogue.engine).ws.connected = true := inv.connected
          cases handler with
          | onOrderResponse => exact onOrderResponse_returns_iff connected rfl awaits message
          | onAmendResponse => exact onAmendResponse_returns_iff connected rfl inv.healthy awaits message
          | onCancelResponse => exact onCancelResponse_returns_iff awaits message

/-!
## Steps keep the invariant
-/

theorem DialogueInv.of_request {engine next : Engine D} {action : Int → OrderAction}
    {payload : Text → WsOrderRoundTrip → Outgoing} {handler : ResponseHandler}
    (connected : engine.ws.connected = true) (healthy : engine.store.Healthy) (unanswered : engine.pending = [])
    (keeps : ∀ now, ∀ order : Order, order.Live → (finalState ((action now).run order)).Live)
    (leaves : ∀ now order changed, (action now).run order = .ok .unit changed → ExpectedState [] changed.state handler)
    (ran : makeRequest action payload handler engine = .ok .unit next) : DialogueInv ⟨next, [], false⟩ := by
  obtain ⟨-, stays, waits, -, order, changed, -, applied, found, updated⟩ := makeRequest_ok unanswered ran
  refine ⟨stays.trans connected, healthy.update updated (keeps _), .inr ⟨_, handler, waits, ?_⟩⟩
  exact ⟨changed, found, leaves _ _ _ applied⟩

theorem DialogueInv.of_requestAmend {engine next : Engine D} {ordId : Text}
    (ran : requestAmend ordId engine = .ok .unit next) (connected : engine.ws.connected = true)
    (healthy : engine.store.Healthy) (unanswered : engine.pending = []) : DialogueInv ⟨next, [], false⟩ := by
  rw [requestAmend_eq] at ran
  refine of_request connected healthy unanswered (fun now _ live => live.request rfl now) ?_ ran
  intro now order changed applied
  simpa [ExpectedState] using Order.state_request applied

theorem DialogueInv.of_requestCancel {engine next : Engine D} (ran : requestCancel engine = .ok .unit next)
    (connected : engine.ws.connected = true) (healthy : engine.store.Healthy) (unanswered : engine.pending = []) :
    DialogueInv ⟨next, [], false⟩ := by
  rw [requestCancel_eq] at ran
  refine of_request connected healthy unanswered (fun now _ live => live.request rfl now) ?_ ran
  intro now order changed applied
  simpa [ExpectedState] using Order.state_request applied

theorem DialogueInv.onOrderResponse {dialogue : Dialogue D} (inv : DialogueInv dialogue) {message : Text}
    (awaits : (answering dialogue.engine).Awaiting dialogue.pushes dialogue.ended .onOrderResponse) {next : Engine D}
    (ran : onOrderResponse message (answering dialogue.engine) = .ok .unit next) :
    DialogueInv ⟨next, if (acceptedOrdId message).isSome then [] else dialogue.pushes, dialogue.ended⟩ := by
  have connected : (answering dialogue.engine).ws.connected = true := inv.connected
  have timely := (onOrderResponse_returns_iff connected rfl awaits message).mp ⟨next, ran⟩
  rw [run_onOrderResponse connected] at ran
  cases answered : acceptedOrdId message with
  | none =>
      rw [answered] at ran
      cases ran
      exact ⟨inv.connected, inv.healthy, .inl rfl⟩
  | some ordId =>
      rw [answered] at ran
      rw [(timely ordId answered).1]
      exact of_requestAmend ran connected inv.healthy rfl

theorem DialogueInv.onAmendResponse {dialogue : Dialogue D} (inv : DialogueInv dialogue) {message : Text}
    (awaits : (answering dialogue.engine).Awaiting dialogue.pushes dialogue.ended .onAmendResponse) {next : Engine D}
    (ran : onAmendResponse message (answering dialogue.engine) = .ok .unit next) :
    DialogueInv ⟨next, [], dialogue.ended⟩ := by
  have connected : (answering dialogue.engine).ws.connected = true := inv.connected
  rw [((onAmendResponse_returns_iff connected rfl inv.healthy awaits message).mp ⟨next, ran⟩).1]
  obtain ⟨_, middle, rejected, ran⟩ := of_bind_ok ran
  unfold rejectUnlessAccepted at rejected
  split at rejected
  · cases rejected
    rw [run_bind_ok (run_get _), if_pos connected] at ran
    exact of_requestCancel ran connected inv.healthy rfl
  · have stored : (answering dialogue.engine).store.Healthy := inv.healthy
    obtain ⟨healthy, ⟨store, rfl⟩, -⟩ := rejected_ok stored rejected
    rw [run_bind_ok (run_get _), if_pos connected] at ran
    exact of_requestCancel ran connected healthy rfl

theorem DialogueInv.onCancelResponse {dialogue : Dialogue D} (inv : DialogueInv dialogue) {message : Text}
    {next : Engine D} (ran : onCancelResponse message (answering dialogue.engine) = .ok .unit next) :
    DialogueInv ⟨next, dialogue.pushes, dialogue.ended⟩ := by
  unfold Engine.onCancelResponse rejectUnlessAccepted at ran
  split at ran
  · cases ran
    exact ⟨inv.connected, inv.healthy, .inl rfl⟩
  · have stored : (answering dialogue.engine).store.Healthy := inv.healthy
    obtain ⟨healthy, ⟨store, rfl⟩, -⟩ := rejected_ok stored ran
    exact ⟨inv.connected, healthy, .inl rfl⟩

theorem DialogueInv.response {dialogue next : Dialogue D} (inv : DialogueInv dialogue) {message : Text}
    (ran : dialogueStep (.response message) dialogue = .ok .unit next) : DialogueInv next := by
  simp only [dialogueStep] at ran
  cases found : dialogue.engine.handlerFor message with
  | none =>
      have idle : asksOn dialogue.engine message = false := by simp only [asksOn, found]
      rw [dispatch_unknown found, idle] at ran
      cases ran
      exact inv
  | some entry =>
      obtain ⟨id, handler⟩ := entry
      obtain ⟨awaits, only⟩ := inv.handler found
      rw [dispatch_of_handler found only, run_bind] at ran
      cases handled : runHandler handler message (answering dialogue.engine) with
      | error exception engine =>
          rw [handled] at ran
          cases ran
      | ok _ engine =>
          rw [handled] at ran
          cases handler with
          | onOrderResponse =>
              have asks : asksOn dialogue.engine message = (acceptedOrdId message).isSome := by simp only [asksOn, found]
              rw [asks] at ran
              cases ran
              exact inv.onOrderResponse awaits handled
          | onAmendResponse =>
              have asks : asksOn dialogue.engine message = true := by simp only [asksOn, found]
              rw [asks] at ran
              cases ran
              exact inv.onAmendResponse awaits handled
          | onCancelResponse =>
              have asks : asksOn dialogue.engine message = false := by simp only [asksOn, found]
              rw [asks] at ran
              cases ran
              exact inv.onCancelResponse handled

/-- An event changes nothing but the orders, the quoter and what was reported. -/
theorem applyOrderEvent_keeps {engine next : Engine D} {event : OrderEvent D}
    (ran : applyOrderEvent event engine = .ok .unit next) :
    next.ws = engine.ws ∧ next.pending = engine.pending ∧ next.roundTrip = engine.roundTrip := by
  have outcome := applyOrderEvent_outcome event engine
  rw [ran] at outcome
  cases outcome with
  | unknown => exact ⟨rfl, rfl, rfl⟩
  | moved => exact ⟨rfl, rfl, rfl⟩
  | ended => exact ⟨rfl, rfl, rfl⟩

theorem DialogueInv.push {dialogue : Dialogue D} (inv : DialogueInv dialogue) {event : OrderEvent D} {next : Engine D}
    (ran : applyOrderEvent event dialogue.engine = .ok .unit next) : DialogueInv (dialogue.pushed event next) := by
  obtain ⟨ws, pending, roundTrip⟩ := applyOrderEvent_keeps ran
  obtain ⟨after, applied, healthy, -⟩ := applyOrderEvent_healthy inv.healthy event
  obtain rfl : next = after := by
    have same := ran.symm.trans applied
    injection same
  unfold pushed
  rw [roundTrip]
  split
  · rename_i own
    refine ⟨by rw [ws]; exact inv.connected, healthy, inv.awaits.imp pending.trans ?_⟩
    rintro ⟨id, handler, waits, awaits⟩
    exact ⟨id, handler, pending.trans waits, awaits.push inv.healthy own ran⟩
  · rename_i other
    refine ⟨by rw [ws]; exact inv.connected, healthy, inv.awaits.imp pending.trans ?_⟩
    rintro ⟨id, handler, waits, awaits⟩
    exact ⟨id, handler, pending.trans waits, awaits.congr (ownOrder_applyOrderEvent inv.healthy other ran)⟩

theorem DialogueInv.step {dialogue next : Dialogue D} {input : RoundTripInput D} (inv : DialogueInv dialogue)
    (ran : dialogueStep input dialogue = .ok .unit next) : DialogueInv next := by
  cases input with
  | response message => exact inv.response ran
  | written bytes =>
      cases ran
      exact ⟨inv.connected, inv.healthy, inv.awaits⟩
  | push event =>
      simp only [dialogueStep] at ran
      split at ran
      · rename_i applied
        cases ran
        exact inv.push applied
      · cases ran

/-!
## Runs
-/

/-- The round trip once its order was sent. -/
def opening (engine : Engine D) : Dialogue D := ⟨engine, [], false⟩

theorem DialogueInv.opening {engine first : Engine D} (connected : engine.ws.connected = true)
    (healthy : engine.store.Healthy) (unanswered : engine.pending = [])
    (fresh : toDecimal engine.nextId ∉ engine.store.ids) (started : start engine = .ok .unit first) :
    DialogueInv (Dialogue.opening first) := by
  rw [start, run_bind_ok (run_get _), if_pos connected, startOverWs] at started
  obtain ⟨clOrdId, _, built, started⟩ := of_bind_ok started
  obtain ⟨rfl, rfl⟩ := buildWsOrderMessage_ok _ built
  rw [setClOrdId, run_bind_ok (run_modify _ _)] at started
  obtain ⟨_, stored, wasAdded, started⟩ := of_bind_ok started
  obtain ⟨added, stored_eq⟩ := addOrder_ok _ wasAdded
  obtain ⟨_, sent, wasSent, tracked⟩ := of_bind_ok started
  have sent_eq := send_ok _ wasSent
  obtain ⟨-, stays⟩ := fits_of_send wasSent
  have none : sent.pending = [] := by
    rw [sent_eq, stored_eq]
    exact unanswered
  rw [track, run_modify, none] at tracked
  cases tracked
  have kept : stored.store.Healthy := healthy.add fresh (Order.live_create _ _ _ _ _ _) added
  constructor
  · have same := stays
    rw [stored_eq] at same
    exact same.trans connected
  · rw [Dialogue.opening, sent_eq]
    exact kept
  · have member := (OrderStore.perm_add added).mem_iff.mpr List.mem_cons_self
    have found := OrderStore.findByClOrdId_of_mem kept.distinct member
    refine .inr ⟨_, _, rfl, awaiting_created (Eq.trans ?_ found)⟩
    rw [ownOrder, Dialogue.opening, sent_eq, stored_eq]
    rfl

/-- In every state of a round trip over one connection, whatever the responses and
pushes so far, an input is taken without an exception exactly if it comes in time. -/
theorem round_trip_returns_iff {engine first : Engine D} (connected : engine.ws.connected = true)
    (healthy : engine.store.Healthy) (unanswered : engine.pending = [])
    (fresh : toDecimal engine.nextId ∉ engine.store.ids) (started : start engine = .ok .unit first)
    {dialogue : Dialogue D} (run : Reaches dialogueStep (fun _ _ => True) (opening first) dialogue)
    (input : RoundTripInput D) :
    (∃ next, dialogueStep input dialogue = .ok .unit next) ↔ dialogue.Timely input := by
  have inv : DialogueInv dialogue :=
    run.invariant DialogueInv (.opening connected healthy unanswered fresh started) fun _ _ _ inv _ ran => inv.step ran
  exact inv.returns_iff input

def connectedEngine : Engine ℚ := { sampleEngine with ws := { sampleEngine.ws with connected := true } }

def placed : Dialogue ℚ := opening (finalState (start connectedEngine))

/-- The exchange's answer to the request with this id. -/
def answer (id sCode : String) : RoundTripInput ℚ :=
  .response ("\x7b\"id\":\"".toList ++ id.toList ++ "\",\"data\":[\x7b\"ordId\":\"9\",\"sCode\":\"".toList ++
    sCode.toList ++ "\"\x7d]\x7d".toList)

def reported (type : OrderEventType) : RoundTripInput ℚ :=
  .push { acknowledgement "1" "9" "buy" "100.00" with type := type }

/-- Placement and amendment are accepted, each after its push; the order is then
cancelled before the response to the cancellation. -/
def roundTripRun : List (RoundTripInput ℚ) :=
  [reported .kLive, answer "1" "0", reported .kLive, answer "2" "0", .written 500, reported .kCancel]

theorem round_trip_returns_iff_after_cancel :
    (finalState (forM roundTripRun dialogueStep placed)).ended = true ∧ ∀ input,
      (∃ next, dialogueStep input (finalState (forM roundTripRun dialogueStep placed)) = .ok .unit next) ↔
        (finalState (forM roundTripRun dialogueStep placed)).Timely input :=
  have healthy : connectedEngine.store.Healthy := ⟨List.nodup_nil, fun _ member => by cases member⟩
  ⟨by decide +kernel, round_trip_returns_iff rfl healthy rfl (by decide +kernel)
    (eq_ok_of_returned (by decide +kernel)) (Reaches.start.all roundTripRun (by decide +kernel))⟩

/-- The fill overtakes the response to the placement. -/
theorem round_trip_throws_after_fill :
    thrown (forM [reported .kFill, answer "1" "0"] dialogueStep placed) =
        some (.runtimeError "WsOrderRoundTrip: order not found in order_store_".toList) ∧
      thrown (forM [answer "1" "0", reported .kLive, answer "2" "1"] dialogueStep placed) =
        some (.runtimeError "Order 1: request-rejected event from state New".toList) := by
  decide +kernel

end Dialogue

end TradingEngine
