import TradingEngine.Engine.SameOrders
import TradingEngine.Risk.KillSwitchProperties

/-! How the engine keeps track of the orders it sends. The quoter and the round trip
store an order before they send it; orders leave the store with an event that ends
them, or with a reconciliation that does not name them. -/

set_option autoImplicit false

namespace TradingEngine.Engine

open Library.Exec

variable {D : Type}

/-- The id of an order handed to the client. -/
def Effect.sentId : Effect → Option Text
  | .send _ (.order clOrdId _) _ => some clOrdId
  | _ => none

/-- The id was drawn between the two states. -/
def DrawnIn (before after : Engine D) (clOrdId : Text) : Prop :=
  ∃ number, before.lastId < number ∧ number ≤ after.lastId ∧ clOrdId = toDecimal number

/-- Orders are sent under new ids, and stored; only ids that meet `leaves` may have left. -/
structure Tracks (leaves : Text → Prop) (before after : Engine D) : Prop where
  lastId : before.lastId ≤ after.lastId
  resumable : before.store.Resumable → after.store.Resumable
  stays : ∀ clOrdId ∈ before.store.ids, clOrdId ∈ after.store.ids ∨ leaves clOrdId
  sends : Emits (fun effect => ∀ clOrdId ∈ Effect.sentId effect,
    DrawnIn before after clOrdId ∧ clOrdId ∈ after.store.ids) before after

/-- No order has left. -/
def Adds : Engine D → Engine D → Prop := Tracks fun _ => False

namespace Tracks

variable {leaves : Text → Prop} {first second third : Engine D}

theorem of_same (same : SameOrders first second)
    (closed : Emits (fun effect => Effect.sentId effect = none) first second) : Tracks leaves first second where
  lastId := same.lastId
  resumable := same.resumable
  stays _ stored := .inl (same.ids ▸ stored)
  sends := closed.mono fun effect none_sent clOrdId sent => by
    rw [none_sent] at sent
    cases sent

theorem refl (engine : Engine D) : Tracks leaves engine engine := of_same (SameOrders.refl engine) (emits_of_same rfl)

theorem adds (early : Tracks leaves first second) (late : Adds second third) : Tracks leaves first third where
  lastId := early.lastId.trans late.lastId
  resumable := late.resumable ∘ early.resumable
  stays clOrdId stored := by
    rcases early.stays clOrdId stored with kept | gone
    · exact .inl ((late.stays clOrdId kept).resolve_right id)
    · exact .inr gone
  sends := by
    have sentEarly : Emits (fun effect => ∀ clOrdId ∈ Effect.sentId effect,
        DrawnIn first third clOrdId ∧ clOrdId ∈ third.store.ids) first second := by
      refine early.sends.mono fun effect allowed clOrdId sent => ?_
      obtain ⟨⟨number, above, below, same⟩, stored⟩ := allowed clOrdId sent
      exact ⟨⟨number, above, below.trans late.lastId, same⟩, (late.stays clOrdId stored).resolve_right id⟩
    refine sentEarly.trans (late.sends.mono fun effect allowed clOrdId sent => ?_)
    obtain ⟨⟨number, above, below, same⟩, stored⟩ := allowed clOrdId sent
    exact ⟨⟨number, early.lastId.trans_lt above, below, same⟩, stored⟩

/-- What comes before may leave the orders as they are. -/
theorem after_same (same : SameOrders first second)
    (closed : Emits (fun effect => Effect.sentId effect = none) first second)
    (late : Tracks leaves second third) : Tracks leaves first third where
  lastId := same.lastId.trans late.lastId
  resumable := late.resumable ∘ same.resumable
  stays clOrdId stored := late.stays clOrdId (same.ids ▸ stored)
  sends := by
    refine (closed.mono fun effect none_sent clOrdId sent => ?_).trans
      (late.sends.mono fun effect allowed clOrdId sent => ?_)
    · rw [none_sent] at sent
      cases sent
    · obtain ⟨⟨number, above, below, same_id⟩, stored⟩ := allowed clOrdId sent
      exact ⟨⟨number, same.lastId.trans_lt above, below, same_id⟩, stored⟩

theorem mono {wider : Text → Prop} (tracks : Tracks leaves first second)
    (widen : ∀ clOrdId, leaves clOrdId → wider clOrdId) : Tracks wider first second where
  lastId := tracks.lastId
  resumable := tracks.resumable
  stays clOrdId stored := (tracks.stays clOrdId stored).imp_right (widen clOrdId)
  sends := tracks.sends

end Tracks

theorem sentId_of_not_isOrder {effect : Effect} (other : ¬ effect.IsOrder) : Effect.sentId effect = none := by
  match effect, other with
  | .send _ (.order _ _) _, other => exact absurd trivial other
  | .send _ (.amendOrder _ _ _ _ _) _, _ => rfl
  | .send _ (.cancelOrder _ _ _) _, _ => rfl
  | .send _ (.other _) _, _ => rfl
  | .restPlace _ _, _ => rfl
  | .restCancel _ _, _ => rfl
  | .restPending, _ => rfl
  | .triggered _, _ => rfl
  | .removed _, _ => rfl

theorem sentId_of_closed {effect : Effect} (closed : ¬ effect.Opens) : Effect.sentId effect = none := by
  refine sentId_of_not_isOrder fun isOrder => closed ?_
  match effect, isOrder with
  | .send _ (.order _ _) _, _ => trivial

theorem sentId_of_isAmend {effect : Effect} (isAmend : Effect.IsAmend effect) : Effect.sentId effect = none := by
  match effect, isAmend with
  | .send _ (.amendOrder _ _ _ _ _) _, _ => rfl

/-!
## Sending
-/

theorem resumable_add {store next : OrderStore} {order : Order} (added : store.add order = .ok next)
    (new : isTerminal order.prePendingState = false) (resumable : store.Resumable) : next.Resumable := by
  intro other member
  rcases List.mem_cons.mp ((OrderStore.perm_add added).mem_iff.mp member) with rfl | old
  · exact new
  · exact resumable other old

/-- An order stored under the next id and sent. -/
theorem adds_of_sent {before after : Engine D} (order : Order) (effect : Effect)
    (named : order.clOrdId = toDecimal before.nextId) (new : isTerminal order.prePendingState = false)
    (added : before.store.add order = .ok after.store) (lastId : after.lastId = before.nextId)
    (trace : after.trace = before.trace ++ [effect])
    (sends : Effect.sentId effect = some (toDecimal before.nextId)) : Adds before after where
  lastId := lastId ▸ before.lt_nextId.le
  resumable := resumable_add added new
  stays clOrdId stored := .inl ((OrderStore.ids_perm_add added).mem_iff.mpr (List.mem_cons_of_mem _ stored))
  sends := by
    refine emits_one trace fun clOrdId sent => ?_
    rw [sends] at sent
    cases sent
    refine ⟨⟨before.nextId, before.lt_nextId, lastId.ge, rfl⟩, ?_⟩
    rw [← named]
    exact (OrderStore.ids_perm_add added).mem_iff.mpr List.mem_cons_self

theorem Readies.adds {before after : Engine D} (readies : Readies before after) : Adds before after := by
  obtain ⟨ws, mid, rfl⟩ := readies
  exact Tracks.of_same (sameOrders_of_store rfl le_rfl) (emits_of_same rfl)

section Quoting

variable [DoubleArith D]

theorem SideStep.adds {wants : Engine D → QuoteSide → Bool} {side : QuoteSide} {px : D} {before after : Engine D}
    (step : SideStep wants side px before after) : Adds before after := by
  cases step with
  | waits waits =>
      obtain ⟨clock, limiter, rfl⟩ := waits
      exact Tracks.of_same (sameOrders_of_store rfl le_rfl) (emits_of_same rfl)
  | denied _ waits =>
      obtain ⟨clock, limiter, rfl⟩ := waits
      exact Tracks.of_same (sameOrders_of_store rfl le_rfl) (emits_of_same rfl)
  | places _ places =>
      obtain ⟨clock, limiter, ws, now, store, added, rfl⟩ := places
      exact adds_of_sent _ _ rfl rfl added rfl rfl rfl
  | @amends _ clOrdId _ amends =>
      obtain ⟨clock, limiter, ws, now, store, effect, updated, rfl, isAmend⟩ := amends
      have same : SameOrders before { before with
          steadyClock := clock, rateLimiter := limiter, ws := ws, lastId := before.nextId
          systemClock := before.systemClock.tick, store := store, trace := before.trace ++ [effect] } := by
        refine ⟨OrderStore.ids_of_update updated, fun order member => ?_, fun resumable => ?_, before.lt_nextId.le⟩
        · obtain ⟨old, oldMember, -, sameOrdId⟩ :=
            OrderStore.ordId_of_update (OrderStore.keepsOrdId_onAmendRequested now) updated member
          exact ⟨old, oldMember, sameOrdId⟩
        · have written := OrderStore.resumable_update (OrderStore.keepsResumable_onAmendRequested now) resumable clOrdId
          rw [updated] at written
          exact written
      exact Tracks.of_same same (emits_one rfl (sentId_of_isAmend isAmend))

theorem QuoteOutcome.adds {wants : Engine D → QuoteSide → Bool} {mid : D} {engine next : Engine D}
    (outcome : QuoteOutcome wants mid engine (.ok .unit next)) : Adds engine next := by
  obtain ⟨ready, first, second, readies, bidStep, askStep, last⟩ := outcome
  exact Tracks.adds (Tracks.adds (Tracks.adds readies.adds bidStep.adds) askStep.adds) last.adds

theorem adds_onBookUpdate {book : OrderBook D} {engine next : Engine D}
    (ran : onBookUpdate book engine = .ok .unit next) : Adds engine next := by
  rcases onBookUpdate_outcome book engine with same | ⟨mid, -, outcome⟩
  · rw [same] at ran
    cases ran
    exact Tracks.refl engine
  · rw [ran] at outcome
    exact outcome.adds

theorem adds_onTimer {engine next : Engine D} (ran : onTimer engine = .ok .unit next) : Adds engine next := by
  rcases onTimer_outcome engine with same | ⟨mid, -, outcome⟩
  · rw [same] at ran
    cases ran
    exact Tracks.refl engine
  · rw [ran] at outcome
    exact outcome.adds

end Quoting

theorem adds_startOverWs {request : OrderRequest} {before : OrderStore} {engine next : Engine D}
    (ran : startOverWs request before engine = .ok .unit next) : Adds engine next := by
  obtain ⟨clOrdId, numbered, built, ran⟩ := of_bind_ok ran
  obtain ⟨rfl, rfl⟩ := buildWsOrderMessage_ok engine built
  rw [setClOrdId, run_bind_ok (run_modify _ _)] at ran
  obtain ⟨_, stored, adds, ran⟩ := of_bind_ok ran
  obtain ⟨added, frame⟩ := addOrder_ok _ adds
  obtain ⟨_, sent, sends, ran⟩ := of_bind_ok ran
  have sentFrame := send_ok stored sends
  have tracked : SameOrders sent next ∧ next.trace = sent.trace := by
    rw [track, run_modify] at ran
    cases ran
    split
    · exact ⟨SameOrders.refl sent, rfl⟩
    · exact ⟨sameOrders_of_store rfl le_rfl, rfl⟩
  have sending : Adds engine sent := by
    refine adds_of_sent (Order.create (toDecimal engine.nextId) request.instId request.side request.px
      request.sz engine.steadyClock.now) (.send .roundTrip (.order (toDecimal engine.nextId) request) before)
      rfl rfl ?_ ?_ ?_ rfl
    · rw [sentFrame]
      exact added
    · rw [sentFrame, frame]
    · rw [sentFrame, frame]
  exact Tracks.adds sending (Tracks.of_same tracked.1 (emits_of_same tracked.2))

theorem sameOrders_startOverRest (request : OrderRequest) :
    Moves SameOrders (startOverRest request : EngineM D PUnit) := by
  have placing : Moves SameOrders (placeOrder request : EngineM D OrderResult) := by
    unfold placeOrder
    split
    · exact moves_throw SameOrders.refl _
    · exact sameOrders_bind sameOrders_generateId fun _ =>
        sameOrders_bind (fun _ => sameOrders_of_store rfl le_rfl) fun _ =>
          sameOrders_bind sameOrders_restCall fun _ => moves_pure SameOrders.refl _
  refine sameOrders_bind placing fun result => ?_
  split
  · exact sameOrders_bind (fun _ => sameOrders_of_store rfl le_rfl) fun _ => sameOrders_fallBackToRestCancel
  · exact moves_pure SameOrders.refl _

theorem adds_startOverRest (request : OrderRequest) : Moves Adds (startOverRest request : EngineM D PUnit) := by
  intro engine
  have footprint : Footprint _ (Keeps (fun effect => Effect.sentId effect = none) : Engine D → Engine D → Prop) :=
    Keeps.footprint fun _ background => sentId_of_closed background.quiet.1
  exact Tracks.of_same (sameOrders_startOverRest request engine)
    (footprint.moves_startOverRest (fun _ => rfl) engine).emits

theorem adds_startIfAllowed [DoubleArith D] {engine next : Engine D}
    (ran : startIfAllowed engine = .ok .unit next) : Adds engine next := by
  rw [startIfAllowed, run_bind_ok (run_get _)] at ran
  split at ran
  · cases ran
    exact Tracks.refl engine
  · obtain ⟨result, same, checked, ran⟩ := of_bind_ok ran
    obtain rfl : engine = same := by
      rw [run_lift] at checked
      split at checked <;> cases checked
      rfl
    split at ran
    · rw [start, run_bind_ok (run_get _)] at ran
      split at ran
      · exact adds_startOverWs ran
      · exact (adds_startOverRest _).ok ran
    · cases ran
      exact Tracks.refl engine

/-!
## Removing
-/

/-- Reconciliation keeps what the answer names. -/
theorem tracks_reconcileOrders {body : Text} {engine next : Engine D}
    (ran : reconcileOrders body engine = .ok .unit next) :
    Tracks (fun clOrdId => clOrdId ∉ (pendingRows body).map rowId) engine next := by
  have outcome := reconcileOrders_outcome body engine
  rw [ran] at outcome
  obtain ⟨-, middle, adopts, drops, stays⟩ := outcome
  obtain ⟨clock, adoptsFrame⟩ := adopts.frame
  refine ⟨?_, fun resumable order member => ?_, fun clOrdId stored => ?_, ?_⟩
  · rw [drops.frame, adoptsFrame]
  · rcases adopts.of_mem (List.mem_filter.mp (stays.mem_iff.mp member)).1 with old | ⟨row, new, type, now, -, rfl⟩
    · exact resumable order old
    · rfl
  · by_cases named : clOrdId ∈ (pendingRows body).map rowId
    · obtain ⟨order, member, rfl⟩ := OrderStore.mem_ids.mp stored
      obtain ⟨adopted, perm, -⟩ := adopts.orders
      have kept : order ∈ middle.store.orders := perm.mem_iff.mpr (List.mem_append_right _ member)
      refine .inl (OrderStore.mem_ids.mpr ⟨order, ?_, rfl⟩)
      exact stays.mem_iff.mpr (List.mem_filter.mpr ⟨kept, by simpa using named⟩)
    · exact .inr named
  · refine ((keepsQuiet.moves_reconcileOrders body).ok ran).emits.mono fun effect quiet clOrdId sent => ?_
    rw [sentId_of_closed quiet.1] at sent
    cases sent

/-- An event removes the order it ends, and no other. -/
theorem tracks_applyOrderEvent {event : OrderEvent D} {engine next : Engine D} (resumable : engine.store.Resumable)
    (ran : applyOrderEvent event engine = .ok .unit next) :
    Tracks (fun clOrdId => clOrdId = event.clOrdId ∧ ends event = true) engine next := by
  have outcome := applyOrderEvent_outcome event engine
  have written := OrderStore.resumable_update (OrderStore.keepsResumable_applyEvent event) resumable event.clOrdId
  rw [ran] at outcome
  cases outcome with
  | unknown _ => exact Tracks.refl engine
  | @moved store order updated _ _ =>
      rw [updated] at written
      refine ⟨le_rfl, fun _ => written, fun clOrdId stored => .inl ?_, emits_of_same rfl⟩
      exact OrderStore.ids_of_update updated ▸ stored
  | @ended store order updated found terminal =>
      rw [updated] at written
      have last : ends event = true := by
        obtain ⟨old, wasFound, applied⟩ := OrderStore.found_of_update updated found
        exact ends_of_terminal (resumable old (OrderStore.of_findByClOrdId wasFound).1) applied terminal
      refine ⟨le_rfl, fun _ other member => written other (OrderStore.mem_of_mem_erase member),
        fun clOrdId stored => ?_, emits_one rfl fun clOrdId sent => by cases sent⟩
      by_cases same : clOrdId = event.clOrdId
      · exact .inr ⟨same, last⟩
      · rw [← OrderStore.ids_of_update updated] at stored
        obtain ⟨removed, isRemoved, perm⟩ := OrderStore.perm_erase
          (OrderStore.mem_ids.mpr ⟨order, OrderStore.of_findByClOrdId found⟩)
        have kept := (perm.map Order.clOrdId).mem_iff.mp stored
        rcases List.mem_cons.mp kept with here | there
        · exact absurd (here.trans isRemoved) same
        · exact .inl there

theorem sameOrders_trigger (reason : Text) : Moves SameOrders (trigger reason : EngineM D PUnit) := by
  intro engine
  cases set : engine.triggered with
  | true =>
      rw [trigger_of_triggered set]
      exact SameOrders.refl engine
  | false =>
      rw [trigger_of_untriggered set]
      have cancelling : Moves SameOrders (forM (toCancel engine.store) cancelEntry : EngineM D PUnit) :=
        moves_forM SameOrders.refl SameOrders.trans fun entry _ =>
          sameOrders_bind (sameOrders_cancelOrder entry.1 entry.2) fun _ => moves_pure SameOrders.refl _
      have tripping : SameOrders engine (engine.tripped reason) := sameOrders_of_store rfl le_rfl
      exact tripping.trans _ _ _ (cancelling _)

/-- Neither sends nor removes an order. -/
theorem tracks_of_switches {leaves : Text → Prop} {before after : Engine D} (same : SameOrders before after)
    (switches : Switches before after) : Tracks leaves before after :=
  .of_same same (switches.emits.mono fun _ => sentId_of_closed)

theorem tracks_of_quiet {leaves : Text → Prop} {before after : Engine D} (same : SameOrders before after)
    (keeps : Keeps Effect.Quiet before after) : Tracks leaves before after :=
  tracks_of_switches same keeps.switches

/-- The next REST call is answered without the id. -/
def Unlisted (engine : Engine D) (clOrdId : Text) : Prop :=
  ∃ body, engine.rest.answers engine.rest.calls = .ok body ∧ clOrdId ∉ (pendingRows body).map rowId

theorem tracks_pending {engine next : Engine D} {program : Text → EngineM D PUnit} {leaves : Text → Prop}
    (tracks : ∀ body, engine.rest.answers engine.rest.calls = .ok body →
      program body engine.asking = .ok .unit next → Tracks leaves engine.asking next)
    (ran : (getPendingOrders >>= program) engine = .ok .unit next) : Tracks leaves engine next := by
  have asked : SameOrders engine engine.asking := sameOrders_of_store rfl le_rfl
  rw [run_bind, run_getPendingOrders] at ran
  cases answer : engine.rest.answers engine.rest.calls with
  | error what =>
      rw [answer] at ran
      cases ran
  | ok body =>
      rw [answer] at ran
      exact .after_same asked (emits_one rfl rfl) (tracks body answer ran)

theorem adds_ifQuoting {program : EngineM D PUnit} {engine next : Engine D}
    (adds : program engine = .ok .unit next → Adds engine next) (ran : ifQuoting program engine = .ok .unit next) :
    Adds engine next := by
  rw [ifQuoting, run_bind_ok (run_get _)] at ran
  split at ran
  · exact adds ran
  · cases ran
    exact Tracks.refl engine

section Steps

variable [DoubleArith D]

theorem sameOrders_applyFill (event : OrderEvent D) : Moves SameOrders (applyFill event) := by
  unfold applyFill
  split
  · exact moves_pure SameOrders.refl _
  · refine sameOrders_bind (fun _ => sameOrders_of_store rfl le_rfl) fun _ => sameOrders_get fun engine => ?_
    split
    · exact sameOrders_trigger _
    · exact moves_pure SameOrders.refl _

theorem tracks_handleOrderEvent {event : OrderEvent D} {engine next : Engine D} (resumable : engine.store.Resumable)
    (ran : handleOrderEvent event engine = .ok .unit next) :
    Tracks (fun clOrdId => clOrdId = event.clOrdId ∧ ends event = true) engine next := by
  obtain ⟨_, filled, applied, ran⟩ := of_bind_ok ran
  have same := (sameOrders_applyFill event).ok applied
  have closed := ((switches_applyFill event).ok applied).emits.mono fun _ => sentId_of_closed
  exact .after_same same closed (tracks_applyOrderEvent (same.resumable resumable) ran)

/-- The pending orders are asked for and the store is reconciled with the answer. -/
def reconciles (engine : Engine D) : Input D → Bool
  | .login message => field message kCode = kSuccessCode
  | .timeoutCheck => engine.store.orders.any (timedOut engine.steadyClock.now)
  | _ => false

theorem tracks_checkAndResolve {engine next : Engine D} (ran : checkAndResolve engine = .ok .unit next) :
    Tracks (fun clOrdId => engine.reconciles .timeoutCheck = true ∧ engine.Unlisted clOrdId) engine next := by
  have timed : SameOrders engine { engine with steadyClock := engine.steadyClock.tick } :=
    sameOrders_of_store rfl le_rfl
  rw [checkAndResolve, run_bind_ok (run_steadyNow engine), run_bind_ok (run_get _)] at ran
  split at ran
  · rename_i late
    refine .after_same timed (emits_of_same rfl) (tracks_pending (fun body answer reconciled => ?_) ran)
    exact (tracks_reconcileOrders reconciled).mono fun clOrdId unnamed => ⟨late, body, answer, unnamed⟩
  · cases ran
    exact .of_same timed (emits_of_same rfl)

theorem tracks_handleLoginEvent {message : Text} {engine next : Engine D}
    (ran : handleLoginEvent message engine = .ok .unit next) :
    Tracks (fun clOrdId => engine.reconciles (.login message) = true ∧ engine.Unlisted clOrdId) engine next := by
  unfold handleLoginEvent at ran
  split at ran
  · cases ran
    exact .refl engine
  · rename_i succeeded
    have logged : engine.reconciles (.login message) = true := decide_eq_true (not_not.mp succeeded)
    generalize kPrivateSubscribeMsg = subscribe at ran
    rw [run_bind_ok (run_get _)] at ran
    obtain ⟨_, sent, sends, ran⟩ := of_bind_ok ran
    have frame := send_ok engine sends
    have same : SameOrders engine sent := (sameOrders_send _ _ _).ok sends
    have rest : sent.rest = engine.rest := by rw [frame]
    have closed : Emits (fun effect => Effect.sentId effect = none) engine sent := by
      rw [frame]
      exact emits_one rfl rfl
    refine .after_same same closed (tracks_pending (fun body answer ran => ?_) ran)
    obtain ⟨_, settled, reconciled, started⟩ := of_bind_ok ran
    rw [rest] at answer
    have reconciling := (tracks_reconcileOrders reconciled).mono
      fun clOrdId unnamed => (⟨logged, body, answer, unnamed⟩ :
        engine.reconciles (.login message) = true ∧ engine.Unlisted clOrdId)
    exact reconciling.adds (adds_startIfAllowed started)

/-- What a turn of the loop may remove. -/
def Leaves (engine : Engine D) (input : Input D) (clOrdId : Text) : Prop :=
  (∃ event, input = .orderEvent event ∧ clOrdId = event.clOrdId ∧ ends event = true) ∨
    (engine.reconciles input = true ∧ engine.Unlisted clOrdId)

theorem tracks_login {message : Text} {engine next : Engine D} (ran : handle (.login message) engine = .ok .unit next) :
    Tracks (Leaves engine (.login message)) engine next := by
  obtain ⟨_, noted, notes, ran⟩ := of_bind_ok ran
  have frame : ∃ ws, noted = { engine with ws := ws } := by
    rw [noteLogin, run_modify] at notes
    cases notes
    split
    · exact ⟨_, rfl⟩
    · exact ⟨engine.ws, rfl⟩
  obtain ⟨ws, rfl⟩ := frame
  have same : SameOrders engine { engine with ws := ws } := sameOrders_of_store rfl le_rfl
  exact .after_same same (emits_of_same rfl) ((tracks_handleLoginEvent ran).mono fun clOrdId unlisted => .inr unlisted)

theorem tracks_handle {input : Input D} {engine next : Engine D} (resumable : engine.store.Resumable)
    (ran : handle input engine = .ok .unit next) : Tracks (Leaves engine input) engine next := by
  cases input with
  | bookUpdate book => exact (adds_ifQuoting adds_onBookUpdate ran).mono fun _ => False.elim
  | quoterTimer => exact (adds_ifQuoting adds_onTimer ran).mono fun _ => False.elim
  | login message => exact tracks_login ran
  | response message =>
      obtain ⟨_, dispatched, dispatches, ran⟩ := of_bind_ok ran
      cases ran
      refine .of_same ((sameOrders_dispatch message).ok dispatches) (((keeps_dispatch message).ok dispatches).emits.mono ?_)
      rintro effect (quiet | isAmend)
      · exact sentId_of_closed quiet.1
      · exact sentId_of_isAmend isAmend
  | orderEvent event =>
      exact (tracks_handleOrderEvent resumable ran).mono fun clOrdId last => .inl ⟨event, rfl, last⟩
  | account message =>
      exact tracks_of_quiet ((sameOrders_handleAccountChannelMessage message).ok ran)
        ((keepsQuiet.moves_handleAccountChannelMessage message).ok ran)
  | timeoutCheck => exact (tracks_checkAndResolve ran).mono fun clOrdId unlisted => .inr unlisted
  | signal =>
      have stopping : Moves SameOrders (modify fun engine => { engine with stopped := true } : EngineM D PUnit) :=
        fun _ => sameOrders_of_store rfl le_rfl
      have same : Moves SameOrders (handle .signal : EngineM D PUnit) :=
        sameOrders_bind (sameOrders_trigger _) fun _ => stopping
      exact tracks_of_switches (same.ok ran) (switches_signal.ok ran)
  | connected login =>
      exact tracks_of_quiet ((sameOrders_connectOrReconnect login).ok ran) ((keepsQuiet.moves_connectOrReconnect login).ok ran)
  | disconnected =>
      cases ran
      exact .of_same (sameOrders_of_store rfl le_rfl) (emits_of_same rfl)
  | controlFrame bytes =>
      exact tracks_of_quiet ((sameOrders_writeRaw bytes).ok ran) ((keepsQuiet.moves_writeRaw bytes).ok ran)
  | written bytes =>
      cases ran
      exact .of_same (sameOrders_of_store rfl le_rfl) (emits_of_same rfl)

theorem tracks_step {input : Input D} {engine next : Engine D} (resumable : engine.store.Resumable)
    (ran : step input engine = .ok .unit next) :
    Tracks (fun clOrdId => engine.stopped = false ∧ Leaves engine input clOrdId) engine next := by
  rw [step, run_bind_ok (run_get _)] at ran
  split at ran
  · cases ran
    exact .refl engine
  · rename_i running
    exact (tracks_handle resumable ran).mono fun clOrdId leaves => ⟨Bool.eq_false_iff.mpr running, leaves⟩

end Steps

end TradingEngine.Engine
