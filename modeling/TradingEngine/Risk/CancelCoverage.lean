import TradingEngine.Engine.SameOrders
import TradingEngine.Risk.KillSwitchProperties

/-! Which orders the kill switch has cancelled. It cancels the orders that have an
ordId when it is set; an order that learns its ordId later, or is adopted later, is
left alone. -/

set_option autoImplicit false

namespace TradingEngine.Engine

open Library.Exec

variable {D : Type}

/-- A request to cancel the order with this ordId. -/
def Effect.Cancels (ordId : Text) : Effect → Prop
  | .restCancel _ other => other = ordId
  | .send _ (.cancelOrder _ _ other) _ => other = ordId
  | _ => False

instance (ordId : Text) : DecidablePred (Effect.Cancels ordId)
  | .restCancel _ other => inferInstanceAs (Decidable (other = ordId))
  | .send _ (.cancelOrder _ _ other) _ => inferInstanceAs (Decidable (other = ordId))
  | .send _ (.order _ _) _ => isFalse id
  | .send _ (.amendOrder _ _ _ _ _) _ => isFalse id
  | .send _ (.other _) _ => isFalse id
  | .restPlace _ _ => isFalse id
  | .restPending => isFalse id
  | .triggered _ => isFalse id
  | .removed _ => isFalse id

def Covered (engine : Engine D) (ordId : Text) : Prop := ∃ effect ∈ engine.trace, Effect.Cancels ordId effect

instance (engine : Engine D) (ordId : Text) : Decidable (engine.Covered ordId) :=
  inferInstanceAs (Decidable (∃ effect ∈ engine.trace, _))

/-- A cancel request was issued for every stored order that has an ordId. -/
def Covers (engine : Engine D) : Prop :=
  ∀ order ∈ engine.store.orders, order.ordId ≠ [] → engine.Covered order.ordId

theorem Covered.later {before after : Engine D} {allowed : Effect → Prop} {ordId : Text}
    (covered : before.Covered ordId) (emits : Emits allowed before after) : after.Covered ordId := by
  obtain ⟨effect, member, cancels⟩ := covered
  obtain ⟨new, grown, -⟩ := emits
  exact ⟨effect, grown ▸ List.mem_append_left _ member, cancels⟩

theorem Covers.later {before after : Engine D} {allowed : Effect → Prop} (covers : Covers before)
    (emits : Emits allowed before after)
    (same : ∀ order ∈ after.store.orders, ∃ old ∈ before.store.orders, old.ordId = order.ordId) : Covers after := by
  intro order member named
  obtain ⟨old, oldMember, sameOrdId⟩ := same order member
  rw [← sameOrdId] at named ⊢
  exact (covers old oldMember named).later emits

/-!
## The switch
-/

/-- No REST call fails to get an answer. -/
def RestSucceeds (engine : Engine D) : Prop := ∀ call, (engine.rest.answers call).isOk = true

theorem restCall_of_succeeds {engine : Engine D} (succeeds : engine.RestSucceeds) :
    ∃ body, restCall engine =
      .ok body { engine with rest := { engine.rest with calls := engine.rest.calls + 1 } } := by
  have succeeds := succeeds engine.rest.calls
  rw [restCall]
  cases answer : engine.rest.answers engine.rest.calls with
  | error what =>
      rw [answer] at succeeds
      cases succeeds
  | ok body => exact ⟨body, rfl⟩

theorem run_cancelEntries (entries : List (Text × Text)) {engine : Engine D} (succeeds : engine.RestSucceeds) :
    ∃ next, forM entries cancelEntry engine = .ok .unit next ∧ next.store = engine.store ∧
      next.trace = engine.trace ++ entries.map fun entry => .restCancel entry.1 entry.2 := by
  induction entries generalizing engine with
  | nil => exact ⟨engine, rfl, rfl, by simp⟩
  | cons entry rest ih =>
      obtain ⟨body, called⟩ := restCall_of_succeeds
        (show RestSucceeds { engine with trace := engine.trace ++ [.restCancel entry.1 entry.2] } from succeeds)
      have cancelled : cancelEntry entry engine = .ok .unit { engine with
          trace := engine.trace ++ [.restCancel entry.1 entry.2]
          rest := { engine.rest with calls := engine.rest.calls + 1 } } := by
        rw [cancelEntry, cancelOrder, run_bind, run_bind_ok (run_emit engine _), run_bind_ok called]
        rfl
      obtain ⟨next, ran, store, trace⟩ := ih (show RestSucceeds { engine with
        trace := engine.trace ++ [.restCancel entry.1 entry.2]
        rest := { engine.rest with calls := engine.rest.calls + 1 } } from succeeds)
      refine ⟨next, ?_, store, ?_⟩
      · rw [List.forM_cons, run_bind_ok cancelled, ran]
      · rw [trace]
        simp

/-- Setting the switch cancels whatever has an ordId. -/
theorem trigger_covers {engine : Engine D} (succeeds : engine.RestSucceeds) (reason : Text)
    (covers : engine.triggered = true → Covers engine) :
    ∃ next, trigger reason engine = .ok .unit next ∧ next.store = engine.store ∧ Covers next := by
  cases set : engine.triggered with
  | true => exact ⟨engine, trigger_of_triggered set reason, rfl, covers set⟩
  | false =>
      obtain ⟨next, ran, store, trace⟩ := run_cancelEntries (toCancel engine.store)
        (show RestSucceeds (engine.tripped reason) from succeeds)
      refine ⟨next, (trigger_of_untriggered set reason).trans ran, store, fun order member named => ?_⟩
      rw [store] at member
      have listed : (order.instId, order.ordId) ∈ toCancel engine.store :=
        List.mem_map.mpr ⟨order, List.mem_filter.mpr ⟨member, by simpa using named⟩, rfl⟩
      refine ⟨.restCancel order.instId order.ordId, ?_, rfl⟩
      rw [trace]
      exact List.mem_append_right _ (List.mem_map.mpr ⟨_, listed, rfl⟩)

/-!
## Order events
-/

theorem ordId_applyEvent (event : OrderEvent D) (order : Order) :
    (finalState (Order.applyEvent event order)).ordId = if order.ordId = [] then event.ordId else order.ordId := by
  unfold Order.applyEvent
  cases event.type with
  | kLive =>
      dsimp only
      split
      · rfl
      · split
        · rfl
        · split <;> rfl
  | kPartialFill | kFill | kCancel =>
      dsimp only [Order.advance]
      split <;> rfl

/-- The event gives no stored order an ordId that is not cancelled, unless it ends it. -/
def EventCovered (engine : Engine D) (event : OrderEvent D) : Prop :=
  ∀ order ∈ engine.store.findByClOrdId event.clOrdId, order.ordId = [] →
    event.ordId = [] ∨ engine.Covered event.ordId ∨ (ends event = true ∧ isTerminal order.state = false)

/-- The orders after an event that does not end its order. -/
theorem covers_update {engine : Engine D} {event : OrderEvent D} (covers : Covers engine)
    (covered : EventCovered engine event)
    (continues : ∀ old, engine.store.findByClOrdId event.clOrdId = some old →
      ¬ (ends event = true ∧ isTerminal old.state = false)) {order : Order}
    (member : order ∈ (finalState (engine.store.update event.clOrdId (.applyEvent event))).orders)
    (named : order.ordId ≠ []) : engine.Covered order.ordId := by
  rcases OrderStore.mem_update member with kept | ⟨old, found, rfl⟩
  · exact covers order kept named
  · have ordId : (finalState ((OrderAction.applyEvent event).run old)).ordId =
        if old.ordId = [] then event.ordId else old.ordId := ordId_applyEvent event old
    rw [ordId] at named ⊢
    split at named
    · rename_i unnamed
      rw [if_pos unnamed]
      rcases covered old found unnamed with empty | isCovered | last
      · exact absurd empty named
      · exact isCovered
      · exact absurd last (continues old found)
    · rename_i hadOne
      rw [if_neg hadOne]
      exact covers old (OrderStore.of_findByClOrdId found).1 hadOne

theorem applyOrderEvent_covers {engine : Engine D} {event : OrderEvent D} (covers : Covers engine)
    (covered : EventCovered engine event) : Covers (finalState (applyOrderEvent event engine)) := by
  have outcome := applyOrderEvent_outcome event engine
  cases ran : applyOrderEvent event engine with
  | error exception next =>
      rw [ran] at outcome
      obtain ⟨exception, store, updated, rfl⟩ := outcome
      intro order member named
      refine covers_update covers covered ?_ (by rw [updated]; exact member) named
      rintro old found ⟨last, live⟩
      obtain ⟨next, applied, -⟩ := applyEvent_ends last live
      obtain ⟨⟨index, located⟩, here, same⟩ := Option.map_eq_some_iff.mp found
      obtain rfl : located = old := same
      obtain ⟨written, -, wrote⟩ := OrderStore.update_of_locate here (.applyEvent event)
      rw [show (OrderAction.applyEvent event).run located = .ok .unit next from applied, updated] at wrote
      cases wrote
  | ok value next =>
      rw [ran] at outcome
      cases outcome with
      | unknown _ => exact covers
      | @moved store order updated found live =>
          intro other member named
          refine covers_update covers covered ?_ (by rw [updated]; exact member) named
          rintro old wasFound ⟨last, wasLive⟩
          obtain ⟨next, applied, terminal⟩ := applyEvent_ends last wasLive
          have again := OrderStore.findByClOrdId_update wasFound (.applyEvent event)
          rw [updated, show (OrderAction.applyEvent event).run old = .ok .unit next from applied] at again
          obtain rfl : order = next := by simpa [found] using again
          rw [live] at terminal
          cases terminal
      | @ended store order updated found _ =>
          intro other member named
          have stored : event.clOrdId ∈ engine.store.ids := by
            rw [← OrderStore.ids_of_update updated]
            obtain ⟨here, same⟩ := OrderStore.of_findByClOrdId found
            exact OrderStore.mem_ids.mpr ⟨order, here, same⟩
          have kept : other ∈ engine.store.orders := by
            refine OrderStore.mem_of_mem_erase_update stored (.applyEvent event) ?_
            rw [updated]
            exact member
          exact (covers other kept named).later (emits_one rfl trivial : Emits (fun _ => True) _ _)

/-!
## Reconciliation
-/

/-- What the rows would adopt is cancelled, or has no ordId. -/
def RowsCovered (engine : Engine D) (rows : List Text) : Prop :=
  ∀ row ∈ newRows engine.store.ids rows, field row kOrdId = [] ∨ engine.Covered (field row kOrdId)

theorem Adopts.covers {before after : Engine D} {rows : List Text} (adopts : Adopts before rows after)
    (covers : Covers before) (covered : RowsCovered before rows) : Covers after := by
  intro order member named
  have trace : Emits (fun _ => True) before after := by
    obtain ⟨clock, frame⟩ := adopts.frame
    exact emits_of_same (by rw [frame])
  rcases adopts.of_mem member with old | ⟨row, new, type, now, -, rfl⟩
  · exact (covers order old named).later trace
  · rcases covered row new with empty | isCovered
    · exact absurd empty named
    · exact isCovered.later trace

theorem reconcileOrders_covers {engine : Engine D} {response : Text} (covers : Covers engine)
    (covered : RowsCovered engine (pendingRows response)) :
    Covers (finalState (reconcileOrders response engine)) := by
  have outcome := reconcileOrders_outcome response engine
  cases ran : reconcileOrders response engine with
  | error exception next =>
      rw [ran] at outcome
      obtain ⟨done, row, rest, split, -, adopts, -⟩ := outcome
      refine adopts.covers covers fun other new => covered other ?_
      rw [split, newRows_append]
      exact List.mem_append_left _ new
  | ok value next =>
      rw [ran] at outcome
      obtain ⟨-, middle, adopts, drops, stays⟩ := outcome
      have trace : Emits (fun _ => True) middle next := ⟨_, congrArg Engine.trace drops.frame, fun _ _ => trivial⟩
      refine (adopts.covers covers covered).later trace fun order member => ?_
      exact ⟨order, (List.mem_filter.mp (stays.mem_iff.mp member)).1, rfl⟩

/-- The answer to the next REST call would adopt nothing that is not cancelled. -/
def PendingCovered (engine : Engine D) : Prop :=
  match engine.rest.answers engine.rest.calls with
  | .ok body => RowsCovered engine (pendingRows body)
  | .error _ => True

/-- The same orders, with more sent. -/
structure Follows (before after : Engine D) : Prop where
  store : after.store = before.store
  emits : Emits (fun _ => True) before after

theorem Covers.follows {before after : Engine D} (covers : Covers before) (follows : Follows before after) :
    Covers after :=
  covers.later follows.emits fun order member => ⟨order, follows.store ▸ member, rfl⟩

theorem RowsCovered.follows {before after : Engine D} {rows : List Text} (covered : RowsCovered before rows)
    (follows : Follows before after) : RowsCovered after rows := by
  intro row new
  rw [follows.store] at new
  rcases covered row new with empty | isCovered
  · exact .inl empty
  · exact .inr (isCovered.later follows.emits)

theorem PendingCovered.follows {before after : Engine D} (covered : PendingCovered before)
    (follows : Follows before after) (rest : after.rest = before.rest) : PendingCovered after := by
  unfold PendingCovered at covered ⊢
  rw [rest]
  cases answer : before.rest.answers before.rest.calls with
  | error what => trivial
  | ok body =>
      rw [answer] at covered
      exact covered.follows follows

/-- Reconciling with the answer to a question for the pending orders. -/
theorem pending_covers {engine : Engine D} (covers : Covers engine) (covered : PendingCovered engine)
    {next : Text → EngineM D PUnit}
    (keepsCover : ∀ body, RowsCovered engine.asking (pendingRows body) → Covers (finalState (next body engine.asking))) :
    Covers (finalState ((getPendingOrders >>= next) engine)) := by
  have asked : Follows engine engine.asking := ⟨rfl, emits_one rfl trivial⟩
  unfold PendingCovered at covered
  rw [run_bind, run_getPendingOrders]
  cases answer : engine.rest.answers engine.rest.calls with
  | error what => exact covers.follows asked
  | ok body =>
      rw [answer] at covered
      exact keepsCover body (covered.follows asked)

theorem covers_asking {engine : Engine D} (covers : Covers engine) : Covers engine.asking :=
  covers.follows ⟨rfl, emits_one rfl trivial⟩

theorem checkAndResolve_covers {engine : Engine D} (covers : Covers engine)
    (covered : engine.store.orders.any (timedOut engine.steadyClock.now) = true → PendingCovered engine) :
    Covers (finalState (checkAndResolve engine)) := by
  have timed : Covers { engine with steadyClock := engine.steadyClock.tick } := covers
  rw [checkAndResolve, run_bind_ok (run_steadyNow engine), run_bind_ok (run_get _)]
  split
  · rename_i late
    have pending : PendingCovered { engine with steadyClock := engine.steadyClock.tick } := covered late
    exact pending_covers timed pending fun body rows => reconcileOrders_covers (covers_asking timed) rows
  · exact timed

/-!
## Steps
-/

theorem covers_ifQuoting {program : EngineM D PUnit} (keeps : Moves (Keeps fun _ => True) program)
    {engine : Engine D} (covers : engine.triggered = true → Covers engine)
    (set : (finalState (ifQuoting program engine)).triggered = true) :
    Covers (finalState (ifQuoting program engine)) := by
  rw [ifQuoting, run_bind_ok (run_get _)] at set ⊢
  split
  · rename_i acts
    rw [if_pos acts, (keeps engine).triggered] at set
    simp [set] at acts
  · rename_i idle
    rw [if_neg idle] at set
    exact covers set

theorem covers_of_keeps {engine next : Engine D} {allowed : Effect → Prop}
    (covers : engine.triggered = true → Covers engine) (keeps : Keeps allowed engine next)
    (same : SameOrders engine next) (set : next.triggered = true) : Covers next :=
  (covers (keeps.triggered.symm.trans set)).later keeps.emits same.ordIds

theorem answers_trigger (reason : Text) (engine : Engine D) :
    (finalState (trigger reason engine)).rest.answers = engine.rest.answers := by
  cases set : engine.triggered with
  | true =>
      rw [trigger_of_triggered set]
      rfl
  | false =>
      rw [trigger_of_untriggered set]
      exact (keeps_cancelEntries (toCancel engine.store) (engine.tripped reason)).answers

/-- What the REST client will answer is not the engine's to change. -/
def SameAnswers (before after : Engine D) : Prop := after.rest.answers = before.rest.answers

theorem sameAnswers_trans (first second third : Engine D) (early : SameAnswers first second)
    (late : SameAnswers second third) : SameAnswers first third := late.trans early

theorem sameAnswers_ifQuoting {program : EngineM D PUnit} (keeps : Moves (Keeps fun _ => True) program) :
    Moves SameAnswers (ifQuoting program) := by
  refine moves_bind sameAnswers_trans (fun _ => rfl) fun engine => ?_
  split
  · exact fun engine => (keeps engine).answers
  · exact fun _ => rfl

variable [DoubleArith D]

theorem startIfAllowed_of_triggered {engine : Engine D} (set : engine.triggered = true) :
    startIfAllowed engine = .ok .unit engine := by
  rw [startIfAllowed, run_bind_ok (run_get _), if_pos set]
  rfl

theorem reconcileAndStart_covers {engine : Engine D} {body : Text} (set : engine.triggered = true)
    (covers : Covers engine) (covered : RowsCovered engine (pendingRows body)) :
    Covers (finalState ((do reconcileOrders body; startIfAllowed : EngineM D PUnit) engine)) := by
  have reconciled := reconcileOrders_covers covers covered
  have keeps := keepsQuiet.moves_reconcileOrders body engine
  rw [run_bind]
  cases ran : reconcileOrders body engine with
  | error exception next =>
      rw [ran] at reconciled
      exact reconciled
  | ok value next =>
      rw [ran] at reconciled keeps
      have stillSet : next.triggered = true := keeps.triggered.trans set
      dsimp only
      rw [startIfAllowed_of_triggered stillSet]
      exact reconciled

theorem handleLoginEvent_covers {engine : Engine D} {message : Text} (set : engine.triggered = true)
    (covers : Covers engine) (covered : field message kCode = kSuccessCode → PendingCovered engine) :
    Covers (finalState (handleLoginEvent message engine)) := by
  unfold handleLoginEvent
  split
  · exact covers
  · rename_i succeeded
    have covered := covered (not_not.mp succeeded)
    generalize Outgoing.other kPrivateSubscribeMsg = payload
    rw [run_bind_ok (run_get _), run_bind, run_send]
    by_cases overflow : kTxRingCapacity < engine.ws.txSize + frameSize payload.message.length
    · rw [if_pos overflow]
      exact covers.follows ⟨rfl, emits_one rfl trivial⟩
    · rw [if_neg overflow]
      have sent : Follows engine { engine with
          ws := { engine.ws with txSize := engine.ws.txSize + frameSize payload.message.length }
          trace := engine.trace ++ [.send .engine payload engine.store] } := ⟨rfl, emits_one rfl trivial⟩
      refine pending_covers (covers.follows sent) (covered.follows sent rfl) fun body rows => ?_
      exact reconcileAndStart_covers set (covers_asking (covers.follows sent)) rows

theorem login_covers {engine : Engine D} {message : Text} (set : engine.triggered = true) (covers : Covers engine)
    (covered : field message kCode = kSuccessCode → PendingCovered engine) :
    Covers (finalState (handle (.login message) engine)) := by
  obtain ⟨next, noted, store, rest, trace, triggered⟩ : ∃ next, noteLogin message engine = .ok .unit next ∧
      next.store = engine.store ∧ next.rest = engine.rest ∧ next.trace = engine.trace ∧
      next.triggered = engine.triggered := by
    refine ⟨_, run_modify _ _, ?_⟩
    split
    · exact ⟨rfl, rfl, rfl, rfl⟩
    · exact ⟨rfl, rfl, rfl, rfl⟩
  have follows : Follows engine next := ⟨store, emits_of_same trace⟩
  rw [handle, run_bind_ok noted]
  exact handleLoginEvent_covers (triggered.trans set) (covers.follows follows)
    fun succeeded => (covered succeeded).follows follows rest

/-- The event is a fill whose loss sets the switch. -/
def breachesOn (engine : Engine D) (event : OrderEvent D) : Bool :=
  match eventFill event with
  | none => false
  | some fill => breached (engine.position.applyFill event.side fill.px fill.sz)

/-- The fill of an event leaves the orders alone; if the switch is then set, they are covered. -/
theorem applyFill_covers {engine : Engine D} (succeeds : engine.RestSucceeds)
    (covers : engine.triggered = true → Covers engine) (event : OrderEvent D) :
    ∃ next, applyFill event engine = .ok .unit next ∧ next.store = engine.store ∧
      (next.triggered = true → (engine.triggered = true ∨ engine.breachesOn event = true) ∧ Covers next) := by
  unfold applyFill breachesOn
  cases eventFill event with
  | none => exact ⟨engine, rfl, rfl, fun set => ⟨.inl set, covers set⟩⟩
  | some fill =>
      dsimp only
      rw [run_bind_ok (run_modify _ _), triggerIfBreached, run_bind_ok (run_get _)]
      split
      · rename_i breach
        obtain ⟨next, ran, store, covered⟩ := trigger_covers
          (show RestSucceeds { engine with
            position := engine.position.applyFill event.side fill.px fill.sz } from succeeds)
          "Max realized loss breached".toList covers
        exact ⟨next, ran, store, fun _ => ⟨.inr breach, covered⟩⟩
      · exact ⟨_, rfl, rfl, fun set => ⟨.inl set, covers set⟩⟩

theorem handleOrderEvent_covers {engine : Engine D} {event : OrderEvent D} (succeeds : engine.RestSucceeds)
    (covers : engine.triggered = true → Covers engine)
    (covered : engine.triggered = true ∨ engine.breachesOn event = true → EventCovered engine event)
    (set : (finalState (handleOrderEvent event engine)).triggered = true) :
    Covers (finalState (handleOrderEvent event engine)) := by
  obtain ⟨next, filled, store, coversNext⟩ := applyFill_covers succeeds covers event
  have emits := (switches_applyFill event).ok filled |>.emits
  rw [handleOrderEvent, run_bind_ok filled] at set ⊢
  rw [(keepsQuiet.moves_applyOrderEvent event next).triggered] at set
  obtain ⟨wasSet, nextCovers⟩ := coversNext set
  refine applyOrderEvent_covers nextCovers fun order found unnamed => ?_
  rw [store] at found
  rcases covered wasSet order found unnamed with empty | isCovered | last
  · exact .inl empty
  · exact .inr (.inl (isCovered.later emits))
  · exact .inr (.inr last)

/-- Once the switch is set, and in the event that sets it, no order learns an ordId
and stays, and none is adopted with an ordId, unless that ordId is cancelled. -/
def CoverAdmits (engine : Engine D) : Input D → Prop
  | .orderEvent event => engine.triggered = true ∨ engine.breachesOn event = true → EventCovered engine event
  | .login message => engine.triggered = true → field message kCode = kSuccessCode → PendingCovered engine
  | .timeoutCheck => engine.triggered = true →
      engine.store.orders.any (timedOut engine.steadyClock.now) = true → PendingCovered engine
  | _ => True

theorem covers_handle {input : Input D} {engine : Engine D} (succeeds : engine.RestSucceeds)
    (covers : engine.triggered = true → Covers engine) (admitted : CoverAdmits engine input)
    (set : (finalState (handle input engine)).triggered = true) : Covers (finalState (handle input engine)) := by
  cases input with
  | bookUpdate book =>
      have keeps := keeps_onBookUpdate (fun _ _ => trivial) (fun _ _ => trivial) (fun _ _ => trivial) book
      exact covers_ifQuoting keeps covers set
  | quoterTimer => exact covers_ifQuoting (keeps_onTimer (fun _ _ => trivial) fun _ _ => trivial) covers set
  | login message =>
      have gated := gated_login message engine
      have wasSet : engine.triggered = true := gated.triggered.symm.trans set
      exact login_covers wasSet (covers wasSet) (admitted wasSet)
  | response message =>
      rw [finalState_response] at set ⊢
      exact covers_of_keeps covers (keeps_dispatch message engine) (sameOrders_dispatch message engine) set
  | orderEvent event => exact handleOrderEvent_covers succeeds covers admitted set
  | account message =>
      exact covers_of_keeps covers (keepsQuiet.moves_handleAccountChannelMessage message engine)
        (sameOrders_handleAccountChannelMessage message engine) set
  | timeoutCheck =>
      have wasSet : engine.triggered = true := (keepsQuiet.moves_checkAndResolve engine).triggered.symm.trans set
      exact checkAndResolve_covers (covers wasSet) (admitted wasSet)
  | signal =>
      obtain ⟨next, ran, store, covered⟩ := trigger_covers succeeds "manual (signal)".toList covers
      rw [handle, run_bind_ok ran]
      exact covered
  | connected login =>
      exact covers_of_keeps covers (keepsQuiet.moves_connectOrReconnect login engine) (sameOrders_connectOrReconnect login engine) set
  | disconnected => exact covers set
  | controlFrame bytes =>
      exact covers_of_keeps covers (keepsQuiet.moves_writeRaw bytes engine) (sameOrders_writeRaw bytes engine) set
  | written bytes => exact covers set

/-!
## Runs
-/

theorem sameAnswers_handleOrderEvent (event : OrderEvent D) : Moves SameAnswers (handleOrderEvent event) := by
  refine moves_bind sameAnswers_trans ?_ fun _ engine => (keepsQuiet.moves_applyOrderEvent event engine).answers
  unfold applyFill
  split
  · exact fun _ => rfl
  · refine moves_bind sameAnswers_trans (fun _ => rfl) fun _ =>
      moves_bind sameAnswers_trans (fun _ => rfl) fun engine => ?_
    split
    · exact answers_trigger _
    · exact fun _ => rfl

theorem sameAnswers_handle (input : Input D) (engine : Engine D) :
    SameAnswers engine (finalState (handle input engine)) := by
  cases input with
  | bookUpdate book =>
      exact sameAnswers_ifQuoting (keeps_onBookUpdate (fun _ _ => trivial) (fun _ _ => trivial) (fun _ _ => trivial) book) engine
  | quoterTimer => exact sameAnswers_ifQuoting (keeps_onTimer (fun _ _ => trivial) fun _ _ => trivial) engine
  | login message =>
      exact (gated_login message engine).answers
  | response message =>
      rw [finalState_response]
      exact (keeps_dispatch message engine).answers
  | orderEvent event => exact sameAnswers_handleOrderEvent event engine
  | account message => exact (keepsQuiet.moves_handleAccountChannelMessage message engine).answers
  | timeoutCheck => exact (keepsQuiet.moves_checkAndResolve engine).answers
  | signal =>
      have stopping : Moves SameAnswers (modify fun engine => { engine with stopped := true } : EngineM D PUnit) :=
        fun _ => rfl
      exact moves_bind sameAnswers_trans (answers_trigger _) (fun _ => stopping) engine
  | connected login => exact (keepsQuiet.moves_connectOrReconnect login engine).answers
  | disconnected => rfl
  | controlFrame bytes => exact (keepsQuiet.moves_writeRaw bytes engine).answers
  | written bytes => rfl

/-- While REST calls succeed, in every state of a run that meets the condition, also
after a step that throws, a set switch has every ordId in the store cancelled. -/
theorem kill_switch_covers {environment : Environment}
    (succeeds : ∀ call, (environment.restAnswers call).isOk = true) (quoter : NaiveQuoter D) (request : OrderRequest)
    (lastId : Nat) {engine : Engine D}
    (run : Reaches (fun input => settle (step input)) CoverAdmits (initial environment quoter request lastId) engine)
    (set : engine.triggered = true) : Covers engine := by
  have both : engine.RestSucceeds ∧ (engine.triggered = true → Covers engine) := by
    refine run.invariant (fun current => current.RestSucceeds ∧ (current.triggered = true → Covers current))
      ⟨succeeds, fun set => by cases set⟩ ?_
    rintro current input next ⟨restSucceeds, covers⟩ admitted ran
    obtain rfl : finalState (step input current) = next := by
      injection ran
    rw [step, run_bind_ok (run_get _)]
    split
    · exact ⟨restSucceeds, covers⟩
    · refine ⟨?_, covers_handle restSucceeds covers admitted⟩
      unfold RestSucceeds
      rw [sameAnswers_handle input current]
      exact restSucceeds
  exact both.2 set

instance (engine : Engine D) (event : OrderEvent D) : Decidable (EventCovered engine event) :=
  inferInstanceAs (Decidable (∀ order ∈ engine.store.findByClOrdId event.clOrdId, _))

instance (engine : Engine D) (rows : List Text) : Decidable (RowsCovered engine rows) :=
  inferInstanceAs (Decidable (∀ row ∈ newRows engine.store.ids rows, _))

instance (engine : Engine D) : Decidable (PendingCovered engine) := by
  unfold PendingCovered
  split
  · infer_instance
  · infer_instance

instance (engine : Engine D) : (input : Input D) → Decidable (CoverAdmits engine input)
  | .orderEvent _ => inferInstanceAs (Decidable (_ → _))
  | .login _ => inferInstanceAs (Decidable (_ → _ → _))
  | .timeoutCheck => inferInstanceAs (Decidable (_ → _ → _))
  | .bookUpdate _ | .quoterTimer | .response _ | .account _ | .signal
  | .connected _ | .disconnected | .controlFrame _ | .written _ => inferInstanceAs (Decidable True)

/-- Both quotes are acknowledged before the loss. -/
def coveredRun : List (Input ℚ) := loggedIn ++
  [.bookUpdate (sampleBook 99 101), .orderEvent (acknowledgement "2" "72" "buy" "100.00"),
    .orderEvent (acknowledgement "3" "73" "sell" "100.00")] ++ losses

theorem kill_switch_covers_acknowledged :
    Covers (finalState (forM coveredRun (fun input => settle (step input)) sampleEngine)) :=
  kill_switch_covers (fun _ => rfl) sampleQuoter sampleRequest 0
    (Reaches.start.all coveredRun (by decide +kernel)) (by decide +kernel)

/-- One quote is acknowledged after the loss. -/
def uncoveredRun : List (Input ℚ) := loggedIn ++ [.bookUpdate (sampleBook 99 101)] ++ losses ++
  [.orderEvent (acknowledgement "2" "72" "buy" "100.00")]

/-- It stays on the exchange with no cancel request. -/
theorem late_acknowledgement_uncovered :
    Reaches step (fun _ _ => True) sampleEngine (finalState (forM uncoveredRun step sampleEngine)) ∧
      (finalState (forM uncoveredRun step sampleEngine)).triggered = true ∧
      ¬ Covers (finalState (forM uncoveredRun step sampleEngine)) := by
  refine ⟨Reaches.start.all uncoveredRun (by decide +kernel), by decide +kernel, ?_⟩
  unfold Covers
  decide +kernel

end TradingEngine.Engine
