import TradingEngine.Engine.EngineProperties
import TradingEngine.Orders.OrderLifecycleProperties
import TradingEngine.Orders.WsOrderRoundTripProperties
import TradingEngine.Strategy.NaiveQuoterProperties

/-! Amends in flight. The quoter holds back while its order is in `kPendingAmend`.
That state ends with the next live or partial-fill event of the order, whether or
not the exchange has answered the amend, so the answer has to come before the next
requote. The ids with an unanswered amend are kept beside the engine, and those of
them that such an event was for. -/

set_option autoImplicit false

namespace TradingEngine.Engine

open Library.Exec

variable {D : Type}

instance : DecidablePred Effect.IsAmend
  | .send _ (.amendOrder _ _ _ _ _) _ => isTrue trivial
  | .send _ (.order _ _) _ | .send _ (.cancelOrder _ _ _) _ | .send _ (.other _) _ => isFalse id
  | .restPlace _ _ | .restCancel _ _ | .restPending | .triggered _ | .removed _ => isFalse id

/-- The order that a run for the side has sent an amend for. -/
def amended (side : QuoteSide) (before after : Engine D) : List Text :=
  if ∃ effect ∈ after.trace.drop before.trace.length, Effect.IsAmend effect then (before.quoter.handle side).toList
  else []

/-- The ids the unanswered amends are for, and those whose order has since had an
event that ends the wait. -/
structure Flight where
  unanswered : List Text
  released : List Text
  deriving DecidableEq

namespace Flight

def none : Flight := ⟨[], []⟩

def sent (flight : Flight) (clOrdIds : List Text) : Flight :=
  { flight with unanswered := flight.unanswered ++ clOrdIds }

def reported (flight : Flight) (event : OrderEvent D) : Flight :=
  if event.clOrdId ∈ flight.unanswered ∧ ends event = false then
    { flight with released := event.clOrdId :: flight.released }
  else flight

/-- One amend of the order is answered. -/
def answered (flight : Flight) (clOrdId : Text) : Flight :=
  ⟨flight.unanswered.erase clOrdId, flight.released.filter (· ≠ clOrdId)⟩

@[simp] theorem sent_nil (flight : Flight) : flight.sent [] = flight := by
  rw [sent, List.append_nil]

@[simp] theorem unanswered_reported (flight : Flight) (event : OrderEvent D) :
    (flight.reported event).unanswered = flight.unanswered := by
  rw [reported]
  split <;> rfl

theorem mem_released_reported {flight : Flight} {event : OrderEvent D} {clOrdId : Text} :
    clOrdId ∈ (flight.reported event).released ↔
      clOrdId ∈ flight.released ∨
        (clOrdId = event.clOrdId ∧ clOrdId ∈ flight.unanswered ∧ ends event = false) := by
  rw [reported]
  split
  · rename_i releases
    rw [List.mem_cons]
    constructor
    · rintro (rfl | old)
      · exact .inr ⟨rfl, releases⟩
      · exact .inl old
    · rintro (old | ⟨rfl, -⟩)
      · exact .inr old
      · exact .inl rfl
  · rename_i keeps
    refine ⟨.inl, ?_⟩
    rintro (old | ⟨rfl, releases⟩)
    · exact old
    · exact absurd releases keeps

end Flight

/-- An engine with its amends in flight. -/
abbrev Watched (D : Type) := Engine D × Flight

abbrev WatchedM (D : Type) := EStateM Exn (Watched D)

section Moves

variable [DoubleArith D]

def noteAmend (side : QuoteSide) (before after : Engine D) (flight : Flight) : Flight :=
  flight.sent (amended side before after)

inductive AmendMove (D : Type) [DoubleArith D] where
  | bookUpdate (book : OrderBook D)
  | timer
  | orderEvent (event : OrderEvent D)
  /-- The exchange answers one amend of the order. -/
  | answer (clOrdId : Text)

def amendMove : AmendMove D → WatchedM D PUnit
  | .bookUpdate book => watchedBookUpdate noteAmend book
  | .timer => onFirst onTimer
  | .orderEvent event => watching (fun _ _ flight => flight.reported event) (applyOrderEvent event)
  | .answer clOrdId => modify fun state => (state.1, state.2.answered clOrdId)

/-- The handle names no order that an event was for while its amend is unanswered. -/
def Clear (engine : Engine D) (flight : Flight) (side : QuoteSide) : Prop :=
  ∀ clOrdId ∈ engine.quoter.handle side, clOrdId ∉ flight.released

/-- No event of an order with an unanswered amend, but its last, comes without the
answer before the next requote. -/
def AmendAdmits (state : Watched D) : AmendMove D → Prop
  | .bookUpdate book => (state.1.quoter.requoteMid book).isSome → ∀ side, state.1.Clear state.2 side
  | _ => True

instance (engine : Engine D) (flight : Flight) (side : QuoteSide) : Decidable (engine.Clear flight side) :=
  inferInstanceAs (Decidable (∀ _ ∈ engine.quoter.handle side, _))

instance (state : Watched D) : (move : AmendMove D) → Decidable (AmendAdmits state move)
  | .bookUpdate _ => inferInstanceAs (Decidable (_ → _))
  | .orderEvent _ | .timer | .answer _ => inferInstanceAs (Decidable True)

end Moves

/-!
## The invariant
-/

/-- Every stored order has an id of the engine's own, and one that waits for the
answer to an amend is in the state that holds the quoter back until an event
releases it. -/
structure AmendInv (state : Watched D) : Prop where
  distinct : state.1.store.ids.Nodup
  drawn : ∀ clOrdId ∈ state.1.store.ids, state.1.Drawn clOrdId
  sent : ∀ clOrdId ∈ state.2.unanswered, state.1.Drawn clOrdId
  single : state.2.unanswered.Nodup
  held : ∀ clOrdId ∈ state.2.unanswered, clOrdId ∉ state.2.released → ∀ order,
    state.1.store.findByClOrdId clOrdId = some order → order.state = .kPendingAmend

theorem Drawn.mono {before after : Engine D} {clOrdId : Text} (drawn : before.Drawn clOrdId)
    (later : before.lastId ≤ after.lastId) : after.Drawn clOrdId := by
  obtain ⟨number, bounded, same⟩ := drawn
  exact ⟨number, bounded.trans later, same⟩

variable {before after : Engine D} {flight : Flight}

/-- The invariant reads the store and the last id. -/
theorem AmendInv.congr (inv : AmendInv (before, flight)) (store : after.store = before.store)
    (later : before.lastId ≤ after.lastId) : AmendInv (after, flight) where
  distinct := by
    rw [store]
    exact inv.distinct
  drawn clOrdId stored := (inv.drawn clOrdId (store ▸ stored)).mono later
  sent clOrdId member := (inv.sent clOrdId member).mono later
  single := inv.single
  held clOrdId member waits order found := inv.held clOrdId member waits order (store ▸ found)

theorem AmendInv.answered (inv : AmendInv (before, flight)) (clOrdId : Text) :
    AmendInv (before, flight.answered clOrdId) where
  distinct := inv.distinct
  drawn := inv.drawn
  sent other member := inv.sent other (List.mem_of_mem_erase member)
  single := inv.single.erase clOrdId
  held other member waits := by
    obtain ⟨different, old⟩ := inv.single.mem_erase_iff.mp member
    exact inv.held other old fun released => waits (List.mem_filter.mpr ⟨released, by simpa using different⟩)

/-- An order is added under an id not drawn before. -/
theorem AmendInv.places (inv : AmendInv (before, flight)) {order : Order}
    (fresh : order.clOrdId = toDecimal before.nextId) (added : before.store.add order = .ok after.store)
    (lastId : after.lastId = before.nextId) : AmendInv (after, flight) := by
  have later : before.lastId ≤ after.lastId := lastId ▸ before.lt_nextId.le
  have unused : order.clOrdId ∉ before.store.ids := fun stored =>
    before.next_not_drawn (fresh ▸ inv.drawn order.clOrdId stored)
  have ids := OrderStore.ids_perm_add added
  constructor
  · exact ids.nodup_iff.mpr (List.nodup_cons.mpr ⟨unused, inv.distinct⟩)
  · intro clOrdId stored
    rcases List.mem_cons.mp (ids.mem_iff.mp stored) with rfl | old
    · exact ⟨before.nextId, lastId.ge, fresh⟩
    · exact (inv.drawn clOrdId old).mono later
  · exact fun clOrdId member => (inv.sent clOrdId member).mono later
  · exact inv.single
  · intro clOrdId member waits found here
    refine inv.held clOrdId member waits found ?_
    have different : clOrdId ≠ order.clOrdId := by
      rintro rfl
      exact before.next_not_drawn (fresh ▸ inv.sent _ member)
    rw [← here]
    refine (OrderStore.findByClOrdId_unchanged inv.distinct (fun other inside same => ?_) fun stored => ?_).symm
    · rcases List.mem_cons.mp ((OrderStore.perm_add added).mem_iff.mp inside) with rfl | old
      · exact absurd same.symm different
      · exact old
    · exact ids.mem_iff.mpr (List.mem_cons_of_mem _ stored)

/-- The order under one id moves; it may not leave its state while it waits. -/
theorem AmendInv.updates (inv : AmendInv (before, flight)) {clOrdId : Text} {action : OrderAction}
    (updated : before.store.update clOrdId action = .ok .unit after.store) (later : before.lastId ≤ after.lastId)
    (holds : clOrdId ∈ flight.unanswered → clOrdId ∉ flight.released → ∀ order,
      after.store.findByClOrdId clOrdId = some order → order.state = .kPendingAmend) : AmendInv (after, flight) := by
  have ids := OrderStore.ids_of_update updated
  refine ⟨?_, fun other stored => ?_, fun other member => (inv.sent other member).mono later, inv.single, ?_⟩
  · show after.store.ids.Nodup
    rw [ids]
    exact inv.distinct
  · exact (inv.drawn other (ids ▸ stored)).mono later
  · intro other member waits order found
    by_cases same : other = clOrdId
    · subst same
      exact holds member waits order found
    · refine inv.held other member waits order ?_
      rw [← OrderStore.findByClOrdId_update_of_ne inv.distinct updated same]
      exact found

/-- The order under one id moves and is taken out. -/
theorem AmendInv.takesOut (inv : AmendInv (before, flight)) {clOrdId : Text} {action : OrderAction} {store : OrderStore}
    (updated : before.store.update clOrdId action = .ok .unit store) (erased : after.store = store.erase clOrdId)
    (lastId : after.lastId = before.lastId) : AmendInv (after, flight) := by
  have ids := OrderStore.ids_of_update updated
  have distinct : store.ids.Nodup := ids ▸ inv.distinct
  have kept {other : Text} (stored : other ∈ after.store.ids) : other ∈ before.store.ids ∧ other ≠ clOrdId := by
    obtain ⟨wasStored, different⟩ := (OrderStore.mem_ids_erase distinct).mp (erased ▸ stored)
    exact ⟨ids ▸ wasStored, different⟩
  refine ⟨?_, fun other stored => ?_, fun other member => (inv.sent other member).mono lastId.ge, inv.single, ?_⟩
  · show after.store.ids.Nodup
    rw [erased]
    exact OrderStore.nodup_erase distinct clOrdId
  · exact (inv.drawn other (kept stored).1).mono lastId.ge
  · intro other member waits order found
    have different := (kept (OrderStore.mem_ids.mpr ⟨order, OrderStore.of_findByClOrdId found⟩)).2
    refine inv.held other member waits order ?_
    rw [← OrderStore.findByClOrdId_update_of_ne inv.distinct updated different,
      ← OrderStore.findByClOrdId_erase_of_ne distinct different, ← erased]
    exact found

theorem AmendInv.readies (inv : AmendInv (before, flight)) (readies : Readies before after) :
    AmendInv (after, flight) := by
  obtain ⟨ws, mid, rfl⟩ := readies
  exact inv.congr rfl le_rfl

theorem AmendInv.reported (inv : AmendInv (before, flight)) (event : OrderEvent D) :
    AmendInv (before, flight.reported event) where
  distinct := inv.distinct
  drawn := inv.drawn
  sent clOrdId member := inv.sent clOrdId (flight.unanswered_reported event ▸ member)
  single := (flight.unanswered_reported event).symm ▸ inv.single
  held clOrdId member waits :=
    inv.held clOrdId (flight.unanswered_reported event ▸ member) fun released =>
      waits (Flight.mem_released_reported.mpr (.inl released))

/-- An event of an order that waits for an amend releases it, or takes it out of the store. -/
theorem AmendInv.applyOrderEvent (inv : AmendInv (before, flight)) {event : OrderEvent D}
    (ran : applyOrderEvent event before = .ok .unit after) : AmendInv (after, flight.reported event) := by
  have outcome := applyOrderEvent_outcome event before
  rw [ran] at outcome
  have noted := inv.reported event
  cases outcome with
  | unknown _ => exact noted
  | @moved store order updated found live =>
      refine noted.updates updated le_rfl fun member waits _ _ => ?_
      obtain ⟨old, wasFound, applied⟩ := OrderStore.found_of_update updated found
      have pending := noted.held event.clOrdId member waits old wasFound
      have unfinished : isTerminal old.state = false := by
        rw [pending]
        rfl
      have last : ends event = true := by
        have inFlight : event.clOrdId ∈ flight.unanswered := flight.unanswered_reported event ▸ member
        rw [← Bool.not_eq_false]
        exact fun goesOn => waits (Flight.mem_released_reported.mpr (.inr ⟨rfl, inFlight, goesOn⟩))
      obtain ⟨next, ended, terminal⟩ := applyEvent_ends last unfinished
      obtain rfl : order = next := by
        have same := applied.symm.trans ended
        cases same
        rfl
      rw [live] at terminal
      cases terminal
  | @ended store order updated found terminal =>
      exact noted.takesOut updated rfl rfl

/-!
## One side
-/

theorem amended_of_emits {side : QuoteSide} (emits : Emits (fun effect => ¬ Effect.IsAmend effect) before after) :
    amended side before after = [] := by
  obtain ⟨new, grown, none⟩ := emits
  rw [amended, if_neg]
  rintro ⟨effect, member, isAmend⟩
  rw [grown, List.drop_left] at member
  exact none effect member isAmend

/-- The order of a side that is acknowledged and waits for no amend. -/
def Amendable (engine : Engine D) (side : QuoteSide) (clOrdId : Text) : Prop :=
  engine.quoter.handle side = some clOrdId ∧
    ∃ order, engine.store.findByClOrdId clOrdId = some order ∧ order.state ≠ .kPendingAmend

theorem amended_eq_of_handle {side : QuoteSide} {clOrdId : Text} (handle : before.quoter.handle side = some clOrdId)
    (after : Engine D) : amended side before after = [] ∨ amended side before after = [clOrdId] := by
  rw [amended]
  split
  · rw [handle]
    exact .inr rfl
  · exact .inl rfl

theorem AmendInv.not_waiting (inv : AmendInv (before, flight)) {side : QuoteSide} {clOrdId : Text}
    (clear : before.Clear flight side) (amendable : before.Amendable side clOrdId) : clOrdId ∉ flight.unanswered := by
  obtain ⟨handle, order, found, free⟩ := amendable
  exact fun member => free (inv.held clOrdId member (clear clOrdId handle) order found)

variable [DoubleArith D]

theorem emits_quoteSide (side : QuoteSide) (px : D) :
    Moves (Emits fun effect => ¬ Effect.IsAmend effect) (quoteSide side px) := by
  have background (effect : Effect) (isBackground : effect.Background) : ¬ Effect.IsAmend effect := by
    intro isAmend
    match effect, isAmend with
    | .send _ (.amendOrder _ _ _ _ _) _, _ => exact isBackground
  have footprint := Keeps.footprint (D := D) background
  refine (footprint.moves_quoteSide (footprint.moves_placeSide Keeps.limits fun _ _ _ isAmend => isAmend) side px).imp ?_
  exact fun before after keeps => keeps.emits

/-- A run for one side sends an amend for nothing but an order it may amend. -/
theorem amended_replaceSide (side : QuoteSide) (px : D) (engine : Engine D) :
    amended side engine (finalState (replaceSide side px engine)) = [] ∨
      ∃ clOrdId, engine.Amendable side clOrdId ∧
        amended side engine (finalState (replaceSide side px engine)) = [clOrdId] := by
  have quoting (cleared : Engine D) (same : cleared.trace = engine.trace) :
      amended side engine (finalState (quoteSide side px cleared)) = [] := by
    obtain ⟨new, grown, none⟩ := emits_quoteSide side px cleared
    exact amended_of_emits ⟨new, same ▸ grown, none⟩
  rw [replaceSide, run_bind_ok (run_get _)]
  cases handle : engine.quoter.handle side with
  | none => exact .inl (quoting engine rfl)
  | some clOrdId =>
      dsimp only
      cases found : engine.store.findByClOrdId clOrdId with
      | none => exact .inl (quoting (engine.withHandle side none) rfl)
      | some order =>
          dsimp only
          split
          · exact .inl (quoting (engine.withHandle side none) rfl)
          · split
            · exact .inl (amended_of_emits (emits_of_same rfl))
            · rename_i free
              rcases amended_eq_of_handle handle (finalState (amendSide clOrdId order.ordId px engine)) with none | one
              · exact .inl none
              · exact .inr ⟨clOrdId, ⟨handle, order, found, free⟩, one⟩

theorem AmendInv.single_replaceSide (inv : AmendInv (before, flight)) {side : QuoteSide}
    (clear : before.Clear flight side) (px : D) :
    (flight.sent (amended side before (finalState (replaceSide side px before)))).unanswered.Nodup := by
  rcases amended_replaceSide side px before with none | ⟨clOrdId, amendable, one⟩
  · rw [none, Flight.sent_nil]
    exact inv.single
  · rw [one]
    exact List.nodup_append_comm.mp (List.nodup_cons.mpr ⟨inv.not_waiting clear amendable, inv.single⟩)

theorem state_onAmendRequested {store next : OrderStore} {clOrdId : Text} {now : Int} {order : Order}
    (updated : store.update clOrdId (.onAmendRequested now) = .ok .unit next)
    (found : next.findByClOrdId clOrdId = some order) : order.state = .kPendingAmend := by
  obtain ⟨old, -, ran⟩ := OrderStore.found_of_update updated found
  exact (Order.request_ok ran).1

theorem AmendInv.sideStep {wants : Engine D → QuoteSide → Bool} {side : QuoteSide} {px : D}
    (inv : AmendInv (before, flight)) (step : SideStep wants side px before after) :
    AmendInv (after, flight) := by
  cases step with
  | waits waits =>
      obtain ⟨clock, limiter, rfl⟩ := waits
      exact inv.congr rfl le_rfl
  | denied _ waits =>
      obtain ⟨clock, limiter, rfl⟩ := waits
      exact inv.congr rfl le_rfl
  | places _ places =>
      obtain ⟨clock, limiter, ws, now, store, added, rfl⟩ := places
      exact inv.places rfl added rfl
  | amends _ amends =>
      obtain ⟨clock, limiter, ws, now, store, effect, updated, rfl, -⟩ := amends
      exact inv.updates updated before.lt_nextId.le fun _ _ order found => state_onAmendRequested updated found

theorem SideStep.lastId_le {wants : Engine D → QuoteSide → Bool} {side : QuoteSide} {px : D}
    (step : SideStep wants side px before after) : before.lastId ≤ after.lastId := by
  cases step with
  | waits waits =>
      obtain ⟨clock, limiter, rfl⟩ := waits
      exact le_rfl
  | denied _ waits =>
      obtain ⟨clock, limiter, rfl⟩ := waits
      exact le_rfl
  | places _ places =>
      obtain ⟨clock, limiter, ws, now, store, added, rfl⟩ := places
      exact before.lt_nextId.le
  | amends _ amends =>
      obtain ⟨clock, limiter, ws, now, store, effect, updated, rfl, -⟩ := amends
      exact before.lt_nextId.le

/-- The order that was amended is in the state that holds the quoter back. -/
theorem held_of_amended {wants : Engine D → QuoteSide → Bool} {side : QuoteSide} {px : D} {clOrdId : Text}
    (step : SideStep wants side px before after) (one : amended side before after = [clOrdId]) {order : Order}
    (found : after.store.findByClOrdId clOrdId = some order) : order.state = .kPendingAmend := by
  have quiet (emits : Emits (fun effect => ¬ Effect.IsAmend effect) before after) : False := by
    rw [amended_of_emits emits] at one
    cases one
  cases step with
  | waits waits =>
      obtain ⟨clock, limiter, rfl⟩ := waits
      exact (quiet (emits_of_same rfl)).elim
  | denied _ waits =>
      obtain ⟨clock, limiter, rfl⟩ := waits
      exact (quiet (emits_of_same rfl)).elim
  | places _ places =>
      obtain ⟨clock, limiter, ws, now, store, added, rfl⟩ := places
      exact (quiet (emits_one rfl id)).elim
  | amends handle amends =>
      obtain ⟨clock, limiter, ws, now, store, effect, updated, rfl, -⟩ := amends
      rcases amended_eq_of_handle handle _ with none | same
      · rw [none] at one
        cases one
      · obtain rfl := List.cons.inj (same.symm.trans one) |>.1
        exact state_onAmendRequested updated found

theorem AmendInv.replaceSide (inv : AmendInv (before, flight)) {side : QuoteSide} {px : D}
    (clear : before.Clear flight side) (ran : replaceSide side px before = .ok .unit after) :
    AmendInv (after, flight.sent (amended side before after)) := by
  have outcome := replaceSide_outcome side px before
  have single := inv.single_replaceSide clear px
  have sends := amended_replaceSide side px before
  rw [ran] at outcome single sends
  have stepped := inv.sideStep outcome
  rcases sends with none | ⟨clOrdId, ⟨handle, order, found, free⟩, one⟩
  · rw [finalState_ok] at none
    rw [none, Flight.sent_nil]
    exact stepped
  · rw [finalState_ok] at one single
    have stored := OrderStore.mem_ids.mpr ⟨order, OrderStore.of_findByClOrdId found⟩
    have drawn : after.Drawn clOrdId := (inv.drawn clOrdId stored).mono outcome.lastId_le
    refine ⟨stepped.distinct, stepped.drawn, fun other member => ?_, single, fun other member waits found here => ?_⟩
    · rw [one] at member
      rcases List.mem_append.mp member with old | new
      · exact stepped.sent other old
      · rw [List.mem_singleton.mp new]
        exact drawn
    · rw [one] at member
      rcases List.mem_append.mp member with old | new
      · exact stepped.held other old waits found here
      · obtain rfl := List.mem_singleton.mp new
        exact held_of_amended outcome one here

/-!
## Whole moves
-/

/-- What holds where a move stops. -/
abbrev AmendWp (program : WatchedM D PUnit) (state : Watched D) : Prop :=
  Wp program (fun _ => AmendInv) (fun _ next => next.2.unanswered.Nodup) state

theorem amendWp_replaceSide {next : WatchedM D PUnit} {side : QuoteSide} {px : D}
    (inv : AmendInv (before, flight)) (clear : before.Clear flight side)
    (later : ∀ after sent, SideStep needsOrder side px before after → AmendInv (after, flight.sent sent) →
      AmendWp next (after, flight.sent sent)) :
    AmendWp (do watching (noteAmend side) (replaceSide side px); next) (before, flight) := by
  rw [AmendWp, wp_bind, wp_watching, Wp]
  have single := inv.single_replaceSide clear px
  have outcome := replaceSide_outcome side px before
  cases ran : replaceSide side px before with
  | ok value middle =>
      rw [ran] at outcome
      exact later _ _ outcome (inv.replaceSide clear ran)
  | error exception middle =>
      rw [ran] at single
      exact single

theorem amendWp_requote (mid : D) (inv : AmendInv (before, flight)) (clear : ∀ side, before.Clear flight side) :
    AmendWp (watchedRequote noteAmend mid) (before, flight) := by
  rw [AmendWp, watchedRequote, wp_bind, wp_onFirst, wp_get, wp_bind, wp_onFirst, beginBatch, setBatching, wp_modify]
  refine amendWp_replaceSide (inv.congr rfl le_rfl) (clear .bid) fun first sent step firstInv => ?_
  have askClear : first.Clear (flight.sent sent) .ask := by
    intro clOrdId handle
    rw [step.handle_other (by decide)] at handle
    exact clear .ask clOrdId handle
  refine amendWp_replaceSide firstInv askClear fun second sent _ secondInv => ?_
  rw [AmendWp, wp_bind, wp_onFirst, endBatch, setBatching, wp_modify, wp_onFirst, wp_modify]
  exact secondInv.congr rfl le_rfl

theorem amendWp_bookUpdate (book : OrderBook D) (inv : AmendInv (before, flight))
    (admitted : AmendAdmits (before, flight) (.bookUpdate book)) :
    AmendWp (watchedBookUpdate noteAmend book) (before, flight) := by
  rw [AmendWp, watchedBookUpdate, wp_bind, wp_onFirst, wp_get]
  dsimp only
  cases moved : before.quoter.requoteMid book with
  | none => exact inv
  | some mid => exact amendWp_requote mid inv (admitted (by rw [moved]; rfl))

theorem AmendInv.onTimer (inv : AmendInv (before, flight)) (ran : onTimer before = .ok .unit after) :
    AmendInv (after, flight) := by
  rcases onTimer_outcome before with same | ⟨mid, -, outcome⟩
  · rw [same] at ran
    cases ran
    exact inv
  · rw [ran] at outcome
    obtain ⟨ready, first, second, readied, bidStep, askStep, finished⟩ := outcome
    exact (((inv.readies readied).sideStep bidStep).sideStep askStep).readies finished

theorem amendWp_move (move : AmendMove D) {state : Watched D} (inv : AmendInv state)
    (admitted : AmendAdmits state move) : AmendWp (amendMove move) state := by
  obtain ⟨engine, flight⟩ := state
  cases move with
  | bookUpdate book => exact amendWp_bookUpdate book inv admitted
  | answer clOrdId => exact inv.answered clOrdId
  | timer =>
      rw [AmendWp, amendMove, wp_onFirst, Wp]
      cases ran : Engine.onTimer engine with
      | ok value next => exact inv.onTimer ran
      | error exception next => exact inv.single
  | orderEvent event =>
      rw [AmendWp, amendMove, wp_watching, Wp]
      cases ran : Engine.applyOrderEvent event engine with
      | ok value next => exact inv.applyOrderEvent ran
      | error exception next => exact (inv.reported event).single

/-!
## Runs
-/

/-- At no time, and in no state a last move stops in, are two amends of one order
unanswered, if what releases an order early is followed by the answer before the
next requote. -/
theorem one_amend_in_flight {engine : Engine D} (distinct : engine.store.ids.Nodup)
    (own : ∀ clOrdId ∈ engine.store.ids, engine.Drawn clOrdId) {reached : Watched D}
    (run : Reaches amendMove AmendAdmits (engine, .none) reached) :
    reached.2.unanswered.Nodup ∧
      ∀ move, AmendAdmits reached move → (finalState (amendMove move reached)).2.unanswered.Nodup := by
  have inv : AmendInv reached := by
    refine run.invariant AmendInv ⟨distinct, own, by simp [Flight.none], List.nodup_nil, by simp [Flight.none]⟩ ?_
    intro current move next inv admitted ran
    exact (amendWp_move move inv admitted).of_ok ran
  refine ⟨inv.single, fun move admitted => ?_⟩
  have stops := amendWp_move move inv admitted
  rw [AmendWp, Wp] at stops
  cases ran : amendMove move reached with
  | ok value next =>
      rw [ran] at stops
      exact stops.single
  | error exception next =>
      rw [ran] at stops
      exact stops

def partialFill (clOrdId ordId side px : String) : OrderEvent ℚ :=
  { acknowledgement clOrdId ordId side px with type := .kPartialFill, fill := some ⟨100, 1 / 200⟩ }

/-- Both quotes are acknowledged and amended; part of the bid is filled before the
exchange answers its amend and reports it, and the mid moves again. -/
def answeredRun : List (AmendMove ℚ) :=
  [.bookUpdate (sampleBook 99 101), .orderEvent (acknowledgement "1" "71" "buy" "100.00"),
    .orderEvent (acknowledgement "2" "72" "sell" "100.00"), .bookUpdate (sampleBook 199 201),
    .orderEvent (partialFill "1" "71" "buy" "100.00"), .answer "1".toList,
    .orderEvent (acknowledgement "1" "71" "buy" "200.00"), .bookUpdate (sampleBook 299 301)]

theorem one_amend_in_flight_answered :
    (finalState (forM answeredRun amendMove (sampleEngine, .none))).2.unanswered = ["2".toList, "1".toList] ∧
      (finalState (forM answeredRun amendMove (sampleEngine, .none))).2.unanswered.Nodup := by
  have facts : AdmitsAll amendMove AmendAdmits (sampleEngine, .none) answeredRun ∧
      (finalState (forM answeredRun amendMove (sampleEngine, .none))).2.unanswered = ["2".toList, "1".toList] := by
    decide +kernel
  obtain ⟨admitted, shown⟩ := facts
  have run : Reaches amendMove AmendAdmits (sampleEngine, .none)
      (finalState (forM answeredRun amendMove (sampleEngine, .none))) := Reaches.start.all answeredRun admitted
  exact ⟨shown, (@one_amend_in_flight ℚ _ sampleEngine List.nodup_nil (fun _ member => by cases member) _ run).1⟩

/-- Part of the bid is filled, and the exchange does not answer its amend. -/
def filledRun : List (AmendMove ℚ) :=
  [.bookUpdate (sampleBook 99 101), .orderEvent (acknowledgement "1" "71" "buy" "100.00"),
    .bookUpdate (sampleBook 199 201), .orderEvent (partialFill "1" "71" "buy" "100.00"),
    .bookUpdate (sampleBook 299 301)]

/-- The quoter then sends a second amend while the first has no answer. -/
theorem two_amends_after_partial_fill :
    Reaches amendMove (fun _ _ => True) (sampleEngine, .none)
        (finalState (forM filledRun amendMove (sampleEngine, .none))) ∧
      (finalState (forM filledRun amendMove (sampleEngine, .none))).2.unanswered = ["1".toList, "1".toList] ∧
      ¬ (finalState (forM filledRun amendMove (sampleEngine, .none))).2.unanswered.Nodup := by
  refine And.imp_left (Reaches.start.all filledRun) ?_
  decide +kernel

end TradingEngine.Engine
