import TradingEngine.Strategy.SingleQuote

/-! The handles of the quoter and the store. A handle names a stored order of its
side, and the two never name the same; the removal listener clears the handle of
the order that leaves, and no other. -/

set_option autoImplicit false

namespace TradingEngine.Engine

open Library.Exec

variable {D : Type}

/-- A quote went out under an id that was not in use. -/
def Effect.PlacedFresh : Effect → Prop
  | .send .quoter (.order clOrdId _) before => clOrdId ∉ before.ids
  | _ => True

structure HandlesMatch (engine : Engine D) : Prop where
  found : ∀ side clOrdId, engine.quoter.handle side = some clOrdId →
    ∃ order, engine.store.findByClOrdId clOrdId = some order ∧ order.side = side.name
  different : ∀ clOrdId, engine.quoter.handle .bid = some clOrdId → engine.quoter.handle .ask ≠ some clOrdId

/-- Each handle is as before, unless its order has left: then it is cleared. -/
def ClearsRemoved (before after : Engine D) : Prop :=
  ∀ side, after.quoter.handle side =
    (before.quoter.handle side).filter fun clOrdId => clOrdId ∈ after.store.ids

/-!
## The invariant
-/

structure HandleInv (engine : Engine D) : Prop where
  distinct : engine.store.ids.Nodup
  stored : ∀ side clOrdId, engine.quoter.handle side = some clOrdId →
    ∃ order ∈ engine.store.orders, order.clOrdId = clOrdId ∧ order.side = side.name

theorem kBuy_ne_kSell : kBuy ≠ kSell := by decide

namespace HandleInv

variable {engine before after : Engine D}

theorem found (inv : HandleInv engine) {side : QuoteSide} {clOrdId : Text}
    (handle : engine.quoter.handle side = some clOrdId) :
    ∃ order, engine.store.findByClOrdId clOrdId = some order ∧ order.side = side.name := by
  obtain ⟨order, member, rfl, isSide⟩ := inv.stored side clOrdId handle
  exact ⟨order, OrderStore.findByClOrdId_of_mem inv.distinct member, isSide⟩

theorem mem_ids (inv : HandleInv engine) {side : QuoteSide} {clOrdId : Text}
    (handle : engine.quoter.handle side = some clOrdId) : clOrdId ∈ engine.store.ids := by
  obtain ⟨order, member, same, -⟩ := inv.stored side clOrdId handle
  exact OrderStore.mem_ids.mpr ⟨order, member, same⟩

/-- One order is not of two sides. -/
theorem different (inv : HandleInv engine) {clOrdId : Text} (bid : engine.quoter.handle .bid = some clOrdId) :
    engine.quoter.handle .ask ≠ some clOrdId := by
  intro ask
  obtain ⟨bought, foundBid, isBuy⟩ := inv.found bid
  obtain ⟨sold, foundAsk, isSell⟩ := inv.found ask
  obtain rfl : bought = sold := Option.some.inj (foundBid.symm.trans foundAsk)
  exact kBuy_ne_kSell (isBuy.symm.trans isSell)

theorem handlesMatch (inv : HandleInv engine) : HandlesMatch engine :=
  ⟨fun _ _ => inv.found, fun _ => inv.different⟩

/-- Orders may be added, and change in all but id and side; handles may be given up. -/
theorem extend (inv : HandleInv before) (distinct : after.store.ids.Nodup)
    (kept : ∀ order ∈ before.store.orders, ∃ same ∈ after.store.orders,
      same.clOrdId = order.clOrdId ∧ same.side = order.side)
    (handles : ∀ side clOrdId, after.quoter.handle side = some clOrdId → before.quoter.handle side = some clOrdId) :
    HandleInv after where
  distinct := distinct
  stored side clOrdId handle := by
    obtain ⟨order, member, rfl, isSide⟩ := inv.stored side clOrdId (handles side clOrdId handle)
    obtain ⟨same, stays, sameId, sameSide⟩ := kept order member
    exact ⟨same, stays, sameId, sameSide.trans isSide⟩

end HandleInv

/-!
## Transitions of one order
-/

def KeepsSide (action : OrderAction) : Prop := ∀ order, (finalState (action.run order)).side = order.side

theorem keepsSide_onAmendRequested (now : Int) : KeepsSide (.onAmendRequested now) := by
  intro order
  simp only [OrderAction.onAmendRequested, Order.onAmendRequested, Order.request]
  split <;> rfl

theorem keepsSide_applyEvent (event : OrderEvent D) : KeepsSide (.applyEvent event) := by
  intro order
  simp only [OrderAction.applyEvent, Order.applyEvent]
  cases event.type with
  | kLive =>
      dsimp only
      split
      · rfl
      · split
        · rfl
        · split <;> rfl
  | kPartialFill | kFill | kCancel =>
      dsimp only [Order.advance]
      split <;> rfl

/-- Every order is still there after a transition, under its id and on its side. -/
theorem side_of_update {store next : OrderStore} {clOrdId : Text} {action : OrderAction} (keeps : KeepsSide action)
    (updated : store.update clOrdId action = .ok .unit next) :
    ∀ order ∈ store.orders, ∃ same ∈ next.orders, same.clOrdId = order.clOrdId ∧ same.side = order.side := by
  intro order member
  by_cases stored : clOrdId ∈ store.ids
  · obtain ⟨index, old, located⟩ := OrderStore.locate_isSome stored
    obtain ⟨-, here, -⟩ := OrderStore.locate_eq_some located
    have orders := OrderStore.finalState_update_of_locate located action
    rw [updated] at orders
    rw [show (finalState (.ok .unit next : EStateM.Result Exn OrderStore PUnit)) = next from rfl] at orders
    obtain ⟨position, atPosition⟩ := List.mem_iff_getElem?.mp member
    by_cases same : position = index
    · subst same
      obtain rfl : old = order := Option.some.inj (here.symm.trans atPosition)
      refine ⟨finalState (action.run old), ?_, action.keepsId old, keeps old⟩
      rw [orders]
      exact List.mem_iff_getElem?.mpr ⟨position, by simp [(List.getElem?_eq_some_iff.mp here).1]⟩
    · refine ⟨order, ?_, rfl, rfl⟩
      rw [orders]
      exact List.mem_iff_getElem?.mpr ⟨position, by rw [List.getElem?_set_ne (Ne.symm same)]; exact atPosition⟩
  · rw [OrderStore.update_of_not_mem stored] at updated
    cases updated
    exact ⟨order, member, rfl, rfl⟩

/-!
## Removal
-/

/-- The removed id is no longer a handle. -/
theorem removed_not_handle {quoter : NaiveQuoter D} {clOrdId : Text}
    (different : quoter.handle .bid = some clOrdId → quoter.handle .ask ≠ some clOrdId) (side : QuoteSide) :
    (quoter.onOrderRemoved clOrdId).handle side ≠ some clOrdId := by
  unfold NaiveQuoter.onOrderRemoved
  split
  · rename_i bid
    rw [handle_setHandle]
    split
    · simp
    · cases side with
      | bid => contradiction
      | ask => exact different bid
  · rename_i notBid
    split
    · rw [handle_setHandle]
      split
      · simp
      · cases side with
        | bid => exact notBid
        | ask => contradiction
    · rename_i notAsk
      cases side with
      | bid => exact notBid
      | ask => exact notAsk

theorem dropped_not_handle {quoter : NaiveQuoter D} {dropped : List Text} {clOrdId : Text}
    (different : ∀ other, quoter.handle .bid = some other → quoter.handle .ask ≠ some other)
    (gone : clOrdId ∈ dropped) (side : QuoteSide) :
    (dropped.foldl NaiveQuoter.onOrderRemoved quoter).handle side ≠ some clOrdId := by
  induction dropped generalizing quoter with
  | nil => cases gone
  | cons first rest ih =>
      rcases List.mem_cons.mp gone with rfl | later
      · exact fun handle => removed_not_handle (different clOrdId) side (of_handle_foldl_removed handle)
      · refine ih (fun other bid ask => ?_) later
        exact different other (of_handle_onOrderRemoved bid) (of_handle_onOrderRemoved ask)

/-- After removals a handle is as it was, unless its order was removed. -/
theorem handle_dropped {quoter : NaiveQuoter D} {dropped : List Text}
    (different : ∀ other, quoter.handle .bid = some other → quoter.handle .ask ≠ some other) (side : QuoteSide) :
    (dropped.foldl NaiveQuoter.onOrderRemoved quoter).handle side =
      (quoter.handle side).filter fun clOrdId => clOrdId ∉ dropped := by
  cases handle : quoter.handle side with
  | none =>
      cases after : (dropped.foldl NaiveQuoter.onOrderRemoved quoter).handle side with
      | none => rfl
      | some clOrdId =>
          rw [of_handle_foldl_removed after] at handle
          cases handle
  | some clOrdId =>
      by_cases gone : clOrdId ∈ dropped
      · rw [Option.filter_some, if_neg (by simpa using gone)]
        cases after : (dropped.foldl NaiveQuoter.onOrderRemoved quoter).handle side with
        | none => rfl
        | some other =>
            obtain rfl : other = clOrdId := Option.some.inj ((of_handle_foldl_removed after).symm.trans handle)
            exact absurd after (dropped_not_handle different gone side)
      · rw [handle_foldl_removed handle gone, Option.filter_some, if_pos (by simpa using gone)]

/-- Orders leave, each with its handle; `staying` are those left. -/
theorem HandleInv.drops {before after : Engine D} {dropped : List Text} (inv : HandleInv before)
    (drops : Drops before dropped after) (distinct : after.store.ids.Nodup)
    (staying : ∀ order ∈ before.store.orders, order.clOrdId ∉ dropped → order ∈ after.store.orders)
    (leaving : ∀ clOrdId ∈ after.store.ids, clOrdId ∉ dropped) :
    HandleInv after ∧ ClearsRemoved before after := by
  have quoter : after.quoter = dropped.foldl NaiveQuoter.onOrderRemoved before.quoter := by rw [drops.frame]
  have handles (side : QuoteSide) : after.quoter.handle side =
      (before.quoter.handle side).filter fun clOrdId => clOrdId ∉ dropped := by
    rw [quoter]
    exact handle_dropped (fun _ => inv.different) side
  refine ⟨⟨distinct, fun side clOrdId handle => ?_⟩, fun side => ?_⟩
  · rw [handles, Option.filter_eq_some_iff] at handle
    obtain ⟨order, member, rfl, isSide⟩ := inv.stored side clOrdId handle.1
    exact ⟨order, staying order member (by simpa using handle.2), rfl, isSide⟩
  · rw [handles]
    cases handle : before.quoter.handle side with
    | none => rfl
    | some clOrdId =>
        obtain ⟨order, member, rfl, -⟩ := inv.stored side clOrdId handle
        have iff : order.clOrdId ∉ dropped ↔ order.clOrdId ∈ after.store.ids :=
          ⟨fun stays => OrderStore.mem_ids.mpr ⟨order, staying order member stays, rfl⟩, leaving order.clOrdId⟩
        simp only [Option.filter_some, decide_eq_true_eq, iff]

/-- Where every handle's order stays, nothing is to be cleared. -/
theorem clearsRemoved_of_same {before after : Engine D} (inv : HandleInv after)
    (same : after.quoter = before.quoter) : ClearsRemoved before after := by
  intro side
  rw [← same]
  cases handle : after.quoter.handle side with
  | none => rfl
  | some clOrdId => rw [Option.filter_some, if_pos (by simpa using inv.mem_ids handle)]

theorem HandleInv.applyOrderEvent {engine next : Engine D} {event : OrderEvent D} (inv : HandleInv engine)
    (ran : applyOrderEvent event engine = .ok .unit next) : HandleInv next ∧ ClearsRemoved engine next := by
  have outcome := applyOrderEvent_outcome event engine
  rw [ran] at outcome
  have moved {store : OrderStore}
      (updated : engine.store.update event.clOrdId (.applyEvent event) = .ok .unit store) :
      HandleInv { engine with store := store } :=
    inv.extend (OrderStore.ids_of_update updated ▸ inv.distinct)
      (side_of_update (keepsSide_applyEvent event) updated) fun _ _ => id
  cases outcome with
  | unknown _ => exact ⟨inv, clearsRemoved_of_same inv rfl⟩
  | moved updated _ _ => exact ⟨moved updated, clearsRemoved_of_same (moved updated) rfl⟩
  | @ended store order updated found _ =>
      have movedInv := moved updated
      have stored : event.clOrdId ∈ store.ids := OrderStore.mem_ids.mpr ⟨order, OrderStore.of_findByClOrdId found⟩
      refine movedInv.drops (drops_withoutOrder _ _) (OrderStore.nodup_erase movedInv.distinct _) ?_ ?_
      · intro other member stays
        obtain ⟨removed, isRemoved, perm⟩ := OrderStore.perm_erase stored
        rcases List.mem_cons.mp (perm.mem_iff.mp member) with rfl | kept
        · exact absurd (by simp [isRemoved]) stays
        · exact kept
      · intro clOrdId stays
        simpa using ((OrderStore.mem_ids_erase movedInv.distinct).mp stays).2

theorem HandleInv.reconcileOrders {engine next : Engine D} {response : Text} (inv : HandleInv engine)
    (ran : reconcileOrders response engine = .ok .unit next) : HandleInv next ∧ ClearsRemoved engine next := by
  have outcome := reconcileOrders_outcome response engine
  rw [ran] at outcome
  obtain ⟨-, middle, adopts, drops, stays⟩ := outcome
  obtain ⟨clock, frame⟩ := adopts.frame
  have quoter : middle.quoter = engine.quoter := by rw [frame]
  have adopted : HandleInv middle := by
    refine inv.extend (adopts.nodup inv.distinct) (fun order member => ⟨order, adopts.kept member, rfl, rfl⟩) ?_
    intro side clOrdId handle
    rw [← quoter]
    exact handle
  have distinct : next.store.ids.Nodup :=
    (stays.map Order.clOrdId).nodup_iff.mpr (adopted.distinct.sublist (List.filter_sublist.map _))
  obtain ⟨nextInv, clears⟩ := adopted.drops drops distinct
    (fun order member kept => by
      refine stays.mem_iff.mpr (List.mem_filter.mpr ⟨member, ?_⟩)
      by_contra unnamed
      refine kept ?_
      rw [toDrop_eq]
      exact List.mem_map.mpr ⟨order, List.mem_filter.mpr ⟨member, by simpa using unnamed⟩, rfl⟩)
    (fun clOrdId stored dropped => by
      obtain ⟨order, member, rfl⟩ := OrderStore.mem_ids.mp stored
      exact (of_mem_toDrop dropped).2 (by simpa using (List.mem_filter.mp (stays.mem_iff.mp member)).2))
  refine ⟨nextInv, fun side => ?_⟩
  rw [← quoter]
  exact clears side

/-!
## Quoting
-/

theorem HandleInv.waits {before after : Engine D} (inv : HandleInv before) (waits : Waits before after) :
    HandleInv after := by
  obtain ⟨clock, limiter, rfl⟩ := waits
  exact inv.extend inv.distinct (fun order member => ⟨order, member, rfl, rfl⟩) fun _ _ => id

theorem HandleInv.clearHandle {engine : Engine D} (inv : HandleInv engine) (side : QuoteSide) :
    HandleInv (engine.withHandle side none) := by
  refine inv.extend inv.distinct (fun order member => ⟨order, member, rfl, rfl⟩) fun other clOrdId handle => ?_
  rw [withHandle, handle_setHandle] at handle
  split at handle
  · cases handle
  · exact handle

theorem HandleInv.readies {before after : Engine D} (inv : HandleInv before) (readies : Readies before after) :
    HandleInv after := by
  obtain ⟨ws, mid, rfl⟩ := readies
  refine inv.extend inv.distinct (fun order member => ⟨order, member, rfl, rfl⟩) fun side clOrdId handle => ?_
  cases side with
  | bid => exact handle
  | ask => exact handle

theorem HandleInv.amends {before after : Engine D} {clOrdId : Text} (inv : HandleInv before)
    (amends : Amends clOrdId before after) : HandleInv after := by
  obtain ⟨clock, limiter, ws, now, store, effect, updated, rfl, -⟩ := amends
  exact inv.extend (OrderStore.ids_of_update updated ▸ inv.distinct)
    (side_of_update (keepsSide_onAmendRequested now) updated) fun _ _ => id

section Quoting

variable [DoubleArith D]

theorem HandleInv.places {before after : Engine D} {side : QuoteSide} {px : D} (inv : HandleInv before)
    (fresh : toDecimal before.nextId ∉ before.store.ids) (places : Places side px before after) :
    HandleInv (after.withHandle side (some (toDecimal before.nextId))) := by
  obtain ⟨clock, limiter, ws, now, store, added, rfl⟩ := places
  have perm := OrderStore.perm_add added
  refine ⟨?_, fun other clOrdId handle => ?_⟩
  · exact (OrderStore.ids_perm_add added).nodup_iff.mpr (List.nodup_cons.mpr ⟨fresh, inv.distinct⟩)
  · rw [withHandle, handle_setHandle] at handle
    split at handle
    · rename_i same
      cases handle
      subst same
      exact ⟨_, perm.mem_iff.mpr List.mem_cons_self, rfl, rfl⟩
    · obtain ⟨order, member, isNamed, isSide⟩ := inv.stored other clOrdId handle
      exact ⟨order, perm.mem_iff.mpr (List.mem_cons_of_mem _ member), isNamed, isSide⟩

/-- What was sent before is still in the trace. -/
theorem SideStep.grows {wants : Engine D → QuoteSide → Bool} {side : QuoteSide} {px : D} {before after : Engine D}
    (step : SideStep wants side px before after) : ∀ effect ∈ before.trace, effect ∈ after.trace := by
  intro effect sent
  cases step with
  | waits waits =>
      obtain ⟨clock, limiter, rfl⟩ := waits
      exact sent
  | denied _ waits =>
      obtain ⟨clock, limiter, rfl⟩ := waits
      exact sent
  | places _ places =>
      obtain ⟨clock, limiter, ws, now, store, added, rfl⟩ := places
      exact List.mem_append_left _ sent
  | amends _ amends =>
      obtain ⟨clock, limiter, ws, now, store, new, updated, rfl, -⟩ := amends
      exact List.mem_append_left _ sent

theorem SideStep.handleInv {wants : Engine D → QuoteSide → Bool} {side : QuoteSide} {px : D} {before after : Engine D}
    (step : SideStep wants side px before after) (inv : HandleInv before)
    (fresh : ∀ effect ∈ after.trace, Effect.PlacedFresh effect) : HandleInv after := by
  cases step with
  | waits waits => exact inv.waits waits
  | denied _ waits => exact (inv.clearHandle side).waits waits
  | @places placed _ places =>
      have sent : before.placement side px ∈ placed.trace := by
        obtain ⟨clock, limiter, ws, now, store, added, rfl⟩ := places
        exact List.mem_append_right _ List.mem_cons_self
      exact inv.places (fresh _ sent) places
  | amends _ amends => exact inv.amends amends

theorem QuoteOutcome.handleInv {wants : Engine D → QuoteSide → Bool} {mid : D} {engine next : Engine D}
    (outcome : QuoteOutcome wants mid engine (.ok .unit next)) (inv : HandleInv engine)
    (fresh : ∀ effect ∈ next.trace, Effect.PlacedFresh effect) : HandleInv next := by
  obtain ⟨ready, first, second, readied, bidStep, askStep, finished⟩ := outcome
  have secondTrace : next.trace = second.trace := by
    obtain ⟨ws, last, rfl⟩ := finished
    rfl
  rw [secondTrace] at fresh
  have firstInv := bidStep.handleInv (inv.readies readied) fun effect sent => fresh effect (askStep.grows effect sent)
  exact (askStep.handleInv firstInv fresh).readies finished

/-!
## Runs
-/

theorem quoterStep_grows (input : QuoterInput D) : Moves (Keeps fun _ => True) (quoterStep input) := by
  cases input with
  | bookUpdate book => exact keeps_onBookUpdate (fun _ _ => trivial) (fun _ _ => trivial) (fun _ _ => trivial) book
  | timer => exact keeps_onTimer (fun _ _ => trivial) fun _ _ => trivial
  | orderEvent event => exact (keepsQuiet.moves_applyOrderEvent event).imp fun _ _ keeps => keeps.mono fun _ _ => trivial
  | reconcile response => exact (keepsQuiet.moves_reconcileOrders response).imp fun _ _ keeps => keeps.mono fun _ _ => trivial

theorem quoterStep_handleInv {engine next : Engine D} {input : QuoterInput D} (inv : HandleInv engine)
    (ran : quoterStep input engine = .ok .unit next) (fresh : ∀ effect ∈ next.trace, Effect.PlacedFresh effect) :
    HandleInv next := by
  cases input with
  | bookUpdate book =>
      rcases onBookUpdate_outcome book engine with same | ⟨mid, -, outcome⟩
      · rw [quoterStep, same] at ran
        cases ran
        exact inv
      · rw [show onBookUpdate book engine = .ok .unit next from ran] at outcome
        exact QuoteOutcome.handleInv outcome inv fresh
  | timer =>
      rcases onTimer_outcome engine with same | ⟨mid, -, outcome⟩
      · rw [quoterStep, same] at ran
        cases ran
        exact inv
      · rw [show onTimer engine = .ok .unit next from ran] at outcome
        exact QuoteOutcome.handleInv outcome inv fresh
  | orderEvent event => exact (inv.applyOrderEvent ran).1
  | reconcile response => exact (inv.reconcileOrders ran).1

/-- In every state of every run in which quotes go out under fresh ids, handles and
store match, and what an event or a reconciliation removes loses its handle. -/
theorem quote_handles_match (environment : Environment) {quoter : NaiveQuoter D}
    (unquoted : ∀ side, quoter.handle side = none) (request : OrderRequest) (lastId : Nat) {engine : Engine D}
    (run : Reaches quoterStep (fun _ _ => True) (initial environment quoter request lastId) engine)
    (fresh : ∀ effect ∈ engine.trace, Effect.PlacedFresh effect) :
    HandlesMatch engine ∧
      (∀ event next, applyOrderEvent event engine = .ok .unit next → ClearsRemoved engine next) ∧
      ∀ response next, reconcileOrders response engine = .ok .unit next → ClearsRemoved engine next := by
  have initially : HandleInv (initial environment quoter request lastId) := by
    refine ⟨List.nodup_nil, fun side clOrdId handle => ?_⟩
    have free : quoter.handle side = some clOrdId := handle
    rw [unquoted] at free
    cases free
  have inv : HandleInv engine := by
    refine run.invariant (fun current => (∀ effect ∈ current.trace, Effect.PlacedFresh effect) → HandleInv current)
      (fun _ => initially) (fun current input next inv _ ran fresh => ?_) fresh
    · obtain ⟨new, grown, -⟩ := ((quoterStep_grows input).ok ran).emits
      refine quoterStep_handleInv (inv fun effect sent => fresh effect ?_) ran fresh
      rw [grown]
      exact List.mem_append_left _ sent
  exact ⟨inv.handlesMatch, fun _ _ ran => (inv.applyOrderEvent ran).2, fun _ _ ran => (inv.reconcileOrders ran).2⟩

end Quoting

instance : DecidablePred Effect.PlacedFresh
  | .send .quoter (.order _ _) _ => inferInstanceAs (Decidable (_ ∉ _))
  | .send .quoter (.amendOrder _ _ _ _ _) _ | .send .quoter (.cancelOrder _ _ _) _ | .send .quoter (.other _) _
  | .send .roundTrip _ _ | .send .engine _ _ | .restPlace _ _ | .restCancel _ _ | .restPending
  | .triggered _ | .removed _ => isTrue trivial

/-- Both sides are quoted, the buy is acknowledged and cancelled, and placed anew by
the timer; reconciliation drops the sell. -/
def handlesRun : List (QuoterInput ℚ) :=
  [.bookUpdate (sampleBook 99 101), .orderEvent (acknowledgement "1" "71" "buy" "100.00"),
    .orderEvent { acknowledgement "1" "71" "buy" "100.00" with type := .kCancel }, .timer, .reconcile (pendingAnswer [])]

theorem quote_handles_match_after_cancel :
    (finalState (forM handlesRun quoterStep sampleEngine)).quoter.handle .ask = none ∧
      HandlesMatch (finalState (forM handlesRun quoterStep sampleEngine)) :=
  ⟨by decide +kernel, (quote_handles_match sampleEnvironment (by decide) sampleRequest 0
    (Reaches.start.all handlesRun (by decide +kernel)) (by decide +kernel)).1⟩

end TradingEngine.Engine
