import TradingEngine.Engine.EngineProperties
import TradingEngine.Orders.ReconciliationProperties
import TradingEngine.Orders.WsOrderRoundTripProperties
import TradingEngine.Strategy.NaiveQuoterProperties

/-! One quote a side. The handle of a side is to name the only order the quoter has
placed there and still stores. A requote gives the handle of an order that is not
acknowledged yet to a new one, and forgets the old. -/

set_option autoImplicit false

namespace TradingEngine.Engine

open Library.Exec

variable {D : Type}

/-- The id the quoter placed for the side by this effect. -/
def Effect.placedFor (side : QuoteSide) : Effect → Option Text
  | .send .quoter (.order clOrdId request) _ => if request.side = side.name then some clOrdId else none
  | _ => none

def placedIds (engine : Engine D) (side : QuoteSide) : List Text :=
  engine.trace.filterMap (Effect.placedFor side)

/-- Every order placed for a side and still stored is the one its handle names. -/
structure SingleQuote (engine : Engine D) : Prop where
  named : ∀ side, ∀ clOrdId ∈ engine.placedIds side, clOrdId ∈ engine.store.ids →
    engine.quoter.handle side = some clOrdId
  single : ∀ side, (engine.store.orders.filter fun order => order.clOrdId ∈ engine.placedIds side).length ≤ 1

/-!
## Inputs
-/

inductive QuoterInput (D : Type) [DoubleArith D] where
  | bookUpdate (book : OrderBook D)
  | timer
  | orderEvent (event : OrderEvent D)
  | reconcile (response : Text)

def quoterStep [DoubleArith D] : QuoterInput D → EngineM D PUnit
  | .bookUpdate book => onBookUpdate book
  | .timer => onTimer
  | .orderEvent event => applyOrderEvent event
  | .reconcile response => reconcileOrders response

/-- The handle of the side names no stored order that waits for its ordId. -/
def Acknowledged (engine : Engine D) (side : QuoteSide) : Prop :=
  ∀ order ∈ engine.store.orders, engine.quoter.handle side = some order.clOrdId → order.ordId ≠ []

/-- An order of the quoter goes out under an id that the store it finds does not hold. -/
def Effect.DrawsFresh : Effect → Prop
  | .send .quoter (.order clOrdId _) store => clOrdId ∉ store.ids
  | _ => True

/-- So does every order placed in between. -/
def PlacedFresh (before after : Engine D) : Prop :=
  ∀ effect ∈ after.trace.drop before.trace.length, Effect.DrawsFresh effect

/-- No requote meets an order that is not acknowledged, no order is placed under an id that
is in use, and reconciliation brings in no order under an earlier id of the quoter's. -/
def QuoterAdmits [DoubleArith D] (engine : Engine D) : QuoterInput D → Prop
  | .bookUpdate book => ((engine.quoter.requoteMid book).isSome = true → ∀ side, engine.Acknowledged side) ∧
      engine.PlacedFresh (finalState (onBookUpdate book engine))
  | .timer => engine.PlacedFresh (finalState (onTimer engine))
  | .orderEvent _ => True
  | .reconcile response => ∀ row ∈ pendingRows response, rowId row ∈ engine.store.ids ∨
      ∀ side, rowId row ∉ engine.placedIds side

instance (engine : Engine D) (side : QuoteSide) : Decidable (engine.Acknowledged side) :=
  inferInstanceAs (Decidable (∀ order ∈ engine.store.orders, _))

instance (effect : Effect) : Decidable (Effect.DrawsFresh effect) := by
  unfold Effect.DrawsFresh
  split <;> infer_instance

instance (before after : Engine D) : Decidable (before.PlacedFresh after) :=
  inferInstanceAs (Decidable (∀ effect ∈ after.trace.drop before.trace.length, _))

instance [DoubleArith D] (engine : Engine D) : (input : QuoterInput D) → Decidable (QuoterAdmits engine input)
  | .bookUpdate _ => inferInstanceAs (Decidable (_ ∧ _))
  | .timer => inferInstanceAs (Decidable (PlacedFresh _ _))
  | .orderEvent _ => inferInstanceAs (Decidable True)
  | .reconcile response => inferInstanceAs (Decidable (∀ row ∈ pendingRows response, _))

/-!
## The invariant
-/

structure QuoteInv (engine : Engine D) : Prop where
  named : ∀ side, ∀ clOrdId ∈ engine.placedIds side, clOrdId ∈ engine.store.ids →
    engine.quoter.handle side = some clOrdId
  distinct : engine.store.ids.Nodup
  placed : ∀ side, ∀ clOrdId ∈ engine.placedIds side, engine.Drawn clOrdId
  handled : ∀ side clOrdId, engine.quoter.handle side = some clOrdId → engine.Drawn clOrdId

/-- No order placed for the side is stored. -/
def Vacant (engine : Engine D) (side : QuoteSide) : Prop :=
  ∀ clOrdId ∈ engine.placedIds side, clOrdId ∉ engine.store.ids

theorem length_le_one_of_nodup {α : Type} {items : List α} (item : α) (distinct : items.Nodup)
    (same : ∀ other ∈ items, other = item) : items.length ≤ 1 := by
  rw [List.eq_replicate_of_mem same, List.nodup_replicate] at distinct
  exact distinct

theorem QuoteInv.singleQuote {engine : Engine D} (inv : QuoteInv engine) : SingleQuote engine where
  named := inv.named
  single side := by
    have distinct : ((engine.store.orders.filter fun order => order.clOrdId ∈ engine.placedIds side).map
        Order.clOrdId).Nodup := inv.distinct.sublist (List.filter_sublist.map _)
    rw [← List.length_map (f := Order.clOrdId)]
    refine length_le_one_of_nodup ((engine.quoter.handle side).getD []) distinct ?_
    intro clOrdId member
    obtain ⟨order, kept, rfl⟩ := List.mem_map.mp member
    obtain ⟨stored, placed⟩ := List.mem_filter.mp kept
    rw [inv.named side order.clOrdId (by simpa using placed) (OrderStore.mem_ids.mpr ⟨order, stored, rfl⟩)]
    rfl

theorem vacant_of_no_handle {engine : Engine D} {side : QuoteSide} (inv : QuoteInv engine)
    (free : engine.quoter.handle side = none) : engine.Vacant side := by
  intro clOrdId placed stored
  rw [inv.named side clOrdId placed stored] at free
  cases free

theorem vacant_of_needsOrder {engine : Engine D} {side : QuoteSide} (inv : QuoteInv engine)
    (acknowledged : engine.Acknowledged side) (needs : engine.needsOrder side = true) : engine.Vacant side := by
  intro clOrdId placed stored
  have handle := inv.named side clOrdId placed stored
  rw [needsOrder, handle] at needs
  cases found : engine.store.findByClOrdId clOrdId with
  | none => exact OrderStore.findByClOrdId_eq_none_iff.mp found stored
  | some order =>
      obtain ⟨member, rfl⟩ := OrderStore.of_findByClOrdId found
      exact acknowledged order member handle (by simpa [found] using needs)

/-!
## Steps
-/

/-- The invariant reads the ids stored, the handles, the placements and the last id. -/
theorem QuoteInv.congr {before after : Engine D} (inv : QuoteInv before)
    (ids : after.store.ids = before.store.ids)
    (handles : ∀ side, after.quoter.handle side = before.quoter.handle side)
    (placed : ∀ side, after.placedIds side = before.placedIds side)
    (lastId : before.lastId ≤ after.lastId) : QuoteInv after := by
  have drawn {clOrdId : Text} (drawn : before.Drawn clOrdId) : after.Drawn clOrdId := by
    obtain ⟨number, bounded, same⟩ := drawn
    exact ⟨number, bounded.trans lastId, same⟩
  constructor
  · intro side clOrdId
    rw [placed, ids, handles]
    exact inv.named side clOrdId
  · rw [ids]
    exact inv.distinct
  · intro side clOrdId
    rw [placed]
    exact fun member => drawn (inv.placed side clOrdId member)
  · intro side clOrdId
    rw [handles]
    exact fun handle => drawn (inv.handled side clOrdId handle)

theorem QuoteInv.waits {before after : Engine D} (inv : QuoteInv before) (waits : Waits before after) :
    QuoteInv after := by
  obtain ⟨clock, limiter, rfl⟩ := waits
  exact inv.congr rfl (fun _ => rfl) (fun _ => rfl) le_rfl

theorem QuoteInv.clearHandle {engine : Engine D} {side : QuoteSide} (inv : QuoteInv engine)
    (vacant : engine.Vacant side) : QuoteInv (engine.withHandle side none) where
  named other clOrdId placed stored := by
    rw [withHandle, handle_setHandle]
    split
    · rename_i same
      subst same
      exact absurd stored (vacant clOrdId placed)
    · exact inv.named other clOrdId placed stored
  distinct := inv.distinct
  placed := inv.placed
  handled other clOrdId handle := by
    rw [withHandle, handle_setHandle] at handle
    split at handle
    · cases handle
    · exact inv.handled other clOrdId handle

theorem placedFor_of_isAmend {effect : Effect} (isAmend : Effect.IsAmend effect) (side : QuoteSide) :
    Effect.placedFor side effect = none := by
  match effect, isAmend with
  | .send .quoter (.amendOrder _ _ _ _ _) _, _ => rfl
  | .send .roundTrip (.amendOrder _ _ _ _ _) _, _ => rfl
  | .send .engine (.amendOrder _ _ _ _ _) _, _ => rfl

theorem QuoteInv.amends {before after : Engine D} {clOrdId : Text} (inv : QuoteInv before)
    (amends : Amends clOrdId before after) : QuoteInv after := by
  obtain ⟨clock, limiter, ws, now, store, effect, updated, rfl, isAmend⟩ := amends
  refine inv.congr (OrderStore.ids_of_update updated) (fun _ => rfl) (fun side => ?_) before.lt_nextId.le
  simp [placedIds, placedFor_of_isAmend isAmend]

theorem QuoteInv.readies {before after : Engine D} (inv : QuoteInv before) (readies : Readies before after) :
    QuoteInv after := by
  obtain ⟨ws, mid, rfl⟩ := readies
  refine inv.congr rfl (fun side => ?_) (fun _ => rfl) le_rfl
  cases side <;> rfl

theorem Acknowledged.readies {before after : Engine D} {side : QuoteSide}
    (acknowledged : before.Acknowledged side) (readies : Readies before after) : after.Acknowledged side := by
  obtain ⟨ws, mid, rfl⟩ := readies
  cases side with
  | bid => exact acknowledged
  | ask => exact acknowledged

theorem PlacedFresh.split {first second third : Engine D} (fresh : first.PlacedFresh third)
    (early : first.trace <+: second.trace) (late : second.trace <+: third.trace) :
    first.PlacedFresh second ∧ second.PlacedFresh third := by
  obtain ⟨between, early⟩ := early
  obtain ⟨after, late⟩ := late
  rw [PlacedFresh, ← late, ← early, List.append_assoc, List.drop_left] at fresh
  constructor
  · rw [PlacedFresh, ← early, List.drop_left]
    exact fun effect member => fresh effect (List.mem_append_left _ member)
  · rw [PlacedFresh, ← late, List.drop_left]
    exact fun effect member => fresh effect (List.mem_append_right _ member)

theorem handle_onOrderRemoved {quoter : NaiveQuoter D} {side : QuoteSide} {clOrdId other : Text}
    (handle : quoter.handle side = some other) (different : other ≠ clOrdId) :
    (quoter.onOrderRemoved clOrdId).handle side = some other := by
  have kept : quoter.handle side ≠ some clOrdId := by simpa [handle] using different
  unfold NaiveQuoter.onOrderRemoved
  split
  · rename_i bid
    rw [handle_setHandle, if_neg]
    · exact handle
    · rintro rfl
      exact kept bid
  · split
    · rename_i ask
      rw [handle_setHandle, if_neg]
      · exact handle
      · rintro rfl
        exact kept ask
    · exact handle

theorem of_handle_onOrderRemoved {quoter : NaiveQuoter D} {side : QuoteSide} {clOrdId other : Text}
    (handle : (quoter.onOrderRemoved clOrdId).handle side = some other) : quoter.handle side = some other := by
  unfold NaiveQuoter.onOrderRemoved at handle
  split at handle
  · rw [handle_setHandle] at handle
    split at handle
    · cases handle
    · exact handle
  · split at handle
    · rw [handle_setHandle] at handle
      split at handle
      · cases handle
      · exact handle
    · exact handle

theorem handle_foldl_removed {quoter : NaiveQuoter D} {side : QuoteSide} {clOrdId : Text} {dropped : List Text}
    (handle : quoter.handle side = some clOrdId) (stays : clOrdId ∉ dropped) :
    (dropped.foldl NaiveQuoter.onOrderRemoved quoter).handle side = some clOrdId := by
  induction dropped generalizing quoter with
  | nil => exact handle
  | cons first rest ih =>
      obtain ⟨different, later⟩ := not_or.mp (List.mem_cons.not.mp stays)
      exact ih (handle_onOrderRemoved handle different) later

theorem of_handle_foldl_removed {quoter : NaiveQuoter D} {side : QuoteSide} {clOrdId : Text} {dropped : List Text}
    (handle : (dropped.foldl NaiveQuoter.onOrderRemoved quoter).handle side = some clOrdId) :
    quoter.handle side = some clOrdId := by
  induction dropped generalizing quoter with
  | nil => exact handle
  | cons first rest ih => exact of_handle_onOrderRemoved (ih handle)

/-- Removed orders lose their handles; the others keep theirs. -/
theorem QuoteInv.drops {before after : Engine D} {dropped : List Text} (inv : QuoteInv before)
    (drops : Drops before dropped after) (distinct : after.store.ids.Nodup)
    (kept : ∀ clOrdId ∈ after.store.ids, clOrdId ∈ before.store.ids ∧ clOrdId ∉ dropped) : QuoteInv after := by
  have frame := drops.frame
  have placed (side : QuoteSide) : after.placedIds side = before.placedIds side := by
    rw [placedIds, frame, List.filterMap_append]
    simp [placedIds, Effect.placedFor, Function.comp_def]
  have quoter : after.quoter = dropped.foldl NaiveQuoter.onOrderRemoved before.quoter := by rw [frame]
  have lastId : after.lastId = before.lastId := by rw [frame]
  constructor
  · intro side clOrdId isPlaced stored
    rw [placed] at isPlaced
    obtain ⟨wasStored, stays⟩ := kept clOrdId stored
    rw [quoter]
    exact handle_foldl_removed (inv.named side clOrdId isPlaced wasStored) stays
  · exact distinct
  · intro side clOrdId isPlaced
    rw [Drawn, lastId]
    exact inv.placed side clOrdId (placed side ▸ isPlaced)
  · intro side clOrdId handle
    rw [Drawn, lastId]
    rw [quoter] at handle
    exact inv.handled side clOrdId (of_handle_foldl_removed handle)

theorem QuoteInv.adopts {before after : Engine D} {rows : List Text} (inv : QuoteInv before)
    (foreign : ∀ row ∈ rows, rowId row ∈ before.store.ids ∨ ∀ side, rowId row ∉ before.placedIds side)
    (adopts : Adopts before rows after) : QuoteInv after := by
  have distinct := adopts.nodup inv.distinct
  have ids (clOrdId : Text) : clOrdId ∈ after.store.ids ↔
      clOrdId ∈ before.store.ids ∨ clOrdId ∈ rows.map rowId := adopts.mem_ids
  obtain ⟨clock, frame⟩ := adopts.frame
  rw [frame]
  refine ⟨fun side clOrdId placed stored => ?_, distinct, inv.placed, inv.handled⟩
  rcases (ids clOrdId).mp stored with old | named
  · exact inv.named side clOrdId placed old
  · obtain ⟨row, member, rfl⟩ := List.mem_map.mp named
    rcases foreign row member with old | unplaced
    · exact inv.named side _ placed old
    · exact absurd placed (unplaced side)

theorem QuoteInv.reconcileOrders {engine next : Engine D} {response : Text} (inv : QuoteInv engine)
    (foreign : ∀ row ∈ pendingRows response, rowId row ∈ engine.store.ids ∨
      ∀ side, rowId row ∉ engine.placedIds side)
    (ran : reconcileOrders response engine = .ok .unit next) : QuoteInv next := by
  have outcome := reconcileOrders_outcome response engine
  rw [ran] at outcome
  obtain ⟨-, middle, adopts, drops, stays⟩ := outcome
  have middleInv := inv.adopts foreign adopts
  have idsPerm := stays.map Order.clOrdId
  refine middleInv.drops drops (idsPerm.nodup_iff.mpr (middleInv.distinct.sublist (List.filter_sublist.map _))) ?_
  intro clOrdId stored
  obtain ⟨order, member, rfl⟩ := OrderStore.mem_ids.mp stored
  obtain ⟨wasStored, named⟩ := List.mem_filter.mp (stays.mem_iff.mp member)
  refine ⟨OrderStore.mem_ids.mpr ⟨order, wasStored, rfl⟩, fun dropped => ?_⟩
  exact (of_mem_toDrop dropped).2 (by simpa using named)

theorem QuoteInv.applyOrderEvent {engine next : Engine D} {event : OrderEvent D} (inv : QuoteInv engine)
    (ran : applyOrderEvent event engine = .ok .unit next) : QuoteInv next := by
  have outcome := applyOrderEvent_outcome event engine
  rw [ran] at outcome
  cases outcome with
  | unknown _ => exact inv
  | moved updated _ _ => exact inv.congr (OrderStore.ids_of_update updated) (fun _ => rfl) (fun _ => rfl) le_rfl
  | @ended store order updated _ _ =>
      have moved : QuoteInv { engine with store := store } :=
        inv.congr (OrderStore.ids_of_update updated) (fun _ => rfl) (fun _ => rfl) le_rfl
      refine moved.drops (drops_withoutOrder _ _) (OrderStore.nodup_erase moved.distinct _) fun clOrdId stored => ?_
      obtain ⟨wasStored, different⟩ := (OrderStore.mem_ids_erase moved.distinct).mp stored
      exact ⟨wasStored, by simpa using different⟩

variable [DoubleArith D]

theorem placedFor_placement (engine : Engine D) (side other : QuoteSide) (px : D) :
    Effect.placedFor other (engine.placement side px) =
      if other = side then some (toDecimal engine.nextId) else none := by
  cases side <;> cases other <;> rfl

/-- The order placed takes over the side. -/
theorem QuoteInv.places {before after : Engine D} {side : QuoteSide} {px : D} (inv : QuoteInv before)
    (vacant : before.Vacant side) (fresh : toDecimal before.nextId ∉ before.store.ids)
    (places : Places side px before after) :
    QuoteInv (after.withHandle side (some (toDecimal before.nextId))) := by
  obtain ⟨clock, limiter, ws, now, store, added, rfl⟩ := places
  have ids := OrderStore.ids_perm_add added
  have drawnBefore {clOrdId : Text} (drawn : before.Drawn clOrdId) : ∃ number ≤ before.nextId, clOrdId = toDecimal number := by
    obtain ⟨number, bounded, same⟩ := drawn
    exact ⟨number, bounded.trans before.lt_nextId.le, same⟩
  have placedNow (other : QuoteSide) (clOrdId : Text) :
      clOrdId ∈ (before.trace ++ [before.placement side px]).filterMap (Effect.placedFor other) ↔
        clOrdId ∈ before.placedIds other ∨ other = side ∧ clOrdId = toDecimal before.nextId := by
    rw [List.filterMap_append, List.mem_append, placedIds]
    simp [placedFor_placement, eq_comm]
  constructor
  · intro other clOrdId placed stored
    rw [withHandle, handle_setHandle]
    rcases (placedNow other clOrdId).mp placed with old | ⟨rfl, rfl⟩
    · rcases List.mem_cons.mp (ids.mem_iff.mp stored) with rfl | kept
      · exact absurd (inv.placed other _ old) before.next_not_drawn
      · split
        · rename_i same
          subst same
          exact absurd kept (vacant clOrdId old)
        · exact inv.named other clOrdId old kept
    · rw [if_pos rfl]
  · exact ids.nodup_iff.mpr (List.nodup_cons.mpr ⟨fresh, inv.distinct⟩)
  · intro other clOrdId placed
    rcases (placedNow other clOrdId).mp placed with old | ⟨-, rfl⟩
    · exact drawnBefore (inv.placed other clOrdId old)
    · exact ⟨before.nextId, le_rfl, rfl⟩
  · intro other clOrdId handle
    rw [withHandle, handle_setHandle] at handle
    split at handle
    · cases handle
      exact ⟨before.nextId, le_rfl, rfl⟩
    · exact drawnBefore (inv.handled other clOrdId handle)

theorem QuoteInv.sideStep {wants : Engine D → QuoteSide → Bool} {before after : Engine D} {side : QuoteSide}
    {px : D} (inv : QuoteInv before) (vacant : wants before side = true → before.Vacant side)
    (fresh : before.PlacedFresh after) (step : SideStep wants side px before after) : QuoteInv after := by
  cases step with
  | waits waits => exact inv.waits waits
  | denied wanted waits => exact (inv.clearHandle (vacant wanted)).waits waits
  | @places after wanted places =>
      have sent : before.placement side px ∈ (after.withHandle side (some (toDecimal before.nextId))).trace.drop
          before.trace.length := by
        obtain ⟨clock, limiter, ws, now, store, added, rfl⟩ := places
        rw [withHandle, List.drop_left]
        exact List.mem_singleton_self _
      exact inv.places (vacant wanted) (fresh _ sent) places
  | amends _ amends => exact inv.amends amends

theorem SideStep.prefix_trace {wants : Engine D → QuoteSide → Bool} {before after : Engine D} {side : QuoteSide} {px : D}
    (step : SideStep wants side px before after) : before.trace <+: after.trace := by
  cases step with
  | waits waits =>
      obtain ⟨clock, limiter, rfl⟩ := waits
      exact List.prefix_rfl
  | denied _ waits =>
      obtain ⟨clock, limiter, rfl⟩ := waits
      exact List.prefix_rfl
  | places _ places =>
      obtain ⟨clock, limiter, ws, now, store, added, rfl⟩ := places
      exact List.prefix_append _ _
  | amends _ amends =>
      obtain ⟨clock, limiter, ws, now, store, effect, updated, rfl, -⟩ := amends
      exact List.prefix_append _ _

/-- What both sides of a quote place, one after the other. -/
theorem PlacedFresh.sides {wants : Engine D → QuoteSide → Bool} {engine ready first second next : Engine D} {bidPx askPx : D}
    (fresh : engine.PlacedFresh next) (readied : Readies engine ready) (bidStep : SideStep wants .bid bidPx ready first)
    (askStep : SideStep wants .ask askPx first second) (finished : Readies second next) :
    ready.PlacedFresh first ∧ first.PlacedFresh second := by
  obtain ⟨ws, mid, rfl⟩ := readied
  obtain ⟨ws, mid, rfl⟩ := finished
  exact PlacedFresh.split fresh bidStep.prefix_trace askStep.prefix_trace

/-- A run for one side leaves the order of the other as acknowledged as it was. -/
theorem Acknowledged.sideStep {wants : Engine D → QuoteSide → Bool} {before after : Engine D}
    {side other : QuoteSide} {px : D} (inv : QuoteInv before) (different : other ≠ side)
    (acknowledged : before.Acknowledged other) (step : SideStep wants side px before after) :
    after.Acknowledged other := by
  have kept := step.handle_other different
  cases step with
  | waits waits =>
      obtain ⟨clock, limiter, rfl⟩ := waits
      exact acknowledged
  | denied _ waits =>
      obtain ⟨clock, limiter, rfl⟩ := waits
      intro order member handle
      exact acknowledged order member (kept ▸ handle)
  | places _ places =>
      obtain ⟨clock, limiter, ws, now, store, added, rfl⟩ := places
      intro order member handle
      rw [kept] at handle
      rcases List.mem_cons.mp ((OrderStore.perm_add added).mem_iff.mp member) with rfl | old
      · exact absurd (inv.handled other _ handle) before.next_not_drawn
      · exact acknowledged order old handle
  | amends _ amends =>
      obtain ⟨clock, limiter, ws, now, store, effect, updated, rfl, -⟩ := amends
      intro order member handle
      obtain ⟨old, oldMember, sameId, sameOrdId⟩ :=
        OrderStore.ordId_of_update (OrderStore.keepsOrdId_onAmendRequested now) updated member
      rw [← sameOrdId]
      exact acknowledged old oldMember (handle.trans (congrArg some sameId.symm))

/-- Both sides of a book update. -/
theorem QuoteInv.onBookUpdate {engine next : Engine D} {book : OrderBook D} (inv : QuoteInv engine)
    (admitted : QuoterAdmits engine (.bookUpdate book)) (ran : onBookUpdate book engine = .ok .unit next) :
    QuoteInv next := by
  rcases onBookUpdate_outcome book engine with same | ⟨mid, moved, outcome⟩
  · rw [same] at ran
    cases ran
    exact inv
  · rw [ran] at outcome
    obtain ⟨ready, first, second, readied, bidStep, askStep, finished⟩ := outcome
    obtain ⟨acknowledged, fresh⟩ := admitted
    rw [ran] at fresh
    obtain ⟨bidFresh, askFresh⟩ := PlacedFresh.sides fresh readied bidStep askStep finished
    have acknowledged := acknowledged (by rw [moved]; rfl)
    have readyInv := inv.readies readied
    have bidAcknowledged := (acknowledged .bid).readies readied
    have firstInv := readyInv.sideStep (vacant_of_needsOrder readyInv bidAcknowledged) bidFresh bidStep
    have askAcknowledged := ((acknowledged .ask).readies readied).sideStep readyInv (by decide) bidStep
    exact (firstInv.sideStep (vacant_of_needsOrder firstInv askAcknowledged) askFresh askStep).readies finished

theorem QuoteInv.onTimer {engine next : Engine D} (inv : QuoteInv engine)
    (admitted : QuoterAdmits engine .timer) (ran : onTimer engine = .ok .unit next) : QuoteInv next := by
  rcases onTimer_outcome engine with same | ⟨mid, last, outcome⟩
  · rw [same] at ran
    cases ran
    exact inv
  · rw [ran] at outcome
    obtain ⟨ready, first, second, readied, bidStep, askStep, finished⟩ := outcome
    have fresh : engine.PlacedFresh (finalState (Engine.onTimer engine)) := admitted
    rw [ran] at fresh
    obtain ⟨bidFresh, askFresh⟩ := PlacedFresh.sides fresh readied bidStep askStep finished
    have readyInv := inv.readies readied
    have vacant {engine : Engine D} (inv : QuoteInv engine) (side : QuoteSide)
        (free : engine.hasNoOrder side = true) : engine.Vacant side :=
      vacant_of_no_handle inv (Option.isNone_iff_eq_none.mp free)
    have firstInv := readyInv.sideStep (vacant readyInv .bid) bidFresh bidStep
    exact (firstInv.sideStep (vacant firstInv .ask) askFresh askStep).readies finished

/-!
## Runs
-/

theorem quoteInv_initial (environment : Environment) {quoter : NaiveQuoter D}
    (unquoted : ∀ side, quoter.handle side = none) (request : OrderRequest) (lastId : Nat) :
    QuoteInv (initial environment quoter request lastId) where
  named _ _ placed := by cases placed
  distinct := List.nodup_nil
  placed _ _ placed := by cases placed
  handled side clOrdId handle := by
    have free : quoter.handle side = some clOrdId := handle
    rw [unquoted] at free
    cases free

/-- In every state of a run that meets the condition, each side has one quote. -/
theorem single_quote (environment : Environment) {quoter : NaiveQuoter D}
    (unquoted : ∀ side, quoter.handle side = none) (request : OrderRequest) (lastId : Nat) {engine : Engine D}
    (run : Reaches quoterStep QuoterAdmits (initial environment quoter request lastId) engine) :
    SingleQuote engine := by
  refine (run.invariant QuoteInv (quoteInv_initial environment unquoted request lastId) ?_).singleQuote
  intro current input next inv admitted ran
  cases input with
  | bookUpdate book => exact inv.onBookUpdate admitted ran
  | timer => exact inv.onTimer admitted ran
  | orderEvent event => exact inv.applyOrderEvent ran
  | reconcile response => exact inv.reconcileOrders admitted ran

/-- Both quotes are acknowledged before the mid moves. -/
def acknowledgedRun : List (QuoterInput ℚ) :=
  [.bookUpdate (sampleBook 99 101), .orderEvent (acknowledgement "1" "71" "buy" "100.00"),
    .orderEvent (acknowledgement "2" "72" "sell" "100.00"), .bookUpdate (sampleBook 199 201), .timer]

theorem single_quote_acknowledged :
    SingleQuote (finalState (forM acknowledgedRun quoterStep sampleEngine)) :=
  single_quote sampleEnvironment (by decide) sampleRequest 0 (Reaches.start.all acknowledgedRun (by decide +kernel))

/-- The mid moves before either quote is acknowledged. -/
def hurriedRun : List (QuoterInput ℚ) := [.bookUpdate (sampleBook 99 101), .bookUpdate (sampleBook 199 201)]

/-- Two buys and two sells are then in the store, and the handles name the later ones. -/
theorem two_quotes_when_hurried :
    Reaches quoterStep (fun _ _ => True) sampleEngine (finalState (forM hurriedRun quoterStep sampleEngine)) ∧
      (finalState (forM hurriedRun quoterStep sampleEngine)).store.orders.map Order.side = [kBuy, kSell, kBuy, kSell] ∧
      ¬ SingleQuote (finalState (forM hurriedRun quoterStep sampleEngine)) := by
  refine ⟨Reaches.start.all hurriedRun (by decide +kernel), by decide +kernel, fun quoted => ?_⟩
  have named := quoted.named .bid "1".toList (by decide +kernel) (by decide +kernel)
  revert named
  decide +kernel

end TradingEngine.Engine
