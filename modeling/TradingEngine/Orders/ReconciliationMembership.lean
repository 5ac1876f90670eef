import TradingEngine.Orders.ReconciliationAgreement

/-! Reconciliation with a pending-orders response of flat rows: the ids stored
afterwards are those of the response, the listener is told of each order dropped,
and the same response once more changes nothing. -/

set_option autoImplicit false

namespace TradingEngine

open Library.Exec Library.JsonText

variable {D : Type}

def responseIds (response : Value) : List Text := (ownRows response).map fun row => ownField row kClOrdId

def newIds (store : OrderStore) (response : Value) : List Text :=
  (responseIds response).filter fun id => id ∉ store.ids

structure PendingRow (row : Value) : Prop where
  flat : row.isFlat = true
  escapeFree : '\\' ∉ row.text
  identified : ((row.ownNamed kClOrdId).bind Value.string?).isSome = true
  state : ownField row kState = kStateLive ∨ ownField row kState = kStatePartiallyFilled

structure PendingResponse (response : Value) : Prop where
  plain : ∀ name ∈ response.names, '\\' ∉ name
  data : (response.ownNamed kData).map Value.isArray = some true
  first : response.Unshadowed kData
  rows : ∀ row ∈ ownRows response, PendingRow row
  distinct : (responseIds response).Nodup

/-- The order is what its row reports. -/
structure AdoptedFrom (row : Value) (order : Order) : Prop where
  clOrdId : order.clOrdId = ownField row kClOrdId
  ordId : order.ordId = ownField row kOrdId
  state : order.state = if ownField row kState = kStateLive then .kNew else .kPartiallyFilled

/-- The engine after reconciliation with a response. -/
structure Reconciled (before : Engine D) (response : Value) (after : Engine D) : Prop where
  ids : ∀ id, id ∈ after.store.ids ↔ id ∈ responseIds response
  nodup : after.store.ids.Nodup
  kept : ∀ order ∈ after.store.orders, order.clOrdId ∈ before.store.ids → order ∈ before.store.orders
  adopted : ∀ order ∈ after.store.orders, order.clOrdId ∉ before.store.ids →
    ∃ row ∈ ownRows response, AdoptedFrom row order
  listener : ∃ dropped : List Text, dropped.Nodup ∧
    (∀ id, id ∈ dropped ↔ id ∈ before.store.ids ∧ id ∉ responseIds response) ∧
    after.trace = before.trace ++ dropped.map .removed ∧
    after.quoter = dropped.foldl NaiveQuoter.onOrderRemoved before.quoter

/-!
## Flat rows
-/

namespace PendingRow

variable {row : Value}

theorem field_eq (pending : PendingRow row) {name : Text} (member : name ∈ kState :: copiedNames) :
    field row.text name = ownField row name := by
  rw [field_row pending.escapeFree member, firstField, Value.unshadowed_flat pending.flat, ownField]

theorem rowId_eq (pending : PendingRow row) : rowId row.text = ownField row kClOrdId :=
  pending.field_eq (by simp [copiedNames])

theorem classified (pending : PendingRow row) :
    ∃ type, classifyPendingState (field row.text kState) = .ok type ∧
      pendingState type = if ownField row kState = kStateLive then .kNew else .kPartiallyFilled := by
  rw [pending.field_eq List.mem_cons_self]
  rcases pending.state with live | partly
  · rw [live]
    exact ⟨.kLive, rfl, rfl⟩
  · rw [partly]
    exact ⟨.kPartialFill, rfl, rfl⟩

theorem wellFormed (pending : PendingRow row) : WellFormedRow row.text := by
  obtain ⟨type, classified, -⟩ := pending.classified
  refine ⟨⟨?_, ?_⟩, by rw [classified]; rfl⟩
  · rw [findString_row pending.escapeFree (by simp [copiedNames]), Value.unshadowed_flat pending.flat]
    exact pending.identified
  · rw [findString_row pending.escapeFree List.mem_cons_self, Value.unshadowed_flat pending.flat]
    have named : ownField row kState ≠ kEmpty := by
      rcases pending.state with live | partly
      · rw [live]
        decide
      · rw [partly]
        decide
    cases string : (row.ownNamed kState).bind Value.string? with
    | none => exact absurd (by rw [ownField, string]; rfl) named
    | some body => rfl

theorem adoptedFrom (pending : PendingRow row) {order : Order} (as : AdoptedAs row.text order) : AdoptedFrom row order := by
  obtain ⟨type, classified, shown⟩ := pending.classified
  obtain ⟨adoptedType, now, asClassified, rfl⟩ := as
  rw [classified] at asClassified
  cases asClassified
  exact ⟨pending.rowId_eq, pending.field_eq (by simp [copiedNames]), shown⟩

end PendingRow

theorem length_newRows_le (known rows : List Text) :
    (newRows known rows).length ≤ ((rows.map rowId).filter fun id => id ∉ known).length := by
  induction rows generalizing known with
  | nil => exact Nat.le_refl 0
  | cons row rest ih =>
      rw [newRows, List.map_cons]
      by_cases stored : rowId row ∈ known
      · rw [if_pos stored, List.filter_cons_of_neg (by simpa using stored)]
        exact ih known
      · rw [if_neg stored, List.filter_cons_of_pos (by simpa using stored), List.length_cons, List.length_cons]
        have narrower : (((rest.map rowId).filter fun id => id ∉ rowId row :: known).length ≤
            ((rest.map rowId).filter fun id => id ∉ known).length) := by
          refine (List.monotone_filter_right _ fun id absent => ?_).length_le
          simp only [List.mem_cons, not_or, decide_eq_true_eq] at absent ⊢
          exact absent.2
        exact Nat.succ_le_succ ((ih (rowId row :: known)).trans narrower)

namespace PendingResponse

variable {response : Value}

theorem pendingRows_eq (pending : PendingResponse response) :
    pendingRows response.text = (ownRows response).map Value.text := by
  rw [pendingRows_text pending.plain, pending.first.itemsNamed_eq, ownRows]

theorem rowIds_eq (pending : PendingResponse response) :
    (pendingRows response.text).map rowId = responseIds response := by
  rw [pending.pendingRows_eq, List.map_map, responseIds]
  exact List.map_congr_left fun row member => (pending.rows row member).rowId_eq

theorem wellFormed (pending : PendingResponse response) : ∀ row ∈ pendingRows response.text, WellFormedRow row := by
  intro text member
  rw [pending.pendingRows_eq] at member
  obtain ⟨row, isRow, rfl⟩ := List.mem_map.mp member
  exact (pending.rows row isRow).wellFormed

theorem adoptedFrom (pending : PendingResponse response) {text : Text} {order : Order}
    (member : text ∈ pendingRows response.text) (as : AdoptedAs text order) :
    ∃ row ∈ ownRows response, AdoptedFrom row order := by
  rw [pending.pendingRows_eq] at member
  obtain ⟨row, isRow, rfl⟩ := List.mem_map.mp member
  exact ⟨row, isRow, (pending.rows row isRow).adoptedFrom as⟩

end PendingResponse

namespace Engine

/-!
## Rows that are all known
-/

theorem run_known_rows {engine : Engine D} {rows : List Text} (readable : ∀ row ∈ rows, Readable row)
    (known : ∀ row ∈ rows, rowId row ∈ engine.store.ids) (ids : List Text) :
    forM rows reconcileRow (engine, ids) = .ok .unit (engine, (rows.map rowId).reverse ++ ids) := by
  induction rows generalizing ids with
  | nil => rfl
  | cons row rest ih =>
      have here : reconcileRow row (engine, ids) = .ok .unit (engine, rowId row :: ids) := by
        rw [reconcileRow_readable (readable row List.mem_cons_self), onFirst, adopt_known (known row List.mem_cons_self)]
      rw [List.forM_cons, run_bind_ok here, ih (fun other member => readable other (List.mem_cons_of_mem _ member))
        fun other member => known other (List.mem_cons_of_mem _ member)]
      simp

/-- Where the stored ids are those of the rows, reconciliation changes nothing. -/
theorem reconcileOrders_known {engine : Engine D} {response : Text} (readable : ∀ row ∈ pendingRows response, Readable row)
    (same : ∀ id, id ∈ engine.store.ids ↔ id ∈ (pendingRows response).map rowId) :
    reconcileOrders response engine = .ok .unit engine := by
  have collected : collectExchangeIds response engine = .ok ((pendingRows response).map rowId).reverse engine := by
    have rows := run_known_rows readable (fun row member => (same _).mpr (List.mem_map_of_mem member)) []
    have returns := Json.arrayElements_returns response kData
      fun row member => ne_nil_of_readable (readable row member)
    unfold pendingRows at rows ⊢
    rw [collectExchangeIds, withLocal, Json.forEachArrayElement_eq, Json.runElements, run_bind_ok rows, returns]
    simp [run_pure]
  have none_dropped : toDrop engine.store ((pendingRows response).map rowId).reverse = [] := by
    rw [toDrop_reverse, toDrop, List.filter_eq_nil_iff]
    intro id stored
    simpa using (same id).mp stored
  rw [reconcileOrders, run_bind_ok collected, run_bind_ok (run_get _), none_dropped]
  rfl

/-!
## Membership
-/

theorem nodup_toDrop {store : OrderStore} (distinct : store.ids.Nodup) (ids : List Text) : (toDrop store ids).Nodup :=
  distinct.filter _

theorem mem_toDrop {store : OrderStore} {ids : List Text} {id : Text} :
    id ∈ toDrop store ids ↔ id ∈ store.ids ∧ id ∉ ids := by
  simp [toDrop, OrderStore.ids]

theorem reconciled_of_outcome {before middle after : Engine D} {response : Value} (pending : PendingResponse response)
    (distinct : before.store.ids.Nodup) (adopts : Adopts before (pendingRows response.text) middle)
    (drops : Drops middle (toDrop middle.store ((pendingRows response.text).map rowId)) after)
    (stays : after.store.orders.Perm
      (middle.store.orders.filter fun order => order.clOrdId ∈ (pendingRows response.text).map rowId)) :
    Reconciled before response after := by
  rw [pending.rowIds_eq] at drops stays
  have afterIds : after.store.ids.Perm (middle.store.ids.filter fun id => id ∈ responseIds response) := by
    rw [OrderStore.ids, OrderStore.ids, List.filter_map]
    exact stays.map Order.clOrdId
  have memMiddle (id : Text) : id ∈ middle.store.ids ↔ id ∈ before.store.ids ∨ id ∈ responseIds response := by
    rw [adopts.mem_ids, pending.rowIds_eq]
  have ofMem {order : Order} (member : order ∈ after.store.orders) :=
    adopts.of_mem (List.mem_of_mem_filter (stays.mem_iff.mp member))
  obtain ⟨clock, framed⟩ := adopts.frame
  refine ⟨fun id => ?_, afterIds.nodup_iff.mpr ((adopts.nodup distinct).filter _), fun order member stored => ?_,
    fun order member absent => ?_, toDrop middle.store (responseIds response), nodup_toDrop (adopts.nodup distinct) _,
    fun id => ?_, ?_, ?_⟩
  · rw [afterIds.mem_iff, List.mem_filter, memMiddle, decide_eq_true_eq]
    tauto
  · rcases ofMem member with old | ⟨row, new, as⟩
    · exact old
    · rw [clOrdId_of_adoptedAs as] at stored
      exact absurd stored (of_mem_newRows new).2
  · rcases ofMem member with old | ⟨row, new, as⟩
    · exact absurd (OrderStore.mem_ids.mpr ⟨order, old, rfl⟩) absent
    · exact pending.adoptedFrom (of_mem_newRows new).1 as
  · rw [mem_toDrop, memMiddle]
    tauto
  · rw [drops.frame, framed]
  · rw [drops.frame, framed]

/-- Reconciliation returns and leaves the orders of the response, and a second
run with it changes nothing. -/
theorem reconciliation_membership (engine : Engine D) (response : Value) (pending : PendingResponse response)
    (distinct : engine.store.ids.Nodup) (room : engine.store.size + (newIds engine.store response).length ≤ 1024) :
    ∃ next, reconcileOrders response.text engine = .ok .unit next ∧ Reconciled engine response next ∧
      reconcileOrders response.text next = .ok .unit next := by
  have fits : engine.store.size + (newRows engine.store.ids (pendingRows response.text)).length ≤ OrderStore.kCapacity := by
    have fewer := length_newRows_le engine.store.ids (pendingRows response.text)
    rw [pending.rowIds_eq] at fewer
    exact (Nat.add_le_add_left fewer _).trans room
  obtain ⟨next, ran⟩ := returns_of_room pending.wellFormed fits
  have outcome := reconcileOrders_outcome response.text engine
  rw [ran] at outcome
  obtain ⟨readable, middle, adopts, drops, stays⟩ := outcome
  have reconciled := reconciled_of_outcome pending distinct adopts drops stays
  refine ⟨next, ran, reconciled, reconcileOrders_known readable fun id => ?_⟩
  rw [pending.rowIds_eq]
  exact reconciled.ids id

def pendingSample : Value :=
  .ofMembers [(kCode, .ofText kSuccessCode), (kData, .ofItems [
    .ofMembers [(kOrdId, .ofText "71".toList), (kClOrdId, .ofText "a".toList), (kState, .ofText kStateLive)],
    .ofMembers [(kClOrdId, .ofText "b".toList), (kState, .ofText kStatePartiallyFilled), (kOrdId, .ofText "73".toList)]])]

/-- A stored order that neither row names is dropped, and both rows are adopted. -/
theorem reconciliation_membership_replaced : ∃ next,
    reconcileOrders pendingSample.text (sampleEngine.holding (.single (sampleOrder .kNew))) = .ok .unit next ∧
      Reconciled (sampleEngine.holding (.single (sampleOrder .kNew))) pendingSample next ∧
      reconcileOrders pendingSample.text next = .ok .unit next := by
  have rows : ∀ row ∈ ownRows pendingSample, PendingRow row := by
    have checked : ∀ row ∈ ownRows pendingSample, row.isFlat = true ∧ '\\' ∉ row.text ∧
        ((row.ownNamed kClOrdId).bind Value.string?).isSome = true ∧
        (ownField row kState = kStateLive ∨ ownField row kState = kStatePartiallyFilled) := by decide +kernel
    exact fun row member =>
      ⟨(checked row member).1, (checked row member).2.1, (checked row member).2.2.1, (checked row member).2.2.2⟩
  exact reconciliation_membership _ pendingSample ⟨by decide +kernel, by decide +kernel, rfl, rows, by decide +kernel⟩
    (by decide +kernel) (by decide +kernel)

end Engine

end TradingEngine
