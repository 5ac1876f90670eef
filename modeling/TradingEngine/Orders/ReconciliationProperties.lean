import TradingEngine.Engine.StateProperties
import TradingEngine.Orders.Reconciliation
import TradingEngine.Util.JsonProperties

/-! What reconciliation does to the store. Rows are taken in order: a row whose id
is stored changes nothing, another is added as the exchange reports it, and once
all rows are read every order that no row names is removed. -/

set_option autoImplicit false

namespace TradingEngine

open Library.Exec

variable {D : Type}

/-- The state an adopted order takes from its row. -/
def pendingState : OrderEventType → OrderState
  | .kLive => .kNew
  | _ => .kPartiallyFilled

/-- An order as it is adopted from a row. -/
def adoptedOrder (type : OrderEventType) (clOrdId order : Text) (now : Int) : Order where
  ordId := field order kOrdId
  clOrdId := clOrdId
  instId := field order kInstId
  side := field order kSide
  px := field order kPx
  sz := field order kSz
  accFillSz := field order kAccFillSz
  avgPx := field order kAvgPx
  state := pendingState type
  prePendingState := .kPendingNew
  pendingSince := now

theorem classifyPendingState_eq {state : Text} {type : OrderEventType}
    (classified : classifyPendingState state = .ok type) : type = .kLive ∨ type = .kPartialFill := by
  unfold classifyPendingState at classified
  split at classified
  · exact .inl (by simpa using classified.symm)
  · split at classified
    · exact .inr (by simpa using classified.symm)
    · cases classified

theorem applyEvent_create {type : OrderEventType} (adopts : type = .kLive ∨ type = .kPartialFill)
    (clOrdId order : Text) (now : Int) :
    Order.applyEvent (pendingEvent type clOrdId order : OrderEvent D)
      (Order.create clOrdId (field order kInstId) (field order kSide) (field order kPx) (field order kSz) now) =
      .ok .unit (adoptedOrder type clOrdId order now) := by
  rcases adopts with rfl | rfl <;> rfl

namespace OrderStore

/-- A transition of a new order, right after it was added under an id no other has. -/
theorem update_added {store added : OrderStore} {order next : Order} (action : OrderAction)
    (add : store.add order = .ok added) (fresh : order.clOrdId ∉ store.ids)
    (ran : action.run order = .ok .unit next) :
    ∃ written, added.update order.clOrdId action = .ok .unit written ∧
      written.orders.Perm (next :: store.orders) := by
  have perm := perm_add add
  have stored : order.clOrdId ∈ added.ids := (ids_perm_add add).mem_iff.mpr List.mem_cons_self
  obtain ⟨index, located, found⟩ := locate_isSome stored
  obtain ⟨-, here, same⟩ := locate_eq_some found
  have isNew : located = order := by
    rcases List.mem_cons.mp (perm.mem_iff.mp (List.mem_of_getElem? here)) with new | old
    · exact new
    · exact absurd (mem_ids.mpr ⟨located, old, same⟩) fresh
  subst isNew
  obtain ⟨inside, atIndex⟩ := List.getElem?_eq_some_iff.mp here
  have whole : (located :: added.orders.eraseIdx index).Perm (located :: store.orders) := by
    refine List.Perm.trans ?_ perm
    rw [← atIndex]
    exact List.getElem_cons_eraseIdx_perm inside
  have replaced : (added.orders.set index next).Perm (next :: store.orders) :=
    (List.set_perm_cons_eraseIdx inside next).trans (whole.cons_inv.cons next)
  obtain ⟨written, orders, updated⟩ := update_of_locate found action
  refine ⟨written, by rw [updated, ran], ?_⟩
  rw [orders, ran]
  exact replaced

end OrderStore

/-!
## Rows
-/

def pendingRows (response : Text) : List Text := (Json.arrayElements response kData).1

def rowId (row : Text) : Text := field row kClOrdId

/-- The row has the two fields reconciliation insists on. -/
def Readable (row : Text) : Prop :=
  (Json.findString row kClOrdId).isSome = true ∧ (Json.findString row kState).isSome = true

instance (row : Text) : Decidable (Readable row) := inferInstanceAs (Decidable (_ ∧ _))

/-- A row at which the loop throws, with the store it meets. -/
def Stops (store : OrderStore) (row : Text) : Prop :=
  Readable row → rowId row ∉ store.ids ∧
    ((classifyPendingState (field row kState)).isOk = false ∨ store.size = OrderStore.kCapacity)

/-- The rows that are adopted: those with an id not met before. -/
def newRows : List Text → List Text → List Text
  | _, [] => []
  | known, row :: rest =>
      if rowId row ∈ known then newRows known rest else row :: newRows (rowId row :: known) rest

def AdoptedAs (row : Text) (order : Order) : Prop :=
  ∃ type now, classifyPendingState (field row kState) = .ok type ∧ order = adoptedOrder type (rowId row) row now

theorem newRows_congr {known other : List Text} (same : ∀ id, id ∈ known ↔ id ∈ other) (rows : List Text) :
    newRows known rows = newRows other rows := by
  induction rows generalizing known other with
  | nil => rfl
  | cons row rest ih =>
      have grown : ∀ id, id ∈ rowId row :: known ↔ id ∈ rowId row :: other := fun id => by
        rw [List.mem_cons, List.mem_cons, same]
      simp only [newRows, same, ih same, ih grown]

theorem newRows_append (known first second : List Text) :
    newRows known (first ++ second) =
      newRows known first ++ newRows (first.map rowId ++ known) second := by
  induction first generalizing known with
  | nil => rfl
  | cons row rest ih =>
      simp only [List.cons_append, newRows, List.map_cons]
      split
      · rename_i stored
        rw [ih]
        congr 1
        refine newRows_congr (fun id => ?_) second
        simp only [List.mem_append, List.mem_cons]
        constructor
        · exact .inr
        · rintro (rfl | other)
          · exact .inr stored
          · exact other
      · rw [ih, List.cons_append]
        congr 2
        refine newRows_congr (fun id => ?_) second
        simp only [List.mem_append, List.mem_cons]
        tauto

theorem newRows_eq_nil_iff {known rows : List Text} :
    newRows known rows = [] ↔ ∀ row ∈ rows, rowId row ∈ known := by
  induction rows generalizing known with
  | nil => simp [newRows]
  | cons row rest ih =>
      simp only [newRows, List.mem_cons, forall_eq_or_imp]
      split
      · rename_i stored
        rw [ih]
        exact ⟨fun others => ⟨stored, others⟩, fun both => both.2⟩
      · rename_i absent
        constructor
        · intro none_new
          cases none_new
        · intro both
          exact absurd both.1 absent

theorem of_mem_newRows {known rows : List Text} {row : Text} (member : row ∈ newRows known rows) :
    row ∈ rows ∧ rowId row ∉ known := by
  induction rows generalizing known with
  | nil => simp [newRows] at member
  | cons head rest ih =>
      simp only [newRows] at member
      split at member
      · obtain ⟨inRest, absent⟩ := ih member
        exact ⟨List.mem_cons_of_mem _ inRest, absent⟩
      · rename_i absent
        rcases List.mem_cons.mp member with rfl | later
        · exact ⟨List.mem_cons_self, absent⟩
        · obtain ⟨inRest, notKnown⟩ := ih later
          exact ⟨List.mem_cons_of_mem _ inRest, fun stored => notKnown (List.mem_cons_of_mem _ stored)⟩

/-- Every id of the rows is known before or adopted. -/
theorem mem_newRows_ids {known rows : List Text} {id : Text} (member : id ∈ rows.map rowId) :
    id ∈ known ∨ id ∈ (newRows known rows).map rowId := by
  induction rows generalizing known with
  | nil => simp at member
  | cons row rest ih =>
      simp only [newRows]
      split
      · rename_i stored
        rcases List.mem_cons.mp member with rfl | later
        · exact .inl stored
        · exact ih later
      · rw [List.map_cons, List.mem_cons]
        rcases List.mem_cons.mp member with here | later
        · exact .inr (.inl here)
        · have earlier : id ∈ rowId row :: known ∨ id ∈ (newRows (rowId row :: known) rest).map rowId := ih later
          rcases earlier with met | adopted
          · rcases List.mem_cons.mp met with here | old
            · exact .inr (.inl here)
            · exact .inl old
          · exact .inr (.inr adopted)

theorem nodup_newRows {known : List Text} (distinct : known.Nodup) (rows : List Text) :
    ((newRows known rows).map rowId ++ known).Nodup := by
  induction rows generalizing known with
  | nil => exact distinct
  | cons row rest ih =>
      rw [newRows]
      split
      · exact ih distinct
      · rename_i absent
        have later := ih (List.nodup_cons.mpr ⟨absent, distinct⟩)
        rw [List.map_cons, List.cons_append]
        exact List.perm_middle.nodup_iff.mp later

theorem of_readable {row : Text} (readable : Readable row) :
    Json.findString row kClOrdId = some (rowId row) ∧ Json.findString row kState = some (field row kState) := by
  obtain ⟨clOrdId, first⟩ := Option.isSome_iff_exists.mp readable.1
  obtain ⟨state, second⟩ := Option.isSome_iff_exists.mp readable.2
  simp [rowId, field, first, second]

namespace Engine

/-- The engine after adopting orders: only the store and a clock have moved. -/
structure Adopts (before : Engine D) (rows : List Text) (after : Engine D) : Prop where
  frame : ∃ clock, after = { before with steadyClock := clock, store := after.store }
  orders : ∃ adopted, after.store.orders.Perm (adopted ++ before.store.orders) ∧
    List.Forall₂ AdoptedAs (newRows before.store.ids rows) adopted
  idle : newRows before.store.ids rows = [] → after.store = before.store

theorem adopts_nil (engine : Engine D) : Adopts engine [] engine where
  frame := ⟨engine.steadyClock, rfl⟩
  orders := ⟨[], List.Perm.refl _, List.Forall₂.nil⟩
  idle _ := rfl

theorem clOrdId_of_adoptedAs {row : Text} {order : Order} (as : AdoptedAs row order) :
    order.clOrdId = rowId row := by
  obtain ⟨type, now, -, rfl⟩ := as
  rfl

theorem ids_of_adopted {rows : List Text} {adopted : List Order} (each : List.Forall₂ AdoptedAs rows adopted) :
    adopted.map Order.clOrdId = rows.map rowId := by
  induction each with
  | nil => rfl
  | cons as _ ih => rw [List.map_cons, List.map_cons, ih, clOrdId_of_adoptedAs as]

theorem exists_of_forall₂ {α β : Type} {related : α → β → Prop} {left : List α} {right : List β}
    (each : List.Forall₂ related left right) {item : α} (member : item ∈ left) :
    ∃ other ∈ right, related item other := by
  induction each with
  | nil => simp at member
  | cons here _ ih =>
      rcases List.mem_cons.mp member with rfl | later
      · exact ⟨_, List.mem_cons_self, here⟩
      · obtain ⟨other, otherMember, holds⟩ := ih later
        exact ⟨other, List.mem_cons_of_mem _ otherMember, holds⟩

namespace Adopts

variable {before after : Engine D} {rows : List Text}

theorem kept (adopts : Adopts before rows after) {order : Order} (member : order ∈ before.store.orders) :
    order ∈ after.store.orders := by
  obtain ⟨adopted, perm, -⟩ := adopts.orders
  exact perm.mem_iff.mpr (List.mem_append_right _ member)

theorem adopted (adopts : Adopts before rows after) {row : Text} (new : row ∈ newRows before.store.ids rows) :
    ∃ order ∈ after.store.orders, AdoptedAs row order := by
  obtain ⟨adopted, perm, each⟩ := adopts.orders
  obtain ⟨order, member, as⟩ := exists_of_forall₂ each new
  exact ⟨order, perm.mem_iff.mpr (List.mem_append_left _ member), as⟩

theorem of_mem (adopts : Adopts before rows after) {order : Order} (member : order ∈ after.store.orders) :
    order ∈ before.store.orders ∨ ∃ row ∈ newRows before.store.ids rows, AdoptedAs row order := by
  obtain ⟨adopted, perm, each⟩ := adopts.orders
  rcases List.mem_append.mp (perm.mem_iff.mp member) with new | old
  · exact .inr (exists_of_forall₂ each.flip new)
  · exact .inl old

theorem size (adopts : Adopts before rows after) :
    after.store.size = (newRows before.store.ids rows).length + before.store.size := by
  obtain ⟨adopted, perm, each⟩ := adopts.orders
  rw [OrderStore.size, perm.length_eq, List.length_append, each.length_eq]
  rfl

theorem ids_perm (adopts : Adopts before rows after) :
    after.store.ids.Perm ((newRows before.store.ids rows).map rowId ++ before.store.ids) := by
  obtain ⟨adopted, perm, each⟩ := adopts.orders
  have renamed := perm.map Order.clOrdId
  rw [List.map_append, ids_of_adopted each] at renamed
  exact renamed

theorem nodup (adopts : Adopts before rows after) (distinct : before.store.ids.Nodup) : after.store.ids.Nodup :=
  adopts.ids_perm.nodup_iff.mpr (nodup_newRows distinct rows)

theorem mem_ids (adopts : Adopts before rows after) {id : Text} :
    id ∈ after.store.ids ↔ id ∈ before.store.ids ∨ id ∈ rows.map rowId := by
  constructor
  · intro stored
    obtain ⟨order, member, rfl⟩ := OrderStore.mem_ids.mp stored
    rcases adopts.of_mem member with old | ⟨row, new, as⟩
    · exact .inl (OrderStore.mem_ids.mpr ⟨order, old, rfl⟩)
    · rw [clOrdId_of_adoptedAs as]
      exact .inr (List.mem_map_of_mem (of_mem_newRows new).1)
  · have fromOld : id ∈ before.store.ids → id ∈ after.store.ids := by
      intro stored
      obtain ⟨order, member, rfl⟩ := OrderStore.mem_ids.mp stored
      exact OrderStore.mem_ids.mpr ⟨order, adopts.kept member, rfl⟩
    rintro (old | named)
    · exact fromOld old
    · have met : id ∈ before.store.ids ∨ id ∈ (newRows before.store.ids rows).map rowId := mem_newRows_ids named
      rcases met with old | new
      · exact fromOld old
      · obtain ⟨row, isNew, rfl⟩ := List.mem_map.mp new
        obtain ⟨order, member, as⟩ := adopts.adopted isNew
        exact OrderStore.mem_ids.mpr ⟨order, member, clOrdId_of_adoptedAs as⟩

end Adopts

theorem adopt_known {engine : Engine D} {clOrdId : Text} (stored : clOrdId ∈ engine.store.ids)
    (state order : Text) : adopt clOrdId state order engine = .ok .unit engine := by
  rw [adopt, run_bind_ok (run_get _)]
  cases found : engine.store.findByClOrdId clOrdId with
  | none => exact absurd stored (OrderStore.findByClOrdId_eq_none_iff.mp found)
  | some known => rfl

theorem adopt_unclassified {engine : Engine D} {clOrdId state : Text} (absent : clOrdId ∉ engine.store.ids)
    {exception : Exn} (unclassified : classifyPendingState state = .error exception) (order : Text) :
    adopt clOrdId state order engine = .error exception engine := by
  have missing := OrderStore.findByClOrdId_eq_none_iff.mpr absent
  rw [adopt, run_bind_ok (run_get _), missing]
  dsimp only
  rw [run_bind, run_lift, unclassified]

theorem adopt_full {engine : Engine D} {clOrdId state : Text} (absent : clOrdId ∉ engine.store.ids)
    {type : OrderEventType} (classified : classifyPendingState state = .ok type)
    (full : engine.store.size = OrderStore.kCapacity) (order : Text) :
    ∃ exception, adopt clOrdId state order engine =
      .error exception { engine with steadyClock := engine.steadyClock.tick } := by
  have missing := OrderStore.findByClOrdId_eq_none_iff.mpr absent
  have refused (new : Order) : ∃ exception, engine.store.add new = .error exception := by
    unfold OrderStore.add
    rw [dif_neg (by unfold OrderStore.size at full; omega)]
    exact ⟨_, rfl⟩
  obtain ⟨exception, refused⟩ := refused (Order.create clOrdId (field order kInstId) (field order kSide)
    (field order kPx) (field order kSz) engine.steadyClock.now)
  refine ⟨exception, ?_⟩
  rw [adopt, run_bind_ok (run_get _), missing]
  dsimp only
  rw [run_bind, run_lift, classified]
  dsimp only
  rw [run_bind, run_addOrder]
  simp only [pendingEvent, refused]

theorem adopt_new {engine : Engine D} {clOrdId state : Text} (absent : clOrdId ∉ engine.store.ids)
    {type : OrderEventType} (classified : classifyPendingState state = .ok type)
    (room : engine.store.size < OrderStore.kCapacity) (order : Text) :
    ∃ store, adopt clOrdId state order engine =
        .ok .unit { engine with steadyClock := engine.steadyClock.tick, store := store } ∧
      store.orders.Perm (adoptedOrder type clOrdId order engine.steadyClock.now :: engine.store.orders) := by
  have missing := OrderStore.findByClOrdId_eq_none_iff.mpr absent
  obtain ⟨added, add⟩ := OrderStore.add_isOk (Order.create clOrdId (field order kInstId) (field order kSide)
    (field order kPx) (field order kSz) engine.steadyClock.now) room
  have applied := applyEvent_create (D := D) (classifyPendingState_eq classified) clOrdId order
    engine.steadyClock.now
  obtain ⟨written, updated, perm⟩ := OrderStore.update_added
    (.applyEvent (pendingEvent type clOrdId order : OrderEvent D)) add absent applied
  have writes : added.update clOrdId (.applyEvent (pendingEvent type clOrdId order : OrderEvent D)) =
      .ok .unit written := updated
  refine ⟨written, ?_, perm⟩
  have stored : clOrdId ∈ added.ids := (OrderStore.ids_perm_add add).mem_iff.mpr List.mem_cons_self
  have adds : addOrder (pendingEvent type clOrdId order : OrderEvent D).clOrdId
      (pendingEvent type clOrdId order : OrderEvent D).instId (pendingEvent type clOrdId order : OrderEvent D).side
      (pendingEvent type clOrdId order : OrderEvent D).px (pendingEvent type clOrdId order : OrderEvent D).sz engine =
      .ok .unit { engine with steadyClock := engine.steadyClock.tick, store := added } := by
    rw [run_addOrder]
    simp only [pendingEvent, add]
  rw [adopt, run_bind_ok (run_get _), missing]
  dsimp only
  rw [run_bind, run_lift, classified]
  dsimp only
  rw [run_bind_ok adds, run_bind_ok (run_get _)]
  cases found : added.findByClOrdId clOrdId with
  | none => exact absurd stored (OrderStore.findByClOrdId_eq_none_iff.mp found)
  | some found => simp only [updateOrder, writes]

theorem reconcileRow_unreadable {row : Text} (unreadable : ¬ Readable row) (engine : Engine D)
    (ids : List Text) : ∃ exception, reconcileRow row (engine, ids) = .error exception (engine, ids) := by
  unfold reconcileRow
  cases first : Json.findString row kClOrdId with
  | none => exact ⟨_, rfl⟩
  | some clOrdId =>
      cases second : Json.findString row kState with
      | none => exact ⟨_, rfl⟩
      | some state => exact absurd ⟨by simp [first], by simp [second]⟩ unreadable

theorem reconcileRow_readable {row : Text} (readable : Readable row) (engine : Engine D) (ids : List Text) :
    reconcileRow row (engine, ids) =
      onFirst (adopt (rowId row) (field row kState) row) (engine, rowId row :: ids) := by
  obtain ⟨first, second⟩ := of_readable readable
  unfold reconcileRow
  rw [first, second]
  rfl

theorem adopts_known {before after : Engine D} {row : Text} {rows : List Text}
    (stored : rowId row ∈ before.store.ids) (adopts : Adopts before rows after) :
    Adopts before (row :: rows) after where
  frame := adopts.frame
  orders := by
    rw [newRows, if_pos stored]
    exact adopts.orders
  idle := by
    rw [newRows, if_pos stored]
    exact adopts.idle

theorem adopts_new {before middle after : Engine D} {row : Text} {rows : List Text} {order : Order}
    (absent : rowId row ∉ before.store.ids) (as : AdoptedAs row order)
    (frame : ∃ clock, middle = { before with steadyClock := clock, store := middle.store })
    (perm : middle.store.orders.Perm (order :: before.store.orders)) (adopts : Adopts middle rows after) :
    Adopts before (row :: rows) after where
  frame := by
    obtain ⟨first, framed⟩ := frame
    obtain ⟨second, kept⟩ := adopts.frame
    refine ⟨second, ?_⟩
    rw [framed] at kept
    exact kept
  orders := by
    obtain ⟨adopted, total, each⟩ := adopts.orders
    have named : order.clOrdId = rowId row := by
      obtain ⟨type, now, -, rfl⟩ := as
      rfl
    have idsPerm : middle.store.ids.Perm (rowId row :: before.store.ids) :=
      named ▸ perm.map Order.clOrdId
    rw [newRows, if_neg absent, ← newRows_congr fun id => idsPerm.mem_iff]
    refine ⟨order :: adopted, ?_, List.Forall₂.cons as each⟩
    exact total.trans ((perm.append_left adopted).trans List.perm_middle)
  idle := by
    rw [newRows, if_neg absent]
    intro none_new
    cases none_new

/-- A row either stops the loop, with nothing stored, or extends what is adopted. -/
theorem reconcileRow_cases (row : Text) (engine : Engine D) (ids : List Text) :
    (∃ exception next seen, reconcileRow row (engine, ids) = .error exception (next, seen) ∧
      Adopts engine [] next ∧ Stops next.store row) ∨
    ∃ middle, Readable row ∧ reconcileRow row (engine, ids) = .ok .unit (middle, rowId row :: ids) ∧
      ∀ done next, Adopts middle done next → Adopts engine (row :: done) next := by
  by_cases readable : Readable row
  · rw [reconcileRow_readable readable, onFirst]
    by_cases stored : rowId row ∈ engine.store.ids
    · rw [adopt_known stored]
      exact .inr ⟨engine, readable, rfl, fun done next => adopts_known stored⟩
    · cases classified : classifyPendingState (field row kState) with
      | error exception =>
          rw [adopt_unclassified stored classified]
          refine .inl ⟨_, _, _, rfl, adopts_nil engine, fun _ => ⟨stored, .inl ?_⟩⟩
          rw [classified]
          rfl
      | ok type =>
          by_cases full : engine.store.size = OrderStore.kCapacity
          · obtain ⟨exception, threw⟩ := adopt_full stored classified full row
            rw [threw]
            exact .inl ⟨_, _, _, rfl, ⟨⟨_, rfl⟩, (adopts_nil engine).orders, fun _ => rfl⟩, fun _ => ⟨stored, .inr full⟩⟩
          · obtain ⟨store, added, perm⟩ :=
              adopt_new stored classified (lt_of_le_of_ne engine.store.bounded full) row
            rw [added]
            exact .inr ⟨_, readable, rfl, fun done next =>
              adopts_new stored ⟨type, _, classified, rfl⟩ ⟨_, rfl⟩ perm⟩
  · obtain ⟨exception, threw⟩ := reconcileRow_unreadable readable engine ids
    exact .inl ⟨exception, engine, ids, threw, adopts_nil engine, fun others => absurd others readable⟩

/-- How a loop over rows ends: all are read, or one of them throws after those
before it were read. -/
def RowsOutcome (engine : Engine D) (rows ids : List Text) :
    EStateM.Result Exn (Engine D × List Text) PUnit → Prop
  | .ok _ (next, seen) =>
      seen = (rows.map rowId).reverse ++ ids ∧ (∀ row ∈ rows, Readable row) ∧ Adopts engine rows next
  | .error _ (next, _) =>
      ∃ done row rest, rows = done ++ row :: rest ∧ (∀ other ∈ done, Readable other) ∧
        Adopts engine done next ∧ Stops next.store row

theorem run_rows (rows : List Text) (engine : Engine D) (ids : List Text) :
    RowsOutcome engine rows ids (forM rows reconcileRow (engine, ids)) := by
  induction rows generalizing engine ids with
  | nil => exact ⟨rfl, by simp, adopts_nil engine⟩
  | cons row rows ih =>
      rw [List.forM_cons]
      rcases reconcileRow_cases row engine ids with
        ⟨exception, next, seen, threw, adopts, stops⟩ | ⟨middle, readable, ran, extend⟩
      · rw [run_bind_error threw]
        exact ⟨[], row, rows, rfl, by simp, adopts, stops⟩
      · rw [run_bind_ok ran]
        have later := ih middle (rowId row :: ids)
        revert later
        cases forM rows reconcileRow (middle, rowId row :: ids) with
        | ok value final =>
            rintro ⟨seen, readables, adopts⟩
            refine ⟨by simp [seen], ?_, extend rows _ adopts⟩
            simpa using And.intro readable readables
        | error exception final =>
            rintro ⟨done, other, rest, rfl, readables, adopts, stops⟩
            refine ⟨row :: done, other, rest, rfl, ?_, extend done _ adopts, stops⟩
            simpa using And.intro readable readables

def CollectOutcome (engine : Engine D) (rows : List Text) :
    EStateM.Result Exn (Engine D) (List Text) → Prop
  | .ok seen next => seen = (rows.map rowId).reverse ∧ (∀ row ∈ rows, Readable row) ∧ Adopts engine rows next
  | .error _ next =>
      ∃ done row rest, rows = done ++ row :: rest ∧ (∀ other ∈ done, Readable other) ∧
        Adopts engine done next ∧ Stops next.store row

theorem ne_nil_of_readable {row : Text} (readable : Readable row) : row ≠ [] := by
  rintro rfl
  simp [Readable] at readable

theorem run_collect (response : Text) (engine : Engine D) :
    CollectOutcome engine (pendingRows response) (collectExchangeIds response engine) := by
  have rows := run_rows (pendingRows response) engine []
  rw [collectExchangeIds, withLocal, Json.forEachArrayElement_eq, Json.runElements, run_bind]
  unfold pendingRows at rows ⊢
  cases ran : forM (Json.arrayElements response kData).1 reconcileRow (engine, []) with
  | error exception final =>
      rw [ran] at rows
      exact rows
  | ok value final =>
      rw [ran] at rows
      obtain ⟨seen, readables, adopts⟩ := rows
      -- a readable row is not empty, so the scanner has left the array
      have returns := Json.arrayElements_returns response kData
        fun row member => ne_nil_of_readable (readables row member)
      rw [returns]
      exact ⟨by simpa using seen, readables, adopts⟩

/-!
## Removal
-/

/-- The engine after removals: the listener was called once for each. -/
structure Drops (before : Engine D) (dropped : List Text) (after : Engine D) : Prop where
  frame : after = { before with
    store := after.store
    quoter := dropped.foldl NaiveQuoter.onOrderRemoved before.quoter
    trace := before.trace ++ dropped.map .removed }
  idle : dropped = [] → after.store = before.store

theorem drops_withoutOrder (engine : Engine D) (clOrdId : Text) :
    Drops engine [clOrdId] (engine.withoutOrder clOrdId) :=
  ⟨rfl, fun none_dropped => by cases none_dropped⟩

theorem run_drops (dropped : List Text) (engine : Engine D) (leaving staying : List Order)
    (split : engine.store.orders.Perm (leaving ++ staying))
    (names : (leaving.map Order.clOrdId).Perm dropped)
    (others : ∀ order ∈ staying, order.clOrdId ∉ dropped) :
    ∃ next, forM dropped removeOrder engine = .ok .unit next ∧ Drops engine dropped next ∧
      next.store.orders.Perm staying := by
  induction dropped generalizing engine leaving with
  | nil =>
      have none_leaving : leaving = [] := by simpa using names
      subst none_leaving
      exact ⟨engine, rfl, ⟨by simp, fun _ => rfl⟩, split⟩
  | cons clOrdId rest ih =>
      have stored : clOrdId ∈ engine.store.ids := by
        have named : clOrdId ∈ leaving.map Order.clOrdId := names.mem_iff.mpr List.mem_cons_self
        obtain ⟨order, member, same⟩ := List.mem_map.mp named
        exact OrderStore.mem_ids.mpr ⟨order, split.mem_iff.mpr (List.mem_append_left _ member), same⟩
      obtain ⟨order, same, perm⟩ := OrderStore.perm_erase stored
      have leaves : order ∈ leaving := by
        rcases List.mem_append.mp (split.mem_iff.mp (perm.mem_iff.mpr List.mem_cons_self)) with here | stays
        · exact here
        · exact absurd (same ▸ List.mem_cons_self) (others order stays)
      obtain ⟨front, back, rfl⟩ := List.append_of_mem leaves
      have remaining : (engine.store.erase clOrdId).orders.Perm ((front ++ back) ++ staying) := by
        refine (List.Perm.cons_inv (a := order) ?_)
        refine perm.symm.trans (split.trans ?_)
        simp
      have restNames : ((front ++ back).map Order.clOrdId).Perm rest := by
        refine (List.Perm.cons_inv (a := clOrdId) ?_)
        refine List.Perm.trans ?_ names
        rw [List.map_append, List.map_append, List.map_cons, same]
        exact List.perm_middle.symm
      have removed := run_removeOrder engine clOrdId
      rw [if_pos stored] at removed
      obtain ⟨next, ran, drops, stays⟩ := ih (engine.withoutOrder clOrdId) (front ++ back) remaining restNames
        fun other member named => others other member (List.mem_cons_of_mem _ named)
      refine ⟨next, ?_, ⟨?_, fun none_dropped => by cases none_dropped⟩, stays⟩
      · rw [List.forM_cons, run_bind_ok removed, ran]
      · rw [drops.frame]
        simp [withoutOrder]

/-- How reconciliation ends: every row was read, what was new adopted and what no
row names removed; or a row threw, and nothing was removed. -/
def ReconcileOutcome (engine : Engine D) (rows : List Text) : EStateM.Result Exn (Engine D) PUnit → Prop
  | .ok _ next =>
      (∀ row ∈ rows, Readable row) ∧ ∃ middle, Adopts engine rows middle ∧
        Drops middle (toDrop middle.store (rows.map rowId)) next ∧
        next.store.orders.Perm (middle.store.orders.filter fun order => order.clOrdId ∈ rows.map rowId)
  | .error _ next =>
      ∃ done row rest, rows = done ++ row :: rest ∧ (∀ other ∈ done, Readable other) ∧
        Adopts engine done next ∧ Stops next.store row

theorem of_mem_toDrop {store : OrderStore} {ids : List Text} {clOrdId : Text} (dropped : clOrdId ∈ toDrop store ids) :
    clOrdId ∈ store.ids ∧ clOrdId ∉ ids := by
  simpa [toDrop, OrderStore.ids] using dropped

theorem toDrop_eq (store : OrderStore) (ids : List Text) :
    toDrop store ids = (store.orders.filter fun order => order.clOrdId ∉ ids).map Order.clOrdId := by
  rw [toDrop, List.filter_map]
  rfl

theorem toDrop_reverse (store : OrderStore) (ids : List Text) : toDrop store ids.reverse = toDrop store ids := by
  simp [toDrop]

theorem run_toDrop (ids : List Text) (engine : Engine D) :
    ∃ next, forM (toDrop engine.store ids) removeOrder engine = .ok .unit next ∧
      Drops engine (toDrop engine.store ids) next ∧
      next.store.orders.Perm (engine.store.orders.filter fun order => order.clOrdId ∈ ids) := by
  have parts := List.filter_append_perm (fun order : Order => order.clOrdId ∉ ids) engine.store.orders
  simp only [decide_not, Bool.not_not] at parts
  refine run_drops _ engine _ _ parts.symm ?_ ?_
  · rw [toDrop_eq]
    simp
  · intro order member named
    rw [toDrop_eq] at named
    obtain ⟨other, unlisted, same⟩ := List.mem_map.mp named
    have absent : other.clOrdId ∉ ids := by simpa using (List.mem_filter.mp unlisted).2
    exact absent (same ▸ by simpa using (List.mem_filter.mp member).2)

theorem reconcileOrders_outcome (response : Text) (engine : Engine D) :
    ReconcileOutcome engine (pendingRows response) (reconcileOrders response engine) := by
  have collected := run_collect response engine
  rw [reconcileOrders, run_bind]
  cases ran : collectExchangeIds response engine with
  | error exception next =>
      rw [ran] at collected
      exact collected
  | ok seen middle =>
      rw [ran] at collected
      obtain ⟨rfl, readables, adopts⟩ := collected
      obtain ⟨next, dropped, drops, stays⟩ := run_toDrop ((pendingRows response).map rowId) middle
      dsimp only
      rw [run_bind_ok (run_get _), toDrop_reverse, dropped]
      exact ⟨readables, middle, adopts, drops, stays⟩

end Engine

end TradingEngine
