import TradingEngine.Orders.OrderStoreArray

/-! The array of slots refines a map from ids to orders with room for 1024, over every
sequence of calls. -/

set_option autoImplicit false

namespace TradingEngine

open Library.Exec Library.SlotArray

inductive StoreCall where
  | add (clOrdId instId side px sz : Text) (now : Int)
  | remove (clOrdId : Text)
  /-- The order found is acted on through the pointer returned. -/
  | find (clOrdId : Text) (action : OrderAction)
  | forEach (action : OrderAction)

def RawStore.call (moved : Order → Order) : StoreCall → EStateM Fault RawStore PUnit
  | .add clOrdId instId side px sz now => add moved clOrdId instId side px sz now
  | .remove clOrdId => remove moved clOrdId
  | .find clOrdId action => do
      match ← findByClOrdId clOrdId with
      | some index => actAt action index
      | none => return .unit
  | .forEach action => forEach action

abbrev OrderMap := Text → Option Order

namespace OrderMap

/-- As many orders as the store has slots. -/
def Full (map : OrderMap) : Prop := {clOrdId | map clOrdId ≠ none}.ncard = OrderStore.kCapacity

/-- A loop in the order of the ids comes to this one. -/
def Visits (map : OrderMap) (action : OrderAction) (clOrdId : Text) : Prop :=
  ∀ earlier order, earlier < clOrdId → map earlier = some order → thrown (action.run order) = none

open Classical in
noncomputable def after (map : OrderMap) : StoreCall → OrderMap
  | .add clOrdId instId side px sz now =>
      if map.Full then map else Function.update map clOrdId (some (Order.create clOrdId instId side px sz now))
  | .remove clOrdId => Function.update map clOrdId none
  | .find clOrdId action =>
      Function.update map clOrdId ((map clOrdId).map fun order => finalState (action.run order))
  | .forEach action => fun clOrdId =>
      if map.Visits action clOrdId then (map clOrdId).map fun order => finalState (action.run order) else map clOrdId

/-- Only an id that is not stored is added. -/
def Admits (map : OrderMap) : StoreCall → Prop
  | .add clOrdId .. => map clOrdId = none
  | _ => True

/-- The exceptions a call may end with. -/
def Throws (map : OrderMap) (exception : Exn) : StoreCall → Prop
  | .add .. => map.Full ∧ exception = .runtimeError "OrderStore is full".toList
  | .remove _ => False
  | .find clOrdId action => ∃ order, map clOrdId = some order ∧ thrown (action.run order) = some exception
  | .forEach action =>
      ∃ clOrdId order, map.Visits action clOrdId ∧ map clOrdId = some order ∧ thrown (action.run order) = some exception

end OrderMap

/-!
## Lookups
-/

namespace OrderStore

theorem strictly_sorted {store : OrderStore} (distinct : store.ids.Nodup) :
    store.orders.Pairwise fun left right => left.clOrdId < right.clOrdId := by
  have different : store.orders.Pairwise fun left right => left.clOrdId ≠ right.clOrdId := List.pairwise_map.mp distinct
  exact (store.sorted.and different).imp fun both => lt_of_le_of_ne both.1 both.2

theorem findByClOrdId_eq_some_iff {store : OrderStore} (distinct : store.ids.Nodup) {clOrdId : Text} {order : Order} :
    store.findByClOrdId clOrdId = some order ↔ order ∈ store.orders ∧ order.clOrdId = clOrdId := by
  constructor
  · exact of_findByClOrdId
  · rintro ⟨member, rfl⟩
    exact findByClOrdId_of_mem distinct member

theorem full_iff {store : OrderStore} (distinct : store.ids.Nodup) :
    OrderMap.Full store.findByClOrdId ↔ store.orders.length = kCapacity := by
  have stored : {clOrdId | store.findByClOrdId clOrdId ≠ none} = (store.ids.toFinset : Set Text) := by
    ext clOrdId
    simp [findByClOrdId_eq_none_iff]
  rw [OrderMap.Full, stored, Set.ncard_coe_finset, List.toFinset_card_of_nodup distinct, ids, List.length_map]

theorem findByClOrdId_add {store added : OrderStore} (distinct : store.ids.Nodup) {order : Order}
    (fresh : order.clOrdId ∉ store.ids) (inserted : store.add order = .ok added) :
    added.ids.Nodup ∧ added.findByClOrdId = Function.update store.findByClOrdId order.clOrdId (some order) := by
  have perm := perm_add inserted
  have nodup : added.ids.Nodup := (ids_perm_add inserted).nodup_iff.mpr (List.nodup_cons.mpr ⟨fresh, distinct⟩)
  refine ⟨nodup, funext fun clOrdId => ?_⟩
  by_cases same : clOrdId = order.clOrdId
  · subst same
    rw [Function.update_self]
    exact findByClOrdId_of_mem nodup (perm.mem_iff.mpr List.mem_cons_self)
  · rw [Function.update_of_ne same]
    refine findByClOrdId_unchanged distinct (fun other member named => ?_) fun stored => ?_
    · rcases List.mem_cons.mp (perm.mem_iff.mp member) with rfl | old
      · exact absurd named.symm same
      · exact old
    · exact (ids_perm_add inserted).mem_iff.mpr (List.mem_cons_of_mem _ stored)

theorem findByClOrdId_erase {store : OrderStore} (distinct : store.ids.Nodup) (clOrdId : Text) :
    (store.erase clOrdId).findByClOrdId = Function.update store.findByClOrdId clOrdId none := by
  funext other
  by_cases same : other = clOrdId
  · subst same
    rw [Function.update_self, findByClOrdId_eq_none_iff, mem_ids_erase distinct]
    exact fun both => both.2 rfl
  · rw [Function.update_of_ne same, findByClOrdId_erase_of_ne distinct same]

theorem findByClOrdId_acted {store : OrderStore} (distinct : store.ids.Nodup) (clOrdId : Text) (action : OrderAction) :
    (finalState (store.update clOrdId action)).findByClOrdId =
      Function.update store.findByClOrdId clOrdId
        ((store.findByClOrdId clOrdId).map fun order => finalState (action.run order)) := by
  funext other
  by_cases same : other = clOrdId
  · subst same
    rw [Function.update_self]
    cases found : store.findByClOrdId other with
    | some order => exact findByClOrdId_update found action
    | none =>
        rw [update_of_not_mem (findByClOrdId_eq_none_iff.mp found)]
        exact found
  · rw [Function.update_of_ne same, findByClOrdId_other distinct action same]

theorem ids_visited (action : OrderAction) (orders : List Order) :
    (RawStore.visited action orders).map Order.clOrdId = orders.map Order.clOrdId := by
  induction orders with
  | nil => rfl
  | cons order rest ih =>
      rw [RawStore.visited, List.map_cons, List.map_cons, action.keepsId]
      split
      · rw [ih]
      · rfl

/-- A loop that acts on the orders one after the other comes to this one. -/
def Comes (action : OrderAction) (orders : List Order) (order : Order) : Prop :=
  ∀ earlier ∈ orders, earlier.clOrdId < order.clOrdId → thrown (action.run earlier) = none

theorem comes_head (action : OrderAction) {head : Order} {rest : List Order}
    (first : ∀ order ∈ rest, head.clOrdId < order.clOrdId) : Comes action (head :: rest) head := by
  intro earlier member before
  rcases List.mem_cons.mp member with rfl | inRest
  · exact absurd before (lt_irrefl _)
  · exact absurd before (lt_asymm (first earlier inRest))

theorem comes_rest {action : OrderAction} {head order : Order} {rest : List Order} (before : head.clOrdId < order.clOrdId) :
    Comes action (head :: rest) order ↔ thrown (action.run head) = none ∧ Comes action rest order := by
  constructor
  · intro comes
    exact ⟨comes head List.mem_cons_self before, fun earlier member => comes earlier (List.mem_cons_of_mem _ member)⟩
  · rintro ⟨returns, comes⟩ earlier member
    rcases List.mem_cons.mp member with rfl | inRest
    · exact fun _ => returns
    · exact comes earlier inRest

/-- A loop over sorted orders acts on those it comes to and leaves the others. -/
theorem mem_visited (action : OrderAction) {orders : List Order}
    (sorted : orders.Pairwise fun left right => left.clOrdId < right.clOrdId) {order : Order} (member : order ∈ orders) :
    Comes action orders order ∧ finalState (action.run order) ∈ RawStore.visited action orders ∨
      ¬Comes action orders order ∧ order ∈ RawStore.visited action orders := by
  induction orders with
  | nil => cases member
  | cons head rest ih =>
      rw [List.pairwise_cons] at sorted
      obtain ⟨first, later⟩ := sorted
      rw [RawStore.visited]
      rcases List.mem_cons.mp member with rfl | inRest
      · exact .inl ⟨comes_head action first, List.mem_cons_self⟩
      · rw [comes_rest (first order inRest)]
        by_cases returns : thrown (action.run head) = none
        · rw [if_pos returns]
          rcases ih later inRest with ⟨comes, acted⟩ | ⟨misses, kept⟩
          · exact .inl ⟨⟨returns, comes⟩, List.mem_cons_of_mem _ acted⟩
          · exact .inr ⟨fun both => misses both.2, List.mem_cons_of_mem _ kept⟩
        · rw [if_neg returns]
          exact .inr ⟨fun both => returns both.1, List.mem_cons_of_mem _ inRest⟩

theorem of_firstThrown (action : OrderAction) {orders : List Order}
    (sorted : orders.Pairwise fun left right => left.clOrdId < right.clOrdId) {exception : Exn}
    (threw : RawStore.firstThrown action orders = some exception) :
    ∃ order ∈ orders, Comes action orders order ∧ thrown (action.run order) = some exception := by
  induction orders with
  | nil => cases threw
  | cons head rest ih =>
      rw [List.pairwise_cons] at sorted
      obtain ⟨first, later⟩ := sorted
      rw [RawStore.firstThrown] at threw
      cases outcome : thrown (action.run head) with
      | some other =>
          rw [outcome] at threw
          exact ⟨head, List.mem_cons_self, comes_head action first, outcome.trans threw⟩
      | none =>
          rw [outcome] at threw
          obtain ⟨order, member, comes, same⟩ := ih later threw
          exact ⟨order, List.mem_cons_of_mem _ member, (comes_rest (first order member)).mpr ⟨outcome, comes⟩, same⟩

/-- The loop of the list is the loop of the map. -/
theorem visits_iff {store : OrderStore} (distinct : store.ids.Nodup) (action : OrderAction) (order : Order) :
    OrderMap.Visits store.findByClOrdId action order.clOrdId ↔ Comes action store.orders order := by
  constructor
  · intro visits earlier member before
    exact visits _ _ before (findByClOrdId_of_mem distinct member)
  · intro comes clOrdId earlier before found
    obtain ⟨member, rfl⟩ := of_findByClOrdId found
    exact comes earlier member before

theorem findByClOrdId_visited {store : OrderStore} (distinct : store.ids.Nodup) (action : OrderAction) (next : OrderStore)
    (orders : next.orders = RawStore.visited action store.orders) :
    next.ids.Nodup ∧ next.findByClOrdId = OrderMap.after store.findByClOrdId (.forEach action) := by
  have sameIds : next.ids = store.ids := by
    rw [ids, orders]
    exact ids_visited action store.orders
  have nodup : next.ids.Nodup := sameIds ▸ distinct
  refine ⟨nodup, funext fun clOrdId => ?_⟩
  rw [OrderMap.after]
  beta_reduce
  cases found : store.findByClOrdId clOrdId with
  | none =>
      have absent := findByClOrdId_eq_none_iff.mp found
      rw [Option.map_none, ite_self, findByClOrdId_eq_none_iff, sameIds]
      exact absent
  | some order =>
      obtain ⟨member, rfl⟩ := of_findByClOrdId found
      rw [Option.map_some]
      rcases mem_visited action (strictly_sorted distinct) member with ⟨comes, acted⟩ | ⟨misses, kept⟩
      · rw [if_pos ((visits_iff distinct action order).mpr comes)]
        exact (findByClOrdId_eq_some_iff nodup).mpr ⟨orders ▸ acted, action.keepsId order⟩
      · rw [if_neg fun visits => misses ((visits_iff distinct action order).mp visits)]
        exact (findByClOrdId_eq_some_iff nodup).mpr ⟨orders ▸ kept, rfl⟩

theorem mem_erase {store : OrderStore} (distinct : store.ids.Nodup) (clOrdId : Text) (order : Order) :
    order ∈ (store.erase clOrdId).orders ↔ order ∈ store.orders ∧ order.clOrdId ≠ clOrdId := by
  have found := congrFun (findByClOrdId_erase distinct clOrdId) order.clOrdId
  constructor
  · intro member
    have kept := (mem_ids_erase distinct).mp (mem_ids.mpr ⟨order, member, rfl⟩)
    exact ⟨mem_of_mem_erase member, kept.2⟩
  · rintro ⟨member, different⟩
    rw [Function.update_of_ne different, findByClOrdId_of_mem distinct member] at found
    exact (of_findByClOrdId found).1

end OrderStore

/-!
## Runs
-/

namespace RawStore

/-- The store in a state in which it stands for the map, and what each call does there. -/
structure StandsFor (moved : Order → Order) (raw : RawStore) (map : OrderMap) : Prop where
  slots : raw.slots.length = 1024
  engaged : ∀ index, (∃ order, raw.slots[index]? = some (some order)) ↔ index < raw.count
  sorted : ∀ (index other : Nat) (left right : Order), index < other → raw.slots[index]? = some (some left) →
    raw.slots[other]? = some (some right) → left.clOrdId < right.clOrdId
  reads : ∀ index, index < raw.count → ∃ order, raw.slots[index]? = some (some order) ∧ atSlot index raw = .ok order raw
  finds : ∀ clOrdId order, map clOrdId = some order →
    ∃ index, findByClOrdId clOrdId raw = .ok (some index) raw ∧ raw.slots[index]? = some (some order)
  findsNothing : ∀ clOrdId, map clOrdId = none → findByClOrdId clOrdId raw = .ok none raw
  removes : ∀ clOrdId order, map clOrdId = some order → ∃ next, remove moved clOrdId raw = .ok .unit next ∧
    next.notified = (if raw.listening then raw.notified ++ [clOrdId] else raw.notified) ∧
    next.count + 1 = raw.count ∧ ∀ other, some other ∈ next.slots ↔ some other ∈ raw.slots ∧ other.clOrdId ≠ clOrdId
  removesNothing : ∀ clOrdId, map clOrdId = none → remove moved clOrdId raw = .ok .unit raw
  full : map.Full ↔ raw.count = 1024
  refuses : ∀ clOrdId instId side px sz now, map.Full →
    add moved clOrdId instId side px sz now raw = .error (.thrown (.runtimeError "OrderStore is full".toList)) raw
  throws : ∀ storeCall fault next, map.Admits storeCall → call moved storeCall raw = .error fault next →
    ∃ exception, fault = .thrown exception ∧ map.Throws exception storeCall

variable {moved : Order → Order} {raw : RawStore} {store : OrderStore}

theorem Holds.slot_iff (holds : raw.Holds store.orders) (index : Nat) (order : Order) :
    raw.slots[index]? = some (some order) ↔ store.orders[index]? = some order := by
  constructor
  · intro here
    rw [holds.slots] at here
    by_cases inside : index < store.orders.length
    · rw [List.getElem?_append_left (by simpa using inside), List.getElem?_map] at here
      simpa using here
    · rw [List.getElem?_append_right (by simpa using inside), List.getElem?_replicate] at here
      split at here <;> simp at here
  · exact holds.slot

theorem Holds.mem_slots (holds : raw.Holds store.orders) (order : Order) : some order ∈ raw.slots ↔ order ∈ store.orders := by
  rw [holds.slots, List.mem_append]
  simp

/-- A call on the slots does to them what it does to the map, and throws what it may. -/
def Simulates (moved : Order → Order) (raw : RawStore) (store : OrderStore) (storeCall : StoreCall) : Prop :=
  ∃ (next : OrderStore) (exception : Option Exn) (final : RawStore), call moved storeCall raw = raise exception final ∧
    final.Holds next.orders ∧ next.ids.Nodup ∧ next.findByClOrdId = OrderMap.after store.findByClOrdId storeCall ∧
    ∀ threw ∈ exception, OrderMap.Throws store.findByClOrdId threw storeCall

section

variable (holds : raw.Holds store.orders) (distinct : store.ids.Nodup)

include holds distinct

theorem simulates_add {clOrdId : Text} (fresh : store.findByClOrdId clOrdId = none) (instId side px sz : Text) (now : Int) :
    Simulates moved raw store (.add clOrdId instId side px sz now) := by
  by_cases full : store.orders.length = OrderStore.kCapacity
  · have isFull := (OrderStore.full_iff distinct).mpr full
    refine ⟨store, some (.runtimeError "OrderStore is full".toList), raw,
      holds.add_full moved full clOrdId instId side px sz now, holds, distinct, ?_, ?_⟩
    · rw [OrderMap.after, if_pos isFull]
    · rintro threw ⟨⟩
      exact ⟨isFull, rfl⟩
  · have room : store.orders.length < OrderStore.kCapacity := lt_of_le_of_ne store.bounded full
    obtain ⟨slots, added, ran, inserted, held⟩ := holds.add moved room clOrdId instId side px sz now
    obtain ⟨nodup, found⟩ :=
      OrderStore.findByClOrdId_add distinct (OrderStore.findByClOrdId_eq_none_iff.mp fresh) inserted
    refine ⟨added, none, _, ran, held, nodup, ?_, by simp⟩
    rw [OrderMap.after, if_neg fun isFull => full ((OrderStore.full_iff distinct).mp isFull)]
    exact found

theorem simulates_remove (clOrdId : Text) : Simulates moved raw store (.remove clOrdId) := by
  have erased := OrderStore.findByClOrdId_erase distinct clOrdId
  cases located : store.locate clOrdId with
  | none =>
      rw [OrderStore.erase_of_not_mem (OrderStore.locate_eq_none_iff.mp located)] at erased
      exact ⟨store, none, raw, holds.remove_absent moved located, holds, distinct, erased, by simp⟩
  | some entry =>
      obtain ⟨slots, ran, held⟩ := holds.remove moved located
      exact ⟨store.erase clOrdId, none, _, ran, held, OrderStore.nodup_erase distinct clOrdId, erased, by simp⟩

theorem simulates_find (clOrdId : Text) (action : OrderAction) : Simulates moved raw store (.find clOrdId action) := by
  have acted := OrderStore.findByClOrdId_acted distinct clOrdId action
  have nodup : (finalState (store.update clOrdId action)).ids.Nodup := by
    rw [OrderStore.ids_update]
    exact distinct
  rw [Simulates, RawStore.call, run_bind_ok (holds.findByClOrdId clOrdId)]
  cases located : store.locate clOrdId with
  | none =>
      rw [OrderStore.update_of_not_mem (OrderStore.locate_eq_none_iff.mp located)] at acted
      exact ⟨store, none, raw, rfl, holds, distinct, acted, by simp⟩
  | some entry =>
      obtain ⟨index, order⟩ := entry
      obtain ⟨-, here, named⟩ := OrderStore.locate_eq_some located
      obtain ⟨front, back, whole, depth, -⟩ := exists_middle here
      have held := holds
      rw [whole] at held
      obtain ⟨slots, ran, kept⟩ := held.actAt action depth
      rw [← set_middle depth, ← whole, ← OrderStore.finalState_update_of_locate located action] at kept
      refine ⟨_, _, _, ran, kept, nodup, acted, fun threw outcome => ⟨order, ?_, outcome⟩⟩
      rw [OrderStore.findByClOrdId, located]
      rfl

theorem simulates_forEach (action : OrderAction) : Simulates moved raw store (.forEach action) := by
  have start : raw.Holds ([] ++ store.orders) := holds
  obtain ⟨slots, ran, kept⟩ := start.forEachFrom action rfl le_rfl
  have ids := OrderStore.ids_visited action store.orders
  have sorted : (visited action store.orders).Pairwise fun left right => left.clOrdId ≤ right.clOrdId := by
    rw [← List.pairwise_map (f := Order.clOrdId) (R := (· ≤ ·)), ids, List.pairwise_map]
    exact store.sorted
  have bounded : (visited action store.orders).length ≤ OrderStore.kCapacity := by
    have lengths := congrArg List.length ids
    rw [List.length_map, List.length_map] at lengths
    rw [lengths]
    exact store.bounded
  obtain ⟨nodup, found⟩ := OrderStore.findByClOrdId_visited distinct action ⟨_, sorted, bounded⟩ rfl
  refine ⟨⟨_, sorted, bounded⟩, firstThrown action store.orders, { raw with slots := slots }, ?_, kept, nodup, found,
    fun threw outcome => ?_⟩
  · rw [← holds.count] at ran
    exact ran
  · obtain ⟨order, member, comes, threwHere⟩ :=
      OrderStore.of_firstThrown action (OrderStore.strictly_sorted distinct) outcome
    exact ⟨order.clOrdId, order, (OrderStore.visits_iff distinct action order).mpr comes,
      OrderStore.findByClOrdId_of_mem distinct member, threwHere⟩

theorem simulates_call {storeCall : StoreCall} (admitted : OrderMap.Admits store.findByClOrdId storeCall) :
    Simulates moved raw store storeCall := by
  cases storeCall with
  | add clOrdId instId side px sz now => exact simulates_add holds distinct admitted instId side px sz now
  | remove clOrdId => exact simulates_remove holds distinct clOrdId
  | find clOrdId action => exact simulates_find holds distinct clOrdId action
  | forEach action => exact simulates_forEach holds distinct action

theorem standsFor : raw.StandsFor moved store.findByClOrdId where
  slots := by
    have bounded : store.orders.length ≤ 1024 := store.bounded
    rw [holds.slots, List.length_append, List.length_map, List.length_replicate, OrderStore.kCapacity]
    omega
  engaged index := by
    constructor
    · rintro ⟨order, here⟩
      exact holds.within ((holds.slot_iff index order).mp here)
    · intro inside
      rw [holds.count] at inside
      exact ⟨_, holds.slot (List.getElem?_eq_getElem inside)⟩
  sorted index other left right before first second := by
    rw [holds.slot_iff] at first second
    have sorted := OrderStore.strictly_sorted distinct
    rw [List.pairwise_iff_getElem] at sorted
    obtain ⟨inside, rfl⟩ := List.getElem?_eq_some_iff.mp first
    obtain ⟨within, rfl⟩ := List.getElem?_eq_some_iff.mp second
    exact sorted index other inside within before
  reads index inside := by
    rw [holds.count] at inside
    have here := List.getElem?_eq_getElem inside
    exact ⟨_, holds.slot here, holds.atSlot here⟩
  finds clOrdId order found := by
    obtain ⟨⟨index, other⟩, located, rfl⟩ := Option.map_eq_some_iff.mp found
    refine ⟨index, ?_, holds.slot (OrderStore.locate_eq_some located).2.1⟩
    rw [holds.findByClOrdId, located]
    rfl
  findsNothing clOrdId absent := by
    rw [holds.findByClOrdId, Option.map_eq_none_iff.mp absent]
    rfl
  removes clOrdId order found := by
    obtain ⟨⟨index, other⟩, located, rfl⟩ := Option.map_eq_some_iff.mp found
    obtain ⟨slots, ran, held⟩ := holds.remove moved located
    have stored := (holds.within (OrderStore.locate_eq_some located).2.1)
    refine ⟨_, ran, rfl, Nat.succ_pred_eq_of_pos (Nat.zero_lt_of_lt stored), fun order => ?_⟩
    rw [held.mem_slots, holds.mem_slots, OrderStore.mem_erase distinct]
  removesNothing clOrdId absent := holds.remove_absent moved (Option.map_eq_none_iff.mp absent)
  full := by
    rw [OrderStore.full_iff distinct, holds.count]
    rfl
  refuses clOrdId instId side px sz now full :=
    holds.add_full moved ((OrderStore.full_iff distinct).mp full) clOrdId instId side px sz now
  throws storeCall fault next admitted threw := by
    have simulated : Simulates moved raw store storeCall := simulates_call holds distinct admitted
    obtain ⟨-, exception, final, ran, -, -, -, explained⟩ := simulated
    rw [ran] at threw
    cases exception with
    | none => cases threw
    | some exception =>
        cases threw
        exact ⟨exception, rfl, explained exception rfl⟩

end

/-- The slots and the map take the same call. -/
noncomputable def callBoth (moved : Order → Order) (storeCall : StoreCall) : EStateM Exn (RawStore × OrderMap) PUnit :=
  fun current => .ok .unit (finalState (call moved storeCall current.1), current.2.after storeCall)

/-- Over every sequence of calls the store is a map with room for 1024 orders. -/
theorem order_store_refines_map (moved : Order → Order) (listening : Bool) {raw : RawStore} {map : OrderMap}
    (run : Reaches (callBoth moved) (fun current => current.2.Admits) (create listening, fun _ => none) (raw, map)) :
    raw.StandsFor moved map := by
  have kept := run.invariant
    (fun current => ∃ store : OrderStore, current.1.Holds store.orders ∧ store.ids.Nodup ∧ store.findByClOrdId = current.2)
    ⟨.empty, holds_create listening, List.nodup_nil, rfl⟩ (by
      rintro ⟨current, map⟩ storeCall next ⟨store, holds, distinct, rfl⟩ admitted ran
      have simulated : Simulates moved current store storeCall := simulates_call holds distinct admitted
      obtain ⟨after, exception, final, called, held, nodup, found, -⟩ := simulated
      cases ran
      refine ⟨after, ?_, nodup, found⟩
      dsimp only
      rw [called]
      cases exception <;> exact held)
  obtain ⟨store, holds, distinct, rfl⟩ := kept
  exact standsFor holds distinct

/-- Two orders added out of order and the first removed again. -/
def removedAgain : List StoreCall :=
  [.add "b".toList [] [] [] [] 0, .add "a".toList [] [] [] [] 1, .remove "b".toList]

theorem order_store_refines_map_removed : ∃ raw map,
    Reaches (callBoth id) (fun current => current.2.Admits) (create true, fun _ => none) (raw, map) ∧
      raw.notified = ["b".toList] ∧ raw.count = 1 ∧ raw.StandsFor id map := by
  have stillFree : OrderMap.after (fun _ => none) (.add "b".toList [] [] [] [] 0) "a".toList = none := by
    rw [OrderMap.after]
    split
    · rfl
    · exact Function.update_of_ne (by decide) _ _
  have admitted : AdmitsAll (callBoth id) (fun current => current.2.Admits) (create true, fun _ => none) removedAgain :=
    ⟨rfl, stillFree, trivial, trivial⟩
  have run := Reaches.start.all removedAgain admitted
  exact ⟨_, _, run, by decide +kernel, by decide +kernel, order_store_refines_map id true run⟩

end RawStore

end TradingEngine
