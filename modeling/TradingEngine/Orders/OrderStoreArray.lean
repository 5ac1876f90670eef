import TradingEngine.Orders.OrderStoreProperties

/-! The order store as it stands in memory: 1024 optional orders, a counter and the
calls of the removal listener. An index outside the array and a slot that is found
empty are faults of their own. What a moved-from order holds is left open. -/

set_option autoImplicit false

namespace TradingEngine

open Library.Exec Library.SlotArray

structure RawStore where
  slots : List (Option Order)
  count : Nat
  /-- A removal listener is installed. -/
  listening : Bool
  notified : List Text

namespace RawStore

def create (listening : Bool) : RawStore := ⟨List.replicate OrderStore.kCapacity none, 0, listening, []⟩

def inRange {α : Type} : Option α → EStateM Fault RawStore α
  | some result => return result
  | none => throw .outOfRange

def atSlot (index : Nat) : EStateM Fault RawStore Order := do
  match ← inRange (← get).slots[index]? with
  | some order => return order
  | none =>
      throw (.thrown (.runtimeError
        ("OrderStore slot ".toList ++ (toString index).toList ++ " unexpectedly empty".toList)))

def lowerBoundFrom (clOrdId : Text) : Nat → Nat → Nat → EStateM Fault RawStore Nat
  | 0, start, _ => return start
  | fuel + 1, start, stop =>
      if start < stop then do
        let mid := start + (stop - start) / 2
        if (← atSlot mid).clOrdId < clOrdId then lowerBoundFrom clOrdId fuel (mid + 1) stop
        else lowerBoundFrom clOrdId fuel start mid
      else return start

def lowerBound (clOrdId : Text) : EStateM Fault RawStore Nat := do
  let count := (← get).count
  lowerBoundFrom clOrdId count 0 count

/-- The order found, by the slot it stands in. -/
def findByClOrdId (clOrdId : Text) : EStateM Fault RawStore (Option Nat) := do
  let index ← lowerBound clOrdId
  if index < (← get).count then
    if (← atSlot index).clOrdId = clOrdId then return some index
    else return none
  else return none

/-- An action on the order in a slot, which may throw halfway. -/
def actAt (action : OrderAction) (index : Nat) : EStateM Fault RawStore PUnit := do
  let outcome := action.run (← atSlot index)
  let slots ← inRange (Checked.write (← get).slots index (some (finalState outcome)))
  modify fun raw => { raw with slots := slots }
  match outcome with
  | .ok _ _ => return .unit
  | .error exception _ => throw (.thrown exception)

def forEachFrom (action : OrderAction) : Nat → Nat → EStateM Fault RawStore PUnit
  | 0, _ => return .unit
  | fuel + 1, index => do
      if index < (← get).count then
        actAt action index
        forEachFrom action fuel (index + 1)

def forEach (action : OrderAction) : EStateM Fault RawStore PUnit := do
  forEachFrom action (← get).count 0

/-- The calls of the listener, if one is installed, after that of a removal. -/
def heard (raw : RawStore) (clOrdId : Text) : List Text :=
  if raw.listening then raw.notified ++ [clOrdId] else raw.notified

section Moving

variable (moved : Order → Order)

def add (clOrdId instId side px sz : Text) (now : Int) : EStateM Fault RawStore PUnit := do
  if OrderStore.kCapacity ≤ (← get).count then
    throw (.thrown (.runtimeError "OrderStore is full".toList))
  else
    let index ← lowerBound clOrdId
    let shifted ← inRange (Checked.moveUp (Option.map moved) (← get).slots index (← get).count)
    let slots ← inRange (Checked.write shifted index (some (Order.create clOrdId instId side px sz now)))
    modify fun raw => { raw with slots := slots, count := raw.count + 1 }

/-- The shift of `Remove`, from the slot it empties on. -/
def closeSlot (index : Nat) : EStateM Fault RawStore PUnit := do
  let count := (← get).count
  let shifted ← inRange (Checked.moveDown (Option.map moved) (← get).slots count count index)
  let slots ← inRange (Checked.write shifted (count - 1) none)
  modify fun raw => { raw with slots := slots, count := raw.count - 1 }

def remove (clOrdId : Text) : EStateM Fault RawStore PUnit := do
  let index ← lowerBound clOrdId
  if (← get).count ≤ index then return .unit
  else if (← atSlot index).clOrdId ≠ clOrdId then return .unit
  else
    modify fun raw => { raw with notified := raw.heard clOrdId }
    closeSlot moved index

end Moving

/-!
## The slots hold the orders
-/

structure Holds (raw : RawStore) (orders : List Order) : Prop where
  slots : raw.slots = orders.map some ++ List.replicate (OrderStore.kCapacity - orders.length) none
  count : raw.count = orders.length

variable {raw : RawStore} {orders : List Order} {store : OrderStore}

theorem holds_create (listening : Bool) : (create listening).Holds [] := ⟨rfl, rfl⟩

theorem run_inRange {α : Type} {result : α} {found : Option α} (here : found = some result) (raw : RawStore) :
    inRange found raw = .ok result raw := by
  rw [here]
  rfl

theorem Holds.slot (holds : raw.Holds orders) {index : Nat} {order : Order} (here : orders[index]? = some order) :
    raw.slots[index]? = some (some order) := by
  obtain ⟨inside, -⟩ := List.getElem?_eq_some_iff.mp here
  rw [holds.slots, List.getElem?_append_left (by simpa using inside), List.getElem?_map, here]
  rfl

theorem Holds.atSlot (holds : raw.Holds orders) {index : Nat} {order : Order} (here : orders[index]? = some order) :
    atSlot index raw = .ok order raw := by
  rw [RawStore.atSlot, run_bind_ok (run_get _), run_bind_ok (run_inRange (holds.slot here) raw)]
  rfl

theorem Holds.lowerBoundFrom (holds : raw.Holds orders) (clOrdId : Text) (fuel start stop : Nat)
    (bound : stop ≤ orders.length) :
    lowerBoundFrom clOrdId fuel start stop raw =
      .ok (Library.SlotArray.lowerBoundFrom (testAt (OrderStore.precedes clOrdId) orders) fuel start stop) raw := by
  induction fuel generalizing start stop with
  | zero => rfl
  | succ fuel ih =>
      simp only [RawStore.lowerBoundFrom, Library.SlotArray.lowerBoundFrom]
      by_cases nonempty : start < stop
      · have inside : start + (stop - start) / 2 < orders.length := by omega
        have here := List.getElem?_eq_getElem inside
        rw [if_pos nonempty, if_pos nonempty, run_bind_ok (holds.atSlot here)]
        simp only [testAt, here, OrderStore.precedes, decide_eq_true_eq]
        split
        · exact ih _ _ bound
        · exact ih _ _ (by omega)
      · rw [if_neg nonempty, if_neg nonempty]
        rfl

theorem Holds.lowerBound (holds : raw.Holds store.orders) (clOrdId : Text) :
    lowerBound clOrdId raw = .ok (store.lowerBound clOrdId) raw := by
  rw [RawStore.lowerBound, run_bind_ok (run_get _), holds.count]
  exact holds.lowerBoundFrom clOrdId _ _ _ le_rfl

theorem Holds.within (holds : raw.Holds orders) {index : Nat} {order : Order} (here : orders[index]? = some order) :
    index < raw.count := by
  rw [holds.count]
  exact (List.getElem?_eq_some_iff.mp here).1

theorem Holds.beyond (holds : raw.Holds orders) {index : Nat} (missing : orders[index]? = none) :
    raw.count ≤ index := by
  rw [holds.count]
  exact List.getElem?_eq_none_iff.mp missing

theorem Holds.findByClOrdId (holds : raw.Holds store.orders) (clOrdId : Text) :
    findByClOrdId clOrdId raw = .ok ((store.locate clOrdId).map Prod.fst) raw := by
  rw [RawStore.findByClOrdId, run_bind_ok (holds.lowerBound clOrdId), run_bind_ok (run_get _), OrderStore.locate]
  cases here : store.orders[store.lowerBound clOrdId]? with
  | none =>
      rw [if_neg (not_lt.mpr (holds.beyond here))]
      rfl
  | some order =>
      rw [if_pos (holds.within here), run_bind_ok (holds.atSlot here)]
      dsimp only
      split <;> rfl

/-!
## Insertion and removal
-/

section Moving

variable (moved : Order → Order)

theorem Holds.add_full (holds : raw.Holds store.orders) (full : store.orders.length = OrderStore.kCapacity)
    (clOrdId instId side px sz : Text) (now : Int) :
    add moved clOrdId instId side px sz now raw = .error (.thrown (.runtimeError "OrderStore is full".toList)) raw := by
  rw [RawStore.add, run_bind_ok (run_get _), holds.count, full, if_pos le_rfl]
  rfl

theorem Holds.add (holds : raw.Holds store.orders) (room : store.orders.length < OrderStore.kCapacity)
    (clOrdId instId side px sz : Text) (now : Int) :
    ∃ slots added, add moved clOrdId instId side px sz now raw = .ok .unit { raw with slots := slots, count := raw.count + 1 } ∧
      store.add (Order.create clOrdId instId side px sz now) = .ok added ∧
      RawStore.Holds { raw with slots := slots, count := raw.count + 1 } added.orders := by
  obtain ⟨added, inserted⟩ := OrderStore.add_isOk (Order.create clOrdId instId side px sz now) room
  have orders : added.orders = store.orders.takeWhile (OrderStore.precedes clOrdId) ++
      Order.create clOrdId instId side px sz now :: store.orders.dropWhile (OrderStore.precedes clOrdId) :=
    OrderStore.orders_add inserted
  have whole := List.takeWhile_append_dropWhile (p := OrderStore.precedes clOrdId) (l := store.orders)
  have bound := store.lowerBound_eq clOrdId
  generalize store.orders.takeWhile (OrderStore.precedes clOrdId) = front at orders whole bound
  generalize store.orders.dropWhile (OrderStore.precedes clOrdId) = back at orders whole
  have size : store.orders.length = front.length + back.length := by
    rw [← whole, List.length_append]
  have spare : OrderStore.kCapacity - store.orders.length = OrderStore.kCapacity - (store.orders.length + 1) + 1 := by omega
  have before : raw.slots = front.map some ++
      (back.map some ++ none :: List.replicate (OrderStore.kCapacity - (store.orders.length + 1)) none) := by
    rw [holds.slots, spare, List.replicate_succ, ← List.append_assoc, ← List.map_append, whole]
  obtain ⟨slots, shifted, written⟩ := moveUp_write (Option.map moved) none
    (List.replicate (OrderStore.kCapacity - (store.orders.length + 1)) none) (show store.lowerBound clOrdId = (front.map some).length by
      rw [bound, List.length_map]) (show raw.count = store.lowerBound clOrdId + (back.map some).length by
      rw [holds.count, size, bound, List.length_map]) (some (Order.create clOrdId instId side px sz now))
  rw [← before] at shifted
  have notFull : ¬OrderStore.kCapacity ≤ raw.count := by
    rw [holds.count]
    omega
  have grown : added.orders.length = store.orders.length + 1 := OrderStore.size_add inserted
  refine ⟨front.map some ++ some (Order.create clOrdId instId side px sz now) ::
    (back.map some ++ List.replicate (OrderStore.kCapacity - (store.orders.length + 1)) none), added, ?_, inserted, ?_, ?_⟩
  · rw [RawStore.add, run_bind_ok (run_get _), if_neg notFull,
      run_bind_ok (holds.lowerBound clOrdId), run_bind_ok (run_get _), run_bind_ok (run_get _),
      run_bind_ok (run_inRange shifted raw), run_bind_ok (run_inRange written raw)]
    rfl
  · rw [grown, orders]
    simp
  · rw [grown]
    exact congrArg (· + 1) holds.count

theorem Holds.remove_absent (holds : raw.Holds store.orders) {clOrdId : Text} (absent : store.locate clOrdId = none) :
    remove moved clOrdId raw = .ok .unit raw := by
  rw [RawStore.remove, run_bind_ok (holds.lowerBound clOrdId), run_bind_ok (run_get _)]
  rw [OrderStore.locate] at absent
  cases here : store.orders[store.lowerBound clOrdId]? with
  | none =>
      rw [if_pos (holds.beyond here)]
      rfl
  | some order =>
      rw [here] at absent
      dsimp only at absent
      split at absent
      · cases absent
      · rename_i different
        rw [if_neg (not_le.mpr (holds.within here)), run_bind_ok (holds.atSlot here), if_pos different]
        rfl

theorem closeSlot_eq {index : Nat} {shifted slots : List (Option Order)}
    (closed : Checked.moveDown (Option.map moved) raw.slots raw.count raw.count index = some shifted)
    (freed : Checked.write shifted (raw.count - 1) none = some slots) :
    closeSlot moved index raw = .ok .unit { raw with slots := slots, count := raw.count - 1 } := by
  rw [closeSlot, run_bind_ok (run_get _), run_bind_ok (run_get _), run_bind_ok (run_inRange closed _),
    run_bind_ok (run_inRange freed _)]
  rfl

theorem Holds.remove (holds : raw.Holds store.orders) {clOrdId : Text} {index : Nat} {order : Order}
    (located : store.locate clOrdId = some (index, order)) :
    ∃ slots, remove moved clOrdId raw =
        .ok .unit { raw with slots := slots, count := raw.count - 1, notified := raw.heard clOrdId } ∧
      RawStore.Holds { raw with slots := slots, count := raw.count - 1, notified := raw.heard clOrdId }
        (store.erase clOrdId).orders := by
  obtain ⟨bound, here, same⟩ := OrderStore.locate_eq_some located
  obtain ⟨front, back, whole, depth, without⟩ := exists_middle here
  have erased : (store.erase clOrdId).orders = front ++ back := by
    rw [OrderStore.erase, located]
    exact without
  have size : store.orders.length = index + 1 + back.length := by
    rw [whole, depth, List.length_append, List.length_cons]
    omega
  have shorter : (store.erase clOrdId).orders.length = index + back.length := by
    rw [erased, List.length_append, depth]
  have before : raw.slots = front.map some ++
      some order :: (back.map some ++ List.replicate (OrderStore.kCapacity - store.orders.length) none) := by
    rw [holds.slots, whole, List.map_append, List.map_cons, List.append_assoc, List.cons_append]
  obtain ⟨slots, shifted, written⟩ := moveDown_write (Option.map moved) (some order)
    (List.replicate (OrderStore.kCapacity - store.orders.length) none)
    (show index = (front.map some).length by rw [List.length_map, ← depth])
    (show raw.count = index + 1 + (back.map some).length by rw [holds.count, size, List.length_map])
    (show (back.map some).length ≤ raw.count by rw [holds.count, size, List.length_map]; omega) none
  rw [← before] at shifted
  have freed : OrderStore.kCapacity - (store.erase clOrdId).orders.length = OrderStore.kCapacity - store.orders.length + 1 := by
    have bounded : store.orders.length ≤ OrderStore.kCapacity := store.bounded
    omega
  refine ⟨front.map some ++ (back.map some ++ none :: List.replicate (OrderStore.kCapacity - store.orders.length) none), ?_, ?_, ?_⟩
  · rw [RawStore.remove, run_bind_ok (holds.lowerBound clOrdId), run_bind_ok (run_get _), ← bound,
      if_neg (not_le.mpr (holds.within here)), run_bind_ok (holds.atSlot here), if_neg (not_not_intro same),
      run_bind_ok (run_modify _ _)]
    exact closeSlot_eq moved shifted written
  · rw [freed, erased, List.map_append, List.append_assoc, List.replicate_succ]
  · rw [shorter]
    dsimp only
    rw [holds.count, size]
    omega

end Moving

/-!
## Actions on stored orders
-/

/-- How an action's exception leaves a call. -/
def raise (exception : Option Exn) (next : RawStore) : EStateM.Result Fault RawStore PUnit :=
  match exception with
  | none => .ok .unit next
  | some exception => .error (.thrown exception) next

theorem Holds.actAt {front back : List Order} {order : Order} {index : Nat} (holds : raw.Holds (front ++ order :: back))
    (action : OrderAction) (here : index = front.length) :
    ∃ slots, actAt action index raw = raise (thrown (action.run order)) { raw with slots := slots } ∧
      RawStore.Holds { raw with slots := slots } (front ++ finalState (action.run order) :: back) := by
  have found : (front ++ order :: back)[index]? = some order := getElem?_middle here
  have before := holds.slots
  rw [List.map_append, List.map_cons, List.append_assoc, List.cons_append] at before
  have written : Checked.write raw.slots index (some (finalState (action.run order))) =
      some (front.map some ++ some (finalState (action.run order)) ::
        (back.map some ++ List.replicate (OrderStore.kCapacity - (front ++ order :: back).length) none)) := by
    rw [before]
    exact write_middle (by rw [here, List.length_map])
  refine ⟨front.map some ++ some (finalState (action.run order)) ::
    (back.map some ++ List.replicate (OrderStore.kCapacity - (front ++ order :: back).length) none), ?_, ?_, ?_⟩
  · rw [RawStore.actAt, run_bind_ok (holds.atSlot found), run_bind_ok (run_get _),
      run_bind_ok (run_inRange written raw), run_bind_ok (run_modify _ _)]
    cases action.run order <;> rfl
  · rw [List.map_append, List.map_cons, List.append_assoc, List.cons_append, List.length_append, List.length_append,
      List.length_cons, List.length_cons]
  · exact holds.count.trans (by rw [List.length_append, List.length_append, List.length_cons, List.length_cons])

/-- The orders after a loop, which ends at the first exception. -/
def visited (action : OrderAction) : List Order → List Order
  | [] => []
  | order :: rest =>
      finalState (action.run order) :: if thrown (action.run order) = none then visited action rest else rest

def firstThrown (action : OrderAction) : List Order → Option Exn
  | [] => none
  | order :: rest =>
      match thrown (action.run order) with
      | none => firstThrown action rest
      | some exception => some exception

theorem Holds.forEachFrom {front back : List Order} {fuel index : Nat} (holds : raw.Holds (front ++ back))
    (action : OrderAction) (here : index = front.length) (enough : back.length ≤ fuel) :
    ∃ slots, forEachFrom action fuel index raw = raise (firstThrown action back) { raw with slots := slots } ∧
      RawStore.Holds { raw with slots := slots } (front ++ visited action back) := by
  induction back generalizing raw front fuel index with
  | nil =>
      refine ⟨raw.slots, ?_, holds⟩
      cases fuel with
      | zero => rfl
      | succ fuel =>
          rw [RawStore.forEachFrom, run_bind_ok (run_get _), if_neg]
          · rfl
          · rw [holds.count, List.append_nil]
            omega
  | cons order back ih =>
      rw [List.length_cons] at enough
      obtain ⟨fuel, rfl⟩ : ∃ fewer, fuel = fewer + 1 := ⟨fuel - 1, by omega⟩
      have inside : index < raw.count := by
        rw [holds.count, List.length_append, List.length_cons]
        omega
      obtain ⟨slots, acted, held⟩ := holds.actAt action here
      rw [RawStore.forEachFrom, run_bind_ok (run_get _), if_pos inside]
      cases outcome : thrown (action.run order) with
      | some exception =>
          rw [outcome] at acted
          refine ⟨slots, ?_, ?_⟩
          · rw [run_bind_error acted, firstThrown, outcome]
            rfl
          · rw [visited, if_neg (by simp [outcome])]
            exact held
      | none =>
          rw [outcome] at acted
          have rest : RawStore.Holds { raw with slots := slots } ((front ++ [finalState (action.run order)]) ++ back) := by
            rw [List.append_assoc, List.singleton_append]
            exact held
          obtain ⟨final, ran, kept⟩ := ih rest (show index + 1 = _ by simp [here]) (show back.length ≤ fuel by omega)
          refine ⟨final, ?_, ?_⟩
          · rw [run_bind_ok acted, ran, firstThrown, outcome]
          · rw [visited, if_pos outcome]
            rw [List.append_assoc, List.singleton_append] at kept
            exact kept

end RawStore

end TradingEngine
