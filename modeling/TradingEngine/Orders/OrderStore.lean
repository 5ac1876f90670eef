import Mathlib
import TradingEngine.Library.SlotArray
import TradingEngine.Orders.OrderLifecycle

/-! The order store: at most 1024 orders, sorted by clOrdId and searched by
bisection. The slots are the list of orders they hold. `Add` does not look for
an order that already has the id. -/

set_option autoImplicit false

namespace TradingEngine

open Library.Exec Library.SlotArray

/-- A transition of an order, which never renames it. -/
structure OrderAction where
  run : EStateM Exn Order PUnit
  keepsId : ∀ order, (finalState (run order)).clOrdId = order.clOrdId

namespace Order

theorem clOrdId_advance (target : String) (next : OrderState → OrderState) (order : Order) :
    (finalState (order.advance target next)).clOrdId = order.clOrdId := by
  unfold advance
  split <;> rfl

theorem clOrdId_applyEvent {D : Type} (event : OrderEvent D) (order : Order) :
    (finalState (applyEvent event order)).clOrdId = order.clOrdId := by
  unfold applyEvent
  cases event.type with
  | kLive =>
      dsimp only
      split
      · rfl
      · split
        · rfl
        · split <;> rfl
  | kPartialFill | kFill | kCancel => exact clOrdId_advance _ _ _

theorem clOrdId_request (message : String) (other pending : OrderState) (now : Int) (order : Order) :
    (finalState (request message other pending now order)).clOrdId = order.clOrdId := by
  unfold request
  split <;> rfl

theorem clOrdId_onRequestRejected (order : Order) :
    (finalState (onRequestRejected order)).clOrdId = order.clOrdId := by
  unfold onRequestRejected
  split <;> rfl

end Order

namespace OrderAction

def applyEvent {D : Type} (event : OrderEvent D) : OrderAction :=
  ⟨Order.applyEvent event, Order.clOrdId_applyEvent event⟩

def onCancelRequested (now : Int) : OrderAction :=
  ⟨Order.onCancelRequested now, Order.clOrdId_request _ _ _ now⟩

def onAmendRequested (now : Int) : OrderAction :=
  ⟨Order.onAmendRequested now, Order.clOrdId_request _ _ _ now⟩

def onRequestRejected : OrderAction := ⟨Order.onRequestRejected, Order.clOrdId_onRequestRejected⟩

end OrderAction

def OrderStore.kCapacity : Nat := 1024

structure OrderStore where
  orders : List Order
  sorted : orders.Pairwise fun left right => left.clOrdId ≤ right.clOrdId
  bounded : orders.length ≤ OrderStore.kCapacity

namespace OrderStore

def empty : OrderStore := ⟨[], List.Pairwise.nil, Nat.zero_le _⟩

def size (store : OrderStore) : Nat := store.orders.length

/-- The test of the bisection. -/
def precedes (clOrdId : Text) (order : Order) : Bool := order.clOrdId < clOrdId

def lowerBound (store : OrderStore) (clOrdId : Text) : Nat :=
  Library.SlotArray.lowerBound (testAt (precedes clOrdId) store.orders) store.orders.length

theorem partitioned (store : OrderStore) (clOrdId : Text) :
    ∀ order ∈ store.orders.dropWhile (precedes clOrdId), precedes clOrdId order = false := by
  refine dropWhile_partitioned store.sorted fun left right ordered passes => ?_
  simp only [precedes, decide_eq_true_eq] at passes ⊢
  exact lt_of_le_of_lt ordered passes

theorem lowerBound_eq (store : OrderStore) (clOrdId : Text) :
    store.lowerBound clOrdId = (store.orders.takeWhile (precedes clOrdId)).length :=
  lowerBound_testAt _ _ (store.partitioned clOrdId)

theorem sorted_insert (store : OrderStore) (order : Order) :
    (store.orders.insertIdx (store.lowerBound order.clOrdId) order).Pairwise
      fun left right => left.clOrdId ≤ right.clOrdId := by
  have split := List.takeWhile_append_dropWhile (p := precedes order.clOrdId) (l := store.orders)
  have ordered := store.sorted
  rw [← split, List.pairwise_append] at ordered
  obtain ⟨front, back, across⟩ := ordered
  rw [lowerBound_eq, insertIdx_takeWhile, List.pairwise_append, List.pairwise_cons]
  refine ⟨front, ⟨?_, back⟩, ?_⟩
  · intro other member
    have later := store.partitioned order.clOrdId other member
    simpa [precedes] using later
  · intro other member next nextMember
    rcases List.mem_cons.mp nextMember with rfl | inBack
    · have earlier : precedes next.clOrdId other = true := List.mem_takeWhile_imp member
      simp only [precedes, decide_eq_true_eq] at earlier
      exact earlier.le
    · exact across other member next inBack

theorem sorted_set (store : OrderStore) {index : Nat} {old new : Order} (here : store.orders[index]? = some old)
    (renamed : new.clOrdId = old.clOrdId) :
    (store.orders.set index new).Pairwise fun left right => left.clOrdId ≤ right.clOrdId := by
  have names : (store.orders.set index new).map Order.clOrdId = store.orders.map Order.clOrdId := by
    rw [List.map_set, renamed]
    apply List.ext_getElem?
    intro position
    rw [List.getElem?_set]
    split
    · rename_i same
      subst same
      obtain ⟨inside, atIndex⟩ := List.getElem?_eq_some_iff.mp here
      simp [inside, atIndex]
    · rfl
  rw [← List.pairwise_map (f := Order.clOrdId) (R := (· ≤ ·)), names, List.pairwise_map]
  exact store.sorted

def add (store : OrderStore) (order : Order) : Except Exn OrderStore :=
  if room : store.orders.length < kCapacity then
    .ok {
      orders := store.orders.insertIdx (store.lowerBound order.clOrdId) order
      sorted := store.sorted_insert order
      bounded := List.length_insertIdx_le_succ.trans room }
  else .error (.runtimeError "OrderStore is full".toList)

/-- The slot and order that a search by clOrdId ends at. -/
def locate (store : OrderStore) (clOrdId : Text) : Option (Nat × Order) :=
  let index := store.lowerBound clOrdId
  match store.orders[index]? with
  | none => none
  | some order => if order.clOrdId = clOrdId then some (index, order) else none

def findByClOrdId (store : OrderStore) (clOrdId : Text) : Option Order :=
  (store.locate clOrdId).map Prod.snd

def findByOrdId (store : OrderStore) (ordId : Text) : Option Order :=
  store.orders.find? fun order => order.ordId = ordId

/-- What `Remove` leaves, the removal listener aside. -/
def erase (store : OrderStore) (clOrdId : Text) : OrderStore :=
  match store.locate clOrdId with
  | none => store
  | some (index, _) => {
      orders := store.orders.eraseIdx index
      sorted := store.sorted.sublist (List.eraseIdx_sublist _ _)
      bounded := (List.length_eraseIdx_le _ _).trans store.bounded }

theorem locate_eq_some {store : OrderStore} {clOrdId : Text} {index : Nat} {order : Order}
    (found : store.locate clOrdId = some (index, order)) :
    index = store.lowerBound clOrdId ∧ store.orders[index]? = some order ∧ order.clOrdId = clOrdId := by
  simp only [locate] at found
  split at found
  · cases found
  · rename_i candidate here
    split at found
    · rename_i same
      obtain ⟨rfl, rfl⟩ : store.lowerBound clOrdId = index ∧ candidate = order := by simpa using found
      exact ⟨rfl, here, same⟩
    · cases found

/-- A transition of the order found under an id, in place. -/
def update (store : OrderStore) (clOrdId : Text) (action : OrderAction) : EStateM.Result Exn OrderStore PUnit :=
  match found : store.locate clOrdId with
  | none => .ok .unit store
  | some (index, order) =>
      let written : OrderStore := {
        orders := store.orders.set index (finalState (action.run order))
        sorted := store.sorted_set (locate_eq_some found).2.1 (action.keepsId order)
        bounded := by simpa using store.bounded }
      match action.run order with
      | .ok _ _ => .ok .unit written
      | .error exception _ => .error exception written

end OrderStore

end TradingEngine
