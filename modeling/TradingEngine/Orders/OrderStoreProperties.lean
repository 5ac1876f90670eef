import TradingEngine.Orders.OrderStore

/-! The order store as a collection of orders: what each operation does to the
orders held, whatever the slots they stand in. -/

set_option autoImplicit false

namespace TradingEngine.OrderStore

open Library.Exec Library.SlotArray

def ids (store : OrderStore) : List Text := store.orders.map Order.clOrdId

@[simp] theorem ids_empty : empty.ids = [] := rfl

theorem mem_ids {store : OrderStore} {clOrdId : Text} :
    clOrdId ∈ store.ids ↔ ∃ order ∈ store.orders, order.clOrdId = clOrdId := List.mem_map

theorem locate_isSome {store : OrderStore} {clOrdId : Text} (stored : clOrdId ∈ store.ids) :
    ∃ index order, store.locate clOrdId = some (index, order) := by
  obtain ⟨order, member, rfl⟩ := mem_ids.mp stored
  have split := List.takeWhile_append_dropWhile (p := precedes order.clOrdId) (l := store.orders)
  have behind : order ∈ store.orders.dropWhile (precedes order.clOrdId) := by
    rw [← split, List.mem_append] at member
    refine member.resolve_left fun inFront => ?_
    have earlier : precedes order.clOrdId order = true := List.mem_takeWhile_imp inFront
    simp [precedes] at earlier
  cases rest : store.orders.dropWhile (precedes order.clOrdId) with
  | nil => simp [rest] at behind
  | cons head tail =>
      have here : store.orders[(store.orders.takeWhile (precedes order.clOrdId)).length]? = some head := by
        have whole := split
        rw [rest] at whole
        generalize store.orders.takeWhile (precedes order.clOrdId) = front at whole ⊢
        rw [← whole]
        simp
      have notLess : order.clOrdId ≤ head.clOrdId := by
        have later := store.partitioned order.clOrdId head (by simp [rest])
        simpa [precedes] using later
      have notGreater : head.clOrdId ≤ order.clOrdId := by
        have ordered := store.sorted
        rw [← split, rest, List.pairwise_append, List.pairwise_cons] at ordered
        rw [rest] at behind
        rcases List.mem_cons.mp behind with rfl | later
        · exact le_rfl
        · exact ordered.2.1.1 order later
      refine ⟨(store.orders.takeWhile (precedes order.clOrdId)).length, head, ?_⟩
      simp only [locate, lowerBound_eq, here]
      rw [if_pos (le_antisymm notGreater notLess)]

theorem locate_eq_none_iff {store : OrderStore} {clOrdId : Text} :
    store.locate clOrdId = none ↔ clOrdId ∉ store.ids := by
  constructor
  · intro missing stored
    obtain ⟨index, order, found⟩ := locate_isSome stored
    rw [missing] at found
    cases found
  · intro absent
    cases found : store.locate clOrdId with
    | none => rfl
    | some entry =>
        obtain ⟨index, order⟩ := entry
        obtain ⟨-, here, same⟩ := locate_eq_some found
        exact absurd (mem_ids.mpr ⟨order, List.mem_of_getElem? here, same⟩) absent

theorem findByClOrdId_eq_none_iff {store : OrderStore} {clOrdId : Text} :
    store.findByClOrdId clOrdId = none ↔ clOrdId ∉ store.ids := by
  rw [findByClOrdId, Option.map_eq_none_iff, locate_eq_none_iff]

theorem of_findByClOrdId {store : OrderStore} {clOrdId : Text} {order : Order}
    (found : store.findByClOrdId clOrdId = some order) :
    order ∈ store.orders ∧ order.clOrdId = clOrdId := by
  rw [findByClOrdId, Option.map_eq_some_iff] at found
  obtain ⟨⟨index, located⟩, here, rfl⟩ := found
  obtain ⟨-, atIndex, same⟩ := locate_eq_some here
  exact ⟨List.mem_of_getElem? atIndex, same⟩

theorem findByClOrdId_of_mem {store : OrderStore} (distinct : store.ids.Nodup) {order : Order}
    (member : order ∈ store.orders) : store.findByClOrdId order.clOrdId = some order := by
  cases found : store.findByClOrdId order.clOrdId with
  | none => exact absurd (mem_ids.mpr ⟨order, member, rfl⟩) (findByClOrdId_eq_none_iff.mp found)
  | some other =>
      obtain ⟨otherMember, same⟩ := of_findByClOrdId found
      rw [List.inj_on_of_nodup_map distinct otherMember member same]

/-- An insertion stands between the ids before its own and the others. -/
theorem orders_add {store next : OrderStore} {order : Order} (added : store.add order = .ok next) :
    next.orders = store.orders.takeWhile (precedes order.clOrdId) ++
      order :: store.orders.dropWhile (precedes order.clOrdId) := by
  unfold add at added
  split at added
  · cases added
    dsimp only
    rw [lowerBound_eq, insertIdx_takeWhile]
  · cases added

theorem perm_add {store next : OrderStore} {order : Order} (added : store.add order = .ok next) :
    next.orders.Perm (order :: store.orders) := by
  have split := List.takeWhile_append_dropWhile (p := precedes order.clOrdId) (l := store.orders)
  rw [orders_add added]
  conv_rhs => rw [← split]
  exact List.perm_middle

theorem ids_perm_add {store next : OrderStore} {order : Order} (added : store.add order = .ok next) :
    next.ids.Perm (order.clOrdId :: store.ids) :=
  (perm_add added).map Order.clOrdId

theorem size_add {store next : OrderStore} {order : Order} (added : store.add order = .ok next) :
    next.size = store.size + 1 := (perm_add added).length_eq

theorem add_isOk {store : OrderStore} (order : Order) (room : store.size < kCapacity) :
    ∃ next, store.add order = .ok next := by
  unfold size at room
  unfold add
  rw [dif_pos room]
  exact ⟨_, rfl⟩

theorem erase_of_not_mem {store : OrderStore} {clOrdId : Text} (absent : clOrdId ∉ store.ids) :
    store.erase clOrdId = store := by
  rw [erase, locate_eq_none_iff.mpr absent]

/-- A removal takes out one order with the id. -/
theorem perm_erase {store : OrderStore} {clOrdId : Text} (stored : clOrdId ∈ store.ids) :
    ∃ order, order.clOrdId = clOrdId ∧ store.orders.Perm (order :: (store.erase clOrdId).orders) := by
  obtain ⟨index, order, found⟩ := locate_isSome stored
  obtain ⟨-, here, same⟩ := locate_eq_some found
  obtain ⟨inside, rfl⟩ := List.getElem?_eq_some_iff.mp here
  refine ⟨_, same, ?_⟩
  rw [erase, found]
  exact (List.getElem_cons_eraseIdx_perm inside).symm

theorem mem_ids_erase {store : OrderStore} (distinct : store.ids.Nodup) {clOrdId other : Text} :
    other ∈ (store.erase clOrdId).ids ↔ other ∈ store.ids ∧ other ≠ clOrdId := by
  by_cases stored : clOrdId ∈ store.ids
  · obtain ⟨order, same, perm⟩ := perm_erase stored
    have idsPerm : store.ids.Perm (clOrdId :: (store.erase clOrdId).ids) := same ▸ perm.map Order.clOrdId
    have fresh := (List.nodup_cons.mp (idsPerm.nodup_iff.mp distinct)).1
    rw [idsPerm.mem_iff, List.mem_cons]
    constructor
    · intro kept
      exact ⟨.inr kept, fun here => fresh (here ▸ kept)⟩
    · rintro ⟨here | kept, different⟩
      · exact absurd here different
      · exact kept
  · rw [erase_of_not_mem stored]
    exact ⟨fun kept => ⟨kept, fun here => stored (here ▸ kept)⟩, fun both => both.1⟩

theorem nodup_erase {store : OrderStore} (distinct : store.ids.Nodup) (clOrdId : Text) :
    (store.erase clOrdId).ids.Nodup := by
  unfold erase
  split
  · exact distinct
  · exact distinct.sublist ((List.eraseIdx_sublist _ _).map Order.clOrdId)

theorem mem_of_mem_erase {store : OrderStore} {clOrdId : Text} {order : Order}
    (kept : order ∈ (store.erase clOrdId).orders) : order ∈ store.orders := by
  unfold erase at kept
  split at kept
  · exact kept
  · exact (List.eraseIdx_sublist _ _).subset kept

theorem update_of_not_mem {store : OrderStore} {clOrdId : Text} (absent : clOrdId ∉ store.ids)
    (action : OrderAction) : store.update clOrdId action = .ok .unit store := by
  have missing := locate_eq_none_iff.mpr absent
  unfold update
  split
  · rfl
  · rename_i found
    rw [missing] at found
    cases found

/-- A transition of a stored order, written back to its slot. -/
theorem update_of_locate {store : OrderStore} {clOrdId : Text} {index : Nat} {order : Order}
    (located : store.locate clOrdId = some (index, order)) (action : OrderAction) :
    ∃ written : OrderStore, written.orders = store.orders.set index (finalState (action.run order)) ∧
      store.update clOrdId action = match action.run order with
        | .ok _ _ => .ok .unit written
        | .error exception _ => .error exception written := by
  unfold update
  split
  · rename_i missing
    rw [located] at missing
    cases missing
  · rename_i position other found
    obtain ⟨rfl, rfl⟩ : index = position ∧ order = other := by
      simpa using located.symm.trans found
    exact ⟨_, rfl, rfl⟩

theorem finalState_update_of_locate {store : OrderStore} {clOrdId : Text} {index : Nat} {order : Order}
    (located : store.locate clOrdId = some (index, order)) (action : OrderAction) :
    (finalState (store.update clOrdId action)).orders =
      store.orders.set index (finalState (action.run order)) := by
  obtain ⟨written, orders, updated⟩ := update_of_locate located action
  rw [updated, ← orders]
  cases action.run order <;> rfl

theorem ids_update (store : OrderStore) (clOrdId : Text) (action : OrderAction) :
    (finalState (store.update clOrdId action)).ids = store.ids := by
  by_cases stored : clOrdId ∈ store.ids
  · obtain ⟨index, order, located⟩ := locate_isSome stored
    obtain ⟨-, here, -⟩ := locate_eq_some located
    rw [ids, finalState_update_of_locate located, List.map_set, action.keepsId]
    apply List.ext_getElem?
    intro position
    rw [List.getElem?_set]
    split
    · rename_i same
      subst same
      obtain ⟨inside, rfl⟩ := List.getElem?_eq_some_iff.mp here
      simp [ids, inside]
    · rfl
  · rw [update_of_not_mem stored]
    rfl

/-- The orders after a transition: the old ones, and the one it was applied to. -/
theorem mem_update {store : OrderStore} {clOrdId : Text} {action : OrderAction} {order : Order}
    (member : order ∈ (finalState (store.update clOrdId action)).orders) :
    order ∈ store.orders ∨
      ∃ old, store.findByClOrdId clOrdId = some old ∧ order = finalState (action.run old) := by
  by_cases stored : clOrdId ∈ store.ids
  · obtain ⟨index, old, located⟩ := locate_isSome stored
    rw [finalState_update_of_locate located] at member
    rcases List.mem_or_eq_of_mem_set member with kept | rfl
    · exact .inl kept
    · exact .inr ⟨old, by rw [findByClOrdId, located]; rfl, rfl⟩
  · rw [update_of_not_mem stored] at member
    exact .inl member

theorem ids_of_update {store next : OrderStore} {clOrdId : Text} {action : OrderAction}
    (updated : store.update clOrdId action = .ok .unit next) : next.ids = store.ids := by
  have ids := store.ids_update clOrdId action
  rw [updated] at ids
  exact ids

/-- A search only reads the ids. -/
theorem lowerBound_congr {store other : OrderStore} (same : store.ids = other.ids) (clOrdId : Text) :
    store.lowerBound clOrdId = other.lowerBound clOrdId := by
  have byIds (store : OrderStore) :
      store.lowerBound clOrdId = (store.ids.takeWhile fun id => id < clOrdId).length := by
    rw [lowerBound_eq, ids, List.takeWhile_map, List.length_map]
    rfl
  rw [byIds, byIds, same]

/-- The order is found again, moved, where it was. -/
theorem locate_update {store : OrderStore} {clOrdId : Text} {index : Nat} {order : Order}
    (located : store.locate clOrdId = some (index, order)) (action : OrderAction) :
    (finalState (store.update clOrdId action)).locate clOrdId = some (index, finalState (action.run order)) := by
  obtain ⟨atBound, here, same⟩ := locate_eq_some located
  obtain ⟨inside, -⟩ := List.getElem?_eq_some_iff.mp here
  have bound := lowerBound_congr (ids_update store clOrdId action) clOrdId
  rw [← atBound] at bound
  have written : (finalState (store.update clOrdId action)).orders[index]? =
      some (finalState (action.run order)) := by
    rw [finalState_update_of_locate located, List.getElem?_set_self inside]
  simp only [locate, bound, written]
  rw [if_pos ((action.keepsId order).trans same)]

theorem findByClOrdId_update {store : OrderStore} {clOrdId : Text} {order : Order}
    (found : store.findByClOrdId clOrdId = some order) (action : OrderAction) :
    (finalState (store.update clOrdId action)).findByClOrdId clOrdId = some (finalState (action.run order)) := by
  obtain ⟨⟨index, located⟩, here, same⟩ := Option.map_eq_some_iff.mp found
  obtain rfl : located = order := same
  rw [findByClOrdId, locate_update here action]
  rfl

/-- An update returns if its action does on the order found. -/
theorem update_returns {store : OrderStore} {clOrdId : Text} {action : OrderAction}
    (returns : ∀ order, store.findByClOrdId clOrdId = some order → ∃ next, action.run order = .ok .unit next) :
    ∃ next, store.update clOrdId action = .ok .unit next := by
  by_cases stored : clOrdId ∈ store.ids
  · obtain ⟨index, order, located⟩ := locate_isSome stored
    obtain ⟨next, ran⟩ := returns order (by rw [findByClOrdId, located]; rfl)
    obtain ⟨written, -, wrote⟩ := update_of_locate located action
    rw [ran] at wrote
    exact ⟨written, wrote⟩
  · exact ⟨store, update_of_not_mem stored action⟩

/-- An update that returned has run its action on the order found. -/
theorem applied_of_update {store next : OrderStore} {clOrdId : Text} {action : OrderAction} {old : Order}
    (found : store.findByClOrdId clOrdId = some old) (updated : store.update clOrdId action = .ok .unit next) :
    ∃ order, action.run old = .ok .unit order ∧ next.findByClOrdId clOrdId = some order := by
  have again := findByClOrdId_update found action
  obtain ⟨⟨index, located⟩, here, same⟩ := Option.map_eq_some_iff.mp found
  obtain rfl : located = old := same
  obtain ⟨written, -, wrote⟩ := update_of_locate here action
  rw [updated] at again wrote
  cases applied : action.run located with
  | error exception order =>
      rw [applied] at wrote
      cases wrote
  | ok value order =>
      rw [applied] at again
      exact ⟨order, rfl, again⟩

theorem found_of_update {store next : OrderStore} {clOrdId : Text} {action : OrderAction} {order : Order}
    (updated : store.update clOrdId action = .ok .unit next) (found : next.findByClOrdId clOrdId = some order) :
    ∃ old, store.findByClOrdId clOrdId = some old ∧ action.run old = .ok .unit order := by
  have known : clOrdId ∈ store.ids := by
    rw [← ids_of_update updated]
    exact mem_ids.mpr ⟨order, of_findByClOrdId found⟩
  cases wasFound : store.findByClOrdId clOrdId with
  | none => exact absurd known (findByClOrdId_eq_none_iff.mp wasFound)
  | some old =>
      obtain ⟨after, applied, again⟩ := applied_of_update wasFound updated
      obtain rfl : order = after := Option.some.inj (found.symm.trans again)
      exact ⟨old, rfl, applied⟩

theorem findByClOrdId_eq (store : OrderStore) (clOrdId : Text) :
    store.findByClOrdId clOrdId =
      store.orders[store.lowerBound clOrdId]?.filter fun order => order.clOrdId = clOrdId := by
  simp only [findByClOrdId, locate]
  cases store.orders[store.lowerBound clOrdId]? with
  | none => rfl
  | some order =>
      by_cases same : order.clOrdId = clOrdId
      · simp [same, Option.filter_some]
      · simp [same, Option.filter_some]

/-- What a transition keeps of an order is found as before, under every id. -/
theorem map_findByClOrdId_update {β : Type} {store next : OrderStore} {clOrdId : Text} {action : OrderAction}
    (read : Order → β) (keeps : ∀ order, read (finalState (action.run order)) = read order)
    (updated : store.update clOrdId action = .ok .unit next) (other : Text) :
    (next.findByClOrdId other).map read = (store.findByClOrdId other).map read := by
  by_cases stored : clOrdId ∈ store.ids
  · obtain ⟨index, old, located⟩ := locate_isSome stored
    obtain ⟨-, here, -⟩ := locate_eq_some located
    have orders := finalState_update_of_locate located action
    rw [updated] at orders
    have orders : next.orders = store.orders.set index (finalState (action.run old)) := orders
    rw [findByClOrdId_eq, findByClOrdId_eq, lowerBound_congr (ids_of_update updated), orders]
    by_cases same : index = store.lowerBound other
    · subst same
      rw [List.getElem?_set_self (List.getElem?_eq_some_iff.mp here).1, here, Option.filter_some, Option.filter_some,
        action.keepsId]
      split
      · exact congrArg some (keeps old)
      · rfl
    · rw [List.getElem?_set_ne same]
  · rw [update_of_not_mem stored] at updated
    cases updated
    rfl

/-- An id under which nothing was written is found as before. -/
theorem findByClOrdId_unchanged {store next : OrderStore} (distinct : store.ids.Nodup) {clOrdId : Text}
    (kept : ∀ order ∈ next.orders, order.clOrdId = clOrdId → order ∈ store.orders)
    (stays : clOrdId ∈ store.ids → clOrdId ∈ next.ids) :
    next.findByClOrdId clOrdId = store.findByClOrdId clOrdId := by
  cases found : next.findByClOrdId clOrdId with
  | none =>
      have absent := findByClOrdId_eq_none_iff.mp found
      exact (findByClOrdId_eq_none_iff.mpr fun stored => absent (stays stored)).symm
  | some order =>
      obtain ⟨member, same⟩ := of_findByClOrdId found
      rw [← same]
      exact (findByClOrdId_of_mem distinct (kept order member same)).symm

/-- Whether its action returns or not, an update only concerns its own id. -/
theorem findByClOrdId_other {store : OrderStore} (distinct : store.ids.Nodup) {clOrdId other : Text} (action : OrderAction)
    (different : other ≠ clOrdId) :
    (finalState (store.update clOrdId action)).findByClOrdId other = store.findByClOrdId other := by
  refine findByClOrdId_unchanged distinct (fun order member same => ?_) fun stored => ?_
  · rcases mem_update member with kept | ⟨old, found, rfl⟩
    · exact kept
    · rw [action.keepsId, (of_findByClOrdId found).2] at same
      exact absurd same.symm different
  · rw [ids_update]
    exact stored

theorem findByClOrdId_update_of_ne {store next : OrderStore} (distinct : store.ids.Nodup) {clOrdId other : Text}
    {action : OrderAction} (updated : store.update clOrdId action = .ok .unit next) (different : other ≠ clOrdId) :
    next.findByClOrdId other = store.findByClOrdId other := by
  have unchanged := findByClOrdId_other distinct action different
  rw [updated] at unchanged
  exact unchanged

theorem findByClOrdId_erase_of_ne {store : OrderStore} (distinct : store.ids.Nodup) {clOrdId other : Text}
    (different : other ≠ clOrdId) : (store.erase clOrdId).findByClOrdId other = store.findByClOrdId other :=
  findByClOrdId_unchanged distinct (fun _ member _ => mem_of_mem_erase member) fun stored =>
    (mem_ids_erase distinct).mpr ⟨stored, different⟩

/-- An order that is removed right after a transition leaves the others as they were. -/
theorem mem_of_mem_erase_update {store : OrderStore} {clOrdId : Text} (stored : clOrdId ∈ store.ids)
    (action : OrderAction) {order : Order}
    (member : order ∈ ((finalState (store.update clOrdId action)).erase clOrdId).orders) :
    order ∈ store.orders := by
  obtain ⟨index, old, located⟩ := locate_isSome stored
  rw [erase, locate_update located action] at member
  dsimp only at member
  rw [finalState_update_of_locate located, List.eraseIdx_set_eq] at member
  exact (List.eraseIdx_sublist _ _).subset member

/-- Transitions other than events leave the exchange's id alone. -/
def KeepsOrdId (action : OrderAction) : Prop := ∀ order, (finalState (action.run order)).ordId = order.ordId

theorem keepsOrdId_onAmendRequested (now : Int) : KeepsOrdId (.onAmendRequested now) := by
  intro order
  simp only [OrderAction.onAmendRequested, Order.onAmendRequested, Order.request]
  split <;> rfl

theorem keepsOrdId_onCancelRequested (now : Int) : KeepsOrdId (.onCancelRequested now) := by
  intro order
  simp only [OrderAction.onCancelRequested, Order.onCancelRequested, Order.request]
  split <;> rfl

theorem keepsOrdId_onRequestRejected : KeepsOrdId .onRequestRejected := by
  intro order
  simp only [OrderAction.onRequestRejected, Order.onRequestRejected]
  split <;> rfl

theorem ordId_update {store : OrderStore} {clOrdId : Text} {action : OrderAction} (keeps : KeepsOrdId action)
    {order : Order} (member : order ∈ (finalState (store.update clOrdId action)).orders) :
    ∃ old ∈ store.orders, old.clOrdId = order.clOrdId ∧ old.ordId = order.ordId := by
  rcases mem_update member with kept | ⟨old, found, rfl⟩
  · exact ⟨order, kept, rfl, rfl⟩
  · exact ⟨old, (of_findByClOrdId found).1, (action.keepsId old).symm, (keeps old).symm⟩

theorem ordId_of_update {store next : OrderStore} {clOrdId : Text} {action : OrderAction}
    (keeps : KeepsOrdId action) (updated : store.update clOrdId action = .ok .unit next)
    {order : Order} (member : order ∈ next.orders) :
    ∃ old ∈ store.orders, old.clOrdId = order.clOrdId ∧ old.ordId = order.ordId := by
  have written : order ∈ (finalState (store.update clOrdId action)).orders := by
    rw [updated]
    exact member
  exact ordId_update keeps written

/-- A request that is rejected returns the order to a state that is not terminal. -/
def Resumable (store : OrderStore) : Prop := ∀ order ∈ store.orders, isTerminal order.prePendingState = false

def KeepsResumable (action : OrderAction) : Prop :=
  ∀ order, isTerminal order.prePendingState = false →
    isTerminal (finalState (action.run order)).prePendingState = false

theorem resumable_request {message : String} {other pending : OrderState} {now : Int} {order : Order}
    (resumable : isTerminal order.prePendingState = false) :
    isTerminal (finalState (Order.request message other pending now order)).prePendingState = false := by
  unfold Order.request
  split
  · exact resumable
  · rename_i taken
    dsimp only [finalState]
    split
    · rename_i notOther
      cases state : order.state <;> simp_all [isTerminal]
    · exact resumable

theorem keepsResumable_onAmendRequested (now : Int) : KeepsResumable (.onAmendRequested now) :=
  fun _ => resumable_request

theorem keepsResumable_onCancelRequested (now : Int) : KeepsResumable (.onCancelRequested now) :=
  fun _ => resumable_request

theorem keepsResumable_onRequestRejected : KeepsResumable .onRequestRejected := by
  intro order resumable
  simp only [OrderAction.onRequestRejected, Order.onRequestRejected]
  split <;> exact resumable

theorem keepsResumable_applyEvent {D : Type} (event : OrderEvent D) : KeepsResumable (.applyEvent event) := by
  intro order resumable
  simp only [OrderAction.applyEvent, Order.applyEvent]
  cases event.type with
  | kLive =>
      dsimp only
      split
      · exact resumable
      · split
        · exact resumable
        · split <;> exact resumable
  | kPartialFill | kFill | kCancel =>
      dsimp only [Order.advance]
      split <;> exact resumable

theorem resumable_update {store : OrderStore} {action : OrderAction} (keeps : KeepsResumable action)
    (resumable : store.Resumable) (clOrdId : Text) : (finalState (store.update clOrdId action)).Resumable := by
  intro order member
  rcases mem_update member with kept | ⟨old, found, rfl⟩
  · exact resumable order kept
  · exact keeps old (resumable old (of_findByClOrdId found).1)

end TradingEngine.OrderStore
