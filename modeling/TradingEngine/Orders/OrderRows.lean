import TradingEngine.Engine.EngineProperties
import TradingEngine.Orders.ReconciliationProperties
import TradingEngine.Util.JsonRendering

/-! Rows of order messages as JSON values. The key search takes the first member of
a name that the row's text has, at whatever depth, so an event or an adopted order
shows the row's own members exactly when those come first or say the same. -/

set_option autoImplicit false

namespace TradingEngine

open Library.Exec Library.JsonText

/-- What the first member of a name carries, at whatever depth. -/
def firstField (row : Value) (name : Text) : Text := ((row.firstNamed name).bind Value.string?).getD kEmpty

/-- What the row's own member of a name carries. -/
def ownField (row : Value) (name : Text) : Text := ((row.ownNamed name).bind Value.string?).getD kEmpty

/-- The names whose texts are copied from a row. -/
def copiedNames : List Text := [kOrdId, kClOrdId, kInstId, kSide, kPx, kSz, kAccFillSz, kAvgPx]

/-- Two states that give one type of event. -/
def SameState (first second : Text) : Prop :=
  first = second ∨
    (first = kStateCanceled ∨ first = kStateMmpCanceled) ∧ (second = kStateCanceled ∨ second = kStateMmpCanceled)

/-- No nested member speaks for a member of the row. -/
structure FirstIsOwn (row : Value) : Prop where
  copied : ∀ name ∈ copiedNames, firstField row name = ownField row name
  state : SameState (firstField row kState) (ownField row kState)

variable {D : Type}

def OrderEvent.copied (event : OrderEvent D) : List Text :=
  [event.ordId, event.clOrdId, event.instId, event.side, event.px, event.sz, event.accFillSz, event.avgPx]

def Order.copied (order : Order) : List Text :=
  [order.ordId, order.clOrdId, order.instId, order.side, order.px, order.sz, order.accFillSz, order.avgPx]

/-- The event shows the row's own members. -/
structure OwnEvent (row : Value) (event : OrderEvent D) : Prop where
  copied : event.copied = copiedNames.map (ownField row)
  state : classifyState (ownField row kState) = .ok event.type

/-- The order shows the row's own members. -/
structure OwnOrder (row : Value) (order : Order) : Prop where
  copied : order.copied = copiedNames.map (ownField row)
  state : ∃ type, classifyPendingState (ownField row kState) = .ok type ∧ order.state = pendingState type

/-!
## What the search takes from a row
-/

theorem isKey_copied : ∀ name ∈ kState :: copiedNames, Json.IsKey name := fun _ => Json.isKey_of_all rfl

theorem isKey_kData : Json.IsKey kData := Json.isKey_of_check rfl

theorem plain_names {row : Value} (escapeFree : '\\' ∉ row.text) : ∀ name ∈ row.names, '\\' ∉ name :=
  fun name member escaped => escapeFree ((row.names_inside name member).subset escaped)

theorem plain_string {row found : Value} {name body : Text} (escapeFree : '\\' ∉ row.text)
    (named : row.firstNamed name = some found) (string : found.string? = some body) : '"' ∉ body := by
  cases found with
  | string text =>
      cases string
      refine Json.quote_not_mem text fun escaped => escapeFree ((row.firstNamed_inside _ named).subset ?_)
      simp [Value.text, quote, escaped]
  | word word => cases string
  | emptyArray inner => cases string
  | array items => cases string
  | emptyObject inner => cases string
  | object members => cases string

theorem findString_row {row : Value} (escapeFree : '\\' ∉ row.text) {name : Text} (member : name ∈ kState :: copiedNames) :
    Json.findString row.text name = (row.firstNamed name).bind Value.string? :=
  Json.findString_text (isKey_copied name member) (plain_names escapeFree) fun _ _ named string =>
    plain_string escapeFree named string

theorem field_row {row : Value} (escapeFree : '\\' ∉ row.text) {name : Text} (member : name ∈ kState :: copiedNames) :
    field row.text name = firstField row name := by
  rw [field, findString_row escapeFree member, firstField]

theorem map_field_row {row : Value} (escapeFree : '\\' ∉ row.text) :
    copiedNames.map (field row.text) = copiedNames.map (firstField row) :=
  List.map_congr_left fun _ member => field_row escapeFree (List.mem_cons_of_mem _ member)

theorem map_firstField_eq_iff {row : Value} :
    copiedNames.map (firstField row) = copiedNames.map (ownField row) ↔
      ∀ name ∈ copiedNames, firstField row name = ownField row name :=
  List.map_inj_left

/-!
## Events and adopted orders
-/

def statesOf : OrderEventType → List Text
  | .kLive => [kStateLive]
  | .kPartialFill => [kStatePartiallyFilled]
  | .kFill => [kStateFilled]
  | .kCancel => [kStateCanceled, kStateMmpCanceled]

theorem classifyState_eq_ok_iff {state : Text} {type : OrderEventType} :
    classifyState state = .ok type ↔ state ∈ statesOf type := by
  constructor
  · intro classified
    unfold classifyState at classified
    split_ifs at classified with live partly filled canceled
    · cases classified
      exact List.mem_singleton.mpr live
    · cases classified
      exact List.mem_singleton.mpr partly
    · cases classified
      exact List.mem_singleton.mpr filled
    · cases classified
      simpa [statesOf] using canceled
  · intro listed
    cases type with
    | kLive => rw [List.mem_singleton.mp listed]; rfl
    | kPartialFill => rw [List.mem_singleton.mp listed]; rfl
    | kFill => rw [List.mem_singleton.mp listed]; rfl
    | kCancel =>
        rcases List.mem_cons.mp listed with rfl | last
        · rfl
        · rw [List.mem_singleton.mp last]
          rfl

theorem mem_statesOf_iff {first : Text} {type : OrderEventType} (listed : first ∈ statesOf type) (second : Text) :
    second ∈ statesOf type ↔ SameState first second := by
  have apart : ∀ state ∈ [kStateLive, kStatePartiallyFilled, kStateFilled],
      state ≠ kStateCanceled ∧ state ≠ kStateMmpCanceled := by decide
  cases type with
  | kCancel =>
      have canceled : first = kStateCanceled ∨ first = kStateMmpCanceled := by simpa [statesOf] using listed
      constructor
      · intro other
        exact .inr ⟨canceled, by simpa [statesOf] using other⟩
      · rintro (rfl | ⟨-, other⟩)
        · exact listed
        · simpa [statesOf] using other
  | _ =>
      have single := List.mem_singleton.mp listed
      have notCanceled := apart first (by simp [single])
      subst single
      simp [statesOf, SameState, notCanceled, eq_comm]

theorem classifyState_same_iff {first : Text} {type : OrderEventType} (classified : classifyState first = .ok type)
    (second : Text) : classifyState second = .ok type ↔ SameState first second :=
  classifyState_eq_ok_iff.trans (mem_statesOf_iff (classifyState_eq_ok_iff.mp classified) second)

theorem classifyPendingState_eq_ok_iff {state : Text} {type : OrderEventType} :
    classifyPendingState state = .ok type ↔ (type = .kLive ∨ type = .kPartialFill) ∧ classifyState state = .ok type := by
  constructor
  · intro classified
    refine ⟨classifyPendingState_eq classified, ?_⟩
    unfold classifyPendingState at classified
    unfold classifyState
    split_ifs at classified with live partly
    · rw [if_pos live]
      exact classified
    · rw [if_neg live, if_pos partly]
      exact classified
  · rintro ⟨rfl | rfl, classified⟩
    · rw [List.mem_singleton.mp (classifyState_eq_ok_iff.mp classified)]
      rfl
    · rw [List.mem_singleton.mp (classifyState_eq_ok_iff.mp classified)]
      rfl

theorem pendingState_inj {first second : OrderEventType} (firstPending : first = .kLive ∨ first = .kPartialFill)
    (secondPending : second = .kLive ∨ second = .kPartialFill) (same : pendingState first = pendingState second) :
    first = second := by
  rcases firstPending with rfl | rfl <;> rcases secondPending with rfl | rfl <;> cases same <;> rfl

theorem copied_of_read [DoubleArith D] {order : Text} {event : OrderEvent D} (read : readOrderEvent order = .ok event) :
    event.copied = copiedNames.map (field order) ∧ classifyState (field order kState) = .ok event.type := by
  unfold readOrderEvent at read
  cases state : Json.findString order kState with
  | none =>
      rw [state] at read
      cases read
  | some text =>
      rw [state] at read
      obtain ⟨type, classified, rest⟩ := except_bind_eq_ok read
      obtain ⟨fill, -, built⟩ := except_bind_eq_ok rest
      cases built
      refine ⟨rfl, ?_⟩
      rw [field, state]
      exact classified

theorem ownEvent_iff [DoubleArith D] {row : Value} (escapeFree : '\\' ∉ row.text) {event : OrderEvent D}
    (read : readOrderEvent row.text = .ok event) : OwnEvent row event ↔ FirstIsOwn row := by
  obtain ⟨copied, classified⟩ := copied_of_read read
  rw [map_field_row escapeFree] at copied
  rw [field_row escapeFree List.mem_cons_self] at classified
  have sameState := classifyState_same_iff classified (ownField row kState)
  constructor
  · intro own
    exact ⟨map_firstField_eq_iff.mp (copied.symm.trans own.copied), sameState.mp own.state⟩
  · intro first
    exact ⟨copied.trans (map_firstField_eq_iff.mpr first.copied), sameState.mpr first.state⟩

theorem copied_of_adoptedAs {row : Text} {order : Order} (as : AdoptedAs row order) :
    order.copied = copiedNames.map (field row) ∧
      ∃ type, classifyPendingState (field row kState) = .ok type ∧ order.state = pendingState type := by
  obtain ⟨type, now, classified, rfl⟩ := as
  exact ⟨rfl, type, classified, rfl⟩

theorem ownOrder_iff {row : Value} (escapeFree : '\\' ∉ row.text) {order : Order} (as : AdoptedAs row.text order) :
    OwnOrder row order ↔ FirstIsOwn row := by
  obtain ⟨copied, type, pending, state⟩ := copied_of_adoptedAs as
  rw [map_field_row escapeFree] at copied
  rw [field_row escapeFree List.mem_cons_self] at pending
  obtain ⟨isPending, classified⟩ := classifyPendingState_eq_ok_iff.mp pending
  have sameState := classifyState_same_iff classified (ownField row kState)
  constructor
  · intro own
    obtain ⟨ownType, ownPending, shown⟩ := own.state
    obtain ⟨ownIsPending, ownClassified⟩ := classifyPendingState_eq_ok_iff.mp ownPending
    obtain rfl := pendingState_inj isPending ownIsPending (state.symm.trans shown)
    exact ⟨map_firstField_eq_iff.mp (copied.symm.trans own.copied), sameState.mp ownClassified⟩
  · intro first
    exact ⟨copied.trans (map_firstField_eq_iff.mpr first.copied), type,
      classifyPendingState_eq_ok_iff.mpr ⟨isPending, sameState.mpr first.state⟩, state⟩

/-!
## Messages
-/

section Messages

variable {message : Value} (plain : ∀ name ∈ message.names, '\\' ∉ name)
include plain

theorem pendingRows_text : pendingRows message.text = (message.itemsNamed kData).map Value.text := by
  rw [pendingRows, Json.arrayElements_text isKey_kData plain]

/-- Each event is built from one row, in order. -/
theorem forEachOrderEvent_text [DoubleArith D] {σ : Type} (action : OrderEvent D → EStateM Exn σ PUnit) :
    forEachOrderEvent message.text action =
      if Json.findString message.text kChannel ≠ some kOrdersChannel then pure .unit
      else forM (message.itemsNamed kData) fun row => lift (readOrderEvent row.text) >>= action := by
  rw [forEachOrderEvent]
  congr 1
  exact Json.forEachArrayElement_text isKey_kData plain _

/-- Each order that reconciliation leaves was stored before or adopted from a row. -/
theorem of_mem_reconciled (engine : Engine D) {order : Order}
    (stored : order ∈ (finalState (Engine.reconcileOrders message.text engine)).store.orders) :
    order ∈ engine.store.orders ∨ ∃ row ∈ message.itemsNamed kData, AdoptedAs row.text order := by
  have fromRows {done : List Text} {next : Engine D} (adopts : Engine.Adopts engine done next)
      (rows : ∀ row ∈ done, row ∈ pendingRows message.text) (member : order ∈ next.store.orders) :
      order ∈ engine.store.orders ∨ ∃ row ∈ message.itemsNamed kData, AdoptedAs row.text order := by
    rcases adopts.of_mem member with old | ⟨text, new, as⟩
    · exact .inl old
    · have listed := rows text (of_mem_newRows new).1
      rw [pendingRows_text plain] at listed
      obtain ⟨row, isRow, rfl⟩ := List.mem_map.mp listed
      exact .inr ⟨row, isRow, as⟩
  have outcome := Engine.reconcileOrders_outcome message.text engine
  cases ran : Engine.reconcileOrders message.text engine with
  | ok value next =>
      rw [ran] at outcome stored
      obtain ⟨-, middle, adopts, -, kept⟩ := outcome
      exact fromRows adopts (fun row member => member) (List.mem_of_mem_filter (kept.mem_iff.mp stored))
  | error exception next =>
      rw [ran] at outcome stored
      obtain ⟨done, row, rest, split, -, adopts, -⟩ := outcome
      exact fromRows adopts (fun row member => by rw [split]; exact List.mem_append_left _ member) stored

end Messages

def rowMessage (row : Value) : Value :=
  .ofMembers [("arg".toList, .ofMembers [(kChannel, .ofText kOrdersChannel)]), (kData, .ofItems [row])]

theorem itemsNamed_rowMessage (row : Value) : (rowMessage row).itemsNamed kData = [row] := by
  have arg : (Label.compact "arg".toList).name.text ≠ kData := by decide +kernel
  have channel : (Label.compact kChannel).name.text ≠ kData := by decide +kernel
  have data : (Label.compact kData).name.text = kData := by decide +kernel
  simp only [Value.itemsNamed, rowMessage, Value.ofMembers, Members.ofList, Value.ofText, Value.firstNamed, Members.firstNamed,
    if_neg arg, if_neg channel, if_pos data, Option.none_or, Option.elim_some, Value.ofItems, Value.items, Items.ofList,
    Items.values]

def plainRow : Value :=
  .ofMembers [(kClOrdId, .ofText ['a']), (kState, .ofText kStateLive), (kPx, .ofText ['5']),
    ("linkedAlgoOrd".toList, .ofMembers [(kPx, .ofText ['9'])])]

/-- The same members, the nested object first. -/
def nestedRow : Value :=
  .ofMembers [("linkedAlgoOrd".toList, .ofMembers [(kPx, .ofText ['9'])]), (kClOrdId, .ofText ['a']),
    (kState, .ofText kStateLive), (kPx, .ofText ['5'])]

theorem plainRow_read : ∃ event : OrderEvent ℚ, readOrderEvent plainRow.text = .ok event := by
  have read : ((readOrderEvent plainRow.text : Except Exn (OrderEvent ℚ)).toOption.isSome) = true := by decide +kernel
  cases outcome : (readOrderEvent plainRow.text : Except Exn (OrderEvent ℚ)) with
  | ok event => exact ⟨event, rfl⟩
  | error exception =>
      rw [outcome] at read
      cases read

end TradingEngine
