import TradingEngine.Orders.OrderRows

/-! When reconciliation does what it is for. A row whose id is stored is passed
over, whatever it reports; and an answer that failed, or is no answer at all,
is read as one without orders. What an answer and its rows say is what their own
members say. -/

set_option autoImplicit false

namespace TradingEngine

open Library.Exec Library.JsonText

variable {D : Type}

/-- The answer's own code reports success, and it has a data array of its own. -/
@[mk_iff]
structure SuccessfulAnswer (answer : Value) : Prop where
  code : (answer.ownNamed kCode).bind Value.string? = some kSuccessCode
  data : (answer.ownNamed kData).map Value.isArray = some true

instance (answer : Value) : Decidable (SuccessfulAnswer answer) := decidable_of_iff _ (successfulAnswer_iff answer).symm

/-- The rows of the answer's own data array. -/
def ownRows (answer : Value) : List Value := answer.ownItems kData

/-!
## Agreement with the exchange
-/

def WellFormedRow (row : Text) : Prop :=
  Readable row ∧ (classifyPendingState (field row kState)).isOk = true

instance (row : Text) : Decidable (WellFormedRow row) := inferInstanceAs (Decidable (_ ∧ _))

def IsPending (state : Text) : Prop := state = kStateLive ∨ state = kStatePartiallyFilled

instance (state : Text) : Decidable (IsPending state) := inferInstanceAs (Decidable (_ ∨ _))

/-- The state of an order that is reported so. -/
def reportedState (state : Text) : OrderState := if state = kStateLive then .kNew else .kPartiallyFilled

/-- A successful answer whose rows are all well formed. -/
@[mk_iff]
structure WellFormedAnswer (answer : Value) : Prop where
  succeeded : SuccessfulAnswer answer
  plain : ∀ name ∈ answer.names, '\\' ∉ name
  escapeFree : ∀ row ∈ answer.itemsNamed kData, '\\' ∉ row.text
  identified : ∀ row ∈ ownRows answer, ((row.ownNamed kClOrdId).bind Value.string?).isSome = true
  pending : ∀ row ∈ ownRows answer, IsPending (ownField row kState)

instance (answer : Value) : Decidable (WellFormedAnswer answer) := decidable_of_iff _ (wellFormedAnswer_iff answer).symm

/-- The order is in the state the row reports and carries what it reports. -/
@[mk_iff]
structure Reports (row : Value) (order : Order) : Prop where
  state : order.state = reportedState (ownField row kState)
  ordId : order.ordId = ownField row kOrdId
  px : order.px = ownField row kPx
  accFillSz : order.accFillSz = ownField row kAccFillSz

instance (row : Value) (order : Order) : Decidable (Reports row order) := decidable_of_iff _ (reports_iff row order).symm

/-- Reconciliation returns, and every order named by the answer is as reported. -/
def AgreesAfter (engine : Engine D) (answer : Value) : Prop :=
  ∃ next, Engine.reconcileOrders answer.text engine = .ok .unit next ∧
    ∀ row ∈ ownRows answer, ownField row kClOrdId ∈ next.store.ids ∧
      ∀ order ∈ next.store.orders, order.clOrdId = ownField row kClOrdId → Reports row order

/-- Among the rows that are read, the first of each id that is not known. -/
def rowsToAdopt : List Text → List Value → List Value
  | _, [] => []
  | known, row :: rest =>
      if firstField row kClOrdId ∈ known then rowsToAdopt known rest
      else row :: rowsToAdopt (firstField row kClOrdId :: known) rest

/-- What is read from one row is what the other reports. -/
@[mk_iff]
structure ReadAs (first row : Value) : Prop where
  state : reportedState (firstField first kState) = reportedState (ownField row kState)
  ordId : firstField first kOrdId = ownField row kOrdId
  px : firstField first kPx = ownField row kPx
  accFillSz : firstField first kAccFillSz = ownField row kAccFillSz

instance (first row : Value) : Decidable (ReadAs first row) := decidable_of_iff _ (readAs_iff first row).symm

/-- The rows that are read can be read and adopted, the answer's rows are among them,
the stored orders they name are already as reported, and what is read of an order to
adopt is what is reported of it. -/
@[mk_iff]
structure Settled (store : OrderStore) (answer : Value) : Prop where
  readable : ∀ row ∈ answer.itemsNamed kData, ∀ name ∈ [kClOrdId, kState],
    ((row.firstNamed name).bind Value.string?).isSome = true
  adoptable : ∀ row ∈ rowsToAdopt store.ids (answer.itemsNamed kData), IsPending (firstField row kState)
  room : store.size + (rowsToAdopt store.ids (answer.itemsNamed kData)).length ≤ OrderStore.kCapacity
  named : ∀ row ∈ ownRows answer,
    ownField row kClOrdId ∈ (answer.itemsNamed kData).map (firstField · kClOrdId)
  stored : ∀ row ∈ ownRows answer, ∀ order ∈ store.orders, order.clOrdId = ownField row kClOrdId → Reports row order
  adopted : ∀ first ∈ rowsToAdopt store.ids (answer.itemsNamed kData), ∀ row ∈ ownRows answer,
    ownField row kClOrdId = firstField first kClOrdId → ReadAs first row

instance (store : OrderStore) (answer : Value) : Decidable (Settled store answer) :=
  decidable_of_iff _ (settled_iff store answer).symm

/-!
## Rows as they are read
-/

theorem isOk_classifyPendingState {state : Text} :
    (classifyPendingState state).isOk = true ↔ IsPending state := by
  unfold classifyPendingState IsPending
  split
  · rename_i live
    simp [live]
    rfl
  · rename_i notLive
    split
    · rename_i partly
      simp [partly]
      rfl
    · rename_i notPartly
      simp only [notLive, notPartly, or_self, iff_false]
      exact Bool.false_ne_true

theorem pendingState_of_classified {state : Text} {type : OrderEventType} (classified : classifyPendingState state = .ok type) :
    pendingState type = reportedState state := by
  unfold classifyPendingState at classified
  unfold reportedState
  split_ifs at classified with live partly
  · cases classified
    rw [if_pos live]
    rfl
  · cases classified
    rw [if_neg live]
    rfl

section Rows

variable {rows : List Value} (escapeFree : ∀ row ∈ rows, '\\' ∉ row.text)
include escapeFree

theorem newRows_text (known : List Text) : newRows known (rows.map Value.text) = (rowsToAdopt known rows).map Value.text := by
  induction rows generalizing known with
  | nil => rfl
  | cons row rest ih =>
      have id : rowId row.text = firstField row kClOrdId :=
        field_row (escapeFree row List.mem_cons_self) (by simp [copiedNames])
      have tail := ih fun other member => escapeFree other (List.mem_cons_of_mem _ member)
      rw [List.map_cons, newRows, rowsToAdopt, id]
      split
      · exact tail known
      · rw [List.map_cons, tail]

theorem rowIds_text : (rows.map Value.text).map rowId = rows.map (firstField · kClOrdId) := by
  rw [List.map_map]
  exact List.map_congr_left fun row member => field_row (escapeFree row member) (by simp [copiedNames])

theorem readable_text {row : Value} (member : row ∈ rows) :
    Readable row.text ↔ ∀ name ∈ [kClOrdId, kState], ((row.firstNamed name).bind Value.string?).isSome = true := by
  rw [Readable, findString_row (escapeFree row member) (by simp [copiedNames]),
    findString_row (escapeFree row member) (by simp [copiedNames])]
  simp

end Rows

theorem of_mem_rowsToAdopt {known : List Text} {rows : List Value} {row : Value} (member : row ∈ rowsToAdopt known rows) :
    row ∈ rows := by
  induction rows generalizing known with
  | nil => cases member
  | cons head rest ih =>
      rw [rowsToAdopt] at member
      split at member
      · exact List.mem_cons_of_mem _ (ih member)
      · rcases List.mem_cons.mp member with rfl | later
        · exact List.mem_cons_self
        · exact List.mem_cons_of_mem _ (ih later)

/-- An adopted order reports a row just if the row it was adopted from reads so. -/
theorem reports_iff_readAs {first row : Value} (escapeFree : '\\' ∉ first.text) {order : Order}
    (as : AdoptedAs first.text order) : Reports row order ↔ ReadAs first row := by
  have read {name : Text} (member : name ∈ kState :: copiedNames) := field_row escapeFree member
  obtain ⟨type, now, classified, rfl⟩ := as
  have state := pendingState_of_classified classified
  rw [read List.mem_cons_self] at state
  have ordId : field first.text kOrdId = firstField first kOrdId := read (by simp [copiedNames])
  have px : field first.text kPx = firstField first kPx := read (by simp [copiedNames])
  have accFillSz : field first.text kAccFillSz = firstField first kAccFillSz := read (by simp [copiedNames])
  constructor
  · intro reports
    exact ⟨state.symm.trans reports.state, ordId.symm.trans reports.ordId, px.symm.trans reports.px,
      accFillSz.symm.trans reports.accFillSz⟩
  · intro reads
    exact ⟨state.trans reads.state, ordId.trans reads.ordId, px.trans reads.px, accFillSz.trans reads.accFillSz⟩

namespace Engine

/-- With room for what is new, rows that can be read and adopted are read to the end. -/
theorem returns_of_adoptable {engine : Engine D} {response : Text} (readable : ∀ row ∈ pendingRows response, Readable row)
    (adoptable : ∀ row ∈ newRows engine.store.ids (pendingRows response),
      (classifyPendingState (field row kState)).isOk = true)
    (room : engine.store.size + (newRows engine.store.ids (pendingRows response)).length ≤ OrderStore.kCapacity) :
    ∃ next, reconcileOrders response engine = .ok .unit next := by
  have outcome := reconcileOrders_outcome response engine
  cases ran : reconcileOrders response engine with
  | ok value next => exact ⟨next, rfl⟩
  | error exception next =>
      rw [ran] at outcome
      obtain ⟨done, row, rest, split, -, adopts, stops⟩ := outcome
      obtain ⟨absent, reason⟩ := stops (readable row (by simp [split]))
      have unknown : rowId row ∉ done.map rowId ++ engine.store.ids := by
        intro known
        rw [adopts.mem_ids, or_comm, ← List.mem_append] at absent
        exact absent known
      rw [split, newRows_append, newRows, if_neg unknown] at adoptable room
      rcases reason with unclassified | full
      · rw [adoptable row (List.mem_append_right _ List.mem_cons_self)] at unclassified
        cases unclassified
      · have size := adopts.size
        rw [List.length_append, List.length_cons] at room
        omega

theorem returns_of_room {engine : Engine D} {response : Text}
    (wellFormed : ∀ row ∈ pendingRows response, WellFormedRow row)
    (room : engine.store.size + (newRows engine.store.ids (pendingRows response)).length ≤ OrderStore.kCapacity) :
    ∃ next, reconcileOrders response engine = .ok .unit next :=
  returns_of_adoptable (fun row member => (wellFormed row member).1)
    (fun row new => (wellFormed row (of_mem_newRows new).1).2) room

section Agreement

variable {engine : Engine D} {answer : Value} (plain : ∀ name ∈ answer.names, '\\' ∉ name)
  (escapeFree : ∀ row ∈ answer.itemsNamed kData, '\\' ∉ row.text)
include plain escapeFree

theorem settled_of_agrees (agrees : AgreesAfter engine answer) : Settled engine.store answer := by
  obtain ⟨next, ran, reported⟩ := agrees
  have outcome := reconcileOrders_outcome answer.text engine
  rw [ran] at outcome
  rw [pendingRows_text plain] at outcome
  obtain ⟨readable, middle, adopts, -, stays⟩ := outcome
  rw [rowIds_text escapeFree] at stays
  have named (row : Value) (rowMember : row ∈ ownRows answer) :
      ownField row kClOrdId ∈ (answer.itemsNamed kData).map (firstField · kClOrdId) := by
    obtain ⟨order, member, same⟩ := OrderStore.mem_ids.mp (reported row rowMember).1
    have listed := (List.mem_filter.mp (stays.mem_iff.mp member)).2
    rw [same] at listed
    exact of_decide_eq_true listed
  -- an order held after the rows, and named by one of them, is not removed
  have held {order : Order} {row : Value} (rowMember : row ∈ ownRows answer) (member : order ∈ middle.store.orders)
      (same : order.clOrdId = ownField row kClOrdId) : Reports row order := by
    refine (reported row rowMember).2 order (stays.mem_iff.mpr (List.mem_filter.mpr ⟨member, ?_⟩)) same
    rw [same]
    exact decide_eq_true (named row rowMember)
  have adopted {first : Value} (new : first ∈ rowsToAdopt engine.store.ids (answer.itemsNamed kData)) :
      ∃ order ∈ middle.store.orders, AdoptedAs first.text order := by
    refine adopts.adopted ?_
    rw [newRows_text escapeFree]
    exact List.mem_map_of_mem new
  have plainRow {first : Value} (new : first ∈ rowsToAdopt engine.store.ids (answer.itemsNamed kData)) :=
    escapeFree first (of_mem_rowsToAdopt new)
  constructor
  · exact fun row member => (readable_text escapeFree member).mp (readable _ (List.mem_map_of_mem member))
  · intro first new
    obtain ⟨-, -, type, now, classified, -⟩ := adopted new
    rw [← isOk_classifyPendingState, ← field_row (plainRow new) List.mem_cons_self, classified]
    rfl
  · have bounded := middle.store.bounded
    have size := adopts.size
    rw [newRows_text escapeFree, List.length_map] at size
    unfold OrderStore.size at size ⊢
    omega
  · exact named
  · intro row rowMember order member same
    exact held rowMember (adopts.kept member) same
  · intro first new row rowMember same
    obtain ⟨order, member, as⟩ := adopted new
    refine (reports_iff_readAs (plainRow new) as).mp (held rowMember member ?_)
    rw [clOrdId_of_adoptedAs as, same]
    exact field_row (plainRow new) (by simp [copiedNames])

theorem agrees_of_settled (settled : Settled engine.store answer) : AgreesAfter engine answer := by
  have new := newRows_text escapeFree engine.store.ids
  obtain ⟨next, ran⟩ : ∃ next, reconcileOrders answer.text engine = .ok .unit next := by
    refine returns_of_adoptable ?_ ?_ ?_
    all_goals rw [pendingRows_text plain]
    · intro text member
      obtain ⟨row, isRow, rfl⟩ := List.mem_map.mp member
      exact (readable_text escapeFree isRow).mpr (settled.readable row isRow)
    · intro text member
      rw [new] at member
      obtain ⟨row, isNew, rfl⟩ := List.mem_map.mp member
      rw [field_row (escapeFree row (of_mem_rowsToAdopt isNew)) List.mem_cons_self, isOk_classifyPendingState]
      exact settled.adoptable row isNew
    · rw [new, List.length_map]
      exact settled.room
  have outcome := reconcileOrders_outcome answer.text engine
  rw [ran] at outcome
  rw [pendingRows_text plain] at outcome
  obtain ⟨-, middle, adopts, -, stays⟩ := outcome
  refine ⟨next, ran, fun row rowMember => ⟨?_, ?_⟩⟩
  · have named := settled.named row rowMember
    rw [← rowIds_text escapeFree] at named
    obtain ⟨order, member, same⟩ := OrderStore.mem_ids.mp (adopts.mem_ids.mpr (.inr named))
    refine OrderStore.mem_ids.mpr ⟨order, stays.mem_iff.mpr (List.mem_filter.mpr ⟨member, ?_⟩), same⟩
    rw [same]
    exact decide_eq_true named
  · intro order member same
    rcases adopts.of_mem (List.mem_filter.mp (stays.mem_iff.mp member)).1 with old | ⟨text, isNew, as⟩
    · exact settled.stored row rowMember order old same
    · rw [new] at isNew
      obtain ⟨first, isFirst, rfl⟩ := List.mem_map.mp isNew
      have plainRow := escapeFree first (of_mem_rowsToAdopt isFirst)
      refine (reports_iff_readAs plainRow as).mpr (settled.adopted first isFirst row rowMember ?_)
      rw [← same, clOrdId_of_adoptedAs as]
      exact field_row plainRow (by simp [copiedNames])

end Agreement

/-- After a successful and well-formed answer the store agrees with it exactly
when what it names was settled before. -/
theorem agrees_iff_settled (engine : Engine D) {answer : Value} (wellFormed : WellFormedAnswer answer) :
    AgreesAfter engine answer ↔ Settled engine.store answer :=
  ⟨settled_of_agrees wellFormed.plain wellFormed.escapeFree, agrees_of_settled wellFormed.plain wellFormed.escapeFree⟩

/-- A row of the exchange. -/
def reportedRow (clOrdId ordId px : Text) (state : Text) : Value :=
  .ofMembers [(kClOrdId, .ofText clOrdId), (kOrdId, .ofText ordId), (kState, .ofText state), (kPx, .ofText px),
    (kAccFillSz, .ofText "0".toList)]

/-- An order that is known and one that is not. -/
def reportedAnswer : Value :=
  .ofMembers [(kCode, .ofText kSuccessCode), (kData, .ofItems [
    reportedRow "1".toList "9".toList "100.00".toList kStateLive,
    reportedRow "2".toList "12".toList "99.00".toList kStatePartiallyFilled])]

/-- The known order is live, as reported, and there is room for the other. -/
theorem agrees_with_live_order :
    AgreesAfter (sampleEngine.holding (.single (sampleOrder .kNew))) reportedAnswer :=
  (agrees_iff_settled _ (by decide +kernel)).mpr (by decide +kernel)

/-- A known order whose amendment is outstanding stays so, though the exchange
reports it live at its old price. -/
theorem disagrees_on_pending_amend :
    WellFormedAnswer reportedAnswer ∧
      ¬ AgreesAfter (sampleEngine.holding (.single (sampleOrder .kPendingAmend))) reportedAnswer := by
  have wellFormed : WellFormedAnswer reportedAnswer := by decide +kernel
  have unsettled : ¬ Settled (.single (sampleOrder .kPendingAmend)) reportedAnswer := by decide +kernel
  exact ⟨wellFormed, fun agrees => unsettled (settled_of_agrees wellFormed.plain wellFormed.escapeFree agrees)⟩

end Engine

/-!
## Failed answers
-/

/-- The body is an answer that succeeded, in whatever layout. -/
def Succeeded (response : Text) : Prop := ∃ document : Document, document.text = response ∧ SuccessfulAnswer document.value

/-- Reconciliation leaves the orders alone and tells the listener of no removal. -/
def Untouched (engine : Engine D) (response : Text) : Prop :=
  (finalState (Engine.reconcileOrders response engine)).store = engine.store ∧
    (finalState (Engine.reconcileOrders response engine)).trace = engine.trace

/-- A row that is passed over. -/
def Skips (store : OrderStore) (row : Text) : Prop := Readable row ∧ rowId row ∈ store.ids

/-- A row throws before one is adopted, or the rows name just what is stored. -/
def Idle (store : OrderStore) (rows : List Text) : Prop :=
  (∃ done row rest, rows = done ++ row :: rest ∧ (∀ other ∈ done, Skips store other) ∧ Stops store row) ∨
    (∀ row ∈ rows, Skips store row) ∧ ∀ id ∈ store.ids, id ∈ rows.map rowId

namespace Engine

theorem toDrop_eq_nil_iff {store : OrderStore} {ids : List Text} :
    toDrop store ids = [] ↔ ∀ id ∈ store.ids, id ∈ ids := by
  simp [toDrop, OrderStore.ids]

namespace Adopts

variable {before after : Engine D} {rows : List Text}

theorem known_of_same_store (adopts : Adopts before rows after) (same : after.store = before.store) :
    ∀ row ∈ rows, rowId row ∈ before.store.ids := by
  rw [← newRows_eq_nil_iff, ← List.length_eq_zero_iff]
  have size := adopts.size
  rw [same] at size
  omega

theorem same_store_of_skips (adopts : Adopts before rows after) (skips : ∀ row ∈ rows, Skips before.store row) :
    after.store = before.store :=
  adopts.idle (newRows_eq_nil_iff.mpr fun row member => (skips row member).2)

/-- Rows are not adopted past one that throws. -/
theorem stops_before {done rest : List Text} {row : Text} (adopts : Adopts before (done ++ row :: rest) after)
    (readable : Readable row) (skips : ∀ other ∈ done, Skips before.store other) (stops : Stops before.store row) :
    False := by
  obtain ⟨absent, reason⟩ := stops readable
  have unknown : rowId row ∉ done.map rowId ++ before.store.ids := by
    intro known
    rcases List.mem_append.mp known with named | stored
    · obtain ⟨other, member, same⟩ := List.mem_map.mp named
      exact absent (same ▸ (skips other member).2)
    · exact absent stored
  have new : row ∈ newRows before.store.ids (done ++ row :: rest) := by
    rw [newRows_append, newRows, if_neg unknown]
    exact List.mem_append_right _ List.mem_cons_self
  rcases reason with unclassified | full
  · obtain ⟨order, -, type, now, classified, -⟩ := adopts.adopted new
    rw [classified] at unclassified
    cases unclassified
  · have size := adopts.size
    have bounded := after.store.bounded
    have some_new := List.length_pos_of_mem new
    unfold OrderStore.size at size full
    omega

end Adopts

theorem idle_of_untouched {engine : Engine D} {response : Text} (untouched : Untouched engine response) :
    Idle engine.store (pendingRows response) := by
  obtain ⟨sameStore, sameTrace⟩ := untouched
  have outcome := reconcileOrders_outcome response engine
  cases ran : reconcileOrders response engine with
  | error exception next =>
      rw [ran] at outcome sameStore
      obtain ⟨done, row, rest, split, readables, adopts, stops⟩ := outcome
      have known := adopts.known_of_same_store sameStore
      refine .inl ⟨done, row, rest, split, fun other member => ⟨readables other member, known other member⟩, ?_⟩
      rw [← sameStore]
      exact stops
  | ok value next =>
      rw [ran] at outcome sameStore sameTrace
      obtain ⟨readables, middle, adopts, drops, -⟩ := outcome
      obtain ⟨clock, framed⟩ := adopts.frame
      have none_dropped : toDrop middle.store ((pendingRows response).map rowId) = [] := by
        have trace : next.trace = engine.trace := sameTrace
        rw [drops.frame, framed] at trace
        simpa using trace
      have unchanged : middle.store = engine.store := (drops.idle none_dropped).symm.trans sameStore
      have known := adopts.known_of_same_store unchanged
      rw [toDrop_eq_nil_iff, unchanged] at none_dropped
      exact .inr ⟨fun row member => ⟨readables row member, known row member⟩, none_dropped⟩

theorem untouched_of_idle {engine : Engine D} {response : Text}
    (idle : Idle engine.store (pendingRows response)) : Untouched engine response := by
  have outcome := reconcileOrders_outcome response engine
  unfold Untouched
  cases ran : reconcileOrders response engine with
  | error exception next =>
      rw [ran] at outcome
      obtain ⟨done, row, rest, split, readables, adopts, stops⟩ := outcome
      have sameStore : next.store = engine.store := by
        rcases idle with ⟨early, stop, later, splitEarly, skips, stopsEarly⟩ | ⟨skips, -⟩
        · rw [split] at splitEarly
          rcases List.append_eq_append_iff.mp splitEarly with ⟨between, same, -⟩ | ⟨between, same, tail⟩
          · exact adopts.same_store_of_skips fun other member =>
              skips other (same ▸ List.mem_append_left _ member)
          · cases between with
            | nil =>
                rw [List.append_nil] at same
                exact adopts.same_store_of_skips fun other member => skips other (same ▸ member)
            | cons head rest =>
                obtain ⟨rfl, -⟩ := List.cons.inj tail
                subst same
                exact absurd stopsEarly fun stopsEarly =>
                  adopts.stops_before (readables stop (by simp)) skips stopsEarly
        · exact adopts.same_store_of_skips fun other member => skips other (by simp [split, member])
      obtain ⟨clock, framed⟩ := adopts.frame
      refine ⟨sameStore, ?_⟩
      rw [framed]
      rfl
  | ok value next =>
      rw [ran] at outcome
      obtain ⟨readables, middle, adopts, drops, -⟩ := outcome
      rcases idle with ⟨early, stop, later, split, skips, stops⟩ | ⟨skips, named⟩
      · rw [split] at adopts readables
        exact absurd stops fun stops => adopts.stops_before (readables stop (by simp)) skips stops
      · have unchanged := adopts.same_store_of_skips skips
        have none_dropped := toDrop_eq_nil_iff.mpr (unchanged ▸ named)
        obtain ⟨clock, framed⟩ := adopts.frame
        refine ⟨(drops.idle none_dropped).trans unchanged, ?_⟩
        rw [drops.frame, none_dropped, framed]
        simp

/-- A failed answer changes nothing exactly when its rows, read all the same, ask
for nothing. -/
theorem failed_answer_untouched_iff (engine : Engine D) (response : Text) :
    (¬ Succeeded response → Untouched engine response) ↔
      (Succeeded response ∨ Idle engine.store (pendingRows response)) := by
  constructor
  · intro untouched
    by_cases succeeded : Succeeded response
    · exact .inl succeeded
    · exact .inr (idle_of_untouched (untouched succeeded))
  · rintro (succeeded | idle) failed
    · exact absurd succeeded failed
    · exact untouched_of_idle idle

def rateLimitedAnswer : Text := "\x7b\"code\":\"50011\",\"data\":[],\"msg\":\"Too Many Requests\"\x7d".toList

def errorPage : Text := "<html><body>502 Bad Gateway</body></html>".toList

def holdsLive : Engine ℚ := sampleEngine.holding (.single (sampleOrder .kNew))

/-- A body without the text of the code did not succeed. -/
theorem success_inside {response : Text} (succeeded : Succeeded response) : quote kSuccessCode <:+: response := by
  obtain ⟨document, rfl, successful⟩ := succeeded
  obtain ⟨found, named, string⟩ := Option.bind_eq_some_iff.mp successful.code
  have text : found.text = quote kSuccessCode := by
    cases found with
    | string body =>
        rw [Value.text, Option.some.inj string]
    | _ => cases string
  rw [← text]
  exact (Value.ownNamed_inside named).trans (middle_inside _ _)

theorem touched_of_dropped {response : Text}
    (dropped : (finalState (reconcileOrders response holdsLive)).store.orders = []) : ¬ Untouched holdsLive response := by
  intro untouched
  rw [untouched.1] at dropped
  cases dropped

/-- A refused request and an error page each drop the one live order. -/
theorem failed_answer_drops_live_order :
    (¬ Succeeded rateLimitedAnswer ∧ ¬ Untouched holdsLive rateLimitedAnswer) ∧
      ¬ Succeeded errorPage ∧ ¬ Untouched holdsLive errorPage :=
  ⟨⟨fun succeeded => absurd (success_inside succeeded) (by decide +kernel), touched_of_dropped (by decide +kernel)⟩,
    fun succeeded => absurd (success_inside succeeded) (by decide +kernel), touched_of_dropped (by decide +kernel)⟩

end Engine

end TradingEngine
