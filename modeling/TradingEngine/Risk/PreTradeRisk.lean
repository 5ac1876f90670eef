import TradingEngine.Connectivity.RateLimiterProperties
import TradingEngine.Risk.KillSwitchProperties

/-! The pre-trade check and the placements. The round trip is checked before it
starts; the quoter is not, so its placements pass only where the limits would have
let them pass. -/

set_option autoImplicit false

namespace TradingEngine.Engine

open Library.Exec

variable {D : Type}

/-- The handle names an acknowledged order, and not the id about to be drawn. -/
def hasQuote (engine : Engine D) (side : QuoteSide) : Bool :=
  match engine.quoter.handle side with
  | none => false
  | some clOrdId => clOrdId ≠ toDecimal engine.nextId && clOrdId ∈ engine.store.ids &&
      engine.store.orders.all fun order => order.clOrdId ≠ clOrdId || order.ordId ≠ []

/-- A side that a requote may place an order for. -/
def mayPlace (engine : Engine D) (side : QuoteSide) : Bool := !engine.hasQuote side

/-- An acknowledged quote is not replaced, however often its id is stored. -/
theorem not_needsOrder {engine : Engine D} {side : QuoteSide} (clOrdId : Text)
    (handle : engine.quoter.handle side = some clOrdId) (stored : clOrdId ∈ engine.store.ids)
    (acknowledged : ∀ order ∈ engine.store.orders, order.clOrdId = clOrdId → order.ordId ≠ []) :
    engine.needsOrder side = false := by
  cases found : engine.store.findByClOrdId clOrdId with
  | none => exact absurd stored (OrderStore.findByClOrdId_eq_none_iff.mp found)
  | some order =>
      obtain ⟨member, same⟩ := OrderStore.of_findByClOrdId found
      simpa [needsOrder, handle, found] using acknowledged order member same

theorem of_hasQuote {engine : Engine D} {side : QuoteSide} (quoted : engine.hasQuote side = true) :
    ∃ clOrdId, engine.quoter.handle side = some clOrdId ∧ clOrdId ≠ toDecimal engine.nextId ∧
      clOrdId ∈ engine.store.ids ∧
      ∀ order ∈ engine.store.orders, order.clOrdId = clOrdId → order.ordId ≠ [] := by
  unfold hasQuote at quoted
  cases handle : engine.quoter.handle side with
  | none => simp [handle] at quoted
  | some clOrdId =>
      simp only [handle, Bool.and_eq_true, decide_eq_true_eq, List.all_eq_true, Bool.or_eq_true] at quoted
      obtain ⟨⟨undrawn, stored⟩, acknowledged⟩ := quoted
      refine ⟨clOrdId, rfl, undrawn, stored, fun order member same => ?_⟩
      exact (acknowledged order member).resolve_left (fun different => different same)

theorem hasQuote_readies {before after : Engine D} (readies : Readies before after) (side : QuoteSide) :
    after.hasQuote side = before.hasQuote side := by
  obtain ⟨ws, mid, rfl⟩ := readies
  cases side <;> rfl

theorem mayPlace_of_needsOrder {engine : Engine D} {side : QuoteSide} (needs : engine.needsOrder side = true) :
    engine.mayPlace side = true := by
  rw [mayPlace, Bool.not_eq_true']
  refine Bool.eq_false_iff.mpr fun quoted => ?_
  obtain ⟨clOrdId, handle, -, stored, acknowledged⟩ := of_hasQuote quoted
  rw [not_needsOrder clOrdId handle stored acknowledged] at needs
  cases needs

variable [DoubleArith D]

/-- The size and notional limits, without a reference price. -/
def withinLimits (limits : RiskLimits D) (request : OrderRequest) : Bool :=
  match (Json.parseDouble request.sz : Except Exn D), (Json.parseDouble request.px : Except Exn D) with
  | .ok sz, .ok px =>
      !DoubleArith.lt limits.maxOrderSz sz && !DoubleArith.lt limits.maxNotional (DoubleArith.mul sz px)
  | _, _ => false

theorem riskPassed_iff (request : OrderRequest) (before : OrderStore) :
    RiskPassed D request before ↔
      withinLimits (kRiskLimits : RiskLimits D) request = true ∧
        before.size < (kRiskLimits : RiskLimits D).maxOpenOrders := by
  unfold RiskPassed checkPreTradeRisk withinLimits
  cases (Json.parseDouble request.sz : Except Exn D) with
  | error exception => simp [bind, Except.bind]
  | ok sz =>
      cases (Json.parseDouble request.px : Except Exn D) with
      | error exception => simp [bind, Except.bind]
      | ok px =>
          simp only [bind, Except.bind, pure, Except.pure, collarResult]
          split
          · rename_i tooLarge
            simp [exceeds, tooLarge]
          · rename_i sized
            split
            · rename_i tooDear
              simp [exceeds, tooDear]
            · rename_i priced
              split
              · rename_i full
                simp [sized, priced, full]
              · rename_i room
                simp [sized, priced, Nat.lt_of_not_le room]

variable (D) in
/-- A placement passed the check against the store it was added to. -/
def Checked : Effect → Prop
  | .send _ (.order _ request) before =>
      RiskPassed D request before ∧ before.size < (kRiskLimits : RiskLimits D).maxOpenOrders
  | _ => True

theorem checked_of_not_isOrder {effect : Effect} (other : ¬ effect.IsOrder) : Checked D effect := by
  match effect, other with
  | .send _ (.order _ _) _, other => exact absurd trivial other
  | .send _ (.amendOrder _ _ _ _ _) _, _ => trivial
  | .send _ (.cancelOrder _ _ _) _, _ => trivial
  | .send _ (.other _) _, _ => trivial
  | .restPlace _ _, _ => trivial
  | .restCancel _ _, _ => trivial
  | .restPending, _ => trivial
  | .triggered _, _ => trivial
  | .removed _, _ => trivial

theorem checked_of_passed {route : Route} {clOrdId : Text} {request : OrderRequest} {before : OrderStore}
    (passed : RiskPassed D request before) : Checked D (.send route (.order clOrdId request) before) :=
  ⟨passed, ((riskPassed_iff request before).mp passed).2⟩

/-!
## The quoter's placements
-/

/-- The quotes that may be placed pass the limits, with room for all of them. -/
def QuotesPass (engine : Engine D) (places : QuoteSide → Bool) (mid : D) : Prop :=
  ∀ side, places side = true →
    withinLimits (kRiskLimits : RiskLimits D)
      (engine.quoter.request side (engine.quoter.quotePrice mid side)) = true ∧
    engine.store.size + (places .bid).toNat + (places .ask).toNat ≤ (kRiskLimits : RiskLimits D).maxOpenOrders

/-- A run for one side sends no more than it may, whether it returns or throws. -/
theorem SideStep.emits {wants : Engine D → QuoteSide → Bool} {side : QuoteSide} {px : D} {before after : Engine D}
    (step : SideStep wants side px before after) : Emits (Sends wants side px before) before after := by
  cases step with
  | waits waits =>
      obtain ⟨clock, limiter, rfl⟩ := waits
      exact emits_of_same rfl
  | denied _ waits =>
      obtain ⟨clock, limiter, rfl⟩ := waits
      exact emits_of_same rfl
  | places wanted places =>
      obtain ⟨clock, limiter, ws, now, store, added, rfl⟩ := places
      exact emits_one rfl (.inl ⟨wanted, rfl⟩)
  | amends _ amends =>
      obtain ⟨clock, limiter, ws, now, store, effect, updated, rfl, isAmend⟩ := amends
      exact emits_one rfl (.inr isAmend)

/-- The first side adds one order at most, and only if it wanted one. -/
theorem SideStep.size_le {wants : Engine D → QuoteSide → Bool} {side : QuoteSide} {px : D} {before after : Engine D}
    (step : SideStep wants side px before after) :
    after.store.size ≤ before.store.size + (wants before side).toNat := by
  cases step with
  | waits waits =>
      obtain ⟨clock, limiter, rfl⟩ := waits
      exact Nat.le_add_right _ _
  | denied _ waits =>
      obtain ⟨clock, limiter, rfl⟩ := waits
      exact Nat.le_add_right _ _
  | places wanted places =>
      obtain ⟨clock, limiter, ws, now, store, added, rfl⟩ := places
      rw [wanted]
      exact (OrderStore.size_add added).le
  | amends _ amends =>
      obtain ⟨clock, limiter, ws, now, store, effect, updated, rfl, -⟩ := amends
      have same := congrArg List.length (OrderStore.ids_of_update updated)
      simp only [OrderStore.ids, List.length_map] at same
      exact same.le.trans (Nat.le_add_right _ _)

/-- What a request is made of does not change with the handles. -/
theorem SideStep.request_eq {wants : Engine D → QuoteSide → Bool} {side : QuoteSide} {px : D}
    {before after : Engine D} (step : SideStep wants side px before after) (other : QuoteSide) (price : D) :
    after.quoter.request other price = before.quoter.request other price := by
  cases step with
  | waits waits =>
      obtain ⟨clock, limiter, rfl⟩ := waits
      rfl
  | denied _ waits =>
      obtain ⟨clock, limiter, rfl⟩ := waits
      cases side <;> rfl
  | places _ places =>
      obtain ⟨clock, limiter, ws, now, store, added, rfl⟩ := places
      cases side <;> rfl
  | amends _ amends =>
      obtain ⟨clock, limiter, ws, now, store, effect, updated, rfl, -⟩ := amends
      rfl

theorem checked_of_sends {wants : Engine D → QuoteSide → Bool} {side : QuoteSide} {px : D} {engine : Engine D}
    (passes : wants engine side = true → RiskPassed D (engine.quoter.request side px) engine.store)
    {effect : Effect} (sends : Sends wants side px engine effect) : Checked D effect := by
  rcases sends with ⟨wanted, rfl⟩ | isAmend
  · exact checked_of_passed (passes wanted)
  · match effect, isAmend with
    | .send _ (.amendOrder _ _ _ _ _) _, _ => trivial

/-- Both sides, where the sides that place are among those the limits allow for. -/
theorem QuoteOutcome.emits_checked {wants : Engine D → QuoteSide → Bool} {engine : Engine D} {mid : D}
    {result : EStateM.Result Exn (Engine D) PUnit} {places : QuoteSide → Bool}
    (outcome : QuoteOutcome wants mid engine result) (pass : QuotesPass engine places mid)
    (bid : ∀ ready, Readies engine ready → wants ready .bid = true → places .bid = true)
    (ask : ∀ ready first px, Readies engine ready → SideStep wants .bid px ready first →
      wants first .ask = true → places .ask = true) :
    Emits (Checked D) engine (finalState result) := by
  have bidPasses {ready : Engine D} (readies : Readies engine ready) (wanted : wants ready .bid = true) :
      RiskPassed D (ready.quoter.request .bid (engine.quoter.quotePrice mid .bid)) ready.store := by
    obtain ⟨within, room⟩ := pass .bid (bid ready readies wanted)
    rw [bid ready readies wanted] at room
    obtain ⟨ws, last, rfl⟩ := readies
    refine (riskPassed_iff _ _).mpr ⟨within, ?_⟩
    simp only [Bool.toNat_true] at room
    dsimp only
    omega
  have askPasses {ready first : Engine D} (readies : Readies engine ready)
      (step : SideStep wants .bid (engine.quoter.quotePrice mid .bid) ready first)
      (wanted : wants first .ask = true) :
      RiskPassed D (first.quoter.request .ask (engine.quoter.quotePrice mid .ask)) first.store := by
    have placed := ask ready first _ readies step wanted
    obtain ⟨within, room⟩ := pass .ask placed
    rw [placed] at room
    have counted : (wants ready .bid).toNat ≤ (places .bid).toNat := by
      cases wantedBid : wants ready .bid with
      | false => exact Nat.zero_le _
      | true => rw [bid ready readies wantedBid]
    have bound := step.size_le.trans (Nat.add_le_add_left counted _)
    rw [step.request_eq]
    obtain ⟨ws, last, rfl⟩ := readies
    refine (riskPassed_iff _ _).mpr ⟨within, ?_⟩
    simp only [Bool.toNat_true] at room
    dsimp only at bound
    omega
  have readied {ready : Engine D} (readies : Readies engine ready) : Emits (Checked D) engine ready := by
    obtain ⟨ws, last, rfl⟩ := readies
    exact emits_of_same rfl
  have bidEmits {ready first : Engine D} (readies : Readies engine ready)
      (emits : Emits (Sends wants .bid (engine.quoter.quotePrice mid .bid) ready) ready first) :
      Emits (Checked D) engine first :=
    (readied readies).trans (emits.mono fun _ sends => checked_of_sends (bidPasses readies) sends)
  cases result with
  | error exception next =>
      obtain ⟨ready, readies, failed | ⟨first, step, failed⟩⟩ := outcome
      · exact bidEmits readies failed
      · exact (bidEmits readies step.emits).trans
          (failed.mono fun _ sends => checked_of_sends (askPasses readies step) sends)
  | ok value next =>
      obtain ⟨ready, first, second, readies, bidStep, askStep, last⟩ := outcome
      have sides : Emits (Checked D) engine second := (bidEmits readies bidStep.emits).trans
        (askStep.emits.mono fun _ sends => checked_of_sends (askPasses readies bidStep) sends)
      obtain ⟨ws, mid, rfl⟩ := last
      exact sides

/-- A quote on the other side outlives the run for this one. -/
theorem hasQuote_after {px : D} {ready first : Engine D} {side other : QuoteSide} (different : other ≠ side)
    (quoted : ready.hasQuote other = true) (step : SideStep needsOrder side px ready first) :
    first.needsOrder other = false := by
  obtain ⟨clOrdId, handle, undrawn, stored, acknowledged⟩ := of_hasQuote quoted
  have kept := (step.handle_other different).trans handle
  cases step with
  | waits waits =>
      obtain ⟨clock, limiter, rfl⟩ := waits
      exact not_needsOrder clOrdId handle stored acknowledged
  | denied _ waits =>
      obtain ⟨clock, limiter, rfl⟩ := waits
      exact not_needsOrder clOrdId kept stored acknowledged
  | places _ places =>
      obtain ⟨clock, limiter, ws, now, store, added, rfl⟩ := places
      refine not_needsOrder clOrdId kept ?_ ?_
      · exact (OrderStore.ids_perm_add added).mem_iff.mpr (List.mem_cons_of_mem _ stored)
      · intro order member same
        rcases List.mem_cons.mp ((OrderStore.perm_add added).mem_iff.mp member) with rfl | old
        · exact absurd same.symm undrawn
        · exact acknowledged order old same
  | amends _ amends =>
      obtain ⟨clock, limiter, ws, now, store, effect, updated, rfl, -⟩ := amends
      refine not_needsOrder clOrdId handle ?_ fun order member same => ?_
      · exact OrderStore.ids_of_update updated ▸ stored
      · obtain ⟨old, oldMember, sameId, sameOrdId⟩ :=
          OrderStore.ordId_of_update (OrderStore.keepsOrdId_onAmendRequested now) updated member
        rw [← sameOrdId]
        exact acknowledged old oldMember (sameId.trans same)

theorem onBookUpdate_checked {engine : Engine D} {book : OrderBook D}
    (pass : ∀ mid, engine.quoter.requoteMid book = some mid → QuotesPass engine engine.mayPlace mid) :
    Emits (Checked D) engine (finalState (onBookUpdate book engine)) := by
  rcases onBookUpdate_outcome book engine with same | ⟨mid, moved, outcome⟩
  · rw [same]
    exact emits_of_same rfl
  · refine outcome.emits_checked (pass mid moved) ?_ ?_
    · intro ready readies needs
      have placed := mayPlace_of_needsOrder needs
      rwa [mayPlace, hasQuote_readies readies] at placed
    · intro ready first px readies step needs
      rw [mayPlace, Bool.not_eq_true', ← hasQuote_readies readies]
      refine Bool.eq_false_iff.mpr fun quoted => ?_
      rw [hasQuote_after (by decide) quoted step] at needs
      cases needs

/-- The timer's placements are those of the sides without a handle. -/
theorem hasNoOrder_after {px : D} {ready first : Engine D} (step : SideStep hasNoOrder .bid px ready first) :
    first.hasNoOrder .ask = ready.hasNoOrder .ask := by
  cases step with
  | waits waits =>
      obtain ⟨clock, limiter, rfl⟩ := waits
      rfl
  | denied _ waits =>
      obtain ⟨clock, limiter, rfl⟩ := waits
      rfl
  | places _ places =>
      obtain ⟨clock, limiter, ws, now, store, added, rfl⟩ := places
      rfl
  | amends _ amends =>
      obtain ⟨clock, limiter, ws, now, store, effect, updated, rfl, -⟩ := amends
      rfl

theorem onTimer_checked {engine : Engine D}
    (pass : ∀ mid, engine.quoter.lastQuotedMid = some mid → QuotesPass engine engine.hasNoOrder mid) :
    Emits (Checked D) engine (finalState (onTimer engine)) := by
  rcases onTimer_outcome engine with same | ⟨mid, last, outcome⟩
  · rw [same]
    exact emits_of_same rfl
  · refine outcome.emits_checked (pass mid last) ?_ ?_
    · rintro ready ⟨ws, mid, rfl⟩ free
      exact free
    · rintro ready first px ⟨ws, mid, rfl⟩ step free
      rw [hasNoOrder_after step] at free
      exact free

/-!
## Refused placements
-/

section Refused

omit [DoubleArith D]

/-- The limiter of orders has a slot at a later reading of the clock. -/
def hasSlot (engine : Engine D) (later : Nat) : Bool :=
  engine.rateLimiter.orderLimiter.inUse (engine.steadyClock.reading (engine.steadyClock.reads + later)) <
    engine.rateLimiter.orderLimiter.capacity

/-- It has none at the next readings. -/
def Refuses (engine : Engine D) (count : Nat) : Prop := ∀ later < count, engine.hasSlot later = false

theorem Refuses.fewer {engine : Engine D} {count fewer : Nat} (refuses : engine.Refuses count) (less : fewer ≤ count) :
    engine.Refuses fewer := fun later few => refuses later (few.trans_le less)

/-- The limiter is left alone while the clock is read some times. -/
theorem Refuses.later {before after : Engine D} {count : Nat} (reads : Nat) (refuses : before.Refuses count)
    (limiter : after.rateLimiter.orderLimiter = before.rateLimiter.orderLimiter)
    (clock : after.steadyClock = { before.steadyClock with reads := before.steadyClock.reads + reads }) :
    after.Refuses (count - reads) := by
  intro later few
  have refused := refuses (reads + later) (by omega)
  rw [hasSlot, limiter, clock, Nat.add_assoc]
  exact refused

/-- An attempt to place is refused, and so are the next. -/
theorem tryAcquire_of_refuses {engine : Engine D} {count : Nat} (refuses : engine.Refuses (count + 1)) :
    ∃ next, tryAcquire kOrderOp engine = .ok false next ∧ next.trace = engine.trace ∧ next.Refuses count := by
  have full (later : Nat) (few : later < count + 1) : engine.rateLimiter.orderLimiter.capacity ≤
      engine.rateLimiter.orderLimiter.inUse (engine.steadyClock.reading (engine.steadyClock.reads + later)) := by
    simpa [hasSlot] using refuses later few
  obtain ⟨granted, limiter, decided, acquired⟩ := run_tryAcquire engine (.inl rfl)
  have refused := SlidingWindowLimiter.tryAcquire_refused (full 0 (by omega))
  rw [EndpointRateLimiter.tryAcquire, if_pos rfl, show engine.steadyClock.now =
    engine.steadyClock.reading (engine.steadyClock.reads + 0) from rfl, refused] at decided
  cases decided
  refine ⟨_, acquired, rfl, fun later few => decide_eq_false (Nat.not_lt.mpr ?_)⟩
  have still := SlidingWindowLimiter.full_after_refusal (full 0 (by omega)) (full (later + 1) (by omega))
  rwa [Nat.add_comm later, ← Nat.add_assoc] at still

end Refused

/-- While the limiter refuses, every message sent has passed the check. -/
def Spares (count left : Nat) (before after : Engine D) : Prop :=
  before.Refuses count → Emits (Checked D) before after ∧ after.Refuses left

theorem spares_seq {count between left : Nat} {α β : Type} {first : EngineM D α} {next : α → EngineM D β}
    (fewer : left ≤ between) (early : Moves (Spares count between) first)
    (late : ∀ value, Moves (Spares between left) (next value)) : Moves (Spares count left) (first >>= next) := by
  refine moves_seq (fun _ _ stops refuses => ?_) (fun _ _ _ starts continues refuses => ?_) early late
  · exact ⟨(stops refuses).1, (stops refuses).2.fewer fewer⟩
  · obtain ⟨emits, still⟩ := starts refuses
    exact ⟨emits.trans (continues still).1, (continues still).2⟩

theorem Readies.spares {before after : Engine D} (readies : Readies before after) (count : Nat) :
    Spares count count before after := by
  obtain ⟨ws, mid, rfl⟩ := readies
  exact fun refuses => ⟨emits_of_same rfl, refuses⟩

theorem spares_quoteSide (side : QuoteSide) (px : D) (count : Nat) :
    Moves (Spares (count + 1) count) (quoteSide side px) := by
  intro engine refuses
  obtain ⟨next, acquired, trace, still⟩ := tryAcquire_of_refuses refuses
  have unplaced : placeSide side px engine = .ok none next := by
    rw [placeSide, run_bind_ok acquired]
    rfl
  rw [quoteSide, run_bind_ok unplaced]
  exact ⟨emits_of_same trace, still⟩

/-- An amend reads the clock twice at most and has a limiter of its own. -/
theorem spares_amendSide (clOrdId ordId : Text) (px : D) (count : Nat) :
    Moves (Spares count (count - 2)) (amendSide clOrdId ordId px) := by
  intro engine refuses
  obtain ⟨granted, limiter, decided, acquired⟩ := run_tryAcquire engine (.inr (.inr rfl))
  have orders : limiter.orderLimiter = engine.rateLimiter.orderLimiter := by
    cases decided
    rfl
  rw [amendSide, run_bind_ok acquired]
  cases granted with
  | false => exact ⟨emits_of_same rfl, (refuses.later 1 orders rfl).fewer (by omega)⟩
  | true =>
      rw [if_pos rfl, run_bind_ok (run_steadyNow _), run_bind, updateOrder]
      dsimp only
      cases engine.store.update clOrdId (.onAmendRequested engine.steadyClock.tick.now) with
      | error exception store => exact ⟨emits_of_same rfl, refuses.later 2 orders rfl⟩
      | ok value store =>
          dsimp only
          rw [run_bind_ok (run_generateId _), run_bind_ok (run_get _), run_send]
          split <;> exact ⟨emits_one rfl trivial, refuses.later 2 orders rfl⟩

theorem spares_replaceSide (side : QuoteSide) (px : D) (count : Nat) :
    Moves (Spares (count + 1) (count - 1)) (replaceSide side px) := by
  have quotes (engine : Engine D) (refuses : engine.Refuses (count + 1)) :=
    (spares_quoteSide side px count engine refuses).imp_right (·.fewer (Nat.sub_le count 1))
  intro engine refuses
  rw [replaceSide, run_bind_ok (run_get _)]
  cases engine.quoter.handle side with
  | none => exact quotes engine refuses
  | some clOrdId =>
      dsimp only
      cases engine.store.findByClOrdId clOrdId with
      | none => exact quotes (engine.withHandle side none) refuses
      | some order =>
          dsimp only
          split_ifs
          · exact quotes (engine.withHandle side none) refuses
          · exact ⟨emits_of_same rfl, refuses.fewer (by omega)⟩
          · exact spares_amendSide clOrdId order.ordId px (count + 1) engine refuses

theorem spares_quoteIfEmpty (side : QuoteSide) (px : D) (count : Nat) :
    Moves (Spares (count + 1) (count - 1)) (quoteIfEmpty side px) := by
  intro engine refuses
  rw [quoteIfEmpty, run_bind_ok (run_get _)]
  cases engine.quoter.handle side with
  | none => exact (spares_quoteSide side px count engine refuses).imp_right (·.fewer (Nat.sub_le count 1))
  | some clOrdId => exact ⟨emits_of_same rfl, refuses.fewer (by omega)⟩

/-- The ask is tried at the third reading of the turn at the latest. -/
theorem spares_bothSides {body : QuoteSide → D → EngineM D PUnit} {finish : EngineM D PUnit}
    (each : ∀ side px count, Moves (Spares (count + 1) (count - 1)) (body side px))
    (finishes : ∀ engine, Readies engine (finalState (finish engine))) (bidPx askPx : D) :
    Moves (Spares 3 0) (do
      beginBatch
      body .bid bidPx
      body .ask askPx
      finish) := by
  refine spares_seq (by omega) (fun engine => Readies.spares ⟨_, _, rfl⟩ 3) fun _ => ?_
  refine spares_seq (by omega) (each .bid bidPx 2) fun _ => ?_
  exact spares_seq le_rfl (each .ask askPx 0) fun _ engine => (finishes engine).spares 0

theorem onBookUpdate_refused {engine : Engine D} (book : OrderBook D) (refuses : engine.Refuses 3) :
    Emits (Checked D) engine (finalState (onBookUpdate book engine)) := by
  rw [onBookUpdate, run_bind_ok (run_get _)]
  cases engine.quoter.requoteMid book with
  | none => exact emits_of_same rfl
  | some mid => exact (spares_bothSides spares_replaceSide (fun _ => ⟨_, _, rfl⟩) _ _ engine refuses).1

theorem onTimer_refused {engine : Engine D} (refuses : engine.Refuses 3) :
    Emits (Checked D) engine (finalState (onTimer engine)) := by
  rw [onTimer, run_bind_ok (run_get _)]
  cases engine.quoter.lastQuotedMid with
  | none => exact emits_of_same rfl
  | some mid => exact (spares_bothSides spares_quoteIfEmpty (fun _ => ⟨_, _, rfl⟩) _ _ engine refuses).1

/-!
## Runs
-/

/-- The quoter acts on this turn. -/
def quoting (engine : Engine D) : Bool := !engine.stopped && !engine.triggered && engine.ws.authenticated

/-- The quoter is only let act where its placements would be refused by the
limiter or would pass the check. -/
def RiskAdmits (engine : Engine D) : Input D → Prop
  | .bookUpdate book => engine.quoting = true → ¬ engine.Refuses 3 → ∀ mid ∈ engine.quoter.requoteMid book,
      QuotesPass engine engine.mayPlace mid
  | .quoterTimer => engine.quoting = true → ¬ engine.Refuses 3 → ∀ mid ∈ engine.quoter.lastQuotedMid,
      QuotesPass engine engine.hasNoOrder mid
  | _ => True

theorem checked_of_closed {effect : Effect} (closed : ¬ effect.Opens) : Checked D effect := by
  refine checked_of_not_isOrder fun isOrder => closed ?_
  match effect, isOrder with
  | .send _ (.order _ _) _, _ => trivial

theorem Switches.emits_checked {before after : Engine D} (switches : Switches before after) :
    Emits (Checked D) before after :=
  switches.emits.mono fun _ => checked_of_closed

theorem ifQuoting_checked {program : EngineM D PUnit} {engine : Engine D} (running : engine.stopped = false)
    (checked : engine.quoting = true → Emits (Checked D) engine (finalState (program engine))) :
    Emits (Checked D) engine (finalState (ifQuoting program engine)) := by
  rw [ifQuoting, run_bind_ok (run_get _)]
  split
  · rename_i acts
    exact checked (by simpa [quoting, running] using acts)
  · exact emits_of_same rfl

theorem login_checked (message : Text) (engine : Engine D) :
    Emits (Checked D) engine (finalState (handle (.login message) engine)) := by
  have gated := gated_login message engine
  refine gated.emits.mono fun effect allowed => ?_
  rcases allowed with quiet | ⟨-, request, before, starts, passed⟩
  · exact checked_of_closed quiet.1
  · rcases starts with quiet | ⟨clOrdId, rfl⟩ | ⟨clOrdId, rfl⟩
    · exact checked_of_closed quiet.1
    · exact checked_of_passed passed
    · trivial

theorem response_checked (message : Text) (engine : Engine D) :
    Emits (Checked D) engine (finalState (handle (.response message) engine)) := by
  rw [finalState_response]
  refine (keeps_dispatch message engine).emits.mono fun effect allowed => ?_
  rcases allowed with quiet | isAmend
  · exact checked_of_closed quiet.1
  · match effect, isAmend with
    | .send _ (.amendOrder _ _ _ _ _) _, _ => trivial

theorem step_checked {input : Input D} {engine : Engine D} (admitted : RiskAdmits engine input) :
    Emits (Checked D) engine (finalState (step input engine)) := by
  rw [step, run_bind_ok (run_get _)]
  split
  · exact emits_of_same rfl
  · rename_i unstopped
    have running : engine.stopped = false := Bool.eq_false_iff.mpr unstopped
    cases input with
    | bookUpdate book =>
        refine ifQuoting_checked running fun acts => ?_
        by_cases refuses : engine.Refuses 3
        · exact onBookUpdate_refused book refuses
        · exact onBookUpdate_checked (admitted acts refuses)
    | quoterTimer =>
        refine ifQuoting_checked running fun acts => ?_
        by_cases refuses : engine.Refuses 3
        · exact onTimer_refused refuses
        · exact onTimer_checked (admitted acts refuses)
    | login message => exact login_checked message engine
    | response message => exact response_checked message engine
    | orderEvent event => exact (switches_handleOrderEvent event engine).emits_checked
    | account message => exact (keepsQuiet.moves_handleAccountChannelMessage message engine).switches.emits_checked
    | timeoutCheck => exact (keepsQuiet.moves_checkAndResolve engine).switches.emits_checked
    | signal => exact (switches_signal engine).emits_checked
    | connected login => exact (keepsQuiet.moves_connectOrReconnect login engine).switches.emits_checked
    | disconnected => exact emits_of_same rfl
    | controlFrame bytes => exact (keepsQuiet.moves_writeRaw bytes engine).switches.emits_checked
    | written bytes => exact emits_of_same rfl

/-- In every state of a run that meets the condition, also after a step that
throws, every placement sent has passed the check against the store it met. -/
theorem placements_checked (environment : Environment) (quoter : NaiveQuoter D) (request : OrderRequest)
    (lastId : Nat) {engine : Engine D}
    (run : Reaches (fun input => settle (step input)) RiskAdmits (initial environment quoter request lastId) engine) :
    ∀ effect ∈ engine.trace, Checked D effect := by
  refine run.invariant (fun current => ∀ effect ∈ current.trace, Checked D effect) ?_ ?_
  · intro effect member
    cases member
  · intro current input next checked admitted ran
    obtain rfl : finalState (step input current) = next := by
      injection ran
    obtain ⟨new, grown, checkedNew⟩ := step_checked admitted
    intro effect member
    rw [grown] at member
    rcases List.mem_append.mp member with old | isNew
    · exact checked effect old
    · exact checkedNew effect isNew

instance (engine : Engine D) (count : Nat) : Decidable (engine.Refuses count) :=
  inferInstanceAs (Decidable (∀ _ < count, _))

instance (engine : Engine D) (places : QuoteSide → Bool) (mid : D) : Decidable (QuotesPass engine places mid) :=
  inferInstanceAs (Decidable (∀ _ : QuoteSide, _ → _))

instance (engine : Engine D) : (input : Input D) → Decidable (RiskAdmits engine input)
  | .bookUpdate _ => inferInstanceAs (Decidable (_ → _))
  | .quoterTimer => inferInstanceAs (Decidable (_ → _))
  | .response _ | .login _ | .orderEvent _ | .account _ | .timeoutCheck | .signal
  | .connected _ | .disconnected | .controlFrame _ | .written _ => inferInstanceAs (Decidable True)

/-- The round trip starts, both sides are quoted, acknowledged and amended. -/
def calmRun : List (Input ℚ) := loggedIn ++
  [.bookUpdate (sampleBook 99 101), .orderEvent (acknowledgement "2" "72" "buy" "100.00"),
    .orderEvent (acknowledgement "3" "73" "sell" "100.00"), .bookUpdate (sampleBook 199 201), .quoterTimer]

theorem placements_checked_when_calm :
    (finalState (forM calmRun (fun input => settle (step input)) sampleEngine)).store.size = 3 ∧
      ∀ effect ∈ (finalState (forM calmRun (fun input => settle (step input)) sampleEngine)).trace, Checked ℚ effect :=
  ⟨by decide +kernel,
    placements_checked sampleEnvironment sampleQuoter sampleRequest 0 (Reaches.start.all calmRun (by decide +kernel))⟩

/-- How many orders are stored when the effect places another. -/
def Effect.storedAtPlacement : Effect → Option Nat
  | .send _ (.order _ _) before => some before.size
  | _ => none

theorem not_checked_of_full {effect : Effect} (full : Effect.storedAtPlacement effect = some 10) :
    ¬ Checked ℚ effect := by
  match effect, full with
  | .send _ (.order _ _) before, full =>
      rintro ⟨-, room⟩
      have size : before.size = 10 := Option.some.inj full
      have limit : (kRiskLimits : RiskLimits ℚ).maxOpenOrders = 10 := rfl
      omega

/-- The mid moves five times before any quote is acknowledged. -/
def crowdingRun : List (Input ℚ) := loggedIn ++
  [.bookUpdate (sampleBook 99 101), .bookUpdate (sampleBook 199 201), .bookUpdate (sampleBook 299 301),
    .bookUpdate (sampleBook 399 401), .bookUpdate (sampleBook 499 501)]

/-- The last sell is placed into a store that already holds ten orders. -/
theorem placement_unchecked_when_crowded :
    Reaches step (fun _ _ => True) sampleEngine (finalState (forM crowdingRun step sampleEngine)) ∧
      (finalState (forM crowdingRun step sampleEngine)).trace.filterMap Effect.storedAtPlacement =
        [0, 1, 2, 3, 4, 5, 6, 7, 8, 9, 10] ∧
      ¬ ∀ effect ∈ (finalState (forM crowdingRun step sampleEngine)).trace, Checked ℚ effect := by
  have sizes : (finalState (forM crowdingRun step sampleEngine)).trace.filterMap Effect.storedAtPlacement =
      [0, 1, 2, 3, 4, 5, 6, 7, 8, 9, 10] := by decide +kernel
  refine ⟨Reaches.start.all crowdingRun (by decide +kernel), sizes, fun checked => ?_⟩
  have last : 10 ∈ (finalState (forM crowdingRun step sampleEngine)).trace.filterMap Effect.storedAtPlacement := by
    rw [sizes]
    decide
  obtain ⟨effect, member, full⟩ := List.mem_filterMap.mp last
  exact not_checked_of_full full (checked effect member)

end TradingEngine.Engine
