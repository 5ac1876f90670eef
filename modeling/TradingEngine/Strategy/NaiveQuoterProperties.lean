import TradingEngine.Engine.StateProperties
import TradingEngine.Library.Ghost
import TradingEngine.Strategy.NaiveQuoter

/-! What the quoter can do to one side: nothing, give up its handle for want of a
rate-limit slot, place an order under the next id, or amend the order it has. -/

set_option autoImplicit false

namespace TradingEngine.Engine

open Library.Exec

variable {D : Type}

instance (predicate : QuoteSide → Prop) [DecidablePred predicate] : Decidable (∀ side, predicate side) :=
  decidable_of_iff (predicate .bid ∧ predicate .ask)
    ⟨fun both side => by cases side; exacts [both.1, both.2], fun all => ⟨all .bid, all .ask⟩⟩

/-- A side the quoter places an order for when the mid moves. -/
def needsOrder (engine : Engine D) (side : QuoteSide) : Bool :=
  match engine.quoter.handle side with
  | none => true
  | some clOrdId =>
      match engine.store.findByClOrdId clOrdId with
      | none => true
      | some order => order.ordId = []

/-- A side the timer places an order for. -/
def hasNoOrder (engine : Engine D) (side : QuoteSide) : Bool := (engine.quoter.handle side).isNone

def Effect.IsAmend : Effect → Prop
  | .send _ (.amendOrder _ _ _ _ _) _ => True
  | _ => False

def withHandle (engine : Engine D) (side : QuoteSide) (clOrdId : Option Text) : Engine D :=
  { engine with quoter := engine.quoter.setHandle side clOrdId }

theorem handle_setHandle (quoter : NaiveQuoter D) (side other : QuoteSide) (clOrdId : Option Text) :
    (quoter.setHandle side clOrdId).handle other = if other = side then clOrdId else quoter.handle other := by
  cases side <;> cases other <;> rfl

theorem withHandle_none {engine : Engine D} {side : QuoteSide} (free : engine.quoter.handle side = none) :
    engine.withHandle side none = engine := by
  have same : engine.quoter.setHandle side none = engine.quoter := by
    cases side with
    | bid => rw [NaiveQuoter.setHandle, ← free, NaiveQuoter.handle]
    | ask => rw [NaiveQuoter.setHandle, ← free, NaiveQuoter.handle]
  rw [withHandle, same]

/-- Only the rate limiter and its clock have moved. -/
def Waits (before after : Engine D) : Prop :=
  ∃ clock limiter, after = { before with steadyClock := clock, rateLimiter := limiter }

/-- A stored order has an amendment requested and sent. -/
def Amends (clOrdId : Text) (before after : Engine D) : Prop :=
  ∃ clock limiter ws now store effect,
    before.store.update clOrdId (.onAmendRequested now) = .ok .unit store ∧
    after = { before with
      steadyClock := clock
      rateLimiter := limiter
      ws := ws
      lastId := before.nextId
      systemClock := before.systemClock.tick
      store := store
      trace := before.trace ++ [effect] } ∧
    Effect.IsAmend effect

variable [DoubleArith D]

/-- The message of a placement. -/
def placement (engine : Engine D) (side : QuoteSide) (px : D) : Effect :=
  .send .quoter (.order (toDecimal engine.nextId) (engine.quoter.request side px)) engine.store

/-- An order was added under the next id and sent. -/
def Places (side : QuoteSide) (px : D) (before after : Engine D) : Prop :=
  ∃ clock limiter ws now store,
    before.store.add (Order.create (toDecimal before.nextId) before.quoter.instId side.name
      (before.quoter.formatPrice px) before.quoter.sz now) = .ok store ∧
    after = { before with
      steadyClock := clock
      rateLimiter := limiter
      ws := ws
      lastId := before.nextId
      systemClock := before.systemClock.tick
      store := store
      trace := before.trace ++ [before.placement side px] }

/-- What a run for one side may do when it returns; `wants` says when it places. -/
inductive SideStep (wants : Engine D → QuoteSide → Bool) (side : QuoteSide) (px : D) (before : Engine D) :
    Engine D → Prop where
  | waits {after : Engine D} : Waits before after → SideStep wants side px before after
  | denied {after : Engine D} : wants before side = true → Waits (before.withHandle side none) after →
      SideStep wants side px before after
  | places {after : Engine D} : wants before side = true → Places side px before after →
      SideStep wants side px before (after.withHandle side (some (toDecimal before.nextId)))
  | amends {after : Engine D} {clOrdId : Text} : before.quoter.handle side = some clOrdId →
      Amends clOrdId before after → SideStep wants side px before after

/-- A run for one side leaves the handle of the other alone. -/
theorem SideStep.handle_other {wants : Engine D → QuoteSide → Bool} {side other : QuoteSide} {px : D}
    {before after : Engine D} (step : SideStep wants side px before after) (different : other ≠ side) :
    after.quoter.handle other = before.quoter.handle other := by
  cases step with
  | waits waits =>
      obtain ⟨clock, limiter, rfl⟩ := waits
      rfl
  | denied _ waits =>
      obtain ⟨clock, limiter, rfl⟩ := waits
      exact (handle_setHandle ..).trans (if_neg different)
  | places _ places =>
      obtain ⟨clock, limiter, ws, now, store, added, rfl⟩ := places
      exact (handle_setHandle ..).trans (if_neg different)
  | amends _ amends =>
      obtain ⟨clock, limiter, ws, now, store, effect, updated, rfl, -⟩ := amends
      rfl

/-- What a run for one side may send. -/
def Sends (wants : Engine D → QuoteSide → Bool) (side : QuoteSide) (px : D) (engine : Engine D)
    (effect : Effect) : Prop :=
  (wants engine side = true ∧ effect = engine.placement side px) ∨ Effect.IsAmend effect

/-- A run for one side that throws may have sent its message. -/
def SideOutcome (wants : Engine D → QuoteSide → Bool) (side : QuoteSide) (px : D) (engine : Engine D) :
    EStateM.Result Exn (Engine D) PUnit → Prop
  | .ok _ next => SideStep wants side px engine next
  | .error _ next => Emits (Sends wants side px engine) engine next

def PlaceOutcome (side : QuoteSide) (px : D) (engine : Engine D) :
    EStateM.Result Exn (Engine D) (Option Text) → Prop
  | .ok none next => Waits engine next
  | .ok (some clOrdId) next => clOrdId = toDecimal engine.nextId ∧ Places side px engine next
  | .error _ next => Emits (fun effect => effect = engine.placement side px) engine next

def AmendOutcome (clOrdId : Text) (engine : Engine D) : EStateM.Result Exn (Engine D) PUnit → Prop
  | .ok _ next => Waits engine next ∨ Amends clOrdId engine next
  | .error _ next => Emits Effect.IsAmend engine next

theorem kLimit_ne_kMarket : kLimit ≠ kMarket := by decide

theorem placeSide_outcome (side : QuoteSide) (px : D) (engine : Engine D) :
    PlaceOutcome side px engine (placeSide side px engine) := by
  obtain ⟨granted, limiter, -, acquired⟩ := run_tryAcquire engine (.inl rfl)
  rw [placeSide, run_bind_ok acquired]
  cases granted with
  | false => exact ⟨_, limiter, rfl⟩
  | true =>
      rw [if_pos rfl, run_bind_ok (run_get _)]
      dsimp only
      let limited : Engine D := { engine with steadyClock := engine.steadyClock.tick, rateLimiter := limiter }
      let numbered : Engine D :=
        { limited with lastId := engine.nextId, systemClock := engine.systemClock.tick }
      have built : buildWsOrderMessage (engine.quoter.request side px) limited =
          .ok (toDecimal engine.nextId) numbered := run_buildWsOrderMessage _ kLimit_ne_kMarket
      have adds := run_addOrder numbered (toDecimal engine.nextId) (engine.quoter.request side px).instId
        (engine.quoter.request side px).side (engine.quoter.request side px).px (engine.quoter.request side px).sz
      rw [run_bind_ok built, run_bind]
      cases added : numbered.store.add (Order.create (toDecimal engine.nextId) (engine.quoter.request side px).instId
          (engine.quoter.request side px).side (engine.quoter.request side px).px (engine.quoter.request side px).sz
          numbered.steadyClock.now) with
      | error exception =>
          rw [added] at adds
          rw [adds]
          exact emits_of_same rfl
      | ok store =>
          rw [added] at adds
          rw [adds]
          dsimp only
          rw [run_bind, run_send]
          by_cases overflow : kTxRingCapacity < numbered.ws.txSize +
              frameSize (Outgoing.order (toDecimal engine.nextId) (engine.quoter.request side px)).message.length
          · rw [if_pos overflow]
            exact emits_one rfl rfl
          · rw [if_neg overflow]
            exact ⟨rfl, _, limiter, _, _, store, added, rfl⟩

/-- A placement whose id becomes the handle, after the old one was given up. -/
theorem quoteSide_outcome {wants : Engine D → QuoteSide → Bool} {side : QuoteSide} {engine : Engine D}
    (needs : wants engine side = true) (px : D) :
    SideOutcome wants side px engine (quoteSide side px (engine.withHandle side none)) := by
  have outcome := placeSide_outcome side px (engine.withHandle side none)
  have samePlacement : (engine.withHandle side none).placement side px = engine.placement side px := by
    cases side <;> rfl
  rw [quoteSide, run_bind]
  cases ran : placeSide side px (engine.withHandle side none) with
  | error exception next =>
      rw [ran] at outcome
      have emitted : Emits (fun effect => effect = engine.placement side px) engine next := samePlacement ▸ outcome
      exact emitted.mono fun effect same => .inl ⟨needs, same⟩
  | ok clOrdId next =>
      rw [ran] at outcome
      cases clOrdId with
      | none =>
          obtain ⟨clock, limiter, rfl⟩ := outcome
          refine .denied needs ⟨clock, limiter, ?_⟩
          cases side <;> rfl
      | some clOrdId =>
          obtain ⟨rfl, clock, limiter, ws, now, store, added, rfl⟩ := outcome
          have placed : Places side px engine { engine with
              steadyClock := clock
              rateLimiter := limiter
              ws := ws
              lastId := engine.nextId
              systemClock := engine.systemClock.tick
              store := store
              trace := engine.trace ++ [engine.placement side px] } :=
            ⟨clock, limiter, ws, now, store, by cases side <;> exact added, rfl⟩
          have step := SideStep.places needs placed
          cases side <;> exact step

theorem amendSide_outcome (clOrdId ordId : Text) (px : D) (engine : Engine D) :
    AmendOutcome clOrdId engine (amendSide clOrdId ordId px engine) := by
  obtain ⟨granted, limiter, -, acquired⟩ := run_tryAcquire engine (.inr (.inr rfl))
  rw [amendSide, run_bind_ok acquired]
  cases granted with
  | false => exact .inl ⟨_, limiter, rfl⟩
  | true =>
      rw [if_pos rfl, run_bind_ok (run_steadyNow _), run_bind, updateOrder]
      dsimp only
      cases updated : engine.store.update clOrdId (.onAmendRequested engine.steadyClock.tick.now) with
      | error exception store => exact emits_of_same rfl
      | ok value store =>
          dsimp only
          rw [run_bind_ok (run_generateId _), run_bind_ok (run_get _)]
          rw [run_send]
          split
          · exact emits_one rfl trivial
          · exact .inr ⟨_, limiter, _, _, store, _, updated, rfl, trivial⟩

theorem replaceSide_outcome (side : QuoteSide) (px : D) (engine : Engine D) :
    SideOutcome needsOrder side px engine (replaceSide side px engine) := by
  rw [replaceSide, run_bind_ok (run_get _)]
  cases handle : engine.quoter.handle side with
  | none =>
      have needs : engine.needsOrder side = true := by simp [needsOrder, handle]
      have outcome := quoteSide_outcome needs px
      rw [withHandle_none handle] at outcome
      exact outcome
  | some clOrdId =>
      dsimp only
      cases found : engine.store.findByClOrdId clOrdId with
      | none =>
          have needs : engine.needsOrder side = true := by simp [needsOrder, handle, found]
          exact quoteSide_outcome needs px
      | some order =>
          dsimp only
          split
          · rename_i unacknowledged
            have needs : engine.needsOrder side = true := by simp [needsOrder, handle, found, unacknowledged]
            exact quoteSide_outcome needs px
          · split
            · exact .waits ⟨_, _, rfl⟩
            · have outcome := amendSide_outcome clOrdId order.ordId px engine
              cases ran : amendSide clOrdId order.ordId px engine with
              | error exception next =>
                  rw [ran] at outcome
                  exact Emits.mono outcome fun effect isAmend => .inr isAmend
              | ok value next =>
                  rw [ran] at outcome
                  rcases outcome with waits | amends
                  · exact .waits waits
                  · exact .amends handle amends

theorem quoteIfEmpty_outcome (side : QuoteSide) (px : D) (engine : Engine D) :
    SideOutcome hasNoOrder side px engine (quoteIfEmpty side px engine) := by
  rw [quoteIfEmpty, run_bind_ok (run_get _)]
  cases handle : engine.quoter.handle side with
  | none =>
      have needs : engine.hasNoOrder side = true := by simp [hasNoOrder, handle]
      have outcome := quoteSide_outcome needs px
      rw [withHandle_none handle] at outcome
      exact outcome
  | some clOrdId => exact .waits ⟨_, _, rfl⟩

/-!
## Both sides
-/

/-- Neither orders nor handles nor ids have changed. -/
def Readies (before after : Engine D) : Prop :=
  ∃ ws mid, after = { before with ws := ws, quoter := { before.quoter with lastQuotedMid := mid } }

/-- Both sides in turn around a mid price; the second follows if the first returns. -/
def QuoteOutcome (wants : Engine D → QuoteSide → Bool) (mid : D) (engine : Engine D) :
    EStateM.Result Exn (Engine D) PUnit → Prop
  | .ok _ next => ∃ ready first second, Readies engine ready ∧
      SideStep wants .bid (engine.quoter.quotePrice mid .bid) ready first ∧
      SideStep wants .ask (engine.quoter.quotePrice mid .ask) first second ∧ Readies second next
  | .error _ next => ∃ ready, Readies engine ready ∧
      (Emits (Sends wants .bid (engine.quoter.quotePrice mid .bid) ready) ready next ∨
        ∃ first, SideStep wants .bid (engine.quoter.quotePrice mid .bid) ready first ∧
          Emits (Sends wants .ask (engine.quoter.quotePrice mid .ask) first) first next)

theorem bothSides_outcome {wants : Engine D → QuoteSide → Bool} {body : QuoteSide → D → EngineM D PUnit}
    (each : ∀ side px engine, SideOutcome wants side px engine (body side px engine)) {finish : EngineM D PUnit}
    (finishes : ∀ engine, ∃ next, finish engine = .ok .unit next ∧ Readies engine next)
    (mid : D) (engine : Engine D) :
    QuoteOutcome wants mid engine ((do
      beginBatch
      body .bid (engine.quoter.quotePrice mid .bid)
      body .ask (engine.quoter.quotePrice mid .ask)
      finish) engine) := by
  obtain ⟨ready, began, readies⟩ : ∃ ready, beginBatch engine = .ok .unit ready ∧ Readies engine ready :=
    ⟨_, rfl, _, _, rfl⟩
  rw [run_bind_ok began, run_bind]
  have bidOutcome := each .bid (engine.quoter.quotePrice mid .bid) ready
  cases bidRan : body .bid (engine.quoter.quotePrice mid .bid) ready with
  | error exception next =>
      rw [bidRan] at bidOutcome
      exact ⟨ready, readies, .inl bidOutcome⟩
  | ok value first =>
      rw [bidRan] at bidOutcome
      dsimp only
      rw [run_bind]
      have askOutcome := each .ask (engine.quoter.quotePrice mid .ask) first
      cases askRan : body .ask (engine.quoter.quotePrice mid .ask) first with
      | error exception next =>
          rw [askRan] at askOutcome
          exact ⟨ready, readies, .inr ⟨first, bidOutcome, askOutcome⟩⟩
      | ok value second =>
          rw [askRan] at askOutcome
          obtain ⟨next, finished, last⟩ := finishes second
          dsimp only
          rw [finished]
          exact ⟨ready, first, second, readies, bidOutcome, askOutcome, last⟩

theorem requote_outcome (mid : D) (engine : Engine D) :
    QuoteOutcome needsOrder mid engine (requote mid engine) := by
  rw [requote, run_bind_ok (run_get _)]
  exact bothSides_outcome replaceSide_outcome (fun _ => ⟨_, rfl, _, _, rfl⟩) mid engine

theorem onBookUpdate_outcome (book : OrderBook D) (engine : Engine D) :
    onBookUpdate book engine = .ok .unit engine ∨
      ∃ mid, engine.quoter.requoteMid book = some mid ∧
        QuoteOutcome needsOrder mid engine (onBookUpdate book engine) := by
  rw [onBookUpdate, run_bind_ok (run_get _)]
  cases moved : engine.quoter.requoteMid book with
  | none => exact .inl rfl
  | some mid => exact .inr ⟨mid, rfl, requote_outcome mid engine⟩

theorem onTimer_outcome (engine : Engine D) :
    onTimer engine = .ok .unit engine ∨
      ∃ mid, engine.quoter.lastQuotedMid = some mid ∧ QuoteOutcome hasNoOrder mid engine (onTimer engine) := by
  rw [onTimer, run_bind_ok (run_get _)]
  cases last : engine.quoter.lastQuotedMid with
  | none => exact .inl rfl
  | some mid => exact .inr ⟨mid, rfl, bothSides_outcome quoteIfEmpty_outcome (fun _ => ⟨_, rfl, _, _, rfl⟩) mid engine⟩

/-!
## Notes
-/

section Watched

variable {τ : Type} (note : QuoteSide → Engine D → Engine D → τ → τ)

/-- A requote, with a note taken of the run for each side. -/
def watchedRequote (mid : D) : EStateM Exn (Engine D × τ) PUnit := do
  let engine ← onFirst get
  onFirst beginBatch
  watching (note .bid) (replaceSide .bid (engine.quoter.quotePrice mid .bid))
  watching (note .ask) (replaceSide .ask (engine.quoter.quotePrice mid .ask))
  onFirst endBatch
  onFirst (modify fun engine => { engine with quoter := { engine.quoter with lastQuotedMid := some mid } })

def watchedBookUpdate (book : OrderBook D) : EStateM Exn (Engine D × τ) PUnit := do
  let engine ← onFirst get
  match engine.quoter.requoteMid book with
  | none => onFirst (pure .unit)
  | some mid => watchedRequote note mid

theorem watches_onBookUpdate (book : OrderBook D) : Watches (watchedBookUpdate note book) (onBookUpdate book) := by
  refine watches_bind (watches_onFirst _) fun engine => ?_
  cases engine.quoter.requoteMid book with
  | none => exact watches_onFirst _
  | some mid =>
      exact watches_bind (watches_onFirst _) fun engine => watches_bind (watches_onFirst _) fun _ =>
        watches_bind (watches_watching _ _) fun _ => watches_bind (watches_watching _ _) fun _ =>
          watches_bind (watches_onFirst _) fun _ => watches_onFirst _

def watchedTimer : EStateM Exn (Engine D × τ) PUnit := do
  let engine ← onFirst get
  match engine.quoter.lastQuotedMid with
  | none => onFirst (pure .unit)
  | some mid =>
      onFirst beginBatch
      watching (note .bid) (quoteIfEmpty .bid (engine.quoter.quotePrice mid .bid))
      watching (note .ask) (quoteIfEmpty .ask (engine.quoter.quotePrice mid .ask))
      onFirst endBatch

theorem watches_onTimer : Watches (watchedTimer note) (onTimer : EngineM D PUnit) := by
  refine watches_bind (watches_onFirst _) fun engine => ?_
  cases engine.quoter.lastQuotedMid with
  | none => exact watches_onFirst _
  | some mid =>
      exact watches_bind (watches_onFirst _) fun _ => watches_bind (watches_watching _ _) fun _ =>
        watches_bind (watches_watching _ _) fun _ => watches_onFirst _

end Watched

end TradingEngine.Engine
