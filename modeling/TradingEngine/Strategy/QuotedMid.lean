import TradingEngine.Strategy.SingleQuote

/-! The price last sent for a quote and the mid it was quoted around. A requote
records the new mid also when it leaves a side alone, because an amendment of it is
in flight or the rate limiter refuses one; the price sent for that side then stays
behind. -/

set_option autoImplicit false

namespace TradingEngine

open Library.Exec

variable {D : Type}

/-- The price a message of the quoter carries for an order: its placement, or an
amendment under the ordId the order then has. -/
def Effect.sentPx (clOrdId : Text) : Effect → Option Text
  | .send .quoter (.order id request) _ => if id = clOrdId then some request.px else none
  | .send .quoter (.amendOrder _ _ ordId px _) store =>
      if (store.findByClOrdId clOrdId).any fun order => order.ordId = ordId then some px else none
  | _ => none

namespace NaiveQuoter

/-- The quoters differ in their handles only. -/
def SameTerms (before after : NaiveQuoter D) : Prop :=
  ∃ bid ask, after = { before with bidClOrdId := bid, askClOrdId := ask }

theorem sameTerms_refl (quoter : NaiveQuoter D) : quoter.SameTerms quoter := ⟨_, _, rfl⟩

theorem SameTerms.trans {first second third : NaiveQuoter D} (early : first.SameTerms second)
    (late : second.SameTerms third) : first.SameTerms third := by
  obtain ⟨bid, ask, rfl⟩ := early
  obtain ⟨bid, ask, rfl⟩ := late
  exact ⟨bid, ask, rfl⟩

theorem sameTerms_setHandle (quoter : NaiveQuoter D) (side : QuoteSide) (clOrdId : Option Text) :
    quoter.SameTerms (quoter.setHandle side clOrdId) := by
  cases side with
  | bid => exact ⟨clOrdId, quoter.askClOrdId, rfl⟩
  | ask => exact ⟨quoter.bidClOrdId, clOrdId, rfl⟩

theorem sameTerms_onOrderRemoved (quoter : NaiveQuoter D) (clOrdId : Text) :
    quoter.SameTerms (quoter.onOrderRemoved clOrdId) := by
  unfold onOrderRemoved
  split
  · exact quoter.sameTerms_setHandle .bid none
  · split
    · exact quoter.sameTerms_setHandle .ask none
    · exact quoter.sameTerms_refl

theorem sameTerms_foldl_removed (quoter : NaiveQuoter D) (dropped : List Text) :
    quoter.SameTerms (dropped.foldl onOrderRemoved quoter) := by
  induction dropped generalizing quoter with
  | nil => exact quoter.sameTerms_refl
  | cons clOrdId rest ih => exact (quoter.sameTerms_onOrderRemoved clOrdId).trans (ih _)

variable [DoubleArith D]

/-- The price text quoted for a side around a mid price. -/
def quotePx (quoter : NaiveQuoter D) (mid : D) (side : QuoteSide) : Text :=
  quoter.formatPrice (quoter.quotePrice mid side)

theorem SameTerms.quotePx {before after : NaiveQuoter D} (same : before.SameTerms after) (mid : D)
    (side : QuoteSide) : after.quotePx mid side = before.quotePx mid side := by
  obtain ⟨bid, ask, rfl⟩ := same
  rfl

theorem SameTerms.quotePrice {before after : NaiveQuoter D} (same : before.SameTerms after) (mid : D)
    (side : QuoteSide) : after.quotePrice mid side = before.quotePrice mid side := by
  obtain ⟨bid, ask, rfl⟩ := same
  rfl

end NaiveQuoter

namespace Engine

/-- The price last sent for an order. -/
def lastSentPx (engine : Engine D) (clOrdId : Text) : Option Text :=
  (engine.trace.filterMap (Effect.sentPx clOrdId)).getLast?

theorem lastSentPx_append {before after : Engine D} {effect : Effect} (sent : after.trace = before.trace ++ [effect])
    (clOrdId : Text) : after.lastSentPx clOrdId = (Effect.sentPx clOrdId effect).or (before.lastSentPx clOrdId) := by
  rw [lastSentPx, sent, List.filterMap_append, List.getLast?_append, lastSentPx]
  cases said : Effect.sentPx clOrdId effect with
  | none => simp [said]
  | some px => simp [said]

theorem lastSentPx_of_unsaid {before after : Engine D} {new : List Effect} (grown : after.trace = before.trace ++ new)
    {clOrdId : Text} (unsaid : ∀ effect ∈ new, Effect.sentPx clOrdId effect = none) :
    after.lastSentPx clOrdId = before.lastSentPx clOrdId := by
  have none_said : new.filterMap (Effect.sentPx clOrdId) = [] := List.filterMap_eq_nil_iff.mpr unsaid
  rw [lastSentPx, grown, List.filterMap_append, none_said, List.append_nil, lastSentPx]

/-!
## One side
-/

/-- The rate limiter has a slot for an amendment. -/
def grantsAmend (engine : Engine D) : Bool := (engine.rateLimiter.amendLimiter.tryAcquire engine.steadyClock.now).1

/-- A requote leaves the side alone: an amendment of its order is in flight, or is
refused by the rate limiter. -/
def skips (engine : Engine D) (side : QuoteSide) : Bool :=
  match engine.quoter.handle side with
  | none => false
  | some clOrdId =>
      match engine.store.findByClOrdId clOrdId with
      | none => false
      | some order => order.ordId ≠ [] && (order.state = .kPendingAmend || !engine.grantsAmend)

/-- The mid last quoted, where there is one. -/
def quotedMid (engine : Engine D) (mid : D) : D := engine.quoter.lastQuotedMid.getD mid

theorem quotedMid_of_terms {before after : Engine D} (same : before.quoter.SameTerms after.quoter) (mid : D) :
    after.quotedMid mid = before.quotedMid mid := by
  obtain ⟨bid, ask, terms⟩ := same
  rw [Engine.quotedMid, terms]
  rfl

section Sides

variable [DoubleArith D]

/-- The message of an amendment. -/
def amendment (engine : Engine D) (ordId : Text) (px : D) (store : OrderStore) : Effect :=
  .send .quoter (.amendOrder (toDecimal engine.nextId) engine.quoter.instIdCode ordId (engine.quoter.formatPrice px)
    engine.quoter.sz) store

/-- A new order is placed, or refused by the rate limiter. -/
inductive Quotes (side : QuoteSide) (px : D) (before : Engine D) : Engine D → Prop where
  | denied {after : Engine D} : Waits (before.withHandle side none) after → Quotes side px before after
  | placed {after : Engine D} : Places side px before after →
      Quotes side px before (after.withHandle side (some (toDecimal before.nextId)))

/-- The order of the side is amended. -/
def Revises (side : QuoteSide) (px : D) (before after : Engine D) : Prop :=
  ∃ clOrdId order clock limiter ws now store,
    before.quoter.handle side = some clOrdId ∧ before.store.findByClOrdId clOrdId = some order ∧ order.ordId ≠ [] ∧
    before.store.update clOrdId (.onAmendRequested now) = .ok .unit store ∧
    after = { before with
      steadyClock := clock
      rateLimiter := limiter
      ws := ws
      lastId := before.nextId
      systemClock := before.systemClock.tick
      store := store
      trace := before.trace ++ [before.amendment order.ordId px store] }

theorem quoteSide_quotes {side : QuoteSide} {px : D} {engine next : Engine D}
    (ran : quoteSide side px (engine.withHandle side none) = .ok .unit next) : Quotes side px engine next := by
  have outcome := placeSide_outcome side px (engine.withHandle side none)
  obtain ⟨clOrdId, placed, places, ran⟩ := of_bind_ok ran
  rw [places] at outcome
  cases ran
  cases clOrdId with
  | none =>
      obtain ⟨clock, limiter, rfl⟩ := outcome
      refine .denied ⟨clock, limiter, ?_⟩
      cases side <;> rfl
  | some clOrdId =>
      obtain ⟨rfl, clock, limiter, ws, now, store, added, rfl⟩ := outcome
      have placed : Places side px engine { engine with
          steadyClock := clock
          rateLimiter := limiter
          ws := ws
          lastId := engine.nextId
          systemClock := engine.systemClock.tick
          store := store
          trace := engine.trace ++ [engine.placement side px] } :=
        ⟨clock, limiter, ws, now, store, by cases side <;> exact added, rfl⟩
      have quotes := Quotes.placed placed
      cases side <;> exact quotes

theorem amendSide_ok {side : QuoteSide} {px : D} {engine next : Engine D} {clOrdId : Text} {order : Order}
    (handle : engine.quoter.handle side = some clOrdId) (found : engine.store.findByClOrdId clOrdId = some order)
    (acknowledged : order.ordId ≠ []) (ran : amendSide clOrdId order.ordId px engine = .ok .unit next) :
    (engine.grantsAmend = false ∧ Waits engine next) ∨ Revises side px engine next := by
  obtain ⟨granted, limiter, decided, acquired⟩ := run_tryAcquire engine (.inr (.inr rfl))
  have grants : granted = engine.grantsAmend := by
    have same : engine.rateLimiter.tryAcquire kAmendOrderOp engine.steadyClock.now = .ok (engine.grantsAmend,
        { engine.rateLimiter with
          amendLimiter := (engine.rateLimiter.amendLimiter.tryAcquire engine.steadyClock.now).2 }) := rfl
    rw [same] at decided
    injection decided with pair
    exact (congrArg Prod.fst pair).symm
  rw [amendSide, run_bind_ok acquired] at ran
  cases granted with
  | false =>
      cases ran
      exact .inl ⟨grants.symm, _, limiter, rfl⟩
  | true =>
      rw [if_pos rfl, run_bind_ok (run_steadyNow _)] at ran
      obtain ⟨_, requested, requests, ran⟩ := of_bind_ok ran
      obtain ⟨store, updated, rfl⟩ := updateOrder_ok _ requests
      rw [run_bind_ok (run_generateId _), run_bind_ok (run_get _)] at ran
      have sent := send_ok _ ran
      exact .inr ⟨clOrdId, order, _, limiter, next.ws, _, _, handle, found, acknowledged, updated, sent⟩

theorem replaceSide_ok {side : QuoteSide} {px : D} {engine next : Engine D}
    (ran : replaceSide side px engine = .ok .unit next) :
    Quotes side px engine next ∨ (engine.skips side = true ∧ Waits engine next) ∨ Revises side px engine next := by
  rw [replaceSide, run_bind_ok (run_get _)] at ran
  cases handle : engine.quoter.handle side with
  | none =>
      rw [handle] at ran
      refine .inl (quoteSide_quotes ?_)
      rw [withHandle_none handle]
      exact ran
  | some clOrdId =>
      rw [handle] at ran
      dsimp only at ran
      cases found : engine.store.findByClOrdId clOrdId with
      | none =>
          rw [found] at ran
          exact .inl (quoteSide_quotes ran)
      | some order =>
          rw [found] at ran
          dsimp only at ran
          split at ran
          · exact .inl (quoteSide_quotes ran)
          · rename_i acknowledged
            split at ran
            · rename_i amending
              cases ran
              exact .inr (.inl ⟨by simp [skips, handle, found, acknowledged, amending], _, _, rfl⟩)
            · rcases amendSide_ok handle found acknowledged ran with ⟨refused, waits⟩ | revises
              · exact .inr (.inl ⟨by simp [skips, handle, found, acknowledged, refused], waits⟩)
              · exact .inr (.inr revises)

/-!
## Prices
-/

/-- The price last sent for the side's order is the quote around the mid. -/
def QuotedAround (engine : Engine D) (side : QuoteSide) (mid : D) : Prop :=
  ∀ clOrdId, engine.quoter.handle side = some clOrdId →
    engine.lastSentPx clOrdId = some (engine.quoter.quotePx mid side)

/-- A run for one side leaves the side at the quote around the mid, and the other
side at whatever quote it was. -/
structure SideDone (side : QuoteSide) (mid : D) (before after : Engine D) : Prop where
  terms : before.quoter.SameTerms after.quoter
  follows : after.QuotedAround side mid
  others : ∀ other, other ≠ side → ∀ old, before.QuotedAround other old → after.QuotedAround other old
  lastId : before.lastId ≤ after.lastId
  handles : ∀ other clOrdId, after.quoter.handle other = some clOrdId →
    before.quoter.handle other = some clOrdId ∨ after.Drawn clOrdId

def HandlesDrawn (engine : Engine D) : Prop :=
  ∀ side clOrdId, engine.quoter.handle side = some clOrdId → engine.Drawn clOrdId

theorem SideDone.handlesDrawn {side : QuoteSide} {mid : D} {before after : Engine D}
    (done : SideDone side mid before after) (drawn : before.HandlesDrawn) : after.HandlesDrawn := by
  intro other clOrdId handle
  rcases done.handles other clOrdId handle with old | new
  · obtain ⟨number, below, same⟩ := drawn other clOrdId old
    exact ⟨number, below.trans done.lastId, same⟩
  · exact new

/-- The side is left alone, at the quote around the mid. -/
theorem sideDone_of_waits {side : QuoteSide} {mid : D} {before after : Engine D} (waits : Waits before after)
    (follows : before.QuotedAround side mid) : SideDone side mid before after := by
  obtain ⟨clock, limiter, rfl⟩ := waits
  exact ⟨before.quoter.sameTerms_refl, follows, fun _ _ _ => id, le_rfl, fun _ _ => .inl⟩

theorem sentPx_placement (engine : Engine D) (side : QuoteSide) (px : D) (clOrdId : Text) :
    Effect.sentPx clOrdId (engine.placement side px) =
      if toDecimal engine.nextId = clOrdId then some (engine.quoter.formatPrice px) else none := rfl

theorem sideDone_of_quotes {side : QuoteSide} {mid : D} {before after : Engine D} (drawn : before.HandlesDrawn)
    (quotes : Quotes side (before.quoter.quotePrice mid side) before after) : SideDone side mid before after := by
  cases quotes with
  | denied waits =>
      obtain ⟨clock, limiter, rfl⟩ := waits
      have terms : before.quoter.SameTerms (before.quoter.setHandle side none) :=
        before.quoter.sameTerms_setHandle side none
      refine ⟨terms, fun clOrdId handle => ?_, fun other different old follows clOrdId handle => ?_, le_rfl,
        fun other clOrdId handle => .inl ?_⟩
      · rw [withHandle, handle_setHandle, if_pos rfl] at handle
        cases handle
      · rw [withHandle, handle_setHandle, if_neg different] at handle
        exact (follows clOrdId handle).trans (congrArg some (terms.quotePx old other).symm)
      · rw [withHandle, handle_setHandle] at handle
        split at handle
        · cases handle
        · exact handle
  | @placed placed places =>
      obtain ⟨trace, quoter, lastId⟩ : placed.trace = before.trace ++
          [before.placement side (before.quoter.quotePrice mid side)] ∧ placed.quoter = before.quoter ∧
          placed.lastId = before.nextId := by
        obtain ⟨clock, limiter, ws, now, store, added, rfl⟩ := places
        exact ⟨rfl, rfl, rfl⟩
      have sent (clOrdId : Text) := lastSentPx_append trace clOrdId
      have terms : before.quoter.SameTerms (placed.quoter.setHandle side (some (toDecimal before.nextId))) :=
        quoter ▸ before.quoter.sameTerms_setHandle side _
      refine ⟨terms, fun clOrdId handle => ?_, fun other different old follows clOrdId handle => ?_,
        lastId ▸ before.lt_nextId.le, fun other clOrdId handle => ?_⟩
      · rw [withHandle, handle_setHandle, if_pos rfl] at handle
        cases handle
        have said := sent (toDecimal before.nextId)
        rw [sentPx_placement, if_pos rfl] at said
        exact said.trans (congrArg some (terms.quotePx mid side).symm)
      · rw [withHandle, handle_setHandle, if_neg different, quoter] at handle
        have new : toDecimal before.nextId ≠ clOrdId := by
          rintro rfl
          exact before.next_not_drawn (drawn other _ handle)
        have said := sent clOrdId
        rw [sentPx_placement, if_neg new] at said
        exact said.trans ((follows clOrdId handle).trans (congrArg some (terms.quotePx old other).symm))
      · rw [withHandle, handle_setHandle] at handle
        split at handle
        · cases handle
          exact .inr ⟨before.nextId, lastId.ge, rfl⟩
        · exact .inl (quoter ▸ handle)

/-- The ordId of the side's order. -/
def handleOrdId (engine : Engine D) (side : QuoteSide) : Option Text :=
  (engine.quoter.handle side).bind fun clOrdId => (engine.store.findByClOrdId clOrdId).map Order.ordId

/-- The orders of the two sides do not go by the same ordId. -/
def OrdIdsApart (engine : Engine D) (side : QuoteSide) : Prop :=
  ∀ other, other ≠ side → ∀ ordId ∈ engine.handleOrdId side, ordId ≠ [] → engine.handleOrdId other ≠ some ordId

theorem sentPx_amendment (engine : Engine D) (ordId : Text) (px : D) (store : OrderStore) (clOrdId : Text) :
    Effect.sentPx clOrdId (engine.amendment ordId px store) =
      if (store.findByClOrdId clOrdId).any fun order => order.ordId = ordId then some (engine.quoter.formatPrice px)
      else none := rfl

theorem sideDone_of_revises {side : QuoteSide} {mid : D} {before after : Engine D} (apart : before.OrdIdsApart side)
    (revises : Revises side (before.quoter.quotePrice mid side) before after) : SideDone side mid before after := by
  obtain ⟨clOrdId, order, clock, limiter, ws, now, store, handle, found, acknowledged, updated, frame⟩ := revises
  have trace : after.trace = before.trace ++
      [before.amendment order.ordId (before.quoter.quotePrice mid side) store] := by rw [frame]
  have quoter : after.quoter = before.quoter := by rw [frame]
  have lastId : after.lastId = before.nextId := by rw [frame]
  have sent (other : Text) := lastSentPx_append trace other
  have ordIds := OrderStore.map_findByClOrdId_update Order.ordId (OrderStore.keepsOrdId_onAmendRequested now) updated
  refine ⟨quoter ▸ before.quoter.sameTerms_refl, fun named isHandle => ?_, fun other different old follows named isHandle => ?_,
    lastId ▸ before.lt_nextId.le, fun other named isHandle => .inl (quoter ▸ isHandle)⟩
  · rw [quoter] at isHandle ⊢
    obtain rfl : clOrdId = named := Option.some.inj (handle.symm.trans isHandle)
    have amended : (store.findByClOrdId clOrdId).map Order.ordId = some order.ordId := by rw [ordIds, found]; rfl
    obtain ⟨new, foundNew, sameOrdId⟩ := Option.map_eq_some_iff.mp amended
    rw [sent, sentPx_amendment, foundNew, Option.any_some, if_pos (by simpa using sameOrdId)]
    rfl
  · rw [quoter] at isHandle ⊢
    have unsaid : ¬ (store.findByClOrdId named).any (fun candidate => candidate.ordId = order.ordId) = true := by
      intro said
      cases foundNamed : store.findByClOrdId named with
      | none => simp [foundNamed] at said
      | some candidate =>
          have same : candidate.ordId = order.ordId := by simpa [foundNamed] using said
          refine apart other different order.ordId ?_ acknowledged ?_
          · simp [handleOrdId, handle, found]
          · rw [handleOrdId, isHandle, Option.bind_some, ← ordIds, foundNamed, Option.map_some, same]
    rw [sent, sentPx_amendment, if_neg unsaid]
    exact follows named isHandle

/-- The side is not left alone, unless its quotes around the old mid and the new are
the same text; and its order is not mistaken for the other side's. -/
@[mk_iff]
structure SideAdmits (engine : Engine D) (side : QuoteSide) (mid : D) : Prop where
  apart : engine.OrdIdsApart side
  unmoved : engine.skips side = true →
    engine.quoter.quotePx (engine.quotedMid mid) side = engine.quoter.quotePx mid side

theorem replaceSide_done {side : QuoteSide} {mid : D} {engine next : Engine D} (drawn : engine.HandlesDrawn)
    (follows : engine.QuotedAround side (engine.quotedMid mid)) (admits : engine.SideAdmits side mid)
    (ran : replaceSide side (engine.quoter.quotePrice mid side) engine = .ok .unit next) :
    SideDone side mid engine next := by
  rcases replaceSide_ok ran with quotes | ⟨skipped, waits⟩ | revises
  · exact sideDone_of_quotes drawn quotes
  · refine sideDone_of_waits waits fun clOrdId handle => ?_
    rw [follows clOrdId handle, admits.unmoved skipped]
  · exact sideDone_of_revises admits.apart revises

/-- The timer quotes an empty side and leaves the other alone. -/
theorem quoteIfEmpty_done {side : QuoteSide} {mid : D} {engine next : Engine D} (drawn : engine.HandlesDrawn)
    (follows : engine.QuotedAround side mid)
    (ran : quoteIfEmpty side (engine.quoter.quotePrice mid side) engine = .ok .unit next) :
    SideDone side mid engine next := by
  rw [quoteIfEmpty, run_bind_ok (run_get _)] at ran
  cases handle : engine.quoter.handle side with
  | none =>
      rw [handle] at ran
      refine sideDone_of_quotes drawn (quoteSide_quotes ?_)
      rw [withHandle_none handle]
      exact ran
  | some clOrdId =>
      rw [handle] at ran
      cases ran
      exact sideDone_of_waits ⟨_, _, rfl⟩ follows

/-!
## Both sides
-/

/-- For each side that has a handle, the price last sent is the quote around the
mid last quoted. -/
def QuotesFollowMid (engine : Engine D) : Prop :=
  ∀ side clOrdId, engine.quoter.handle side = some clOrdId → ∃ mid, engine.quoter.lastQuotedMid = some mid ∧
    engine.lastSentPx clOrdId = some (engine.quoter.formatPrice (engine.quoter.quotePrice mid side))

structure MidInv (engine : Engine D) : Prop where
  drawn : engine.HandlesDrawn
  follows : engine.QuotesFollowMid

theorem MidInv.sides {engine : Engine D} (inv : MidInv engine) (mid : D) (side : QuoteSide) :
    engine.QuotedAround side (engine.quotedMid mid) := by
  intro clOrdId handle
  obtain ⟨quoted, last, sent⟩ := inv.follows side clOrdId handle
  rw [quotedMid, last]
  exact sent

/-- The engine once a batch is open. -/
def batched (engine : Engine D) : Engine D := { engine with ws := { engine.ws with batching := true } }

/-- Neither side is skipped, each as it is found when its turn comes. -/
def RequoteAdmits (engine : Engine D) (mid : D) : Prop :=
  engine.batched.SideAdmits .bid mid ∧
    match replaceSide .bid (engine.quoter.quotePrice mid .bid) engine.batched with
    | .ok _ first => first.SideAdmits .ask mid
    | .error _ _ => True

theorem midInv_of_sides {engine next : Engine D} {mid : D} (drawn : engine.HandlesDrawn)
    (follows : ∀ side, engine.QuotedAround side mid) (trace : next.trace = engine.trace) (lastId : next.lastId = engine.lastId)
    (quoter : next.quoter = { engine.quoter with lastQuotedMid := some mid }) : MidInv next := by
  have handles (side : QuoteSide) : next.quoter.handle side = engine.quoter.handle side := by
    rw [quoter]
    cases side <;> rfl
  refine ⟨fun side clOrdId handle => ?_, fun side clOrdId handle => ⟨mid, by rw [quoter], ?_⟩⟩
  · rw [Drawn, lastId]
    exact drawn side clOrdId (handles side ▸ handle)
  · rw [lastSentPx, trace, quoter]
    rw [handles] at handle
    exact follows side clOrdId handle

theorem MidInv.requote {engine next : Engine D} {mid : D} (inv : MidInv engine) (admits : engine.RequoteAdmits mid)
    (ran : requote mid engine = .ok .unit next) : MidInv next := by
  rw [Engine.requote, run_bind_ok (run_get _)] at ran
  obtain ⟨_, ready, began, ran⟩ := of_bind_ok ran
  obtain rfl : engine.batched = ready := by
    injection began
  obtain ⟨_, first, bidRan, ran⟩ := of_bind_ok ran
  obtain ⟨_, second, askRan, ran⟩ := of_bind_ok ran
  obtain ⟨bidAdmits, askAdmits⟩ := admits
  rw [bidRan] at askAdmits
  have bidDone : SideDone .bid mid engine.batched first := 
    replaceSide_done inv.drawn (inv.sides mid .bid) bidAdmits bidRan
  have price : first.quoter.quotePrice mid .ask = engine.quoter.quotePrice mid .ask := bidDone.terms.quotePrice mid .ask
  have askDone : SideDone .ask mid first second := by
    refine replaceSide_done (bidDone.handlesDrawn inv.drawn) ?_ askAdmits ?_
    · rw [quotedMid_of_terms bidDone.terms]
      exact bidDone.others .ask (by decide) _ (inv.sides mid .ask)
    · rw [price]
      exact askRan
  have follows (side : QuoteSide) : second.QuotedAround side mid := by
    cases side with
    | bid => exact askDone.others .bid (by decide) mid bidDone.follows
    | ask => exact askDone.follows
  obtain ⟨_, closed, ended, ran⟩ := of_bind_ok ran
  cases ended
  cases ran
  exact midInv_of_sides (askDone.handlesDrawn (bidDone.handlesDrawn inv.drawn)) follows rfl rfl rfl

theorem MidInv.onTimer {engine next : Engine D} (inv : MidInv engine) (ran : onTimer engine = .ok .unit next) :
    MidInv next := by
  rw [Engine.onTimer, run_bind_ok (run_get _)] at ran
  cases last : engine.quoter.lastQuotedMid with
  | none =>
      rw [last] at ran
      cases ran
      exact inv
  | some mid =>
      rw [last] at ran
      dsimp only at ran
      obtain ⟨_, ready, began, ran⟩ := of_bind_ok ran
      obtain rfl : engine.batched = ready := by
        injection began
      obtain ⟨_, first, bidRan, ran⟩ := of_bind_ok ran
      obtain ⟨_, second, askRan, ran⟩ := of_bind_ok ran
      have follows (side : QuoteSide) : engine.QuotedAround side mid := by
        have sides := inv.sides mid side
        rwa [quotedMid, last] at sides
      have bidDone : SideDone .bid mid engine.batched first := quoteIfEmpty_done inv.drawn (follows .bid) bidRan
      have price : first.quoter.quotePrice mid .ask = engine.quoter.quotePrice mid .ask :=
        bidDone.terms.quotePrice mid .ask
      have askDone : SideDone .ask mid first second := by
        refine quoteIfEmpty_done (bidDone.handlesDrawn inv.drawn)
          (bidDone.others .ask (by decide) mid (follows .ask)) ?_
        rw [price]
        exact askRan
      have follows (side : QuoteSide) : second.QuotedAround side mid := by
        cases side with
        | bid => exact askDone.others .bid (by decide) mid bidDone.follows
        | ask => exact askDone.follows
      have kept : second.quoter.lastQuotedMid = some mid := by
        obtain ⟨bid, ask, terms⟩ := bidDone.terms.trans askDone.terms
        rw [terms]
        exact last
      cases ran
      refine midInv_of_sides (askDone.handlesDrawn (bidDone.handlesDrawn inv.drawn)) follows rfl rfl ?_
      rw [← kept]

/-!
## Removal
-/

/-- Handles may be given up; nothing else of the quoter changes, and no price is sent. -/
theorem MidInv.removes {before after : Engine D} (inv : MidInv before)
    (terms : before.quoter.SameTerms after.quoter) (lastId : after.lastId = before.lastId)
    (handles : ∀ side clOrdId, after.quoter.handle side = some clOrdId → before.quoter.handle side = some clOrdId)
    {dropped : List Text} (trace : after.trace = before.trace ++ dropped.map .removed) : MidInv after := by
  have sent (clOrdId : Text) : after.lastSentPx clOrdId = before.lastSentPx clOrdId := by
    refine lastSentPx_of_unsaid trace fun effect member => ?_
    obtain ⟨removed, -, rfl⟩ := List.mem_map.mp member
    rfl
  refine ⟨fun side clOrdId handle => ?_, fun side clOrdId handle => ?_⟩
  · rw [Drawn, lastId]
    exact inv.drawn side clOrdId (handles side clOrdId handle)
  · obtain ⟨mid, last, isSent⟩ := inv.follows side clOrdId (handles side clOrdId handle)
    obtain ⟨bid, ask, same⟩ := terms
    rw [sent, same]
    exact ⟨mid, last, isSent⟩

theorem MidInv.drops {before after : Engine D} {dropped : List Text} (inv : MidInv before)
    (drops : Drops before dropped after) : MidInv after := by
  have quoter : after.quoter = dropped.foldl NaiveQuoter.onOrderRemoved before.quoter := by rw [drops.frame]
  refine inv.removes ?_ (by rw [drops.frame]) (fun side clOrdId handle => ?_) (by rw [drops.frame])
  · rw [quoter]
    exact before.quoter.sameTerms_foldl_removed dropped
  · rw [quoter] at handle
    exact of_handle_foldl_removed handle

theorem MidInv.store {engine : Engine D} (inv : MidInv engine) (store : OrderStore) (clock : Clock) :
    MidInv { engine with steadyClock := clock, store := store } := ⟨inv.drawn, inv.follows⟩

theorem MidInv.applyOrderEvent {engine next : Engine D} {event : OrderEvent D} (inv : MidInv engine)
    (ran : applyOrderEvent event engine = .ok .unit next) : MidInv next := by
  have outcome := applyOrderEvent_outcome event engine
  rw [ran] at outcome
  cases outcome with
  | unknown _ => exact inv
  | @moved store order _ _ _ => exact inv.store store engine.steadyClock
  | @ended store order _ _ _ => exact (inv.store store engine.steadyClock).drops (drops_withoutOrder _ _)

theorem MidInv.reconcileOrders {engine next : Engine D} {response : Text} (inv : MidInv engine)
    (ran : reconcileOrders response engine = .ok .unit next) : MidInv next := by
  have outcome := reconcileOrders_outcome response engine
  rw [ran] at outcome
  obtain ⟨-, middle, adopts, drops, -⟩ := outcome
  obtain ⟨clock, frame⟩ := adopts.frame
  have adopted : MidInv middle := by
    rw [frame]
    exact inv.store middle.store clock
  exact adopted.drops drops

/-!
## Runs
-/

/-- A requote skips no side whose price it would have to change. -/
def MidAdmits (engine : Engine D) : QuoterInput D → Prop
  | .bookUpdate book => ∀ mid ∈ engine.quoter.requoteMid book, engine.RequoteAdmits mid
  | .timer | .orderEvent _ | .reconcile _ => True

theorem MidInv.step {engine next : Engine D} {input : QuoterInput D} (inv : MidInv engine)
    (admitted : MidAdmits engine input) (ran : quoterStep input engine = .ok .unit next) : MidInv next := by
  cases input with
  | bookUpdate book =>
      rw [quoterStep, onBookUpdate, run_bind_ok (run_get _)] at ran
      cases moved : engine.quoter.requoteMid book with
      | none =>
          rw [moved] at ran
          cases ran
          exact inv
      | some mid =>
          rw [moved] at ran
          exact inv.requote (admitted mid moved) ran
  | timer => exact inv.onTimer ran
  | orderEvent event => exact inv.applyOrderEvent ran
  | reconcile response => exact inv.reconcileOrders ran

/-- In every state of a run that meets the condition, quotes follow the mid. -/
theorem quotes_follow_mid (environment : Environment) {quoter : NaiveQuoter D}
    (unquoted : ∀ side, quoter.handle side = none) (request : OrderRequest) (lastId : Nat) {engine : Engine D}
    (run : Reaches quoterStep MidAdmits (initial environment quoter request lastId) engine) :
    QuotesFollowMid engine := by
  have free {side : QuoteSide} {clOrdId : Text}
      (handle : (initial environment quoter request lastId).quoter.handle side = some clOrdId) : False := by
    have handle : quoter.handle side = some clOrdId := handle
    rw [unquoted] at handle
    cases handle
  refine (run.invariant MidInv ⟨fun _ _ handle => (free handle).elim, fun _ _ handle => (free handle).elim⟩ ?_).follows
  exact fun current input next inv admitted ran => inv.step admitted ran

instance (engine : Engine D) (side : QuoteSide) : Decidable (engine.OrdIdsApart side) :=
  inferInstanceAs (Decidable (∀ other, other ≠ side → ∀ ordId ∈ engine.handleOrdId side, _))

instance (engine : Engine D) (side : QuoteSide) (mid : D) : Decidable (engine.SideAdmits side mid) :=
  decidable_of_iff _ (sideAdmits_iff engine side mid).symm

instance (engine : Engine D) (mid : D) : Decidable (engine.RequoteAdmits mid) := by
  unfold RequoteAdmits
  split
  · infer_instance
  · infer_instance

instance (engine : Engine D) : (input : QuoterInput D) → Decidable (MidAdmits engine input)
  | .bookUpdate book => inferInstanceAs (Decidable (∀ mid ∈ engine.quoter.requoteMid book, _))
  | .timer | .orderEvent _ | .reconcile _ => isTrue trivial

end Sides

/-- Both quotes are acknowledged, and so is each amendment before the next move, but for
one of a thousandth, which leaves the texts of the quotes as they are. -/
def followingRun : List (QuoterInput ℚ) :=
  [.bookUpdate (sampleBook 99 101), .orderEvent (acknowledgement "1" "71" "buy" "100.00"),
    .orderEvent (acknowledgement "2" "72" "sell" "100.00"), .bookUpdate (sampleBook 199 201),
    .bookUpdate (sampleBook 199 (201 + 1 / 500)),
    .orderEvent (acknowledgement "1" "71" "buy" "200.00"), .orderEvent (acknowledgement "2" "72" "sell" "200.00"),
    .bookUpdate (sampleBook 299 301)]

theorem quotes_follow_mid_acknowledged :
    (finalState (forM followingRun quoterStep sampleEngine)).quoter.lastQuotedMid = some 300 ∧
      QuotesFollowMid (finalState (forM followingRun quoterStep sampleEngine)) :=
  ⟨by decide +kernel, quotes_follow_mid sampleEnvironment (by decide) sampleRequest 0
    (Reaches.start.all followingRun (by decide +kernel))⟩

/-- The mid moves again while both amendments are in flight. -/
def trailingRun : List (QuoterInput ℚ) :=
  [.bookUpdate (sampleBook 99 101), .orderEvent (acknowledgement "1" "71" "buy" "100.00"),
    .orderEvent (acknowledgement "2" "72" "sell" "100.00"), .bookUpdate (sampleBook 199 201),
    .bookUpdate (sampleBook 299 301)]

/-- The buy is still priced around 200, and the quoter takes 300 for quoted. -/
theorem quote_behind_mid :
    Reaches quoterStep (fun _ _ => True) sampleEngine (finalState (forM trailingRun quoterStep sampleEngine)) ∧
      (finalState (forM trailingRun quoterStep sampleEngine)).lastSentPx "1".toList = some "200.00".toList ∧
      ¬ QuotesFollowMid (finalState (forM trailingRun quoterStep sampleEngine)) := by
  refine ⟨Reaches.start.all trailingRun (by decide +kernel), by decide +kernel, fun follows => ?_⟩
  obtain ⟨mid, last, sent⟩ := follows .bid "1".toList (by decide +kernel)
  have isLast : (finalState (forM trailingRun quoterStep sampleEngine)).quoter.lastQuotedMid = some 300 := by
    decide +kernel
  obtain rfl : mid = 300 := Option.some.inj (last.symm.trans isLast)
  revert sent
  decide +kernel

end Engine

end TradingEngine
