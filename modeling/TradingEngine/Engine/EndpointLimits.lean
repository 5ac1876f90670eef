import TradingEngine.Engine.RequestTraffic
import TradingEngine.Risk.KillSwitchProperties

/-! The exchange's limits over whole runs, for the requests of the quoter and of the
round trip together. The limiter knows the quoter's requests only, so the limits hold
as long as the round trip's requests find room beside them. A request of the quoter
counts at the time the limiter read for it; the time it is passed at is later, and
with that one the limits fail even without the round trip. -/

set_option autoImplicit false

namespace TradingEngine

open Library.Exec SlidingWindowLimiter

def Endpoint.op : Endpoint → Text
  | .order => kOrderOp
  | .amendOrder => kAmendOrderOp
  | .cancelOrder => kCancelOrderOp

theorem EndpointRateLimiter.tryAcquire_limiter {limiter next : EndpointRateLimiter} {endpoint : Endpoint} {now : Int}
    {granted : Bool} (acquired : limiter.tryAcquire endpoint.op now = .ok (granted, next)) :
    (limiter.limiter endpoint).tryAcquire now = (granted, next.limiter endpoint) ∧
      ∀ other, other ≠ endpoint → next.limiter other = limiter.limiter other := by
  have distinct : kCancelOrderOp ≠ kOrderOp ∧ kAmendOrderOp ≠ kOrderOp ∧ kAmendOrderOp ≠ kCancelOrderOp := by decide +kernel
  cases endpoint with
  | order =>
      rw [EndpointRateLimiter.tryAcquire, Endpoint.op, if_pos rfl] at acquired
      cases acquired
      refine ⟨rfl, fun other different => ?_⟩
      cases other <;> first | rfl | exact absurd rfl different
  | cancelOrder =>
      rw [EndpointRateLimiter.tryAcquire, Endpoint.op, if_neg distinct.1, if_pos rfl] at acquired
      cases acquired
      refine ⟨rfl, fun other different => ?_⟩
      cases other <;> first | rfl | exact absurd rfl different
  | amendOrder =>
      rw [EndpointRateLimiter.tryAcquire, Endpoint.op, if_neg distinct.2.1, if_neg distinct.2.2, if_pos rfl] at acquired
      cases acquired
      refine ⟨rfl, fun other different => ?_⟩
      cases other <;> first | rfl | exact absurd rfl different

namespace Engine

variable {D : Type}

/-!
## The quoter's requests
-/

/-- Slots granted at the next reading of the clock, by endpoint, and the quoter's
requests, no more than those. -/
structure Granted (granted : Endpoint → Nat) (before after : Engine D) : Prop where
  reading : after.steadyClock.reading = before.steadyClock.reading
  reads : before.steadyClock.reads ≤ after.steadyClock.reads
  trace : ∃ new, after.trace = before.trace ++ new ∧ (∀ request ∈ requests new, request.1 = .quoter) ∧
    ∀ endpoint, (requests new).countP (fun request => request.2 = endpoint) ≤ granted endpoint
  limiter : ∀ endpoint times, Remembers (before.rateLimiter.limiter endpoint) before.steadyClock.now times →
    Remembers (after.rateLimiter.limiter endpoint) before.steadyClock.now
      (times ++ List.replicate (granted endpoint) before.steadyClock.now)
  limits : ∀ endpoint, (after.rateLimiter.limiter endpoint).capacity = (before.rateLimiter.limiter endpoint).capacity ∧
    (after.rateLimiter.limiter endpoint).window = (before.rateLimiter.limiter endpoint).window

theorem Passes.granted {before after : Engine D} (passes : Passes [] before after) :
    Granted (fun _ => 0) before after where
  reading := passes.reading
  reads := passes.reads
  trace := by
    obtain ⟨new, grown, sent⟩ := passes.trace
    exact ⟨new, grown, by simp [sent], by simp [sent]⟩
  limiter endpoint times remembers := by
    rw [passes.limiter]
    simpa using remembers
  limits endpoint := by rw [passes.limiter]; exact ⟨rfl, rfl⟩

/-- What follows the slots passes nothing on. -/
theorem Granted.passes {granted : Endpoint → Nat} {first second third : Engine D} (grants : Granted granted first second)
    (passes : Passes [] second third) : Granted granted first third where
  reading := passes.reading.trans grants.reading
  reads := grants.reads.trans passes.reads
  trace := by
    obtain ⟨new, grown, routes, counts⟩ := grants.trace
    obtain ⟨more, grownAgain, none⟩ := passes.trace
    refine ⟨new ++ more, by rw [grownAgain, grown, List.append_assoc], ?_, ?_⟩
    · rw [requests_append, none, List.append_nil]
      exact routes
    · rw [requests_append, none, List.append_nil]
      exact counts
  limiter := by
    rw [passes.limiter]
    exact grants.limiter
  limits := by
    rw [passes.limiter]
    exact grants.limits

/-- The slots a call of the limiter grants. -/
def slotsOf (endpoint : Endpoint) (granted : Bool) (other : Endpoint) : Nat := if other = endpoint then granted.toNat else 0

theorem slotsOf_le (endpoint : Endpoint) (granted : Bool) (other : Endpoint) : slotsOf endpoint granted other ≤ 1 := by
  rw [slotsOf]
  split
  · exact Bool.toNat_le granted
  · exact Nat.zero_le 1

/-- A call of the limiter, followed by at most one request where it granted a slot. -/
theorem granted_of_acquired {endpoint : Endpoint} {granted : Bool} {before after : Engine D} {limiter : EndpointRateLimiter}
    {sent : List (Route × Endpoint)}
    (acquired : before.rateLimiter.tryAcquire endpoint.op before.steadyClock.now = .ok (granted, limiter))
    (passes : Passes sent { before with steadyClock := before.steadyClock.tick, rateLimiter := limiter } after)
    (few : sent = [] ∨ granted = true ∧ sent = [(.quoter, endpoint)]) :
    Granted (slotsOf endpoint granted) before after where
  reading := passes.reading
  reads := (Nat.le_succ _).trans passes.reads
  trace := by
    obtain ⟨new, grown, isSent⟩ := passes.trace
    refine ⟨new, grown, ?_, ?_⟩
    · rw [isSent]
      rcases few with rfl | ⟨-, rfl⟩
      · simp
      · simp
    · intro other
      rw [isSent]
      rcases few with rfl | ⟨rfl, rfl⟩
      · simp
      · by_cases same : other = endpoint
        · simp [slotsOf, same]
        · simp [slotsOf, same, Ne.symm same]
  limiter other times remembers := by
    obtain ⟨own, others⟩ := EndpointRateLimiter.tryAcquire_limiter acquired
    rw [passes.limiter]
    by_cases same : other = endpoint
    · subst same
      simpa [slotsOf] using remembers.tryAcquire own
    · simpa [slotsOf, same, others other same] using remembers
  limits other := by
    obtain ⟨own, others⟩ := EndpointRateLimiter.tryAcquire_limiter acquired
    rw [passes.limiter]
    by_cases same : other = endpoint
    · subst same
      exact tryAcquire_same own
    · rw [others other same]
      exact ⟨rfl, rfl⟩

/-- The run for one side: one slot at most is granted, at the first reading. -/
def Asks (before after : Engine D) : Prop :=
  ∃ granted : Endpoint → Nat, (∀ endpoint, granted endpoint ≤ 1) ∧ Granted granted before after

theorem Passes.asks {before after : Engine D} (passes : Passes [] before after) : Asks before after :=
  ⟨_, fun _ => Nat.zero_le 1, passes.granted⟩

theorem asks_tryAcquire {α : Type} (endpoint : Endpoint) {next : Bool → EngineM D α}
    (sends : Moves (PassesUpTo (.quoter, endpoint)) (next true)) (refused : Moves (Passes []) (next false)) :
    Moves Asks (tryAcquire endpoint.op >>= next) := by
  intro engine
  have limited : endpoint.op = kOrderOp ∨ endpoint.op = kCancelOrderOp ∨ endpoint.op = kAmendOrderOp := by
    cases endpoint with
    | order => exact .inl rfl
    | cancelOrder => exact .inr (.inl rfl)
    | amendOrder => exact .inr (.inr rfl)
  obtain ⟨granted, limiter, acquired, ran⟩ := run_tryAcquire engine limited
  rw [run_bind_ok ran]
  refine ⟨slotsOf endpoint granted, slotsOf_le endpoint granted, ?_⟩
  cases granted with
  | false => exact granted_of_acquired acquired (refused _) (.inl rfl)
  | true =>
      rcases sends { engine with steadyClock := engine.steadyClock.tick, rateLimiter := limiter } with nothing | one
      · exact granted_of_acquired acquired nothing (.inl rfl)
      · exact granted_of_acquired acquired one (.inr ⟨rfl, rfl⟩)

theorem asks_before {α β : Type} {first : EngineM D α} {next : α → EngineM D β} (firstMoves : Moves Asks first)
    (nextMoves : ∀ value, Moves (Passes []) (next value)) : Moves Asks (first >>= next) := by
  refine moves_seq (fun _ _ asks => asks) ?_ firstMoves nextMoves
  rintro _ _ _ ⟨granted, few, grants⟩ passes
  exact ⟨granted, few, grants.passes passes⟩

/-- The handle is not what the limiter reads. -/
theorem Asks.withHandle {engine after : Engine D} {side : QuoteSide} {clOrdId : Option Text}
    (asks : Asks (engine.withHandle side clOrdId) after) : Asks engine after := by
  obtain ⟨granted, few, grants⟩ := asks
  exact ⟨granted, few, grants.reading, grants.reads, grants.trace, grants.limiter, grants.limits⟩

theorem passes_get : Moves (Passes []) (get : EngineM D (Engine D)) := Library.Exec.moves_get passesNothing.refl

theorem passes_setHandle (side : QuoteSide) (clOrdId : Option Text) :
    Moves (Passes []) (setHandle side clOrdId : EngineM D PUnit) := fun engine => passesNothing.quoter engine _

theorem passes_cancelEntry (entry : Text × Text) : Moves (Passes []) (cancelEntry entry : EngineM D PUnit) :=
  passesNothing.moves_bind (passesNothing.moves_cancelOrder _ _) fun _ => passesNothing.moves_pure _

theorem passes_trigger (reason : Text) : Moves (Passes []) (trigger reason : EngineM D PUnit) := by
  refine passesNothing.moves_get fun engine => ?_
  split
  · exact passesNothing.moves_pure _
  · exact passesNothing.moves_bind (fun current => passes_of_same rfl le_rfl rfl rfl) fun _ =>
      passesNothing.moves_bind (passesNothing.moves_emit rfl) fun _ =>
        moves_forM passesNothing.refl passesNothing.trans fun entry _ => passes_cancelEntry entry

section Quoting

variable [DoubleArith D]

theorem asks_placeSide (side : QuoteSide) (px : D) : Moves Asks (placeSide side px) := by
  refine asks_tryAcquire .order ?_ (passesNothing.moves_pure _)
  exact upTo_after (Library.Exec.moves_get passesNothing.refl) fun engine =>
    upTo_after (passesNothing.moves_buildWsOrderMessage _) fun _ =>
      upTo_after (passesNothing.moves_addOrder _ _ _ _ _) fun _ =>
        upTo_before (passes_send rfl _) fun _ => passesNothing.moves_pure _

theorem asks_amendSide (clOrdId ordId : Text) (px : D) : Moves Asks (amendSide clOrdId ordId px) := by
  refine asks_tryAcquire .amendOrder ?_ (passesNothing.moves_pure _)
  exact upTo_after passesNothing.moves_steadyNow fun _ => upTo_after (passesNothing.moves_updateOrder _ _) fun _ =>
    upTo_after passesNothing.moves_generateId fun _ => upTo_after (Library.Exec.moves_get passesNothing.refl) fun _ =>
      passes_send rfl _

theorem asks_quoteSide (side : QuoteSide) (px : D) : Moves Asks (quoteSide side px) :=
  asks_before (asks_placeSide side px) fun _ => passes_setHandle side _

theorem asks_replaceSide (side : QuoteSide) (px : D) : Moves Asks (replaceSide side px) := by
  intro engine
  have clearing : Asks engine (finalState (quoteSide side px (engine.withHandle side none))) :=
    Asks.withHandle (asks_quoteSide side px _)
  rw [replaceSide, run_bind_ok (run_get _)]
  cases engine.quoter.handle side with
  | none => exact asks_quoteSide side px engine
  | some clOrdId =>
      dsimp only
      cases engine.store.findByClOrdId clOrdId with
      | none => exact clearing
      | some order =>
          dsimp only
          split_ifs
          · exact clearing
          · exact (passesNothing.refl engine).asks
          · exact asks_amendSide _ _ px engine

theorem asks_quoteIfEmpty (side : QuoteSide) (px : D) : Moves Asks (quoteIfEmpty side px) := by
  intro engine
  rw [quoteIfEmpty, run_bind_ok (run_get _)]
  cases engine.quoter.handle side with
  | none => exact asks_quoteSide side px engine
  | some clOrdId => exact (passesNothing.refl engine).asks

/-!
## The round trip's requests
-/

theorem passes_startIfAllowed : Moves (PassesUpTo (.roundTrip, .order)) (startIfAllowed : EngineM D PUnit) := by
  refine upTo_after passes_get fun engine => ?_
  split
  · exact Passes.upTo (passesNothing.moves_pure _) _
  · refine upTo_after (passesNothing.moves_lift _) fun riskCheck => ?_
    split
    · exact passes_start
    · exact Passes.upTo (passesNothing.moves_pure _) _

theorem passes_handleLoginEvent (message : Text) :
    Moves (PassesOn (if field message kCode = kSuccessCode then some .order else none)) (handleLoginEvent message : EngineM D PUnit) := by
  unfold handleLoginEvent
  by_cases accepted : field message kCode = kSuccessCode
  · rw [if_neg (not_not.mpr accepted), if_pos accepted]
    have upTo : Moves (PassesUpTo (.roundTrip, .order)) (do
        let engine ← get
        send .engine (.other kPrivateSubscribeMsg) engine.store
        let pending ← getPendingOrders
        reconcileOrders pending
        startIfAllowed : EngineM D PUnit) :=
      upTo_after passes_get fun _ => upTo_after (passesNothing.moves_send rfl) fun _ =>
        upTo_after passesNothing.moves_getPendingOrders fun _ =>
          upTo_after (passesNothing.moves_reconcileOrders _) fun _ => passes_startIfAllowed
    exact upTo.imp fun _ _ passes => passes.on
  · rw [if_pos accepted]
    exact (passesNothing.moves_pure _).imp fun _ _ nothing => .inl nothing

/-!
## Turns
-/

theorem passes_applyFill (event : OrderEvent D) : Moves (Passes []) (applyFill event) := by
  unfold applyFill
  split
  · exact passesNothing.moves_pure _
  · refine passesNothing.moves_bind (fun current => passes_of_same rfl le_rfl rfl rfl) fun _ =>
      passesNothing.moves_get fun engine => ?_
    split
    · exact passes_trigger _
    · exact passesNothing.moves_pure _

/-- The quoter runs on book updates and on its timer. -/
def Input.quotes : Input D → Bool
  | .bookUpdate _ | .quoterTimer => true
  | _ => false

/-- The endpoint on which an input may make the round trip pass a request. -/
def roundTripOn (engine : Engine D) : Input D → Option Endpoint
  | .login message => if field message kCode = kSuccessCode then some .order else none
  | .response message => engine.respondsOn message
  | _ => none

theorem passes_handle {input : Input D} (other : input.quotes = false) (engine : Engine D) :
    PassesOn (engine.roundTripOn input) engine (finalState (handle input engine)) := by
  cases input with
  | bookUpdate book => cases other
  | quoterTimer => cases other
  | login message =>
      exact on_after (passesNothing.moves_noteLogin message) (fun _ => passes_handleLoginEvent message) engine
  | response message =>
      rw [finalState_response]
      exact passes_dispatch message engine
  | orderEvent event =>
      exact .inl (passesNothing.moves_bind (passes_applyFill event) (fun _ => passesNothing.moves_applyOrderEvent event) engine)
  | account message => exact .inl (passesNothing.moves_handleAccountChannelMessage message engine)
  | timeoutCheck => exact .inl (passesNothing.moves_checkAndResolve engine)
  | signal =>
      exact .inl (passesNothing.moves_bind (passes_trigger _) (fun _ current => passes_of_same rfl le_rfl rfl rfl) engine)
  | connected login => exact .inl (passesNothing.moves_connectOrReconnect login engine)
  | disconnected => exact .inl (passesNothing.ws engine _)
  | controlFrame bytes => exact .inl (passesNothing.moves_writeRaw bytes engine)
  | written bytes => exact .inl (passesNothing.ws engine _)

theorem passes_step {input : Input D} (other : input.quotes = false) (engine : Engine D) :
    PassesOn (engine.roundTripOn input) engine (finalState (step input engine)) := by
  rw [step, run_bind_ok (run_get engine)]
  split
  · exact .inl (passesNothing.refl engine)
  · exact passes_handle other engine

end Quoting

/-!
## Windows
-/

variable {now : Int}

/-- A request as it was passed to the client. -/
structure Sent where
  time : Int
  route : Route
  endpoint : Endpoint
  deriving DecidableEq, Repr

/-- The requests passed between two states, under one time. -/
def sentAt (time : Int) (before after : Engine D) : List Sent :=
  (requests (after.trace.drop before.trace.length)).map fun request => ⟨time, request.1, request.2⟩

/-- The requests on an endpoint in the closed window of two seconds from `start`. -/
def passedIn (endpoint : Endpoint) (start : Int) (history : List Sent) : Nat :=
  history.countP fun sent => sent.endpoint = endpoint ∧ start ≤ sent.time ∧ sent.time ≤ start + 2 * kSecond

/-- The requests on an endpoint at or after a time. -/
def since (endpoint : Endpoint) (start : Int) (history : List Sent) : Nat :=
  history.countP fun sent => sent.endpoint = endpoint ∧ start ≤ sent.time

def Sent.byQuoter (sent : Sent) : Bool := sent.route = .quoter

/-- The requests of the last two seconds that the limiter has not seen. -/
def unseen (endpoint : Endpoint) (now : Int) (history : List Sent) : Nat :=
  since endpoint (now - 2 * kSecond) (history.filter fun sent => !sent.byQuoter)

theorem passedIn_le_since {history : List Sent} {start : Int} (inside : now ≤ start + 2 * kSecond) (endpoint : Endpoint) :
    passedIn endpoint start history ≤ since endpoint (now - 2 * kSecond) history := by
  refine List.countP_mono_left fun sent _ counted => ?_
  rw [decide_eq_true_eq] at counted ⊢
  exact ⟨counted.1, by omega⟩

theorem since_eq (endpoint : Endpoint) (now : Int) (history : List Sent) :
    since endpoint (now - 2 * kSecond) history =
      since endpoint (now - 2 * kSecond) (history.filter Sent.byQuoter) + unseen endpoint now history :=
  List.countP_eq_countP_filter_add history _ Sent.byQuoter

/-- Requests of one time extend the windows that hold the time. -/
theorem passedIn_append {history new : List Sent} {endpoint : Endpoint} {limit : Nat}
    (bounded : ∀ start, passedIn endpoint start history ≤ limit) (together : ∀ sent ∈ new, sent.time = now)
    (room : new.countP (fun sent => sent.endpoint = endpoint) = 0 ∨
      since endpoint (now - 2 * kSecond) history + new.countP (fun sent => sent.endpoint = endpoint) ≤ limit) (start : Int) :
    passedIn endpoint start (history ++ new) ≤ limit := by
  have split : passedIn endpoint start (history ++ new) = passedIn endpoint start history + passedIn endpoint start new :=
    List.countP_append
  have fewer : passedIn endpoint start new ≤ new.countP fun sent => sent.endpoint = endpoint := by
    refine List.countP_mono_left fun sent _ counted => ?_
    rw [decide_eq_true_eq] at counted ⊢
    exact counted.1
  have before := bounded start
  rw [split]
  rcases room with none | fits
  · omega
  · by_cases inside : start ≤ now ∧ now ≤ start + 2 * kSecond
    · have old := @passedIn_le_since now history start inside.2 endpoint
      omega
    · have none : passedIn endpoint start new = 0 := by
        refine List.countP_eq_zero.mpr fun sent member counted => ?_
        rw [decide_eq_true_eq, together sent member] at counted
        exact inside counted.2
      omega

/-!
## Runs
-/

/-- What holds between turns of the event loop, with the requests passed so far. -/
structure Limited (state : Engine D × List Sent) : Prop where
  ordered : ∀ early late, early ≤ late → state.1.steadyClock.reading early ≤ state.1.steadyClock.reading late
  limits : ∀ endpoint, (state.1.rateLimiter.limiter endpoint).capacity = 60 ∧
    (state.1.rateLimiter.limiter endpoint).window = 2 * kSecond
  /-- The limiter knows at least the quoter's requests. -/
  knows : ∀ endpoint, ∃ times, Remembers (state.1.rateLimiter.limiter endpoint) state.1.steadyClock.now times ∧
    ∀ start, since endpoint start (state.2.filter Sent.byQuoter) ≤ times.countP fun time => start ≤ time
  bounded : ∀ endpoint start, passedIn endpoint start state.2 ≤ 60

/-- The slots of an endpoint that are in use at a time. -/
def slotsInUse (engine : Engine D) (endpoint : Endpoint) (time : Int) : Nat :=
  (engine.rateLimiter.limiter endpoint).inUse time

variable {state : Engine D × List Sent} {after : Engine D}

theorem Limited.inUse_eq (limited : Limited state) {endpoint : Endpoint} {time : Int} {times : List Int}
    (remembers : Remembers (state.1.rateLimiter.limiter endpoint) time times) :
    state.1.slotsInUse endpoint time = times.countP fun granted => time - 2 * kSecond ≤ granted := by
  rw [slotsInUse, remembers.inUse_eq, (limited.limits endpoint).2]
  rfl

theorem Limited.since_le (limited : Limited state) (endpoint : Endpoint) {time : Int}
    (begun : state.1.steadyClock.now ≤ time) :
    since endpoint (time - 2 * kSecond) state.2 ≤ state.1.slotsInUse endpoint time + unseen endpoint time state.2 := by
  obtain ⟨times, remembers, known⟩ := limited.knows endpoint
  have inUse := limited.inUse_eq (remembers.later begun)
  have counted := known (time - 2 * kSecond)
  rw [since_eq, inUse]
  omega

theorem sentAt_eq {time : Int} {before after : Engine D} {new : List Effect} (grown : after.trace = before.trace ++ new) :
    sentAt time before after = (requests new).map fun request => ⟨time, request.1, request.2⟩ := by
  rw [sentAt, grown, List.drop_left]

/-- The quoter's requests of a turn are counted where its slots are. -/
theorem since_sent {now : Int} {sent : List (Route × Endpoint)} {endpoint : Endpoint} {granted : Nat}
    (quoted : sent.countP (fun request => request.1 = .quoter ∧ request.2 = endpoint) ≤ granted) (start : Int) :
    since endpoint start ((sent.map fun request => (⟨now, request.1, request.2⟩ : Sent)).filter Sent.byQuoter) ≤
      (List.replicate granted now).countP fun time => start ≤ time := by
  rw [since, List.countP_filter, List.countP_map, List.countP_replicate]
  by_cases begun : start ≤ now
  · rw [if_pos (by simpa using begun)]
    refine le_trans (List.countP_mono_left fun request _ counted => ?_) quoted
    simp only [Function.comp_apply, Sent.byQuoter, Bool.and_eq_true, decide_eq_true_eq] at counted ⊢
    exact ⟨counted.2, counted.1.1⟩
  · rw [if_neg (by simpa using begun), Nat.le_zero, List.countP_eq_zero]
    intro request _ counted
    simp only [Function.comp_apply, Bool.and_eq_true, decide_eq_true_eq] at counted
    exact begun counted.1.2

/-- Requests of one time keep the limits where they fit beside those of the last two seconds. -/
theorem limited_of_turn (limited : Limited state) {sent : List (Route × Endpoint)} {time : Int}
    (begun : state.1.steadyClock.now ≤ time) (done : time ≤ after.steadyClock.now)
    (reading : after.steadyClock.reading = state.1.steadyClock.reading)
    (trace : ∃ new, after.trace = state.1.trace ++ new ∧ requests new = sent) {granted : Endpoint → Nat}
    (limits : ∀ endpoint, (after.rateLimiter.limiter endpoint).capacity = (state.1.rateLimiter.limiter endpoint).capacity ∧
      (after.rateLimiter.limiter endpoint).window = (state.1.rateLimiter.limiter endpoint).window)
    (limiter : ∀ endpoint times, Remembers (state.1.rateLimiter.limiter endpoint) time times →
      Remembers (after.rateLimiter.limiter endpoint) time (times ++ List.replicate (granted endpoint) time))
    (quoted : ∀ endpoint, sent.countP (fun request => request.1 = .quoter ∧ request.2 = endpoint) ≤ granted endpoint)
    (room : ∀ endpoint, sent.countP (fun request => request.2 = endpoint) = 0 ∨
      state.1.slotsInUse endpoint time + unseen endpoint time state.2 +
        sent.countP (fun request => request.2 = endpoint) ≤ 60) :
    Limited (after, state.2 ++ sentAt time state.1 after) := by
  obtain ⟨new, grown, isSent⟩ := trace
  rw [sentAt_eq grown, isSent]
  constructor
  · rw [reading]
    exact limited.ordered
  · intro endpoint
    exact ⟨(limits endpoint).1.trans (limited.limits endpoint).1, (limits endpoint).2.trans (limited.limits endpoint).2⟩
  · intro endpoint
    obtain ⟨times, remembers, known⟩ := limited.knows endpoint
    refine ⟨_, (limiter endpoint times (remembers.later begun)).later done, fun start => ?_⟩
    have split : since endpoint start ((state.2 ++ sent.map fun request =>
          (⟨time, request.1, request.2⟩ : Sent)).filter Sent.byQuoter) =
        since endpoint start (state.2.filter Sent.byQuoter) + since endpoint start
          ((sent.map fun request => (⟨time, request.1, request.2⟩ : Sent)).filter Sent.byQuoter) := by
      rw [List.filter_append]
      exact List.countP_append
    rw [split, List.countP_append]
    exact Nat.add_le_add (known start) (since_sent (quoted endpoint) start)
  · intro endpoint
    have count : (sent.map fun request => (⟨time, request.1, request.2⟩ : Sent)).countP
        (fun sent => sent.endpoint = endpoint) = sent.countP fun request => request.2 = endpoint := List.countP_map
    have together : ∀ one ∈ sent.map fun request => (⟨time, request.1, request.2⟩ : Sent), one.time = time := by
      intro one member
      obtain ⟨request, -, rfl⟩ := List.mem_map.mp member
      rfl
    refine passedIn_append (limited.bounded endpoint) together ?_
    rw [count]
    have known := limited.since_le endpoint begun
    exact (room endpoint).imp_right fun fits => by omega

theorem limited_of_passes (limited : Limited state) {sent : List (Route × Endpoint)} {time : Int}
    (begun : state.1.steadyClock.now ≤ time) (done : time ≤ after.steadyClock.now)
    (passes : Passes sent state.1 after) (unlimited : ∀ request ∈ sent, request.1 ≠ .quoter)
    (room : ∀ endpoint, sent.countP (fun request => request.2 = endpoint) = 0 ∨
      state.1.slotsInUse endpoint time + unseen endpoint time state.2 +
        sent.countP (fun request => request.2 = endpoint) ≤ 60) :
    Limited (after, state.2 ++ sentAt time state.1 after) := by
  refine @limited_of_turn D state after limited sent time begun done passes.reading passes.trace (fun _ => 0) ?_ ?_ ?_ room
  · intro endpoint
    rw [passes.limiter]
    exact ⟨rfl, rfl⟩
  · intro endpoint times remembers
    rw [passes.limiter]
    simpa using remembers
  · intro endpoint
    refine (List.countP_eq_zero.mpr fun request member counted => ?_).le
    rw [decide_eq_true_eq] at counted
    exact unlimited request member counted.1

/-- The round trip's turn passes one request at most. -/
theorem limited_of_on (limited : Limited state) {endpoint : Option Endpoint} {time : Int}
    (begun : state.1.steadyClock.now ≤ time) (done : time ≤ after.steadyClock.now)
    (passes : PassesOn endpoint state.1 after)
    (room : ∀ sent ∈ sentAt time state.1 after, sent.byQuoter = false →
      state.1.slotsInUse sent.endpoint sent.time + unseen sent.endpoint sent.time state.2 < 60) :
    Limited (after, state.2 ++ sentAt time state.1 after) := by
  rcases passes with nothing | ⟨busy, -, one⟩
  · exact limited_of_passes limited begun done nothing (by simp) fun _ => .inl rfl
  · refine limited_of_passes limited begun done one (by simp) fun other => ?_
    by_cases here : busy = other
    · subst here
      obtain ⟨new, grown, isSent⟩ := one.trace
      have enough : state.1.slotsInUse busy time + unseen busy time state.2 < 60 :=
        room ⟨time, .roundTrip, busy⟩ (by simp [sentAt_eq grown, isSent]) rfl
      simp only [List.countP_singleton, decide_true, ↓reduceIte]
      exact .inr (by omega)
    · exact .inl (by simp [here])

/-!
## The quoter's turns
-/

/-- The round trip has passed nothing in the last two seconds, or has left room for
some slots more. -/
def Room (slots : Nat) (state : Engine D × List Sent) (endpoint : Endpoint) : Prop :=
  unseen endpoint state.1.steadyClock.now state.2 = 0 ∨
    state.1.slotsInUse endpoint state.1.steadyClock.now + unseen endpoint state.1.steadyClock.now state.2 + slots ≤ 60

theorem Room.mono {few more : Nat} {endpoint : Endpoint} (room : Room more state endpoint) (le : few ≤ more) :
    Room few state endpoint := room.imp_right fun fits => by omega

theorem byQuoter_sentAt {granted : Endpoint → Nat} {before : Engine D} (grants : Granted granted before after) (time : Int) :
    ∀ sent ∈ sentAt time before after, sent.byQuoter = true := by
  obtain ⟨new, grown, routes, -⟩ := grants.trace
  intro sent member
  rw [sentAt_eq grown] at member
  obtain ⟨request, isRequest, rfl⟩ := List.mem_map.mp member
  exact decide_eq_true (routes request isRequest)

theorem Limited.forward (limited : Limited state) {granted : Endpoint → Nat} (grants : Granted granted state.1 after) :
    state.1.steadyClock.now ≤ after.steadyClock.now := by
  rw [Clock.now, Clock.now, grants.reading]
  exact limited.ordered _ _ grants.reads

/-- The limiter alone keeps the limit where the round trip has passed nothing. -/
theorem Limited.granted_le (limited : Limited state) {granted : Endpoint → Nat} (grants : Granted granted state.1 after)
    (endpoint : Endpoint) : state.1.slotsInUse endpoint state.1.steadyClock.now + granted endpoint ≤ 60 := by
  obtain ⟨times, remembers, -⟩ := limited.knows endpoint
  have remembered := grants.limiter endpoint times remembers
  have full := remembered.inUse_le
  have all : (List.replicate (granted endpoint) state.1.steadyClock.now).countP (fun time =>
      decide (state.1.steadyClock.now - 2 * kSecond ≤ time)) = granted endpoint := by
    have window : (0 : Int) ≤ 2 * kSecond := by decide
    rw [List.countP_replicate, if_pos (decide_eq_true (by omega))]
  rw [remembered.inUse_eq, (grants.limits endpoint).1, (grants.limits endpoint).2, (limited.limits endpoint).1,
    (limited.limits endpoint).2, inWindow, List.countP_append, all] at full
  rw [limited.inUse_eq remembers]
  exact full

theorem Granted.limited {granted : Endpoint → Nat} {slots : Nat} (grants : Granted granted state.1 after)
    (few : ∀ endpoint, granted endpoint ≤ slots) (limited : Limited state)
    (room : ∀ sent ∈ sentAt state.1.steadyClock.now state.1 after, Room slots state sent.endpoint) :
    Limited (after, state.2 ++ sentAt state.1.steadyClock.now state.1 after) := by
  obtain ⟨new, grown, routes, counts⟩ := grants.trace
  refine limited_of_turn limited le_rfl (limited.forward grants) grants.reading ⟨new, grown, rfl⟩ grants.limits
    grants.limiter ?_ ?_
  · intro endpoint
    refine le_trans (List.countP_mono_left fun request _ counted => ?_) (counts endpoint)
    rw [decide_eq_true_eq] at counted ⊢
    exact counted.2
  · intro endpoint
    rcases Nat.eq_zero_or_pos ((requests new).countP fun request => request.2 = endpoint) with none | some
    · exact .inl none
    · obtain ⟨request, member, here⟩ := List.countP_pos_iff.mp some
      obtain rfl : request.2 = endpoint := of_decide_eq_true here
      have isSent : ⟨state.1.steadyClock.now, request.1, request.2⟩ ∈ sentAt state.1.steadyClock.now state.1 after := by
        rw [sentAt_eq grown]
        exact List.mem_map.mpr ⟨request, member, rfl⟩
      have free : Room slots state request.2 := room _ isSent
      have sent := counts request.2
      have bounded := few request.2
      have alone := limited.granted_le grants request.2
      rcases free with unseen | fits
      · exact .inr (by omega)
      · exact .inr (by omega)

theorem since_antitone (endpoint : Endpoint) (history : List Sent) {early late : Int} (ordered : early ≤ late) :
    since endpoint late history ≤ since endpoint early history := by
  refine List.countP_mono_left fun sent _ counted => ?_
  rw [decide_eq_true_eq] at counted ⊢
  exact ⟨counted.1, ordered.trans counted.2⟩

/-- The slots granted are taken out of the room there was. -/
theorem Granted.leaves {granted : Endpoint → Nat} {slots more : Nat} {endpoint : Endpoint}
    (grants : Granted granted state.1 after) (few : ∀ endpoint, granted endpoint ≤ slots) (limited : Limited state)
    (later : Limited (after, state.2 ++ sentAt state.1.steadyClock.now state.1 after))
    (room : Room (slots + more) state endpoint) :
    Room more (after, state.2 ++ sentAt state.1.steadyClock.now state.1 after) endpoint := by
  have forward := limited.forward grants
  have history : (state.2 ++ sentAt state.1.steadyClock.now state.1 after).filter (fun sent => !sent.byQuoter) =
      state.2.filter fun sent => !sent.byQuoter := by
    have none : (sentAt state.1.steadyClock.now state.1 after).filter (fun sent => !sent.byQuoter) = [] :=
      List.filter_eq_nil_iff.mpr fun sent member => by simp [byQuoter_sentAt grants _ sent member]
    rw [List.filter_append, none, List.append_nil]
  have fewer : unseen endpoint after.steadyClock.now (state.2 ++ sentAt state.1.steadyClock.now state.1 after) ≤
      unseen endpoint state.1.steadyClock.now state.2 := by
    rw [unseen, history]
    exact since_antitone _ _ (by omega)
  have inUse : after.slotsInUse endpoint after.steadyClock.now ≤
      state.1.slotsInUse endpoint state.1.steadyClock.now + granted endpoint := by
    obtain ⟨times, remembers, -⟩ := limited.knows endpoint
    have remembered := (grants.limiter endpoint times remembers).later forward
    rw [later.inUse_eq remembered, limited.inUse_eq remembers, List.countP_append]
    refine Nat.add_le_add (List.countP_mono_left fun time _ counted => ?_) ?_
    · rw [decide_eq_true_eq] at counted ⊢
      omega
    · exact List.countP_le_length.trans List.length_replicate.le
  have bounded := few endpoint
  rcases room with none | fits
  · exact .inl (by dsimp only; omega)
  · exact .inr (by dsimp only; omega)

/-- A part of a turn that takes so many slots at most: its requests, all of them the
quoter's, keep the limits where there is room for the slots. -/
def Takes (slots : Nat) (before after : Engine D × List Sent) : Prop :=
  ∃ new, after.2 = before.2 ++ new ∧ (∀ sent ∈ new, sent.byQuoter = true) ∧
    (Limited before → (∀ sent ∈ new, Room slots before sent.endpoint) →
      Limited after ∧ ∀ more endpoint, Room (slots + more) before endpoint → Room more after endpoint)

theorem Granted.takes {granted : Endpoint → Nat} {slots : Nat} (grants : Granted granted state.1 after)
    (few : ∀ endpoint, granted endpoint ≤ slots) :
    Takes slots state (after, state.2 ++ sentAt state.1.steadyClock.now state.1 after) := by
  refine ⟨_, rfl, byQuoter_sentAt grants _, fun limited room => ?_⟩
  have later := grants.limited few limited room
  exact ⟨later, fun more endpoint => grants.leaves few limited later⟩

theorem Takes.trans {early late : Nat} {first second third : Engine D × List Sent} (before : Takes early first second)
    (after : Takes late second third) : Takes (early + late) first third := by
  obtain ⟨new, grown, quoted, fits⟩ := before
  obtain ⟨more, grownAgain, quotedAgain, fitsAgain⟩ := after
  refine ⟨new ++ more, by rw [grownAgain, grown, List.append_assoc], ?_, fun limited room => ?_⟩
  · exact fun sent member => (List.mem_append.mp member).elim (quoted sent) (quotedAgain sent)
  · obtain ⟨middle, leaves⟩ := fits limited fun sent member =>
      (room sent (List.mem_append_left _ member)).mono (Nat.le_add_right _ _)
    obtain ⟨final, leavesAgain⟩ := fitsAgain middle fun sent member =>
      leaves late sent.endpoint (room sent (List.mem_append_right _ member))
    refine ⟨final, fun slots endpoint free => leavesAgain slots endpoint (leaves (late + slots) endpoint ?_)⟩
    rwa [← Nat.add_assoc]

theorem Takes.mono {few more : Nat} {before after : Engine D × List Sent} (fits : Takes few before after) (le : few ≤ more) :
    Takes more before after := by
  obtain ⟨new, grown, quoted, keeps⟩ := fits
  refine ⟨new, grown, quoted, fun limited room => ?_⟩
  obtain ⟨final, leaves⟩ := keeps limited fun sent member => (room sent member).mono le
  exact ⟨final, fun slots endpoint free => leaves slots endpoint (free.mono (Nat.add_le_add_right le slots))⟩

theorem takes_onFirst {α : Type} {program : EngineM D α} (passes : Moves (Passes []) program) :
    Moves (Takes 0) (onFirst program : EStateM Exn (Engine D × List Sent) α) := by
  intro state
  obtain ⟨new, grown, none⟩ := (passes state.1).trace
  have fits : Takes 0 state _ := (passes state.1).granted.takes fun _ => le_rfl
  rwa [sentAt_eq grown, none, List.map_nil, List.append_nil, ← finalState_onFirst] at fits

theorem takes_after {α β : Type} {first : EStateM Exn (Engine D × List Sent) α} {next : α → EStateM Exn (Engine D × List Sent) β}
    {early late : Nat} (firstMoves : Moves (Takes early) first) (nextMoves : ∀ value, Moves (Takes late) (next value)) :
    Moves (Takes (early + late)) (first >>= next) :=
  moves_seq (fun _ _ fits => fits.mono (Nat.le_add_right _ _)) (fun _ _ _ before after => before.trans after)
    firstMoves nextMoves

theorem takes_behind {α β : Type} {first : EngineM D α} {next : α → EStateM Exn (Engine D × List Sent) β} {slots : Nat}
    (passes : Moves (Passes []) first) (nextMoves : ∀ value, Moves (Takes slots) (next value)) :
    Moves (Takes slots) (onFirst first >>= next) :=
  (takes_after (takes_onFirst passes) nextMoves).imp fun _ _ fits => fits.mono (Nat.zero_add slots).le

theorem takes_nothing (slots : Nat) :
    Moves (Takes slots) (onFirst (pure .unit : EngineM D PUnit) : EStateM Exn (Engine D × List Sent) PUnit) :=
  (takes_onFirst (passesNothing.moves_pure _)).imp fun _ _ fits => fits.mono (Nat.zero_le slots)

/-- The time the limiter reads for a side. -/
def whenAsked (engine : Engine D) : Int := engine.steadyClock.now

/-- The last time read before the request for a side is passed. -/
def whenPassed (engine : Engine D) : Int := engine.steadyClock.tick.now

def noteSent (stamp : Engine D → Int) (_side : QuoteSide) (before after : Engine D) (history : List Sent) : List Sent :=
  history ++ sentAt (stamp before) before after

theorem takes_watching {program : EngineM D PUnit} (asks : Moves Asks program) (side : QuoteSide) :
    Moves (Takes 1) (watching (noteSent whenAsked side) program) := by
  intro state
  obtain ⟨granted, few, grants⟩ := asks state.1
  rw [finalState_watching]
  exact grants.takes few

/-- Both sides in one batch. -/
theorem takes_batch {first second : EngineM D PUnit} (firstMoves : Moves Asks first) (secondMoves : Moves Asks second)
    {finish : EStateM Exn (Engine D × List Sent) PUnit} (lastMoves : Moves (Takes 0) finish) :
    Moves (Takes 2) (do
      onFirst beginBatch
      watching (noteSent whenAsked .bid) first
      watching (noteSent whenAsked .ask) second
      finish) :=
  takes_behind (passesNothing.moves_setBatching true) fun _ => takes_after (takes_watching firstMoves .bid) fun _ =>
    takes_after (takes_watching secondMoves .ask) fun _ => lastMoves

/-- The quoter's part of a turn. -/
def watchedQuoting (program : EStateM Exn (Engine D × List Sent) PUnit) : EStateM Exn (Engine D × List Sent) PUnit := do
  let engine ← onFirst get
  if engine.stopped then onFirst (pure .unit) else do
    let engine ← onFirst get
    if !engine.triggered && engine.ws.authenticated then program else onFirst (pure .unit)

theorem takes_watchedQuoting {program : EStateM Exn (Engine D × List Sent) PUnit} (fits : Moves (Takes 2) program) :
    Moves (Takes 2) (watchedQuoting program) := by
  refine takes_behind passes_get fun engine => ?_
  split
  · exact takes_nothing 2
  · refine takes_behind passes_get fun engine => ?_
    split
    · exact fits
    · exact takes_nothing 2

section Steps

variable [DoubleArith D]

theorem takes_watchedBookUpdate (book : OrderBook D) : Moves (Takes 2) (watchedBookUpdate (noteSent whenAsked) book) := by
  refine takes_behind passes_get fun engine => ?_
  split
  · exact takes_nothing 2
  · exact takes_behind passes_get fun engine => takes_batch (asks_replaceSide _ _) (asks_replaceSide _ _)
      (takes_behind (passesNothing.moves_setBatching false) fun _ => takes_onFirst fun current => passesNothing.quoter current _)

theorem takes_watchedTimer : Moves (Takes 2) (watchedTimer (noteSent whenAsked) : EStateM Exn (Engine D × List Sent) PUnit) := by
  refine takes_behind passes_get fun engine => ?_
  split
  · exact takes_nothing 2
  · exact takes_batch (asks_quoteIfEmpty _ _) (asks_quoteIfEmpty _ _) (takes_onFirst (passesNothing.moves_setBatching false))

/-!
## Whole turns
-/

/-- A turn of the event loop, and the time at which the round trip passes its request
if it passes one. -/
structure Turn (D : Type) [DoubleArith D] where
  input : Input D
  time : Int

def watchedStep (stamp : Engine D → Int) (turn : Turn D) : EStateM Exn (Engine D × List Sent) PUnit :=
  match turn.input with
  | .bookUpdate book => watchedQuoting (watchedBookUpdate (noteSent stamp) book)
  | .quoterTimer => watchedQuoting (watchedTimer (noteSent stamp))
  | input => watching (fun before after history => history ++ sentAt turn.time before after) (step input)

theorem watches_watchedQuoting {input : Input D} {watched : EStateM Exn (Engine D × List Sent) PUnit} {program : EngineM D PUnit}
    (quoting : handle input = ifQuoting program) (watches : Watches watched program) :
    Watches (watchedQuoting watched) (step input) := by
  refine watches_bind (watches_onFirst _) fun engine => ?_
  rw [quoting]
  split
  · exact watches_onFirst _
  · refine watches_bind (watches_onFirst _) fun engine => ?_
    split
    · exact watches
    · exact watches_onFirst _

theorem watchedStep_roundTrip {turn : Turn D} (other : turn.input.quotes = false) (stamp : Engine D → Int) :
    watchedStep stamp turn =
      watching (fun before after history => history ++ sentAt turn.time before after) (step turn.input) := by
  obtain ⟨input, time⟩ := turn
  cases input with
  | bookUpdate book => cases other
  | quoterTimer => cases other
  | _ => rfl

/-- A watched turn is the turn. -/
theorem watches_step (stamp : Engine D → Int) (turn : Turn D) : Watches (watchedStep stamp turn) (step turn.input) := by
  cases quotes : turn.input.quotes with
  | false =>
      rw [watchedStep_roundTrip quotes]
      exact watches_watching _ _
  | true =>
      obtain ⟨input, time⟩ := turn
      cases input with
      | bookUpdate book => exact watches_watchedQuoting rfl (watches_onBookUpdate _ book)
      | quoterTimer => exact watches_watchedQuoting rfl (watches_onTimer _)
      | _ => cases quotes

theorem takes_watchedStep {turn : Turn D} (quotes : turn.input.quotes = true) : Moves (Takes 2) (watchedStep whenAsked turn) := by
  obtain ⟨input, time⟩ := turn
  cases input with
  | bookUpdate book => exact takes_watchedQuoting (takes_watchedBookUpdate book)
  | quoterTimer => exact takes_watchedQuoting takes_watchedTimer
  | _ => cases quotes

/-- A turn with the requests it passes, whether it returns or throws. -/
def timedStep (stamp : Engine D → Int) (turn : Turn D) : EStateM Exn (Engine D × List Sent) PUnit :=
  settle (watchedStep stamp turn)

/-- The round trip passes its request between the first reading of the turn and the
first one after it. -/
def WithinTurn (state : Engine D × List Sent) (turn : Turn D) : Prop :=
  state.1.steadyClock.now ≤ turn.time ∧ turn.time ≤ (finalState (step turn.input state.1)).steadyClock.now

/-- The requests of a turn. -/
def passed (state : Engine D × List Sent) (turn : Turn D) : List Sent :=
  (finalState (watchedStep whenAsked turn state)).2.drop state.2.length

/-- A turn that passes a request finds room for it: the round trip, which the limiter
does not see, beside the slots in use, and the quoter beside the round trip. -/
@[mk_iff] structure LimitAdmits (state : Engine D × List Sent) (turn : Turn D) : Prop where
  within : WithinTurn state turn
  roundTrip : ∀ sent ∈ passed state turn, sent.byQuoter = false →
    state.1.slotsInUse sent.endpoint sent.time + unseen sent.endpoint sent.time state.2 < 60
  quoter : ∀ sent ∈ passed state turn, sent.byQuoter = true → Room 2 state sent.endpoint

theorem limited_step {state : Engine D × List Sent} (limited : Limited state) {turn : Turn D}
    (admitted : LimitAdmits state turn) : Limited (finalState (watchedStep whenAsked turn state)) := by
  cases quotes : turn.input.quotes with
  | false =>
      have roundTrip := admitted.roundTrip
      rw [passed, watchedStep_roundTrip quotes, finalState_watching, List.drop_left] at roundTrip
      rw [watchedStep_roundTrip quotes, finalState_watching]
      exact limited_of_on limited admitted.within.1 admitted.within.2 (passes_step quotes state.1) roundTrip
  | true =>
      obtain ⟨new, grown, quoted, fits⟩ := takes_watchedStep quotes state
      refine (fits limited fun sent member => admitted.quoter sent ?_ (quoted sent member)).1
      rw [passed, grown, List.drop_left]
      exact member

theorem limited_initial (environment : Environment) (quoter : NaiveQuoter D) (request : OrderRequest) (lastId : Nat)
    (ordered : ∀ early late, early ≤ late → environment.steadyClock early ≤ environment.steadyClock late) :
    Limited (initial environment quoter request lastId, []) where
  ordered := ordered
  limits endpoint := by cases endpoint <;> exact ⟨rfl, rfl⟩
  knows endpoint := by
    refine ⟨[], ?_, fun start => le_rfl⟩
    cases endpoint <;> exact remembers_create _ _ _
  bounded endpoint start := Nat.zero_le 60

instance (state : Engine D × List Sent) (endpoint : Endpoint) (slots : Nat) : Decidable (Room slots state endpoint) :=
  inferInstanceAs (Decidable (_ ∨ _))

instance (state : Engine D × List Sent) (turn : Turn D) : Decidable (WithinTurn state turn) :=
  inferInstanceAs (Decidable (_ ∧ _))

instance (state : Engine D × List Sent) (turn : Turn D) : Decidable (LimitAdmits state turn) :=
  decidable_of_iff _ (limitAdmits_iff state turn).symm

end Steps

/-- A clock that stands still. -/
def stillEnvironment : Environment := { sampleEnvironment with steadyClock := fun _ => 0 }

def stillEngine : Engine ℚ := initial stillEnvironment sampleQuoter sampleRequest 0

/-- The round trip's order, then both quotes, and both again before they are
acknowledged, with a clock that ticks at every reading. -/
def spacedRun : List (Turn ℚ) := loggedIn.map (⟨·, 0⟩) ++
  [⟨.bookUpdate (sampleBook 99 101), 1⟩, ⟨.bookUpdate (sampleBook 199 201), 5⟩, ⟨.quoterTimer, 9⟩]

/-- Moves of the mid before any quote is acknowledged. -/
def midMoves (count : Nat) (time : Int) : List (Turn ℚ) :=
  (List.range count).map fun move => ⟨.bookUpdate (sampleBook (100 * move + 99) (100 * move + 101)), time⟩

def busyRun : List (Turn ℚ) := loggedIn.map (⟨·, 0⟩) ++ midMoves 30 0

/-- The clock ticks between the first slot and its order, and then not until that slot
is two seconds old. -/
def delayedClock (index : Nat) : Int :=
  if index = 0 then -10 * kSecond else if index = 1 then 0 else if index ≤ 120 then 1 else 2 * kSecond + 1

theorem delayedClock_ordered (early late : Nat) (ordered : early ≤ late) : delayedClock early ≤ delayedClock late := by
  have second : 0 < kSecond := by decide
  unfold delayedClock
  split_ifs <;> omega

def delayedEngine : Engine ℚ := initial { sampleEnvironment with steadyClock := delayedClock } sampleQuoter sampleRequest 0

def delayedRun : List (Turn ℚ) := loggedIn.map (⟨·, -10 * kSecond⟩) ++ midMoves 30 1 ++
  [⟨.bookUpdate (sampleBook 9999 10001), 2 * kSecond + 1⟩]

/-- A slot is as old as the limiter's reading, not as the order it is for: 61 of the
quoter's own orders are passed in one window. -/
theorem quoter_exceeds_limit_when_passed :
    (∀ early late, early ≤ late → delayedClock early ≤ delayedClock late) ∧
      Reaches (timedStep whenPassed) WithinTurn (delayedEngine, [])
        (finalState (forM delayedRun (timedStep whenPassed) (delayedEngine, []))) ∧
      passedIn .order 1 ((finalState (forM delayedRun (timedStep whenPassed) (delayedEngine, []))).2.filter Sent.byQuoter) =
        61 := by
  refine ⟨delayedClock_ordered, And.imp_left (Reaches.start.all delayedRun) ?_⟩
  decide +kernel

end Engine

end TradingEngine
