import TradingEngine.Orders.ReconciliationAgreement
import TradingEngine.Strategy.QuoteHandles

/-! The timeout monitor and the quoter. A quote the exchange never answers keeps its
side from being quoted again; the check asks for the pending orders once an order has
waited for more than five seconds, and what the answer does not list gives its side
free. -/

set_option autoImplicit false

namespace TradingEngine.Engine

open Library.Exec

variable {D : Type}

/-!
## One check
-/

/-- Some stored order has waited for too long. -/
def AnyTimedOut (engine : Engine D) : Prop :=
  ∃ order ∈ engine.store.orders, timedOut engine.steadyClock.now order = true

theorem anyTimedOut_iff (engine : Engine D) :
    engine.store.orders.any (timedOut engine.steadyClock.now) = true ↔ engine.AnyTimedOut :=
  List.any_eq_true

instance (engine : Engine D) : Decidable engine.AnyTimedOut := decidable_of_iff _ engine.anyTimedOut_iff

/-- The engine after the check has read the clock. -/
def checking (engine : Engine D) : Engine D := { engine with steadyClock := engine.steadyClock.tick }

theorem checkAndResolve_of_inTime {engine : Engine D} (inTime : ¬ engine.AnyTimedOut) :
    checkAndResolve engine = .ok .unit engine.checking := by
  rw [checkAndResolve, run_bind_ok (run_steadyNow engine), run_bind_ok (run_get _),
    if_neg (fun late => inTime (engine.anyTimedOut_iff.mp late))]
  rfl

theorem checkAndResolve_of_late {engine : Engine D} (late : engine.AnyTimedOut) :
    checkAndResolve engine = (getPendingOrders >>= fun pending => reconcileOrders pending) engine.checking := by
  rw [checkAndResolve, run_bind_ok (run_steadyNow engine), run_bind_ok (run_get _),
    if_pos (engine.anyTimedOut_iff.mpr late)]
  rfl

theorem checkAndResolve_of_answer {engine : Engine D} (late : engine.AnyTimedOut) {body : Text}
    (answer : engine.rest.answers engine.rest.calls = .ok body) :
    checkAndResolve engine = reconcileOrders body engine.checking.asking := by
  have answered : engine.checking.rest.answers engine.checking.rest.calls = .ok body := answer
  have asked : getPendingOrders engine.checking = .ok body engine.checking.asking := by
    rw [run_getPendingOrders, answered]
  rw [checkAndResolve_of_late late, run_bind_ok asked]

/-- A check that returns has asked and reconciled, if an order was late. -/
theorem checkAndResolve_ok {engine next : Engine D} (ran : checkAndResolve engine = .ok .unit next) :
    next = engine.checking ∨ ∃ body, reconcileOrders body engine.checking.asking = .ok .unit next := by
  by_cases late : engine.AnyTimedOut
  · right
    rw [checkAndResolve_of_late late] at ran
    obtain ⟨body, asked, answered, reconciled⟩ := of_bind_ok ran
    rw [run_getPendingOrders] at answered
    split at answered
    · cases answered
      exact ⟨body, reconciled⟩
    · cases answered
  · left
    rw [checkAndResolve_of_inTime late] at ran
    cases ran
    rfl

/-- After a reconciliation the store holds the orders of the answer and no other. -/
theorem mem_ids_reconcileOrders {engine next : Engine D} {response : Text}
    (ran : reconcileOrders response engine = .ok .unit next) (clOrdId : Text) :
    clOrdId ∈ next.store.ids ↔ clOrdId ∈ (pendingRows response).map rowId := by
  have outcome := reconcileOrders_outcome response engine
  rw [ran] at outcome
  obtain ⟨-, middle, adopts, -, stays⟩ := outcome
  rw [OrderStore.mem_ids]
  constructor
  · rintro ⟨order, member, rfl⟩
    exact of_decide_eq_true (List.mem_filter.mp (stays.mem_iff.mp member)).2
  · intro listed
    obtain ⟨order, member, rfl⟩ := OrderStore.mem_ids.mp (adopts.mem_ids.mpr (.inr listed))
    exact ⟨order, stays.mem_iff.mpr (List.mem_filter.mpr ⟨member, decide_eq_true listed⟩), rfl⟩

/-!
## Runs
-/

/-- The quoter's inputs with the checks of the monitor among them. -/
inductive MonitoredInput (D : Type) [DoubleArith D] where
  | quoter (input : QuoterInput D)
  | timeoutCheck

def monitoredStep [DoubleArith D] : MonitoredInput D → EngineM D PUnit
  | .quoter input => quoterStep input
  | .timeoutCheck => checkAndResolve

-- The clock and the REST client are no part of what the handles are about.
theorem HandleInv.checking {engine : Engine D} (inv : HandleInv engine) : HandleInv engine.checking :=
  ⟨inv.distinct, inv.stored⟩

theorem HandleInv.asking {engine : Engine D} (inv : HandleInv engine) : HandleInv engine.asking :=
  ⟨inv.distinct, inv.stored⟩

theorem HandleInv.checkAndResolve {engine next : Engine D} (inv : HandleInv engine)
    (ran : checkAndResolve engine = .ok .unit next) : HandleInv next := by
  rcases checkAndResolve_ok ran with rfl | ⟨body, reconciled⟩
  · exact inv.checking
  · exact (inv.checking.asking.reconcileOrders reconciled).1

section Monitored

variable [DoubleArith D]

theorem monitoredStep_grows (input : MonitoredInput D) : Moves (Keeps fun _ => True) (monitoredStep input) := by
  cases input with
  | quoter input => exact quoterStep_grows input
  | timeoutCheck => exact keepsQuiet.moves_checkAndResolve.imp fun _ _ keeps => keeps.mono fun _ _ => trivial

theorem monitoredStep_handleInv {engine next : Engine D} {input : MonitoredInput D} (inv : HandleInv engine)
    (ran : monitoredStep input engine = .ok .unit next) (fresh : ∀ effect ∈ next.trace, Effect.PlacedFresh effect) :
    HandleInv next := by
  cases input with
  | quoter input => exact quoterStep_handleInv inv ran fresh
  | timeoutCheck => exact inv.checkAndResolve ran

/-- The invariant of the handles over a run with checks, by the trace growing: what
is fresh at the end of the run was fresh at every state of it. -/
theorem handleInv_monitored {start engine : Engine D} (initially : HandleInv start)
    (run : Reaches monitoredStep (fun _ _ => True) start engine)
    (fresh : ∀ effect ∈ engine.trace, Effect.PlacedFresh effect) : HandleInv engine := by
  refine run.invariant (fun current => (∀ effect ∈ current.trace, Effect.PlacedFresh effect) → HandleInv current)
    (fun _ => initially) (fun current input next inv _ ran fresh => ?_) fresh
  obtain ⟨new, grown, -⟩ := ((monitoredStep_grows input).ok ran).emits
  refine monitoredStep_handleInv (inv fun effect sent => fresh effect ?_) ran fresh
  rw [grown]
  exact List.mem_append_left _ sent

/-- In every state of every run in which quotes go out under fresh ids a check with
no late order leaves all as it is, and a check with one makes the store the exchange's
list: a handle stays exactly if its order is listed, and otherwise the side is free. -/
theorem timed_out_quotes_released (environment : Environment) {quoter : NaiveQuoter D}
    (unquoted : ∀ side, quoter.handle side = none) (request : OrderRequest) (lastId : Nat) {engine : Engine D}
    (run : Reaches monitoredStep (fun _ _ => True) (initial environment quoter request lastId) engine)
    (fresh : ∀ effect ∈ engine.trace, Effect.PlacedFresh effect) :
    (¬ engine.AnyTimedOut → checkAndResolve engine = .ok .unit engine.checking) ∧
    ∀ body, engine.AnyTimedOut → engine.rest.answers engine.rest.calls = .ok body →
      (∀ row ∈ pendingRows body, WellFormedRow row) →
      engine.store.size + (newRows engine.store.ids (pendingRows body)).length ≤ OrderStore.kCapacity →
      ∃ next, checkAndResolve engine = .ok .unit next ∧ HandlesMatch next ∧
        (∀ clOrdId, clOrdId ∈ next.store.ids ↔ clOrdId ∈ (pendingRows body).map rowId) ∧
        ∀ side, next.quoter.handle side =
          (engine.quoter.handle side).filter fun clOrdId => clOrdId ∈ (pendingRows body).map rowId := by
  have initially : HandleInv (initial environment quoter request lastId) := by
    refine ⟨List.nodup_nil, fun side clOrdId handle => ?_⟩
    have free : quoter.handle side = some clOrdId := handle
    rw [unquoted] at free
    cases free
  have inv := handleInv_monitored initially run fresh
  refine ⟨checkAndResolve_of_inTime, fun body late answer wellFormed room => ?_⟩
  have asked : HandleInv engine.checking.asking := inv.checking.asking
  obtain ⟨next, reconciled⟩ := @returns_of_room _ engine.checking.asking _ wellFormed room
  have listed := mem_ids_reconcileOrders reconciled
  obtain ⟨nextInv, clears⟩ := asked.reconcileOrders reconciled
  refine ⟨next, (checkAndResolve_of_answer late answer).trans reconciled, nextInv.handlesMatch, listed, fun side => ?_⟩
  have same : engine.checking.asking.quoter.handle side = engine.quoter.handle side := rfl
  rw [clears side, same]
  simp only [listed]

end Monitored

/-- Ten seconds pass between two readings, and the exchange knows of the buy only. -/
def lateEnvironment : Environment where
  steadyClock reading := reading * (10 * kSecond)
  systemClock reading := reading
  restAnswers _ := .ok samplePending

def lateStart : Engine ℚ := initial lateEnvironment sampleQuoter sampleRequest 0

def quotedInputs : List (MonitoredInput ℚ) := [.timeoutCheck, .quoter (.bookUpdate (sampleBook 99 101))]

def lateEngine : Engine ℚ := finalState (forM quotedInputs monitoredStep lateStart)

/-- Both quotes wait; the sell, which the exchange does not list, is given up. -/
theorem timed_out_quotes_released_sell :
    lateEngine.quoter.handle .bid = some "1".toList ∧ lateEngine.quoter.handle .ask = some "2".toList ∧
      ∃ next, checkAndResolve lateEngine = .ok .unit next ∧
        next.quoter.handle .bid = some "1".toList ∧ next.quoter.handle .ask = none := by
  have facts : AdmitsAll monitoredStep (fun _ _ => True) lateStart quotedInputs ∧
      (∀ effect ∈ lateEngine.trace, Effect.PlacedFresh effect) ∧ lateEngine.AnyTimedOut ∧
      (∀ row ∈ pendingRows samplePending, WellFormedRow row) ∧
      lateEngine.store.size + (newRows lateEngine.store.ids (pendingRows samplePending)).length ≤
        OrderStore.kCapacity ∧
      lateEngine.quoter.handle .bid = some "1".toList ∧ lateEngine.quoter.handle .ask = some "2".toList ∧
      (lateEngine.quoter.handle .bid).filter (· ∈ (pendingRows samplePending).map rowId) = some "1".toList ∧
      (lateEngine.quoter.handle .ask).filter (· ∈ (pendingRows samplePending).map rowId) = none := by
    decide +kernel
  obtain ⟨admits, fresh, late, wellFormed, room, bid, ask, listed, unlisted⟩ := facts
  have run : Reaches monitoredStep (fun _ _ => True) lateStart lateEngine := Reaches.start.all quotedInputs admits
  have unquoted : ∀ side, sampleQuoter.handle side = none := by decide
  have answer : lateEngine.rest.answers lateEngine.rest.calls = .ok samplePending := by decide +kernel
  obtain ⟨next, ran, -, -, handles⟩ :=
    (timed_out_quotes_released lateEnvironment unquoted sampleRequest 0 run fresh).2 samplePending late answer
      wellFormed room
  exact ⟨bid, ask, next, ran, (handles .bid).trans listed, (handles .ask).trans unlisted⟩

end TradingEngine.Engine
