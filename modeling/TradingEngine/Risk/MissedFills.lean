import TradingEngine.Engine.OrderTracking

/-! Fills and the position across reconnects. The exchange executes orders and pushes
each execution while the private connection is logged in; what it would have pushed
otherwise, and what is on its way when the connection goes, is missed. Reconciliation
repairs the stored orders and leaves the position alone. Quantities are exact. -/

set_option autoImplicit false

namespace TradingEngine

open Library.Exec

/-!
## What moves the position
-/

namespace Engine

variable {D : Type} [DoubleArith D]

theorem netQty_applyFill (position : Position D) (side : Text) (px sz : D) :
    (position.applyFill side px sz).netQty =
      DoubleArith.add position.netQty (if side = kBuy then sz else DoubleArith.neg sz) := by
  unfold Position.applyFill
  dsimp only
  rw [apply_ite Position.netQty]
  exact ite_self _

/-- Nothing but an order event touches the position. -/
theorem position_handle {input : Input D} (other : ∀ event, input ≠ .orderEvent event) :
    Moves (fun before after => after.position = before.position) (handle input) := by
  have anything (effect : Effect) (_ : effect.Background) : True := trivial
  intro engine
  cases input with
  | orderEvent event => exact absurd rfl (other event)
  | bookUpdate book =>
      rw [handle, ifQuoting, run_bind_ok (run_get _)]
      split
      · exact (keeps_onBookUpdate anything (fun _ _ => trivial) (fun _ _ => trivial) book engine).position
      · rfl
  | quoterTimer =>
      rw [handle, ifQuoting, run_bind_ok (run_get _)]
      split
      · exact (keeps_onTimer anything (fun _ _ => trivial) engine).position
      · rfl
  | login message => exact (gated_login message engine).position
  | response message =>
      rw [finalState_response]
      exact (keeps_dispatch message engine).position
  | account message => exact (keepsQuiet.moves_handleAccountChannelMessage message engine).position
  | timeoutCheck => exact (keepsQuiet.moves_checkAndResolve engine).position
  | signal =>
      rw [handle, run_bind]
      have kept := (triggered_trigger "manual (signal)".toList engine).2
      cases ran : trigger "manual (signal)".toList engine with
      | ok value next =>
          rw [ran] at kept
          exact kept
      | error exception next =>
          rw [ran] at kept
          exact kept
  | connected login => exact (keepsQuiet.moves_connectOrReconnect login engine).position
  | disconnected => rfl
  | controlFrame bytes => exact (keepsQuiet.moves_writeRaw bytes engine).position
  | written bytes => rfl

theorem position_step {input : Input D} (other : ∀ event, input ≠ .orderEvent event) :
    Moves (fun before after => after.position = before.position) (step input) := by
  intro engine
  rw [step, run_bind_ok (run_get _)]
  split
  · rfl
  · exact position_handle other engine

/-- The position after the fill of an event. -/
def filledPosition (engine : Engine D) (event : OrderEvent D) : Position D :=
  match eventFill event with
  | none => engine.position
  | some fill => engine.position.applyFill event.side fill.px fill.sz

theorem position_applyFill (event : OrderEvent D) (engine : Engine D) :
    (finalState (applyFill event engine)).position = engine.filledPosition event := by
  unfold applyFill filledPosition
  cases eventFill event with
  | none => rfl
  | some fill =>
      dsimp only
      rw [run_bind_ok (run_modify _ _), triggerIfBreached, run_bind_ok (run_get _)]
      split
      · exact (triggered_trigger _ _).2
      · rfl

theorem position_handleOrderEvent (event : OrderEvent D) (engine : Engine D) :
    (finalState (handleOrderEvent event engine)).position = engine.filledPosition event := by
  rw [handleOrderEvent, run_bind, ← position_applyFill]
  cases applyFill event engine with
  | error exception next => rfl
  | ok value next => exact (keepsQuiet.moves_applyOrderEvent event next).position

/-- The ids of all orders the engine has handed to the exchange. -/
def Effect.placedId : Effect → Option Text
  | .send _ (.order clOrdId _) _ => some clOrdId
  | .restPlace clOrdId _ => some clOrdId
  | _ => none

def ownIds (engine : Engine D) : List Text := engine.trace.filterMap Effect.placedId

end Engine

/-!
## The exchange
-/

/-- What an event adds to the net quantity. -/
def OrderEvent.signedQty (event : OrderEvent ℚ) : ℚ :=
  match Engine.eventFill event with
  | none => 0
  | some fill => if event.side = kBuy then fill.sz else -fill.sz

def totalQty (events : List (OrderEvent ℚ)) : ℚ := (events.map OrderEvent.signedQty).sum

theorem totalQty_append (early late : List (OrderEvent ℚ)) : totalQty (early ++ late) = totalQty early + totalQty late := by
  rw [totalQty, List.map_append, List.sum_append, totalQty, totalQty]

theorem netQty_filledPosition (engine : Engine ℚ) (event : OrderEvent ℚ) :
    (engine.filledPosition event).netQty = engine.position.netQty + event.signedQty := by
  unfold Engine.filledPosition OrderEvent.signedQty
  cases Engine.eventFill event with
  | none => exact (add_zero _).symm
  | some fill => exact Engine.netQty_applyFill _ _ _ _

structure FillSession where
  engine : Engine ℚ
  executions : List (OrderEvent ℚ)
  /-- On their way to the engine, the oldest first. -/
  pushes : List (OrderEvent ℚ)
  missed : List (OrderEvent ℚ)

namespace FillSession

def opening (engine : Engine ℚ) : FillSession := ⟨engine, [], [], []⟩

/-- Events are pushed while the connection is logged in; with it everything that is
on its way is lost. -/
def pushed (session : FillSession) (engine : Engine ℚ) (events : List (OrderEvent ℚ)) : FillSession :=
  if engine.ws.authenticated then { session with engine := engine, pushes := session.pushes ++ events }
  else { session with engine := engine, pushes := [], missed := session.missed ++ (session.pushes ++ events) }

/-- The exchange executes orders while the engine gets from one state to another. -/
def executed (session : FillSession) (engine : Engine ℚ) (events : List (OrderEvent ℚ)) : FillSession :=
  { session.pushed engine events with executions := session.executions ++ events }

inductive FillMove where
  /-- A turn of the event loop, with the executions that take place during it. -/
  | engine (input : Engine.Input ℚ) (executions : List (OrderEvent ℚ))
  | execute (event : OrderEvent ℚ)
  /-- A push about an order without an execution. -/
  | report (event : OrderEvent ℚ)
  | deliver

def turn (input : Engine.Input ℚ) (executions : List (OrderEvent ℚ)) : EStateM Exn FillSession PUnit := fun session =>
  match Engine.step input session.engine with
  | .ok _ engine => .ok .unit (session.executed engine executions)
  | .error exception engine => .error exception (session.executed engine executions)

def fillStep : FillMove → EStateM Exn FillSession PUnit
  | .engine input executions => turn input executions
  | .execute event => modify fun session => session.executed session.engine [event]
  | .report event => modify fun session => session.pushed session.engine [event]
  | .deliver => do
      let session ← get
      match session.pushes with
      | [] => pure .unit
      | event :: rest => do
          set { session with pushes := rest }
          turn (.orderEvent event) []

/-- An execution of an order the engine has placed. -/
def Executes (session : FillSession) (event : OrderEvent ℚ) : Prop :=
  (Engine.eventFill event).isSome = true ∧ event.clOrdId ∈ session.engine.ownIds

/-- The loop is running, order events come as pushes, and the account trades
through the engine alone. -/
def Valid (session : FillSession) : FillMove → Prop
  | .engine (.orderEvent _) _ => False
  | .engine _ executions => session.engine.stopped = false ∧ ∀ event ∈ executions, session.Executes event
  | .execute event => session.Executes event
  | .report event => Engine.eventFill event = none
  | .deliver => session.engine.stopped = false

/-!
## Accounts
-/

/-- Each execution is in the position, on its way or missed. -/
def Accounted (session : FillSession) : Prop :=
  session.engine.position.netQty + totalQty session.pushes + totalQty session.missed = totalQty session.executions

theorem Accounted.executed {session : FillSession} {engine : Engine ℚ} (accounted : session.Accounted)
    (same : engine.position = session.engine.position) (events : List (OrderEvent ℚ)) :
    (session.executed engine events).Accounted := by
  unfold Accounted at accounted ⊢
  unfold FillSession.executed pushed
  split
  · dsimp only
    rw [same, totalQty_append, totalQty_append, ← accounted]
    ring
  · dsimp only
    rw [same, totalQty_append, totalQty_append, totalQty_append, ← accounted]
    simp only [totalQty, List.map_nil, List.sum_nil]
    ring

theorem Accounted.reported {session : FillSession} {event : OrderEvent ℚ} (accounted : session.Accounted)
    (unfilled : Engine.eventFill event = none) : (session.pushed session.engine [event]).Accounted := by
  have nothing : totalQty [event] = 0 := by simp [totalQty, OrderEvent.signedQty, unfilled]
  unfold Accounted at accounted ⊢
  unfold pushed
  split
  · dsimp only
    rw [totalQty_append, nothing, add_zero]
    exact accounted
  · dsimp only
    rw [totalQty_append, totalQty_append, nothing, ← accounted]
    simp only [totalQty, List.map_nil, List.sum_nil]
    ring

/-- Whether the turn returns or throws, its input not being an order event. -/
theorem Accounted.turn {session : FillSession} {input : Engine.Input ℚ} (accounted : session.Accounted)
    (other : ∀ event, input ≠ .orderEvent event) (executions : List (OrderEvent ℚ)) :
    (finalState (turn input executions session)).Accounted := by
  have same := Engine.position_step other session.engine
  unfold FillSession.turn
  cases ran : Engine.step input session.engine with
  | ok value engine =>
      rw [ran] at same
      exact accounted.executed same executions
  | error exception engine =>
      rw [ran] at same
      exact accounted.executed same executions

theorem Accounted.deliver {session : FillSession} {event : OrderEvent ℚ} {rest : List (OrderEvent ℚ)}
    (accounted : session.Accounted) (running : session.engine.stopped = false) (first : session.pushes = event :: rest) :
    (finalState (FillSession.turn (.orderEvent event) [] { session with pushes := rest })).Accounted := by
  have filled := Engine.position_handleOrderEvent event session.engine
  have step : Engine.step (.orderEvent event) session.engine = Engine.handleOrderEvent event session.engine := by
    rw [Engine.step, run_bind_ok (run_get _), if_neg (by simp [running])]
    rfl
  have moved (engine : Engine ℚ) (position : engine.position = session.engine.filledPosition event) :
      ({ session with pushes := rest }.executed engine []).Accounted := by
    have delivered : Accounted { session with engine := engine, pushes := rest } := by
      unfold Accounted at accounted ⊢
      dsimp only
      rw [position, netQty_filledPosition, ← accounted, first]
      simp only [totalQty, List.map_cons, List.sum_cons]
      ring
    exact delivered.executed rfl []
  unfold FillSession.turn
  dsimp only
  rw [step]
  cases ran : Engine.handleOrderEvent event session.engine with
  | ok value engine =>
      rw [ran] at filled
      exact moved engine filled
  | error exception engine =>
      rw [ran] at filled
      exact moved engine filled

theorem Accounted.fillStep {session : FillSession} {move : FillMove} (accounted : session.Accounted)
    (valid : session.Valid move) : (finalState (fillStep move session)).Accounted := by
  cases move with
  | engine input executions =>
      refine accounted.turn (fun event same => ?_) executions
      subst same
      exact valid
  | execute event => exact accounted.executed rfl [event]
  | report event => exact accounted.reported valid
  | deliver =>
      rw [FillSession.fillStep, run_bind_ok (run_get _)]
      cases first : session.pushes with
      | nil => exact accounted
      | cons event rest => exact accounted.deliver valid first

/-- After a login has been handled the position shows all executions exactly when
those that were missed, and those still on their way, add up to nothing. -/
theorem fills_kept_iff (environment : Environment) (quoter : NaiveQuoter ℚ) (request : OrderRequest) (lastId : Nat)
    {session : FillSession}
    (run : Reaches fillStep Valid (opening (Engine.initial environment quoter request lastId)) session)
    {message : Text} {executions : List (OrderEvent ℚ)} (valid : session.Valid (.engine (.login message) executions))
    {after : FillSession} (handled : finalState (fillStep (.engine (.login message) executions) session) = after) :
    after.engine.position.netQty = totalQty after.executions ↔ totalQty (after.missed ++ after.pushes) = 0 := by
  have accounted : session.Accounted := by
    refine run.invariant Accounted ?_ fun current move next accounted valid ran => ?_
    · exact (add_zero _).trans (add_zero _)
    · have stepped := accounted.fillStep valid
      rw [ran] at stepped
      exact stepped
  have balance := accounted.fillStep valid
  rw [handled, Accounted] at balance
  rw [totalQty_append, ← balance]
  constructor
  · intro same
    linarith
  · intro nothing
    linarith

/-!
## An outage
-/

instance (session : FillSession) (event : OrderEvent ℚ) : Decidable (session.Executes event) :=
  inferInstanceAs (Decidable (_ ∧ _))

instance (session : FillSession) : (move : FillMove) → Decidable (session.Valid move)
  | .engine (.orderEvent _) _ => isFalse id
  | .execute _ => inferInstanceAs (Decidable (session.Executes _))
  | .report event => inferInstanceAs (Decidable (Engine.eventFill event = none))
  | .deliver => inferInstanceAs (Decidable (_ = false))
  | .engine (.bookUpdate _) _ | .engine .quoterTimer _ | .engine (.login _) _ | .engine (.response _) _
  | .engine (.account _) _ | .engine .timeoutCheck _ | .engine .signal _ | .engine (.connected _) _
  | .engine .disconnected _ | .engine (.controlFrame _) _ | .engine (.written _) _ =>
      inferInstanceAs (Decidable (_ ∧ ∀ event ∈ _, _))

/-- Half of the order that the login placed is executed. -/
def sampleExecution : OrderEvent ℚ :=
  { Engine.acknowledgement "1" "9" "buy" "100.00" with type := .kPartialFill, fill := some ⟨100, 1 / 200⟩ }

def sampleLogin : Text := "\x7b\"event\":\"login\",\"code\":\"0\"\x7d".toList

def firstLogin : List FillMove := [.engine (.connected []) [], .engine (.login sampleLogin) []]

def sampleSession : FillSession := opening Engine.sampleEngine

/-- The sample after some moves and then a login. -/
def afterLogin (moves : List FillMove) : FillSession :=
  finalState (fillStep (.engine (.login sampleLogin) []) (finalState (forM moves fillStep sampleSession)))

/-- The execution reaches the engine before the connection goes. -/
def deliveredMoves : List FillMove :=
  firstLogin ++ [.execute sampleExecution, .deliver, .engine .disconnected [], .engine (.connected []) []]

theorem fills_kept_when_delivered :
    (afterLogin deliveredMoves).executions.length = 1 ∧
      (afterLogin deliveredMoves).engine.position.netQty = totalQty (afterLogin deliveredMoves).executions := by
  have facts : AdmitsAll fillStep Valid sampleSession deliveredMoves ∧
      Valid (finalState (forM deliveredMoves fillStep sampleSession)) (.engine (.login sampleLogin) []) ∧
      (afterLogin deliveredMoves).executions.length = 1 ∧
      totalQty ((afterLogin deliveredMoves).missed ++ (afterLogin deliveredMoves).pushes) = 0 := by
    decide +kernel
  obtain ⟨admitted, valid, one, nothing⟩ := facts
  have kept := fills_kept_iff Engine.sampleEnvironment Engine.sampleQuoter Engine.sampleRequest 0
    (Reaches.start.all deliveredMoves admitted) valid (rfl : _ = afterLogin deliveredMoves)
  exact ⟨one, kept.mpr nothing⟩

/-- The execution takes place between the connections. -/
def outageMoves : List FillMove :=
  firstLogin ++ [.engine .disconnected [], .execute sampleExecution, .engine (.connected []) []]

/-- The second login reconciles, and the position stays at zero. -/
theorem fill_missed_in_outage :
    Reaches fillStep Valid sampleSession (finalState (forM outageMoves fillStep sampleSession)) ∧
      Valid (finalState (forM outageMoves fillStep sampleSession)) (.engine (.login sampleLogin) []) ∧
      returned (fillStep (.engine (.login sampleLogin) []) (finalState (forM outageMoves fillStep sampleSession))) =
        some .unit ∧
      (afterLogin outageMoves).engine.position.netQty = 0 ∧ totalQty (afterLogin outageMoves).executions = 1 / 200 := by
  refine And.imp_left (Reaches.start.all outageMoves) ?_
  decide +kernel

end FillSession

end TradingEngine
