import TradingEngine.Engine.InputFootprint

/-! The ids of the engine's requests. Every request that leaves the engine, over
the connection or over REST, carries a number larger than those before it, in
every run and whatever the clock shows, as long as the numbers stay in the range of
`last_id`; an id is drawn at most once. -/

set_option autoImplicit false

namespace TradingEngine

open Library.Exec

def Effect.requestId : Effect → Option Text
  | .send _ (.order id _) _ => some id
  | .send _ (.amendOrder id _ _ _ _) _ => some id
  | .send _ (.cancelOrder id _ _) _ => some id
  | .restPlace clOrdId _ => some clOrdId
  | _ => none

def requestIds (trace : List Effect) : List Text := trace.filterMap Effect.requestId

theorem Effect.Background.requestId {effect : Effect} (background : effect.Background) : effect.requestId = none := by
  unfold Effect.Background at background
  split at background
  all_goals first | rfl | exact background.elim

namespace Engine

variable {D : Type}

/-- Requests with these numbers were sent; ids were drawn, sent or not. -/
structure Issues (numbers : List Nat) (before after : Engine D) : Prop where
  lastId : before.lastId ≤ after.lastId
  trace : ∃ new, after.trace = before.trace ++ new ∧ requestIds new = numbers.map toDecimal

theorem Issues.trans {early late : List Nat} {first second third : Engine D} (before : Issues early first second)
    (after : Issues late second third) : Issues (early ++ late) first third where
  lastId := before.lastId.trans after.lastId
  trace := by
    obtain ⟨new, grown, sent⟩ := before.trace
    obtain ⟨more, grownAgain, sentAgain⟩ := after.trace
    refine ⟨new ++ more, by rw [grownAgain, grown, List.append_assoc], ?_⟩
    rw [requestIds, List.filterMap_append, List.map_append, ← sent, ← sentAgain]
    rfl

theorem issues_nothing {before after : Engine D} (lastId : before.lastId ≤ after.lastId)
    (trace : after.trace = before.trace) : Issues [] before after :=
  ⟨lastId, [], by simp [trace], rfl⟩

theorem issuesNothing : Footprint (fun effect => effect.requestId = none) (Issues [] : Engine D → Engine D → Prop) where
  refl _ := issues_nothing le_rfl rfl
  trans _ _ _ early late := early.trans late
  background _ background := background.requestId
  trace engine effect none := ⟨le_rfl, [effect], rfl, by simp [requestIds, none]⟩
  reads _ := issues_nothing le_rfl rfl
  ids engine := issues_nothing (le_trans (Nat.le_succ _) (le_max_left _ _)) rfl
  calls _ := issues_nothing le_rfl rfl
  ws _ _ := issues_nothing le_rfl rfl
  store _ _ := issues_nothing le_rfl rfl
  quoter _ _ := issues_nothing le_rfl rfl
  pending _ _ := issues_nothing le_rfl rfl
  roundTrip _ _ := issues_nothing le_rfl rfl
  account _ _ := issues_nothing le_rfl rfl

/-- At most one request was sent, under this number. -/
def IssuesUpTo (number : Nat) (before after : Engine D) : Prop :=
  Issues [] before after ∨ Issues [number] before after

section UpTo

variable {number : Nat} {α β : Type} {first : EngineM D α} {next : α → EngineM D β}

theorem issuesUpTo_after (firstMoves : Moves (Issues []) first)
    (nextMoves : ∀ value, Moves (IssuesUpTo number) (next value)) : Moves (IssuesUpTo number) (first >>= next) :=
  moves_seq (fun _ _ nothing => .inl nothing)
    (fun _ _ _ early late => late.imp (fun late => early.trans late) fun late => early.trans late) firstMoves nextMoves

theorem issuesUpTo_before (firstMoves : Moves (IssuesUpTo number) first)
    (nextMoves : ∀ value, Moves (Issues []) (next value)) : Moves (IssuesUpTo number) (first >>= next) :=
  moves_seq (fun _ _ sends => sends)
    (fun _ _ _ early late => early.imp (fun early => early.trans late) fun early => early.trans late) firstMoves nextMoves

theorem issuesUpTo_of_nothing {program : EngineM D α} (sends : Moves (Issues []) program) :
    Moves (IssuesUpTo number) program :=
  sends.imp fun _ _ nothing => .inl nothing

theorem issuesUpTo_emit {effect : Effect} (carries : effect.requestId = some (toDecimal number)) :
    Moves (IssuesUpTo number) (emit effect : EngineM D PUnit) :=
  fun _ => .inr ⟨le_rfl, [effect], rfl, by simp [requestIds, carries]⟩

theorem issuesUpTo_send {route : Route} {payload : Outgoing} {before : OrderStore}
    (carries : Effect.requestId (.send route payload before) = some (toDecimal number)) :
    Moves (IssuesUpTo number) (send route payload before : EngineM D PUnit) :=
  issuesUpTo_before (issuesUpTo_emit carries) fun _ => issuesNothing.moves_writeRaw _

end UpTo

/-- Requests were sent under growing numbers, all of them drawn meanwhile. -/
def Numbered (before after : Engine D) : Prop :=
  ∃ numbers, Issues numbers before after ∧ numbers.Pairwise (· < ·) ∧
    ∀ number ∈ numbers, before.lastId < number ∧ number ≤ after.lastId

theorem Numbered.trans (first second third : Engine D) (early : Numbered first second) (late : Numbered second third) :
    Numbered first third := by
  obtain ⟨numbers, sends, grow, drawn⟩ := early
  obtain ⟨others, sendsLater, growLater, drawnLater⟩ := late
  refine ⟨numbers ++ others, sends.trans sendsLater, ?_, ?_⟩
  · refine List.pairwise_append.mpr ⟨grow, growLater, fun number member other later => ?_⟩
    exact (drawn number member).2.trans_lt (drawnLater other later).1
  · intro number member
    have before := sends.lastId
    have after := sendsLater.lastId
    rcases List.mem_append.mp member with earlier | later
    · exact ⟨(drawn number earlier).1, (drawn number earlier).2.trans after⟩
    · exact ⟨before.trans_lt (drawnLater number later).1, (drawnLater number later).2⟩

theorem Issues.numbered {before after : Engine D} (nothing : Issues [] before after) : Numbered before after :=
  ⟨[], nothing, List.Pairwise.nil, by simp⟩

theorem numbered_of_same {before after : Engine D} (lastId : after.lastId = before.lastId)
    (trace : after.trace = before.trace) : Numbered before after :=
  (issues_nothing lastId.ge trace).numbered

theorem numbered : InputFootprint (fun effect => effect.requestId = none) (Numbered : Engine D → Engine D → Prop) where
  refl engine := (issuesNothing.refl engine).numbered
  trans := Numbered.trans
  background _ background := background.requestId
  trace engine effect none := (issuesNothing.trace engine effect none).numbered
  reads engine := (issuesNothing.reads engine).numbered
  ids engine := (issuesNothing.ids engine).numbered
  calls engine := (issuesNothing.calls engine).numbered
  ws engine ws := (issuesNothing.ws engine ws).numbered
  store engine store := (issuesNothing.store engine store).numbered
  quoter engine quoter := (issuesNothing.quoter engine quoter).numbered
  pending engine pending := (issuesNothing.pending engine pending).numbered
  roundTrip engine roundTrip := (issuesNothing.roundTrip engine roundTrip).numbered
  account engine account := (issuesNothing.account engine account).numbered
  trips _ reason := Issues.numbered ⟨le_rfl, [.triggered reason], rfl, rfl⟩
  position _ _ := numbered_of_same rfl rfl
  limits _ _ := numbered_of_same rfl rfl

/-- An id is drawn and used for at most one request. -/
theorem numbered_generateId {α : Type} {next : Text → EngineM D α}
    (uses : ∀ number, Moves (IssuesUpTo number) (next (toDecimal number))) :
    Moves Numbered (generateId >>= next) := by
  intro engine
  have fresh : engine.lastId < engine.nextId := Nat.lt_of_lt_of_le (Nat.lt_succ_self _) (le_max_left _ _)
  have used := uses engine.nextId { engine with lastId := engine.nextId, systemClock := engine.systemClock.tick }
  rw [run_bind_ok (show generateId engine = .ok (toDecimal engine.nextId) _ from rfl)]
  rcases used with nothing | one
  · exact ⟨[], ⟨fresh.le.trans nothing.lastId, nothing.trace⟩, List.Pairwise.nil, by simp⟩
  · refine ⟨[engine.nextId], ⟨fresh.le.trans one.lastId, one.trace⟩, List.pairwise_singleton _ _, ?_⟩
    intro number member
    rw [List.mem_singleton.mp member]
    exact ⟨fresh, one.lastId⟩

theorem numbered_buildWsOrderMessage {α : Type} (request : OrderRequest) {next : Text → EngineM D α}
    (uses : ∀ number, Moves (IssuesUpTo number) (next (toDecimal number))) :
    Moves Numbered (buildWsOrderMessage request >>= next) := by
  rw [buildWsOrderMessage, bind_assoc]
  refine numbered_generateId fun number => ?_
  split
  · exact issuesUpTo_of_nothing fun engine => issuesNothing.refl engine
  · exact uses number

/-!
## Round trip
-/

theorem numbered_startOverWs (request : OrderRequest) (before : OrderStore) :
    Moves Numbered (startOverWs request before : EngineM D PUnit) :=
  numbered_buildWsOrderMessage request fun _ =>
    issuesUpTo_after (issuesNothing.moves_setClOrdId _) fun _ =>
      issuesUpTo_after (issuesNothing.moves_addOrder _ _ _ _ _) fun _ =>
        issuesUpTo_before (issuesUpTo_send rfl) fun _ => issuesNothing.moves_track _ _

theorem numbered_placeOrder (request : OrderRequest) : Moves Numbered (placeOrder request : EngineM D OrderResult) := by
  unfold placeOrder
  split
  · exact numbered.moves_throw _
  · exact numbered_generateId fun _ => issuesUpTo_before (issuesUpTo_emit rfl) fun _ =>
      issuesNothing.moves_bind issuesNothing.moves_restCall fun _ => issuesNothing.moves_pure _

theorem numbered_startOverRest (request : OrderRequest) :
    Moves Numbered (startOverRest request : EngineM D PUnit) := by
  refine numbered.moves_bind (numbered_placeOrder request) fun result => ?_
  split
  · exact numbered.moves_bind (numbered.moves_setOrdId _) fun _ => numbered.moves_fallBackToRestCancel
  · exact numbered.moves_pure _

theorem numbered_start : Moves Numbered (start : EngineM D PUnit) := by
  refine numbered.moves_get fun engine => ?_
  split
  · exact numbered_startOverWs _ _
  · exact numbered_startOverRest _

theorem numbered_requestAmend (ordId : Text) : Moves Numbered (requestAmend ordId : EngineM D PUnit) :=
  numbered.moves_bind numbered.moves_steadyNow fun _ =>
    numbered.moves_bind (numbered.moves_updateOwnOrder _) fun _ => numbered_generateId fun _ =>
      issuesUpTo_after (moves_get issuesNothing.refl) fun _ =>
        issuesUpTo_before (issuesUpTo_send rfl) fun _ => issuesNothing.moves_track _ _

theorem numbered_requestCancel : Moves Numbered (requestCancel : EngineM D PUnit) :=
  numbered.moves_bind numbered.moves_steadyNow fun _ =>
    numbered.moves_bind (numbered.moves_updateOwnOrder _) fun _ => numbered_generateId fun _ =>
      issuesUpTo_after (moves_get issuesNothing.refl) fun _ =>
        issuesUpTo_before (issuesUpTo_send rfl) fun _ => issuesNothing.moves_track _ _

theorem numbered_runHandler (handler : ResponseHandler) (response : Text) :
    Moves Numbered (runHandler handler response : EngineM D PUnit) := by
  cases handler with
  | onOrderResponse =>
      simp only [runHandler, onOrderResponse]
      split
      · exact numbered.moves_pure _
      · split
        · exact numbered.moves_pure _
        · refine numbered.moves_bind (numbered.moves_setOrdId _) fun _ => numbered.moves_get fun engine => ?_
          split
          · exact numbered_requestAmend _
          · exact numbered.moves_fallBackToRestCancel
  | onAmendResponse =>
      refine numbered.moves_bind (numbered.moves_rejectUnlessAccepted response) fun _ =>
        numbered.moves_get fun engine => ?_
      split
      · exact numbered_requestCancel
      · exact numbered.moves_fallBackToRestCancel
  | onCancelResponse => exact numbered.moves_rejectUnlessAccepted response

/-!
## Quoter
-/

section Quoting

variable [DoubleArith D]

theorem numbered_placeSide (side : QuoteSide) (px : D) : Moves Numbered (placeSide side px) := by
  refine numbered.moves_bind (numbered.moves_tryAcquire numbered.limits _) fun granted => ?_
  split
  · exact numbered.moves_get fun engine => numbered_buildWsOrderMessage _ fun _ =>
      issuesUpTo_after (issuesNothing.moves_addOrder _ _ _ _ _) fun _ =>
        issuesUpTo_before (issuesUpTo_send rfl) fun _ => issuesNothing.moves_pure _
  · exact numbered.moves_pure _

theorem numbered_amendSide (clOrdId ordId : Text) (px : D) : Moves Numbered (amendSide clOrdId ordId px) := by
  refine numbered.moves_bind (numbered.moves_tryAcquire numbered.limits _) fun granted => ?_
  split
  · exact numbered.moves_bind numbered.moves_steadyNow fun _ =>
      numbered.moves_bind (numbered.moves_updateOrder _ _) fun _ => numbered_generateId fun _ =>
        issuesUpTo_after (moves_get issuesNothing.refl) fun _ => issuesUpTo_send rfl
  · exact numbered.moves_pure _

theorem numbered_step (input : Input D) : Moves Numbered (step input) :=
  numbered.moves_step numbered_start numbered_runHandler numbered_placeSide numbered_amendSide
    (fun _ => numbered_of_same rfl rfl) input

/-- Over a whole run, and whether or not its last input throws, the requests that
left the engine carry strictly growing numbers, drawn as `GenerateId` draws them while
`last_id` can be counted on. -/
theorem request_ids_grow (environment : Environment) (quoter : NaiveQuoter D) (request : OrderRequest) (lastId : Nat)
    {engine : Engine D} (run : Reaches step (fun _ _ => True) (initial environment quoter request lastId) engine)
    (input : Input D) (range : (finalState (step input engine)).lastId + 1 < 2 ^ 63) :
    IdSource.generateId engine.ids = .ok (toDecimal engine.nextId) (finalState (generateId engine)).ids ∧
    ∃ numbers : List Nat, requestIds (finalState (step input engine)).trace = numbers.map toDecimal ∧
      numbers.Pairwise (· < ·) ∧
      ∀ number ∈ numbers, lastId < number ∧ number ≤ (finalState (step input engine)).lastId := by
  have reached : Numbered (initial environment quoter request lastId) engine :=
    run.invariant (Numbered (initial environment quoter request lastId)) (numbered.refl _)
      fun current input next so_far _ ran => by
        have moved := numbered_step input current
        rw [ran] at moved
        exact numbered.trans _ _ _ so_far moved
  have last : Numbered engine (finalState (step input engine)) := numbered_step input engine
  have below : engine.lastId ≤ (finalState (step input engine)).lastId := by
    obtain ⟨_, issues, _⟩ := last
    exact issues.lastId
  obtain ⟨numbers, issues, grow, drawn⟩ := numbered.trans _ _ _ reached last
  obtain ⟨new, trace, sent⟩ := issues.trace
  refine ⟨run_generateId_ids engine (by omega), numbers, ?_, grow, drawn⟩
  rw [trace, ← sent]
  rfl

end Quoting

/-- The login places an order, the book two more. -/
theorem request_ids_grow_quoting :
    requestIds (finalState (forM (loggedIn ++ [.bookUpdate (sampleBook 99 101)]) step sampleEngine)).trace =
        ["1".toList, "2".toList, "3".toList] ∧
      ∃ numbers : List Nat,
        requestIds (finalState (step .quoterTimer
          (finalState (forM (loggedIn ++ [.bookUpdate (sampleBook 99 101)]) step sampleEngine)))).trace =
            numbers.map toDecimal ∧ numbers.Pairwise (· < ·) := by
  have facts : AdmitsAll step (fun _ _ => True) sampleEngine (loggedIn ++ [.bookUpdate (sampleBook 99 101)]) ∧
      requestIds (finalState (forM (loggedIn ++ [.bookUpdate (sampleBook 99 101)]) step sampleEngine)).trace =
        ["1".toList, "2".toList, "3".toList] ∧
      (finalState (step .quoterTimer
        (finalState (forM (loggedIn ++ [.bookUpdate (sampleBook 99 101)]) step sampleEngine)))).lastId + 1 < 2 ^ 63 := by
    decide +kernel
  obtain ⟨-, numbers, ids, grow, -⟩ :=
    request_ids_grow sampleEnvironment sampleQuoter sampleRequest 0 (Reaches.start.all _ facts.1) .quoterTimer facts.2.2
  exact ⟨facts.2.1, numbers, ids, grow⟩

end Engine

end TradingEngine
