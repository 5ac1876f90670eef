import TradingEngine.Engine.OrderTracking

/-! The engine beside the exchange. Orders handed to the client are in flight until
the exchange takes them or they are lost; a live order ends on the exchange; order
events are reported and reach the engine later, in any order and any number of
times. The answer to a question for the pending orders is the exchange's live set. -/

set_option autoImplicit false

namespace TradingEngine

open Library.Exec

variable {D : Type}

structure Session (D : Type) where
  engine : Engine D
  /-- Placements that were sent and that the exchange has not seen. -/
  inFlight : List Text
  live : List Text
  events : List (OrderEvent D)

inductive Move (D : Type) [DoubleArith D] where
  | engine (input : Engine.Input D)
  /-- The engine gets a reported event. -/
  | deliver (index : Nat)
  | accept (clOrdId : Text)
  | discard (clOrdId : Text)
  | finish (clOrdId : Text)
  | report (event : OrderEvent D)
  /-- An order that was not sent over this connection becomes live. -/
  | foreign (clOrdId : Text)

namespace Session

/-- The ids of the orders handed to the client so far. -/
def sentIds (session : Session D) : List Text := session.engine.trace.filterMap Engine.Effect.sentId

def opening (engine : Engine D) (live : List Text) : Session D := ⟨engine, [], live, []⟩

/-- Every order of this engine that is live, or may become so, is stored. -/
def Tracked (session : Session D) : Prop :=
  ∀ clOrdId ∈ session.sentIds, clOrdId ∈ session.live ∨ clOrdId ∈ session.inFlight →
    clOrdId ∈ session.engine.store.ids

/-!
## Invariant
-/

structure SessionInv (others : Text → Prop) (firstId : Nat) (session : Session D) : Prop where
  resumable : session.engine.store.Resumable
  since : firstId ≤ session.engine.lastId
  tracked : session.Tracked
  flying : ∀ clOrdId ∈ session.inFlight, clOrdId ∈ session.sentIds
  drawn : ∀ clOrdId ∈ session.sentIds, session.engine.Drawn clOrdId
  named : ∀ event ∈ session.events, others event.clOrdId ∨ session.engine.Drawn event.clOrdId
  ended : ∀ event ∈ session.events, Engine.ends event = true → event.clOrdId ∈ session.sentIds →
    ¬ (event.clOrdId ∈ session.live ∨ event.clOrdId ∈ session.inFlight)

/-- A move of the exchange changes neither the engine nor what was sent. -/
theorem SessionInv.exchange {others : Text → Prop} {firstId : Nat} {session next : Session D}
    (inv : SessionInv others firstId session) (engine : next.engine = session.engine)
    (flying : ∀ clOrdId ∈ next.inFlight, clOrdId ∈ session.inFlight)
    (live : ∀ clOrdId ∈ session.sentIds, clOrdId ∈ next.live → clOrdId ∈ session.live ∨ clOrdId ∈ session.inFlight)
    (named : ∀ event ∈ next.events, others event.clOrdId ∨ session.engine.Drawn event.clOrdId)
    (ended : ∀ event ∈ next.events, event ∉ session.events → Engine.ends event = true →
      ¬ (event.clOrdId ∈ session.live ∨ event.clOrdId ∈ session.inFlight)) : SessionInv others firstId next := by
  have sentIds : next.sentIds = session.sentIds := by rw [Session.sentIds, engine, Session.sentIds]
  have wasLive {clOrdId : Text} (sent : clOrdId ∈ session.sentIds)
      (mayLive : clOrdId ∈ next.live ∨ clOrdId ∈ next.inFlight) : clOrdId ∈ session.live ∨ clOrdId ∈ session.inFlight := by
    rcases mayLive with isLive | flies
    · exact live clOrdId sent isLive
    · exact .inr (flying clOrdId flies)
  constructor
  · rw [engine]
    exact inv.resumable
  · rw [engine]
    exact inv.since
  · intro clOrdId sent mayLive
    rw [sentIds] at sent
    rw [engine]
    exact inv.tracked clOrdId sent (wasLive sent mayLive)
  · intro clOrdId flies
    rw [sentIds]
    exact inv.flying clOrdId (flying clOrdId flies)
  · rw [sentIds, engine]
    exact inv.drawn
  · rw [engine]
    exact named
  · intro event reported last sent mayLive
    rw [sentIds] at sent
    by_cases known : event ∈ session.events
    · exact inv.ended event known last sent (wasLive sent mayLive)
    · exact ended event reported known last (wasLive sent mayLive)

/-!
## Moves
-/

variable [DoubleArith D]

/-- A turn of the engine; the orders it sends are then in flight. -/
def turn (input : Engine.Input D) : EStateM Exn (Session D) PUnit := fun session =>
  match Engine.step input session.engine with
  | .ok _ engine => .ok .unit { session with
      engine := engine
      inFlight := session.inFlight ++
        (engine.trace.drop session.engine.trace.length).filterMap Engine.Effect.sentId }
  | .error exception engine => .error exception { session with engine := engine }

def sessionStep : Move D → EStateM Exn (Session D) PUnit
  | .engine input => turn input
  | .deliver index => do
      let session ← get
      match session.events[index]? with
      | some event => turn (.orderEvent event)
      | none => pure .unit
  | .accept clOrdId => modify fun session =>
      if clOrdId ∈ session.inFlight then { session with
        inFlight := session.inFlight.filter (· ≠ clOrdId)
        live := clOrdId :: session.live }
      else session
  | .discard clOrdId => modify fun session =>
      { session with inFlight := session.inFlight.filter (· ≠ clOrdId) }
  | .finish clOrdId => modify fun session => { session with live := session.live.filter (· ≠ clOrdId) }
  | .report event => modify fun session => { session with events := event :: session.events }
  | .foreign clOrdId => modify fun session => { session with live := clOrdId :: session.live }

/-- The answer to the next REST call, if there is one, lists the live orders. -/
def AnswersLive (session : Session D) : Prop :=
  match session.engine.rest.answers session.engine.rest.calls with
  | .ok body => (∀ row ∈ pendingRows body, rowId row ∈ session.live) ∧
      ∀ clOrdId ∈ session.live, clOrdId ∈ (pendingRows body).map rowId
  | .error _ => True

/-- What the exchange does: it answers with what is live, reports only ids that exist
(those drawn so far, and those of `others`) and the end of an order only once it is
over. Order events reach the engine as they were reported. -/
def Valid (others : Text → Prop) (session : Session D) : Move D → Prop
  | .engine (.orderEvent _) => False
  | .engine input => session.engine.stopped = false → session.engine.reconciles input = true → session.AnswersLive
  | .report event => (others event.clOrdId ∨ session.engine.Drawn event.clOrdId) ∧
      (Engine.ends event = true → ¬ (event.clOrdId ∈ session.live ∨ event.clOrdId ∈ session.inFlight))
  | .foreign clOrdId => clOrdId ∉ session.sentIds
  | .deliver _ | .accept _ | .discard _ | .finish _ => True

/-- The store is reconciled only when no stored order is in flight. -/
def Quiesces (session : Session D) : Move D → Prop
  | .engine input => session.engine.stopped = false → session.engine.reconciles input = true →
      ∀ clOrdId ∈ session.engine.store.ids, clOrdId ∉ session.inFlight
  | _ => True

/-!
## Runs
-/

section Runs

variable {others : Text → Prop} {firstId : Nat} {session next : Session D}

/-- A turn that returned, with the effects it added. -/
theorem turn_ok {input : Engine.Input D} (resumable : session.engine.store.Resumable)
    (ran : turn input session = .ok .unit next) :
    ∃ new, Engine.step input session.engine = .ok .unit next.engine ∧
      next.engine.trace = session.engine.trace ++ new ∧
      (∀ clOrdId ∈ new.filterMap Engine.Effect.sentId,
        Engine.DrawnIn session.engine next.engine clOrdId ∧ clOrdId ∈ next.engine.store.ids) ∧
      next = { session with
        engine := next.engine
        inFlight := session.inFlight ++ new.filterMap Engine.Effect.sentId } := by
  unfold turn at ran
  cases stepped : Engine.step input session.engine with
  | error exception engine =>
      rw [stepped] at ran
      cases ran
  | ok value engine =>
      rw [stepped] at ran
      cases ran
      obtain ⟨new, grown, sends⟩ := (Engine.tracks_step resumable stepped).sends
      refine ⟨new, rfl, grown, fun clOrdId member => ?_, ?_⟩
      · obtain ⟨effect, added, sent⟩ := List.mem_filterMap.mp member
        exact sends effect added clOrdId sent
      · simp [grown]

/-- A turn keeps the invariant if no order of this engine that may still be live leaves. -/
theorem SessionInv.turn (inv : SessionInv others firstId session)
    (apart : ∀ number, firstId < number → ¬ others (toDecimal number)) {input : Engine.Input D}
    (ran : turn input session = .ok .unit next)
    (leaving : ∀ clOrdId ∈ session.sentIds, session.engine.stopped = false → session.engine.Leaves input clOrdId →
      ¬ (clOrdId ∈ session.live ∨ clOrdId ∈ session.inFlight)) : SessionInv others firstId next := by
  obtain ⟨new, stepped, grown, sends, frame⟩ := turn_ok inv.resumable ran
  have tracks := Engine.tracks_step inv.resumable stepped
  have sentIds : next.sentIds = session.sentIds ++ new.filterMap Engine.Effect.sentId := by
    rw [Session.sentIds, grown, List.filterMap_append]
    rfl
  have later {clOrdId : Text} (drawn : session.engine.Drawn clOrdId) : next.engine.Drawn clOrdId := by
    obtain ⟨number, below, same⟩ := drawn
    exact ⟨number, below.trans tracks.lastId, same⟩
  have live : next.live = session.live := by rw [frame]
  have inFlight : next.inFlight = session.inFlight ++ new.filterMap Engine.Effect.sentId := by rw [frame]
  have events : next.events = session.events := by rw [frame]
  -- an id drawn in this turn is no id an event was reported for
  have fresh : ∀ event ∈ session.events, event.clOrdId ∉ new.filterMap Engine.Effect.sentId := by
    intro event reported sent
    obtain ⟨⟨number, above, -, same⟩, -⟩ := sends _ sent
    rcases inv.named event reported with other | ⟨old, below, sameOld⟩
    · exact apart number (inv.since.trans_lt above) (same ▸ other)
    · have equal := toDecimal_injective (same.symm.trans sameOld)
      omega
  constructor
  · exact tracks.resumable inv.resumable
  · exact inv.since.trans tracks.lastId
  · intro clOrdId sent mayLive
    rw [sentIds] at sent
    rw [live, inFlight] at mayLive
    rcases List.mem_append.mp sent with old | isNew
    · by_cases wasLive : clOrdId ∈ session.live ∨ clOrdId ∈ session.inFlight
      · rcases tracks.stays clOrdId (inv.tracked clOrdId old wasLive) with stays | ⟨running, leaves⟩
        · exact stays
        · exact absurd wasLive (leaving clOrdId old running leaves)
      · rcases mayLive with isLive | flies
        · exact absurd (.inl isLive) wasLive
        · rcases List.mem_append.mp flies with flew | isNew
          · exact absurd (.inr flew) wasLive
          · exact (sends clOrdId isNew).2
    · exact (sends clOrdId isNew).2
  · intro clOrdId flies
    rw [sentIds]
    rw [inFlight] at flies
    rcases List.mem_append.mp flies with flew | isNew
    · exact List.mem_append_left _ (inv.flying clOrdId flew)
    · exact List.mem_append_right _ isNew
  · intro clOrdId sent
    rw [sentIds] at sent
    rcases List.mem_append.mp sent with old | isNew
    · exact later (inv.drawn clOrdId old)
    · obtain ⟨⟨number, -, below, same⟩, -⟩ := sends clOrdId isNew
      exact ⟨number, below, same⟩
  · intro event reported
    rw [events] at reported
    exact (inv.named event reported).imp_right later
  · intro event reported last sent
    rw [events] at reported
    rw [sentIds] at sent
    rw [live, inFlight]
    have old : event.clOrdId ∈ session.sentIds :=
      (List.mem_append.mp sent).resolve_right (fresh event reported)
    rintro (isLive | flies)
    · exact inv.ended event reported last old (.inl isLive)
    · exact inv.ended event reported last old
        (.inr ((List.mem_append.mp flies).resolve_right (fresh event reported)))

/-- What reconciliation removes is neither live nor in flight. -/
theorem unlisted_not_live {input : Engine.Input D} (running : session.engine.stopped = false)
    (reconciles : session.engine.reconciles input = true) (valid : Valid others session (.engine input))
    {clOrdId : Text} (unlisted : session.engine.Unlisted clOrdId) : clOrdId ∉ session.live := by
  have answers : session.AnswersLive := by
    cases input with
    | orderEvent event => exact valid.elim
    | _ => exact valid running reconciles
  obtain ⟨body, answer, unnamed⟩ := unlisted
  rw [AnswersLive, answer] at answers
  exact fun isLive => unnamed (answers.2 clOrdId isLive)

theorem SessionInv.engineMove (inv : SessionInv others firstId session)
    (apart : ∀ number, firstId < number → ¬ others (toDecimal number)) {input : Engine.Input D}
    (valid : Valid others session (.engine input)) (quiesces : Quiesces session (.engine input))
    (ran : Session.turn input session = .ok .unit next) : SessionInv others firstId next := by
  refine inv.turn apart ran fun clOrdId sent running leaves mayLive => ?_
  rcases leaves with ⟨event, rfl, -⟩ | ⟨reconciles, unlisted⟩
  · exact valid
  · have stored := inv.tracked clOrdId sent mayLive
    rcases mayLive with isLive | flies
    · exact unlisted_not_live running reconciles valid unlisted isLive
    · exact quiesces running reconciles clOrdId stored flies

theorem SessionInv.deliver (inv : SessionInv others firstId session)
    (apart : ∀ number, firstId < number → ¬ others (toDecimal number)) {event : OrderEvent D}
    (reported : event ∈ session.events) (ran : Session.turn (.orderEvent event) session = .ok .unit next) :
    SessionInv others firstId next := by
  refine inv.turn apart ran fun clOrdId sent _ leaves => ?_
  rcases leaves with ⟨_, same, rfl, last⟩ | ⟨reconciles, -⟩
  · cases same
    exact inv.ended event reported last sent
  · cases reconciles

theorem SessionInv.step (inv : SessionInv others firstId session)
    (apart : ∀ number, firstId < number → ¬ others (toDecimal number)) {move : Move D}
    (valid : Valid others session move) (quiesces : Quiesces session move)
    (ran : sessionStep move session = .ok .unit next) : SessionInv others firstId next := by
  cases move with
  | engine input => exact inv.engineMove apart valid quiesces ran
  | deliver index =>
      rw [sessionStep, run_bind_ok (run_get _)] at ran
      cases found : session.events[index]? with
      | none =>
          rw [found] at ran
          cases ran
          exact inv
      | some event =>
          rw [found] at ran
          exact inv.deliver apart (List.mem_of_getElem? found) ran
  | accept clOrdId =>
      cases ran
      dsimp only
      split
      · rename_i flies
        refine inv.exchange rfl (fun _ => List.mem_of_mem_filter) (fun other _ isLive => ?_) inv.named
          fun event reported new => absurd reported new
        rcases List.mem_cons.mp isLive with rfl | wasLive
        · exact .inr flies
        · exact .inl wasLive
      · exact inv
  | discard clOrdId =>
      cases ran
      exact inv.exchange rfl (fun _ => List.mem_of_mem_filter) (fun _ _ => .inl) inv.named
        fun event reported new => absurd reported new
  | finish clOrdId =>
      cases ran
      exact inv.exchange rfl (fun _ => id) (fun _ _ isLive => .inl (List.mem_of_mem_filter isLive)) inv.named
        fun event reported new => absurd reported new
  | report event =>
      cases ran
      refine inv.exchange rfl (fun _ => id) (fun _ _ => .inl) (fun other reported => ?_) fun other reported new => ?_
      · rcases List.mem_cons.mp reported with rfl | known
        · exact valid.1
        · exact inv.named other known
      · rcases List.mem_cons.mp reported with rfl | known
        · exact valid.2
        · exact absurd known new
  | foreign clOrdId =>
      cases ran
      refine inv.exchange rfl (fun _ => id) (fun other sent isLive => ?_) inv.named
        fun event reported new => absurd reported new
      rcases List.mem_cons.mp isLive with rfl | wasLive
      · exact absurd sent valid
      · exact .inl wasLive

/-- In every run in which the store is reconciled only while no stored order is in
flight, the engine's live orders and those in flight are stored, and reconciliation
removes no order that is live or in flight. -/
theorem reconciliation_forgets_no_order (environment : Environment) (quoter : NaiveQuoter D) (request : OrderRequest)
    (apart : ∀ number, firstId < number → ¬ others (toDecimal number)) (live : List Text)
    (run : Reaches sessionStep (fun current move => Valid others current move ∧ Quiesces current move)
      (opening (Engine.initial environment quoter request firstId) live) session) :
    session.Tracked ∧ ∀ input engine, session.engine.reconciles input = true →
      Valid others session (.engine input) → Quiesces session (.engine input) →
      Engine.step input session.engine = .ok .unit engine →
      ∀ clOrdId ∈ session.engine.store.ids, clOrdId ∉ engine.store.ids →
        clOrdId ∉ session.live ∧ clOrdId ∉ session.inFlight := by
  have inv : SessionInv others firstId session := by
    refine run.invariant (SessionInv others firstId) ?_ fun current move next inv admitted ran =>
      inv.step apart admitted.1 admitted.2 ran
    constructor <;> simp [opening, Engine.initial, sentIds, Tracked, OrderStore.Resumable, OrderStore.empty]
  refine ⟨inv.tracked, fun input engine reconciles valid quiesces ran clOrdId stored gone => ?_⟩
  rcases (Engine.tracks_step inv.resumable ran).stays clOrdId stored with stays | ⟨running, leaves⟩
  · exact absurd stays gone
  · rcases leaves with ⟨event, rfl, -⟩ | ⟨-, unlisted⟩
    · exact valid.elim
    · exact ⟨unlisted_not_live running reconciles valid unlisted, quiesces running reconciles clOrdId stored⟩

end Runs

/-!
## A late placement
-/

instance (session : Session D) : Decidable session.Tracked :=
  inferInstanceAs (Decidable (∀ clOrdId ∈ session.sentIds, _))

instance (session : Session D) : Decidable session.AnswersLive := by
  unfold AnswersLive
  split
  · infer_instance
  · infer_instance

instance (engine : Engine D) (clOrdId : Text) : Decidable (engine.Drawn clOrdId) :=
  inferInstanceAs (Decidable (∃ number ≤ engine.lastId, _))

instance (others : Text → Prop) [DecidablePred others] (session : Session D) :
    (move : Move D) → Decidable (Valid others session move)
  | .engine (.orderEvent _) => isFalse id
  | .report _ => inferInstanceAs (Decidable (_ ∧ _))
  | .foreign _ => inferInstanceAs (Decidable (_ ∉ _))
  | .deliver _ | .accept _ | .discard _ | .finish _ => isTrue trivial
  | .engine (.bookUpdate _) | .engine .quoterTimer | .engine (.login _) | .engine (.response _)
  | .engine (.account _) | .engine .timeoutCheck | .engine .signal | .engine (.connected _)
  | .engine .disconnected | .engine (.controlFrame _) | .engine (.written _) => inferInstanceAs (Decidable (_ → _ → _))

instance (session : Session D) : (move : Move D) → Decidable (Quiesces session move)
  | .engine _ => inferInstanceAs (Decidable (_ → _ → _))
  | .deliver _ | .accept _ | .discard _ | .finish _ | .report _ | .foreign _ => isTrue trivial

/-- The clock moves on by ten seconds a reading. The exchange has no order at the
login, and afterwards the one the login placed. -/
def slowEnvironment : Environment where
  steadyClock reading := reading * (10 * Engine.kSecond)
  systemClock reading := reading
  restAnswers call := .ok (if call = 0 then pendingAnswer [] else samplePending)

def sampleSession : Session ℚ :=
  opening (Engine.initial slowEnvironment Engine.sampleQuoter Engine.sampleRequest 0) []

/-- The order of the login is accepted before the timeout check asks for it. -/
def settledMoves : List (Move ℚ) := Engine.loggedIn.map .engine ++ [.accept "1".toList, .engine .timeoutCheck]

theorem reconciliation_keeps_accepted_order :
    (finalState (forM settledMoves sessionStep sampleSession)).live = ["1".toList] ∧
      (finalState (forM settledMoves sessionStep sampleSession)).Tracked := by
  have run : Reaches sessionStep (fun current move => Valid (fun _ => False) current move ∧ Quiesces current move)
      sampleSession (finalState (forM settledMoves sessionStep sampleSession)) :=
    Reaches.start.all settledMoves (by decide +kernel)
  exact ⟨by decide +kernel,
    (reconciliation_forgets_no_order slowEnvironment Engine.sampleQuoter Engine.sampleRequest (fun _ _ => id) [] run).1⟩

/-- The check runs while two new quotes are on their way; one of them is then accepted. -/
def hurriedMoves : List (Move ℚ) := Engine.loggedIn.map .engine ++ [.accept "1".toList,
  .engine (.bookUpdate (Engine.sampleBook 99 101)), .engine .timeoutCheck, .accept "2".toList]

theorem reconciliation_forgets_late_order :
    Reaches sessionStep (Valid fun _ => False) sampleSession
        (finalState (forM hurriedMoves sessionStep sampleSession)) ∧
      "2".toList ∈ (finalState (forM hurriedMoves sessionStep sampleSession)).live ∧
      ¬ (finalState (forM hurriedMoves sessionStep sampleSession)).Tracked :=
  ⟨Reaches.start.all hurriedMoves (by decide +kernel), by decide +kernel, by decide +kernel⟩

end Session

end TradingEngine
