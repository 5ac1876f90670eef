import TradingEngine.Engine.EngineProperties

/-! The kill switch over whole runs. Once set it stays set, a breach sets it within
the event, and nothing is opened after it, except that the accepted placement of the
round trip is still followed by its amendment. -/

set_option autoImplicit false

namespace TradingEngine.Engine

open Library.Exec

variable {D : Type}

/-!
## Setting the switch
-/

/-- The switch is set exactly when it was reported. -/
def Flagged (engine : Engine D) : Prop := engine.triggered = true ↔ ∃ effect ∈ engine.trace, effect.IsTriggered

/-- The switch is not cleared, and nothing is opened. -/
structure Switches (before after : Engine D) : Prop where
  stays : before.triggered = true → after.triggered = true
  flagged : Flagged before → Flagged after
  emits : Emits (fun effect => ¬ effect.Opens) before after

namespace Switches

theorem refl (engine : Engine D) : Switches engine engine := ⟨id, id, emits_of_same rfl⟩

theorem trans (first second third : Engine D) (early : Switches first second) (late : Switches second third) :
    Switches first third :=
  ⟨late.stays ∘ early.stays, late.flagged ∘ early.flagged, early.emits.trans late.emits⟩

end Switches

theorem Keeps.flagged {before after : Engine D} (keeps : Keeps (fun effect => ¬ effect.IsTriggered) before after)
    (flagged : Flagged before) : Flagged after := by
  obtain ⟨new, grown, none_triggered⟩ := keeps.emits
  unfold Flagged at flagged ⊢
  rw [keeps.triggered, flagged, grown]
  constructor
  · rintro ⟨effect, member, reported⟩
    exact ⟨effect, List.mem_append_left _ member, reported⟩
  · rintro ⟨effect, member, reported⟩
    rcases List.mem_append.mp member with old | isNew
    · exact ⟨effect, old, reported⟩
    · exact absurd reported (none_triggered effect isNew)

theorem Keeps.switches {before after : Engine D} (keeps : Keeps Effect.Quiet before after) :
    Switches before after where
  stays set := keeps.triggered.trans set
  flagged := (keeps.mono fun _ quiet => quiet.2).flagged
  emits := keeps.emits.mono fun _ quiet => quiet.1

theorem switches_of_quiet {α : Type} {program : EngineM D α} (keeps : Moves (Keeps Effect.Quiet) program) :
    Moves Switches program :=
  keeps.imp fun _ _ keeps => keeps.switches

theorem keeps_cancelEntries (entries : List (Text × Text)) :
    Moves (Keeps Effect.Quiet) (forM entries cancelEntry : EngineM D PUnit) :=
  moves_forM Keeps.refl Keeps.trans fun _ _ =>
    keepsQuiet.moves_bind (keepsQuiet.moves_cancelOrder _ _) fun _ => keepsQuiet.moves_pure _

theorem trigger_of_triggered {engine : Engine D} (set : engine.triggered = true) (reason : Text) :
    trigger reason engine = .ok .unit engine := by
  rw [trigger, run_bind_ok (run_get _), if_pos set]
  rfl

/-- The engine when the switch has been set and its orders are to be cancelled. -/
def tripped (engine : Engine D) (reason : Text) : Engine D :=
  { engine with triggered := true, trace := engine.trace ++ [.triggered reason] }

theorem trigger_of_untriggered {engine : Engine D} (unset : engine.triggered = false) (reason : Text) :
    trigger reason engine = forM (toCancel engine.store) cancelEntry (engine.tripped reason) := by
  rw [trigger, run_bind_ok (run_get _), if_neg (by simp [unset])]
  rfl

theorem switches_tripped (engine : Engine D) (reason : Text) : Switches engine (engine.tripped reason) where
  stays _ := rfl
  flagged _ := ⟨fun _ => ⟨.triggered reason, by simp [tripped], trivial⟩, fun _ => rfl⟩
  emits := emits_one rfl id

theorem switches_trigger (reason : Text) : Moves Switches (trigger reason : EngineM D PUnit) := by
  intro engine
  cases set : engine.triggered with
  | true =>
      rw [trigger_of_triggered set]
      exact Switches.refl engine
  | false =>
      rw [trigger_of_untriggered set]
      exact (switches_tripped engine reason).trans _ _ _ (keeps_cancelEntries _ _).switches

/-- Afterwards the switch is set; the position is not touched. -/
theorem triggered_trigger (reason : Text) (engine : Engine D) :
    (finalState (trigger reason engine)).triggered = true ∧
      (finalState (trigger reason engine)).position = engine.position := by
  cases set : engine.triggered with
  | true =>
      rw [trigger_of_triggered set]
      exact ⟨set, rfl⟩
  | false =>
      rw [trigger_of_untriggered set]
      have keeps := keeps_cancelEntries (toCancel engine.store) (engine.tripped reason)
      exact ⟨keeps.triggered, keeps.position⟩

/-!
## Responses
-/

def amendable (state : OrderState) : Bool :=
  state = .kPendingNew || state = .kNew || state = .kPartiallyFilled || state = .kPendingCancel

/-- The order of the round trip is stored, in a state that takes an amendment. -/
def ownOrderAmendable (engine : Engine D) : Bool :=
  (engine.store.findByClOrdId engine.roundTrip.clOrdId).any fun order => amendable order.state

/-- The message is the acceptance of the round trip's placement, and is answered
with an amendment. -/
def AmendsOn (engine : Engine D) (message : Text) : Prop :=
  (engine.handlerFor message).map Prod.snd = some .onOrderResponse ∧ isRequestAccepted message = true ∧
    ((findData message).bind fun data => Json.findString data kOrdId).isSome = true ∧
    engine.ws.connected = true ∧ engine.ownOrderAmendable = true

instance (engine : Engine D) (message : Text) : Decidable (engine.AmendsOn message) :=
  inferInstanceAs (Decidable (_ ∧ _))

theorem onAmendRequested_error {order : Order} (refuses : amendable order.state = false) (now : Int) :
    ∃ exception, (OrderAction.onAmendRequested now).run order = .error exception order := by
  simp only [OrderAction.onAmendRequested, Order.onAmendRequested, Order.request]
  rw [if_pos]
  · exact ⟨_, rfl⟩
  · simpa [amendable, and_assoc] using refuses

/-- Where the order takes no amendment the request throws and nothing is sent. -/
theorem requestAmend_refused {engine : Engine D} (refuses : engine.ownOrderAmendable = false) (ordId : Text) :
    Keeps Effect.Quiet engine (finalState (requestAmend ordId engine)) := by
  have threw : ∃ exception store, updateOwnOrder (.onAmendRequested engine.steadyClock.now)
      { engine with steadyClock := engine.steadyClock.tick } =
        .error exception { engine with steadyClock := engine.steadyClock.tick, store := store } := by
    rw [updateOwnOrder, run_bind_ok (run_get _)]
    dsimp only
    cases found : engine.store.findByClOrdId engine.roundTrip.clOrdId with
    | none => exact ⟨_, _, rfl⟩
    | some order =>
        simp only [ownOrderAmendable, found, Option.any_some] at refuses
        obtain ⟨exception, failed⟩ := onAmendRequested_error refuses engine.steadyClock.now
        obtain ⟨⟨index, located⟩, here, same⟩ := Option.map_eq_some_iff.mp found
        obtain rfl : located = order := same
        obtain ⟨written, -, updated⟩ :=
          OrderStore.update_of_locate here (.onAmendRequested engine.steadyClock.now)
        rw [failed] at updated
        exact ⟨exception, written, by simp only [updateOrder, updated]⟩
  obtain ⟨exception, store, threw⟩ := threw
  rw [requestAmend, run_bind_ok (run_steadyNow engine), run_bind_error threw]
  exact ⟨rfl, rfl, rfl, emits_of_same rfl⟩

/-- A response that is not answered with an amendment. -/
theorem onOrderResponse_quiet {engine : Engine D} {response : Text}
    (settled : isRequestAccepted response = true →
      ((findData response).bind fun data => Json.findString data kOrdId).isSome = true →
      engine.ws.connected = true → engine.ownOrderAmendable = false) :
    Keeps Effect.Quiet engine (finalState (onOrderResponse response engine)) := by
  unfold onOrderResponse
  split
  · exact Keeps.refl engine
  · rename_i accepted
    have accepted : isRequestAccepted response = true := by simpa using accepted
    cases answered : (findData response).bind fun data => Json.findString data kOrdId with
    | none => exact Keeps.refl engine
    | some ordId =>
        have noted : Keeps Effect.Quiet engine
            { engine with roundTrip := { engine.roundTrip with ordId := ordId } } := ⟨rfl, rfl, rfl, emits_of_same rfl⟩
        dsimp only
        rw [setOrdId, run_bind_ok (run_modify _ _), run_bind_ok (run_get _)]
        split
        · rename_i connected
          refine noted.trans _ _ _ (requestAmend_refused ?_ ordId)
          exact settled accepted (by rw [answered]; rfl) connected
        · exact noted.trans _ _ _ (keepsQuiet.moves_fallBackToRestCancel _)

theorem keeps_dispatch (message : Text) :
    Moves (Keeps fun effect => effect.Quiet ∨ Effect.IsAmend effect) (dispatch message : EngineM D Bool) := by
  have footprint : Footprint _ (Keeps (fun effect => effect.Quiet ∨ Effect.IsAmend effect) : Engine D → Engine D → Prop) :=
    Keeps.footprint fun _ background => .inl background.quiet
  refine footprint.moves_dispatch fun handler => ?_
  cases handler with
  | onOrderResponse => exact footprint.moves_onOrderResponse (fun _ _ _ _ _ _ => .inr trivial) message
  | onAmendResponse => exact footprint.moves_onAmendResponse (fun _ _ _ _ => .inl ⟨id, id⟩) message
  | onCancelResponse => exact footprint.moves_rejectUnlessAccepted message

theorem dispatch_quiet {engine : Engine D} {message : Text} (settled : ¬ engine.AmendsOn message) :
    Keeps Effect.Quiet engine (finalState (dispatch message engine)) := by
  cases found : engine.handlerFor message with
  | none =>
      rw [dispatch_unknown found]
      exact Keeps.refl engine
  | some entry =>
      obtain ⟨requestId, handler⟩ := entry
      rw [finalState_dispatch found]
      refine Keeps.trans _ _ _ (⟨rfl, rfl, rfl, emits_of_same rfl⟩ : Keeps _ engine
        { engine with pending := engine.pending.filter fun entry => entry.1 ≠ requestId }) ?_
      cases handler with
      | onOrderResponse =>
          refine onOrderResponse_quiet fun accepted answered connected => ?_
          refine Bool.eq_false_iff.mpr fun takes => settled ⟨?_, accepted, answered, connected, takes⟩
          rw [found]
          rfl
      | onAmendResponse => exact keepsQuiet.moves_onAmendResponse (fun _ _ _ _ => ⟨id, id⟩) message _
      | onCancelResponse => exact keepsQuiet.moves_rejectUnlessAccepted message _

/-!
## Steps
-/

/-- Once the switch is reported nothing is opened. -/
def Halted (engine : Engine D) : Prop :=
  engine.trace.Pairwise fun earlier later => earlier.IsTriggered → ¬ later.Opens

/-- A step that can open orders finds the switch off and leaves it alone. -/
def HaltStep (before after : Engine D) : Prop :=
  Switches before after ∨ (before.triggered = false ∧ Keeps (fun effect => ¬ effect.IsTriggered) before after)

theorem not_isTriggered_of_isOrder (effect : Effect) (isOrder : effect.IsOrder) : ¬ effect.IsTriggered := by
  intro reported
  cases effect with
  | triggered _ => exact isOrder
  | send _ _ _ | restPlace _ _ | restCancel _ _ | restPending | removed _ => exact reported

theorem not_isTriggered_of_isAmend (effect : Effect) (isAmend : Effect.IsAmend effect) : ¬ effect.IsTriggered := by
  intro reported
  cases effect with
  | triggered _ => exact isAmend
  | send _ _ _ | restPlace _ _ | restCancel _ _ | restPending | removed _ => exact reported

theorem halted_of_haltStep {before after : Engine D} (halted : Halted before) (flagged : Flagged before)
    (step : HaltStep before after) : Halted after := by
  rcases step with switches | ⟨unset, keeps⟩
  · obtain ⟨new, grown, closed⟩ := switches.emits
    rw [Halted, grown, List.pairwise_append]
    refine ⟨halted, List.pairwise_of_forall_mem_list fun _ _ later member _ => closed later member, ?_⟩
    exact fun _ _ later member _ => closed later member
  · have unreported := keeps.flagged flagged
    rw [Flagged, keeps.triggered, unset] at unreported
    refine List.pairwise_of_forall_mem_list fun earlier member _ _ reported => ?_
    exact absurd (unreported.mpr ⟨earlier, member, reported⟩) (by decide)

theorem flagged_of_haltStep {before after : Engine D} (flagged : Flagged before) (step : HaltStep before after) :
    Flagged after := by
  rcases step with switches | ⟨-, keeps⟩
  · exact switches.flagged flagged
  · exact keeps.flagged flagged

theorem haltStep_ifQuoting {program : EngineM D PUnit}
    (keeps : Moves (Keeps fun effect => ¬ effect.IsTriggered) program) (engine : Engine D) :
    HaltStep engine (finalState (ifQuoting program engine)) := by
  rw [ifQuoting, run_bind_ok (run_get _)]
  split
  · rename_i quoting
    exact .inr ⟨by simpa using (Bool.and_eq_true_iff.mp quoting).1, keeps engine⟩
  · exact .inl (Switches.refl engine)


variable [DoubleArith D]

theorem switches_applyFill (event : OrderEvent D) : Moves Switches (applyFill event) := by
  unfold applyFill
  split
  · exact moves_pure Switches.refl _
  · refine moves_bind Switches.trans (moves_modify _ fun engine => ⟨id, id, emits_of_same rfl⟩) fun _ =>
      moves_bind Switches.trans (moves_get Switches.refl) fun engine => ?_
    split
    · exact switches_trigger _
    · exact moves_pure Switches.refl _

theorem switches_handleOrderEvent (event : OrderEvent D) : Moves Switches (handleOrderEvent event) :=
  moves_bind Switches.trans (switches_applyFill event) fun _ => switches_of_quiet (keepsQuiet.moves_applyOrderEvent event)

theorem triggered_applyFill {event : OrderEvent D} (filled : (eventFill event).isSome = true) (engine : Engine D)
    (breach : breached (finalState (applyFill event engine)).position = true) :
    (finalState (applyFill event engine)).triggered = true := by
  obtain ⟨fill, isFill⟩ := Option.isSome_iff_exists.mp filled
  unfold applyFill at breach ⊢
  rw [isFill] at breach ⊢
  dsimp only at breach ⊢
  rw [run_bind_ok (run_modify _ _), triggerIfBreached, run_bind_ok (run_get _)] at breach ⊢
  split
  · exact (triggered_trigger _ _).1
  · rename_i within
    rw [if_neg within] at breach
    exact absurd breach within

/-- A fill that leaves the loss too high leaves the switch set. -/
theorem triggered_of_breach {event : OrderEvent D} (filled : (eventFill event).isSome = true) {engine : Engine D}
    (breach : breached (finalState (handleOrderEvent event engine)).position = true) :
    (finalState (handleOrderEvent event engine)).triggered = true := by
  have triggered := triggered_applyFill filled engine
  rw [handleOrderEvent, run_bind] at breach ⊢
  cases ran : applyFill event engine with
  | error exception next =>
      rw [ran] at breach triggered
      exact triggered breach
  | ok value next =>
      rw [ran] at breach triggered
      have keeps := keepsQuiet.moves_applyOrderEvent event next
      dsimp only at breach ⊢
      rw [keeps.position] at breach
      exact keeps.triggered.trans (triggered breach)

/-!
## Runs
-/

/-- No accepted placement of the round trip arrives while the switch is set. -/
def HaltAdmits (engine : Engine D) : Input D → Prop
  | .response message => engine.triggered = true → ¬ engine.AmendsOn message
  | _ => True

theorem haltStep_login (message : Text) (engine : Engine D) :
    HaltStep engine (finalState (handle (.login message) engine)) := by
  have gated := gated_login message engine
  cases set : engine.triggered with
  | true =>
      refine .inl (gated.mono fun effect allowed => ?_).switches
      rcases allowed with quiet | ⟨unset, -⟩
      · exact quiet
      · rw [set] at unset
        cases unset
  | false =>
      refine .inr ⟨set, gated.mono fun effect allowed => ?_⟩
      rcases allowed with quiet | ⟨-, request, before, starts, -⟩
      · exact quiet.2
      · rcases starts with quiet | ⟨clOrdId, rfl⟩ | ⟨clOrdId, rfl⟩
        · exact quiet.2
        · exact id
        · exact id

theorem finalState_response (message : Text) (engine : Engine D) :
    finalState (handle (.response message) engine) = finalState (dispatch message engine) := by
  rw [handle, run_bind]
  cases dispatch message engine <;> rfl

theorem haltStep_response {message : Text} {engine : Engine D} (admitted : HaltAdmits engine (.response message)) :
    HaltStep engine (finalState (handle (.response message) engine)) := by
  rw [finalState_response]
  cases set : engine.triggered with
  | true => exact .inl (dispatch_quiet (admitted set)).switches
  | false =>
      refine .inr ⟨set, (keeps_dispatch message engine).mono fun effect allowed => ?_⟩
      rcases allowed with quiet | isAmend
      · exact quiet.2
      · exact not_isTriggered_of_isAmend effect isAmend

theorem switches_signal : Moves Switches (handle .signal : EngineM D PUnit) := by
  have stopping : Moves Switches (modify fun engine => { engine with stopped := true } : EngineM D PUnit) :=
    moves_modify _ fun _ => ⟨id, id, emits_of_same rfl⟩
  exact moves_bind Switches.trans (switches_trigger _) fun _ => stopping

theorem haltStep_handle {input : Input D} {engine : Engine D} (admitted : HaltAdmits engine input) :
    HaltStep engine (finalState (handle input engine)) := by
  cases input with
  | bookUpdate book =>
      exact haltStep_ifQuoting (keeps_onBookUpdate (fun _ background => background.quiet.2) not_isTriggered_of_isOrder
        not_isTriggered_of_isAmend book) engine
  | quoterTimer => exact haltStep_ifQuoting (keeps_onTimer (fun _ background => background.quiet.2) not_isTriggered_of_isOrder) engine
  | login message => exact haltStep_login message engine
  | response message => exact haltStep_response admitted
  | orderEvent event => exact .inl (switches_handleOrderEvent event engine)
  | account message => exact .inl (keepsQuiet.moves_handleAccountChannelMessage message engine).switches
  | timeoutCheck => exact .inl (keepsQuiet.moves_checkAndResolve engine).switches
  | signal => exact .inl (switches_signal engine)
  | connected login => exact .inl (keepsQuiet.moves_connectOrReconnect login engine).switches
  | disconnected => exact .inl ⟨id, id, emits_of_same rfl⟩
  | controlFrame bytes => exact .inl (keepsQuiet.moves_writeRaw bytes engine).switches
  | written bytes => exact .inl ⟨id, id, emits_of_same rfl⟩

theorem haltStep_step {input : Input D} {engine : Engine D} (admitted : HaltAdmits engine input) :
    HaltStep engine (finalState (step input engine)) := by
  rw [step, run_bind_ok (run_get _)]
  split
  · exact .inl (Switches.refl engine)
  · exact haltStep_handle admitted

/-- The switch is never cleared, whatever the input. -/
theorem triggered_step (input : Input D) {engine : Engine D} (set : engine.triggered = true) :
    (finalState (step input engine)).triggered = true := by
  have kept {next : Engine D} (move : HaltStep engine next) : next.triggered = true := by
    rcases move with switches | ⟨unset, -⟩
    · exact switches.stays set
    · rw [set] at unset
      cases unset
  cases input with
  | response message =>
      rw [step, run_bind_ok (run_get _)]
      split
      · exact set
      · rw [finalState_response]
        exact (keeps_dispatch message engine).triggered.trans set
  | bookUpdate _ | quoterTimer | login _ | orderEvent _ | account _ | timeoutCheck | signal | connected _
  | disconnected | controlFrame _ | written _ => exact kept (haltStep_step trivial)

structure HaltsOnLoss (engine : Engine D) : Prop where
  breach : ∀ event, (eventFill event).isSome = true → engine.stopped = false →
    breached (finalState (step (.orderEvent event) engine)).position = true →
    (finalState (step (.orderEvent event) engine)).triggered = true
  stays : ∀ input, engine.triggered = true → (finalState (step input engine)).triggered = true
  flagged : Flagged engine
  halted : Halted engine

/-- In every state of a run that meets the condition, also after a step that
throws, the switch halts the engine. -/
theorem kill_switch_halts (environment : Environment) (quoter : NaiveQuoter D) (request : OrderRequest)
    (lastId : Nat) {engine : Engine D}
    (run : Reaches (fun input => settle (step input)) HaltAdmits (initial environment quoter request lastId) engine) :
    HaltsOnLoss engine := by
  have both : Flagged engine ∧ Halted engine := by
    refine run.invariant (fun current => Flagged current ∧ Halted current) ⟨?_, ?_⟩ ?_
    · simp [Flagged, initial]
    · exact List.Pairwise.nil
    · rintro current input next ⟨flagged, halted⟩ admitted ran
      obtain rfl : finalState (step input current) = next := by
        injection ran
      have move := haltStep_step admitted
      exact ⟨flagged_of_haltStep flagged move, halted_of_haltStep halted flagged move⟩
  refine ⟨fun event filled running breach => ?_, fun input => triggered_step input, both.1, both.2⟩
  rw [step, run_bind_ok (run_get _), if_neg (by simp [running])] at breach ⊢
  exact triggered_of_breach filled breach

instance (engine : Engine D) : (input : Input D) → Decidable (HaltAdmits engine input)
  | .response _ => inferInstanceAs (Decidable (_ → _))
  | .bookUpdate _ | .quoterTimer | .login _ | .orderEvent _ | .account _ | .timeoutCheck | .signal
  | .connected _ | .disconnected | .controlFrame _ | .written _ => inferInstanceAs (Decidable True)

/-- The placement is accepted before the loss, its amendment after it. -/
def timelyRun : List (Input ℚ) := loggedIn ++ [accepted "1"] ++ losses ++ [accepted "2"]

theorem kill_switch_halts_after_loss :
    HaltsOnLoss (finalState (forM timelyRun (fun input => settle (step input)) sampleEngine)) :=
  kill_switch_halts sampleEnvironment sampleQuoter sampleRequest 0 (Reaches.start.all timelyRun (by decide +kernel))

/-- The placement is accepted after the loss. -/
def lateRun : List (Input ℚ) := loggedIn ++ losses ++ [accepted "1"]

theorem amend_after_kill_switch :
    Reaches step (fun _ _ => True) sampleEngine (finalState (forM lateRun step sampleEngine)) ∧
      ¬ Halted (finalState (forM lateRun step sampleEngine)) := by
  refine ⟨Reaches.start.all lateRun (by decide +kernel), ?_⟩
  unfold Halted
  decide +kernel

end TradingEngine.Engine
