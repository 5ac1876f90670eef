import TradingEngine.Risk.KillSwitchProperties

/-! Which cancels the kill switch issues. A cancel that is answered, accepted or
not, is followed by the next; one that fails in the transport is the last. -/

set_option autoImplicit false

namespace TradingEngine

open Library.Exec

def Effect.cancelRequest : Effect → Option (Text × Text)
  | .restCancel instId ordId => some (instId, ordId)
  | _ => none

/-- The REST cancels among effects, as instId and ordId. -/
def cancelRequests (effects : List Effect) : List (Text × Text) := effects.filterMap Effect.cancelRequest

namespace Engine

variable {D : Type}

/-- The outcome of a REST call some calls from now. -/
def outcomeAt (engine : Engine D) (call : Nat) : Except Text Text := engine.rest.answers (engine.rest.calls + call)

/-- No cancel but the last of so many fails in the transport. -/
def AnsweredUpToLast (engine : Engine D) (cancels : Nat) : Prop :=
  ∀ call, call + 1 < cancels → (engine.outcomeAt call).isOk = true

/-- The engine that has issued a cancel. -/
def cancelling (engine : Engine D) (entry : Text × Text) : Engine D :=
  { engine with
    trace := engine.trace ++ [.restCancel entry.1 entry.2]
    rest := { engine.rest with calls := engine.rest.calls + 1 } }

theorem run_cancelEntry (engine : Engine D) (entry : Text × Text) :
    cancelEntry entry engine = match engine.outcomeAt 0 with
      | .ok _ => .ok .unit (engine.cancelling entry)
      | .error what =>
          .error (.runtimeError ("Curl request failed: ".toList ++ what)) (engine.cancelling entry) := by
  rw [cancelEntry, cancelOrder, run_bind, run_bind_ok (run_emit engine _), run_bind, restCall, outcomeAt]
  cases engine.rest.answers engine.rest.calls <;> rfl

theorem outcomeAt_cancelling (engine : Engine D) (entry : Text × Text) (call : Nat) :
    (engine.cancelling entry).outcomeAt call = engine.outcomeAt (call + 1) := by
  simp only [outcomeAt, cancelling, Nat.add_assoc, Nat.add_comm 1]

theorem answeredUpToLast_cons (engine : Engine D) (entry : Text × Text) (more : Nat) :
    engine.AnsweredUpToLast (more + 1) ↔
      (more ≠ 0 → (engine.outcomeAt 0).isOk = true) ∧ (engine.cancelling entry).AnsweredUpToLast more := by
  constructor
  · intro answered
    refine ⟨fun some => answered 0 (by omega), fun call within => ?_⟩
    rw [outcomeAt_cancelling]
    exact answered (call + 1) (by omega)
  · rintro ⟨first, later⟩ call within
    cases call with
    | zero => exact first (by omega)
    | succ call =>
        rw [← outcomeAt_cancelling engine entry]
        exact later call (by omega)

/-- The cancels issued are the first of the list, and all of it where no cancel but
the last fails. -/
theorem cancelEntries_sends (entries : List (Text × Text)) (engine : Engine D) :
    ∃ sent, (finalState (forM entries cancelEntry engine)).trace =
        engine.trace ++ sent.map (fun entry => .restCancel entry.1 entry.2) ∧
      (sent.length = entries.length → sent = entries) ∧
      (sent.length = entries.length ↔ engine.AnsweredUpToLast entries.length) := by
  induction entries generalizing engine with
  | nil => exact ⟨[], (List.append_nil _).symm, fun _ => rfl, by simp [AnsweredUpToLast]⟩
  | cons entry rest ih =>
      rw [List.forM_cons, run_bind, run_cancelEntry, List.length_cons, answeredUpToLast_cons engine entry]
      cases outcome : engine.outcomeAt 0 with
      | ok body =>
          obtain ⟨sent, traced, whole, answered⟩ := ih (engine.cancelling entry)
          refine ⟨entry :: sent, ?_, ?_, ?_⟩
          · dsimp only
            rw [traced]
            simp [cancelling]
          · intro same
            rw [whole (by simpa using same)]
          · rw [← answered]
            simp [Except.isOk, Except.toBool]
      | error what =>
          refine ⟨[entry], rfl, ?_, ?_⟩
          · intro same
            rw [List.eq_nil_of_length_eq_zero (show rest.length = 0 by simpa using same.symm)]
          · cases rest with
            | nil => simp [AnsweredUpToLast]
            | cons next others => simp [Except.isOk, Except.toBool]

/-- A call of the switch that issues one cancel for every stored order with an ordId. -/
def CancelsEachOnce (engine : Engine D) (reason : Text) : Prop :=
  ∃ new, (finalState (trigger reason engine)).trace = engine.trace ++ new ∧
    (cancelRequests new).Perm
      ((engine.store.orders.filter fun order => order.ordId ≠ []).map fun order => (order.instId, order.ordId))

theorem cancelRequests_map (entries : List (Text × Text)) :
    cancelRequests (entries.map fun entry => .restCancel entry.1 entry.2) = entries := by
  induction entries with
  | nil => rfl
  | cons entry rest ih => exact congrArg (entry :: ·) ih

/-- A switch that has not been set issues every cancel once exactly where no cancel
but the last fails in the transport. -/
theorem cancels_each_once_iff {engine : Engine D} (unset : engine.triggered = false) (reason : Text) :
    engine.CancelsEachOnce reason ↔
      engine.AnsweredUpToLast (engine.store.orders.filter fun order => order.ordId ≠ []).length := by
  obtain ⟨sent, traced, whole, answered⟩ := cancelEntries_sends (toCancel engine.store) (engine.tripped reason)
  have sends : (finalState (trigger reason engine)).trace =
      engine.trace ++ .triggered reason :: sent.map fun entry => .restCancel entry.1 entry.2 := by
    rw [trigger_of_untriggered unset, traced, tripped]
    simp
  have cancels : cancelRequests (.triggered reason :: sent.map fun entry => .restCancel entry.1 entry.2) = sent :=
    cancelRequests_map sent
  have length : (toCancel engine.store).length =
      (engine.store.orders.filter fun order => order.ordId ≠ []).length := List.length_map _
  rw [← length]
  refine Iff.trans ?_ answered
  constructor
  · rintro ⟨new, grown, each⟩
    obtain rfl := List.append_cancel_left (sends.symm.trans grown)
    rw [cancels] at each
    exact each.length_eq
  · intro same
    exact ⟨_, sends, by rw [cancels, whole same]; exact List.Perm.refl _⟩

/-- Two acknowledged orders and one that is not. -/
def threeOrders : OrderStore where
  orders := [{ sampleOrder .kNew with clOrdId := "1".toList, ordId := "71".toList },
    { sampleOrder .kPendingNew with clOrdId := "2".toList, ordId := [] },
    { sampleOrder .kPartiallyFilled with clOrdId := "3".toList, ordId := "73".toList }]
  sorted := by decide
  bounded := by decide

/-- An engine with these orders whose REST calls fail from one on. -/
def failingFrom (call : Nat) : Engine ℚ :=
  initial { sampleEnvironment with
    restAnswers reached := if reached < call then .ok [] else .error "Timeout was reached".toList }
    sampleQuoter sampleRequest 0 |>.holding threeOrders

/-- The last cancel may fail. -/
theorem cancels_each_once_last_failing : (failingFrom 1).CancelsEachOnce [] :=
  (cancels_each_once_iff rfl []).mpr (by
    intro call within
    obtain rfl : call = 0 := by
      have two : (threeOrders.orders.filter fun order => order.ordId ≠ []).length = 2 := by decide
      have inside : call + 1 < 2 := two ▸ within
      omega
    rfl)

/-- The first cancel fails and the second is never issued. -/
theorem cancel_skipped_after_failure :
    (failingFrom 0).triggered = false ∧ ¬ (failingFrom 0).CancelsEachOnce [] ∧
      cancelRequests (finalState (trigger [] (failingFrom 0))).trace = [(kEthUsdt, "71".toList)] := by
  refine ⟨rfl, ?_, by decide +kernel⟩
  rintro ⟨new, grown, each⟩
  have sent : cancelRequests new = [(kEthUsdt, "71".toList)] := by
    have all : cancelRequests (finalState (trigger [] (failingFrom 0))).trace = [(kEthUsdt, "71".toList)] := by
      decide +kernel
    rw [grown] at all
    exact all
  have length := each.length_eq
  rw [sent] at length
  revert length
  decide

end Engine

end TradingEngine
