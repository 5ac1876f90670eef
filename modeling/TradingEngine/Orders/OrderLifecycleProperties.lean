import TradingEngine.Library.Exec
import TradingEngine.Orders.OrderLifecycle

/-! What an order shows after the exchange has acknowledged it. A rejected request
returns to the state saved when it was made, which a later event may have overtaken. -/

set_option autoImplicit false

namespace TradingEngine

open Library.Exec

variable {D : Type}

inductive LifecycleCall (D : Type) where
  | applyEvent (event : OrderEvent D)
  | onCancelRequested (now : Int)
  | onAmendRequested (now : Int)
  | onRequestRejected

namespace LifecycleCall

def run : LifecycleCall D → EStateM Exn Order PUnit
  | .applyEvent event => Order.applyEvent event
  | .onCancelRequested now => Order.onCancelRequested now
  | .onAmendRequested now => Order.onAmendRequested now
  | .onRequestRejected => Order.onRequestRejected

def Acknowledges : LifecycleCall D → Prop
  | .applyEvent event => event.type = .kLive ∨ event.type = .kPartialFill
  | _ => False

def FillsPart : LifecycleCall D → Prop
  | .applyEvent event => event.type = .kPartialFill
  | _ => False

end LifecycleCall

namespace Order

/-- What a call that returns does to the state and to the state it may return to. -/
inductive Moved (before after : Order) : LifecycleCall D → Prop where
  | confirmed (event : OrderEvent D) : event.type = .kLive → before.state = .kPendingNew →
      after.state = .kNew → Moved before after (.applyEvent event)
  | amended (event : OrderEvent D) : event.type = .kLive → before.state = .kPendingAmend →
      after.state = (if before.prePendingState = .kPendingNew then .kNew else before.prePendingState) →
      after.prePendingState = before.prePendingState → Moved before after (.applyEvent event)
  | repeated (event : OrderEvent D) : event.type = .kLive →
      before.state = .kNew ∨ before.state = .kPartiallyFilled ∨ before.state = .kPendingCancel →
      after.state = before.state → after.prePendingState = before.prePendingState →
      Moved before after (.applyEvent event)
  | filledPart (event : OrderEvent D) : event.type = .kPartialFill → after.state = .kPartiallyFilled →
      Moved before after (.applyEvent event)
  | ended (event : OrderEvent D) : event.type = .kFill ∨ event.type = .kCancel → isTerminal after.state = true →
      Moved before after (.applyEvent event)
  | requested (call : LifecycleCall D) :
      (∃ now, call = .onCancelRequested now) ∨ (∃ now, call = .onAmendRequested now) →
      after.state = .kPendingCancel ∨ after.state = .kPendingAmend →
      after.prePendingState = before.state ∨
        (before.state = .kPendingCancel ∨ before.state = .kPendingAmend) ∧
          after.prePendingState = before.prePendingState →
      Moved before after call
  | returned : before.state = .kPendingCancel ∨ before.state = .kPendingAmend →
      after.state = before.prePendingState → after.prePendingState = before.prePendingState →
      Moved before after .onRequestRejected

variable {order next : Order}

theorem advance_ok {target : String} {after : OrderState → OrderState}
    (ran : order.advance target after = .ok .unit next) :
    isTerminal order.state = false ∧ next = { order with state := after order.state } := by
  unfold advance at ran
  split at ran
  · cases ran
  · rename_i live
    cases ran
    exact ⟨Bool.eq_false_iff.mpr live, rfl⟩

theorem moved_applyEvent {event : OrderEvent D} (ran : applyEvent event order = .ok .unit next) :
    Moved order next (.applyEvent event) := by
  unfold applyEvent at ran
  cases type : event.type with
  | kLive =>
      simp only [type] at ran
      split at ran
      · rename_i unacknowledged
        cases ran
        exact .confirmed event type unacknowledged rfl
      · split at ran
        · rename_i amending
          cases ran
          exact .amended event type amending rfl rfl
        · split at ran
          · rename_i stays
            cases ran
            exact .repeated event type stays rfl rfl
          · cases ran
  | kPartialFill =>
      simp only [type] at ran
      obtain ⟨-, rfl⟩ := advance_ok ran
      exact .filledPart event type rfl
  | kFill =>
      simp only [type] at ran
      obtain ⟨-, rfl⟩ := advance_ok ran
      exact .ended event (.inl type) rfl
  | kCancel =>
      simp only [type] at ran
      obtain ⟨-, rfl⟩ := advance_ok ran
      refine .ended event (.inr type) ?_
      dsimp only
      split <;> rfl

theorem request_ok {message : String} {other pending : OrderState} {now : Int}
    (ran : request message other pending now order = .ok .unit next) :
    next.state = pending ∧ (next.prePendingState = order.state ∨
      order.state = other ∧ next.prePendingState = order.prePendingState) := by
  unfold request at ran
  split at ran
  · cases ran
  · cases ran
    refine ⟨rfl, ?_⟩
    by_cases same : order.state = other
    · exact .inr ⟨same, by simp [same]⟩
    · exact .inl (by simp [same])

theorem moved_of_run {call : LifecycleCall D} (ran : call.run order = .ok .unit next) : Moved order next call := by
  cases call with
  | applyEvent event => exact moved_applyEvent ran
  | onCancelRequested now =>
      obtain ⟨pending, saved⟩ := request_ok ran
      exact .requested _ (.inl ⟨now, rfl⟩) (.inl pending) (saved.imp_right fun kept => ⟨.inr kept.1, kept.2⟩)
  | onAmendRequested now =>
      obtain ⟨pending, saved⟩ := request_ok ran
      exact .requested _ (.inr ⟨now, rfl⟩) (.inr pending) (saved.imp_right fun kept => ⟨.inl kept.1, kept.2⟩)
  | onRequestRejected =>
      change onRequestRejected order = .ok .unit next at ran
      unfold onRequestRejected at ran
      split at ran
      · cases ran
      · rename_i waits
        cases ran
        refine .returned ?_ rfl rfl
        by_contra neither
        exact waits (not_or.mp neither)

/-!
## States left behind
-/

/-- Neither in one of the states nor about to return to one. -/
structure Left (states : List OrderState) (order : Order) : Prop where
  state : order.state ∉ states
  saved : order.state = .kPendingCancel ∨ order.state = .kPendingAmend → order.prePendingState ∉ states

theorem left_of_settled {states : List OrderState} (settled : order.state ∉ states)
    (answered : ¬ (order.state = .kPendingCancel ∨ order.state = .kPendingAmend)) : Left states order :=
  ⟨settled, fun waits => absurd waits answered⟩

section States

variable {states : List OrderState} (early : ∀ state ∈ states, state = .kPendingNew ∨ state = .kNew)
  (closed : .kNew ∈ states → .kPendingNew ∈ states)

include early closed

theorem Left.moved {call : LifecycleCall D} (left : Left states order) (moved : Moved order next call) :
    Left states next := by
  have never {state : OrderState} (neither : state ≠ .kPendingNew ∧ state ≠ .kNew) : state ∉ states :=
    fun member => (early state member).elim neither.1 neither.2
  have notNew (leftNew : .kPendingNew ∉ states) : .kNew ∉ states := fun member => leftNew (closed member)
  cases moved with
  | confirmed _ _ unacknowledged confirmed =>
      have leftNew : .kPendingNew ∉ states := unacknowledged ▸ left.state
      exact left_of_settled (by rw [confirmed]; exact notNew leftNew) (by simp [confirmed])
  | amended _ _ amending resumed kept =>
      have savedLeft := left.saved (.inr amending)
      by_cases unacknowledged : order.prePendingState = .kPendingNew
      · rw [if_pos unacknowledged] at resumed
        rw [unacknowledged] at savedLeft
        exact left_of_settled (by rw [resumed]; exact notNew savedLeft) (by simp [resumed])
      · rw [if_neg unacknowledged] at resumed
        exact ⟨resumed ▸ savedLeft, fun _ => kept ▸ savedLeft⟩
  | repeated _ _ _ same kept => exact ⟨same ▸ left.state, fun waits => kept ▸ left.saved (same ▸ waits)⟩
  | filledPart _ _ filled => exact left_of_settled (never (by simp [filled])) (by simp [filled])
  | ended _ _ terminal =>
      refine left_of_settled (never ⟨?_, ?_⟩) ?_
      · rintro same
        simp [same, isTerminal] at terminal
      · rintro same
        simp [same, isTerminal] at terminal
      · rintro (same | same)
        · simp [same, isTerminal] at terminal
        · simp [same, isTerminal] at terminal
  | requested _ _ pending saved =>
      refine ⟨?_, fun _ => ?_⟩
      · rcases pending with same | same
        · exact never (by simp [same])
        · exact never (by simp [same])
      · rcases saved with current | ⟨waits, kept⟩
        · exact current ▸ left.state
        · exact kept ▸ left.saved waits
  | returned waits resumed kept =>
      have savedLeft := left.saved waits
      exact ⟨resumed ▸ savedLeft, fun _ => kept ▸ savedLeft⟩

theorem Left.reaches {later : Order} (left : Left states order)
    (run : Reaches (LifecycleCall.run (D := D)) (fun _ _ => True) order later) : Left states later :=
  run.invariant (Left states) left fun _ _ _ held _ ran => held.moved early closed (moved_of_run ran)

end States

/-!
## Acknowledged orders
-/

/-- However the order goes on, it does not look unacknowledged, nor unfilled after
a partial fill. -/
def StaysAcknowledged (call : LifecycleCall D) (order : Order) : Prop :=
  ∀ later, Reaches (LifecycleCall.run (D := D)) (fun _ _ => True) order later →
    later.state ≠ .kPendingNew ∧ (call.FillsPart → later.state ≠ .kNew)

/-- A cancel is in flight that was requested before the order was acknowledged. -/
def CancelledUnseen (order : Order) : Prop :=
  order.state = .kPendingCancel ∧ order.prePendingState = .kPendingNew

instance (order : Order) : Decidable order.CancelledUnseen := inferInstanceAs (Decidable (_ ∧ _))

theorem staysAcknowledged_of_fillsPart {call : LifecycleCall D} (filled : next.state = .kPartiallyFilled) :
    StaysAcknowledged call next := by
  intro later run
  have left : Left [.kPendingNew, .kNew] next := left_of_settled (by simp [filled]) (by simp [filled])
  have settled := (left.reaches (by simp) (by simp) run).state
  simp only [List.mem_cons, List.not_mem_nil, or_false, not_or] at settled
  exact ⟨settled.1, fun _ => settled.2⟩

theorem staysAcknowledged_of_left {call : LifecycleCall D} (unfilled : ¬ call.FillsPart)
    (left : Left [.kPendingNew] next) : StaysAcknowledged call next := by
  intro later run
  have settled := (left.reaches (by simp) (by simp) run).state
  exact ⟨by simpa using settled, fun filled => absurd filled unfilled⟩

/-- An order is acknowledged for good by every live or partial-fill event, except by
a live event that finds a cancel in flight from before it. -/
theorem acknowledged_for_good_iff {call : LifecycleCall D} (ran : call.run order = .ok .unit next)
    (acknowledges : call.Acknowledges) :
    StaysAcknowledged call next ↔ (order.CancelledUnseen → call.FillsPart) := by
  cases moved_of_run ran with
  | filledPart event type filled => exact ⟨fun _ _ => type, fun _ => staysAcknowledged_of_fillsPart filled⟩
  | confirmed event type unacknowledged confirmed =>
      have unfilled : ¬ (LifecycleCall.applyEvent event).FillsPart := by simp [LifecycleCall.FillsPart, type]
      refine ⟨fun _ unseen => ?_, fun _ => staysAcknowledged_of_left unfilled ?_⟩
      · rw [CancelledUnseen, unacknowledged] at unseen
        cases unseen.1
      · exact left_of_settled (by simp [confirmed]) (by simp [confirmed])
  | amended event type amending resumed kept =>
      have unfilled : ¬ (LifecycleCall.applyEvent event).FillsPart := by simp [LifecycleCall.FillsPart, type]
      refine ⟨fun _ unseen => ?_, fun _ => staysAcknowledged_of_left unfilled ?_⟩
      · rw [CancelledUnseen, amending] at unseen
        cases unseen.1
      · by_cases unacknowledged : order.prePendingState = .kPendingNew
        · rw [if_pos unacknowledged] at resumed
          exact left_of_settled (by simp [resumed]) (by simp [resumed])
        · rw [if_neg unacknowledged] at resumed
          exact ⟨by simpa [resumed] using unacknowledged, fun _ => by simpa [kept] using unacknowledged⟩
  | repeated event type stays same kept =>
      have unfilled : ¬ (LifecycleCall.applyEvent event).FillsPart := by simp [LifecycleCall.FillsPart, type]
      have current : next.state ≠ .kPendingNew := by
        rw [same]
        rcases stays with state | state | state <;> simp [state]
      constructor
      · rintro good ⟨cancelling, unseen⟩
        -- the rejection of the cancel makes the order look new
        have rejected : (LifecycleCall.onRequestRejected : LifecycleCall D).run next =
            .ok .unit { next with state := next.prePendingState } := by
          change onRequestRejected next = _
          rw [onRequestRejected, if_neg (by simp [same, cancelling])]
        exact absurd (kept.trans unseen) (good _ (.step .start trivial rejected)).1
      · intro timely
        refine staysAcknowledged_of_left unfilled ⟨by simpa using current, fun waits => ?_⟩
        have cancelling : order.state = .kPendingCancel := by
          rw [same] at waits
          rcases stays with state | state | state
          · simp [state] at waits
          · simp [state] at waits
          · exact state
        rw [kept]
        intro unseen
        exact unfilled (timely ⟨cancelling, by simpa using unseen⟩)
  | ended event type terminal =>
      rcases acknowledges with live | filled
      · simp [live] at type
      · simp [filled] at type
  | requested _ request _ _ =>
      rcases request with ⟨now, rfl⟩ | ⟨now, rfl⟩
      · cases acknowledges
      · cases acknowledges
  | returned _ _ _ => cases acknowledges

def sampleNew : Order := create "1".toList "ETH-USDT".toList "buy".toList "100.00".toList "0.01".toList 0

/-- The order is reported live. -/
def sampleLive : LifecycleCall ℚ :=
  .applyEvent ⟨.kLive, "9".toList, "1".toList, "ETH-USDT".toList, "buy".toList, "100.00".toList, "0.01".toList,
    "0".toList, [], none⟩

theorem acknowledged_for_good_when_new :
    ∃ next, sampleLive.run sampleNew = .ok .unit next ∧ StaysAcknowledged sampleLive next := by
  have seen : ¬ sampleNew.CancelledUnseen := by decide
  have live : sampleLive.Acknowledges := Or.inl rfl
  exact ⟨_, rfl, (acknowledged_for_good_iff rfl live).mpr fun unseen => absurd unseen seen⟩

/-- A cancel requested before the acknowledgement is rejected after it. -/
theorem unacknowledged_after_rejection :
    ∃ final, forM [.onCancelRequested 1, sampleLive, .onRequestRejected] LifecycleCall.run sampleNew =
      .ok .unit final ∧ final.state = .kPendingNew :=
  ⟨_, rfl, rfl⟩

end Order

end TradingEngine
