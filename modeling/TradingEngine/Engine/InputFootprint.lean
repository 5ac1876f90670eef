import TradingEngine.Engine.EngineProperties
import TradingEngine.Risk.KillSwitchProperties

/-! Relations that hold from end to end of every input. Beyond the changes of the
bookkeeping, such a relation admits the kill switch, fills and the limiter; what
the engine places, amends and answers is shown for each relation apart. -/

set_option autoImplicit false

namespace TradingEngine.Engine

open Library.Exec

variable {D : Type}

structure InputFootprint (allowed : Effect → Prop) (relation : Engine D → Engine D → Prop) : Prop
    extends Footprint allowed relation where
  trips : ∀ engine reason, relation engine (engine.tripped reason)
  position : ∀ engine position, relation engine { engine with position := position }
  limits : ∀ engine limiter, relation engine { engine with rateLimiter := limiter }

namespace InputFootprint

variable {allowed : Effect → Prop} {relation : Engine D → Engine D → Prop}
  (footprint : InputFootprint allowed relation)

include footprint

theorem moves_trigger (reason : Text) : Moves relation (trigger reason : EngineM D PUnit) := by
  intro engine
  cases set : engine.triggered with
  | true =>
      rw [trigger_of_triggered set]
      exact footprint.refl engine
  | false =>
      rw [trigger_of_untriggered set]
      refine footprint.trans _ _ _ (footprint.trips engine reason)
        (moves_forM footprint.refl footprint.trans (fun _ _ => ?_) _)
      exact footprint.moves_bind (footprint.moves_cancelOrder _ _) fun _ => footprint.moves_pure _

theorem moves_ifQuoting {program : EngineM D PUnit} (quoting : Moves relation program) :
    Moves relation (ifQuoting program) := by
  refine footprint.moves_get fun engine => ?_
  split
  · exact quoting
  · exact footprint.moves_pure _

section Inputs

variable [DoubleArith D]

theorem moves_handleOrderEvent (event : OrderEvent D) : Moves relation (handleOrderEvent event) := by
  refine footprint.moves_bind ?_ fun _ => footprint.moves_applyOrderEvent event
  unfold applyFill
  split
  · exact footprint.moves_pure _
  · refine footprint.moves_bind (fun engine => footprint.position engine _) fun _ =>
      footprint.moves_get fun engine => ?_
    split
    · exact footprint.moves_trigger _
    · exact footprint.moves_pure _

theorem moves_handleLoginEvent (starting : Moves relation (start : EngineM D PUnit)) (message : Text) :
    Moves relation (handleLoginEvent message : EngineM D PUnit) := by
  unfold handleLoginEvent
  split
  · exact footprint.moves_pure _
  · refine footprint.moves_get fun _ =>
      footprint.moves_bind (footprint.moves_send (footprint.background _ trivial)) fun _ =>
        footprint.moves_bind footprint.moves_getPendingOrders fun pending =>
          footprint.moves_bind (footprint.moves_reconcileOrders pending) fun _ => footprint.moves_get fun engine => ?_
    split
    · exact footprint.moves_pure _
    · refine footprint.moves_bind (footprint.moves_lift _) fun riskCheck => ?_
      split
      · exact starting
      · exact footprint.moves_pure _

variable (starting : Moves relation (start : EngineM D PUnit))
  (handling : ∀ handler message, Moves relation (runHandler handler message : EngineM D PUnit))
  (placing : ∀ side (px : D), Moves relation (placeSide side px))
  (amending : ∀ clOrdId ordId (px : D), Moves relation (amendSide clOrdId ordId px))

include starting handling placing amending

theorem moves_handle {input : Input D} (running : input ≠ .signal) : Moves relation (handle input) := by
  cases input with
  | bookUpdate book => exact footprint.moves_ifQuoting (footprint.moves_onBookUpdate placing amending book)
  | quoterTimer => exact footprint.moves_ifQuoting (footprint.moves_onTimer placing)
  | login message =>
      exact footprint.moves_bind (footprint.moves_noteLogin message) fun _ =>
        footprint.moves_handleLoginEvent starting message
  | response message =>
      exact footprint.moves_bind (footprint.moves_dispatch fun handler => handling handler message)
        fun _ => footprint.moves_pure _
  | orderEvent event => exact footprint.moves_handleOrderEvent event
  | account message => exact footprint.moves_handleAccountChannelMessage message
  | timeoutCheck => exact footprint.moves_checkAndResolve
  | signal => exact absurd rfl running
  | connected login => exact footprint.moves_connectOrReconnect login
  | disconnected => exact fun engine => footprint.ws engine _
  | controlFrame bytes => exact footprint.moves_writeRaw bytes
  | written bytes => exact fun engine => footprint.ws engine _

/-- One turn of the event loop, the shutdown signal included. -/
theorem moves_step (stops : ∀ engine, relation engine { engine with stopped := true }) (input : Input D) :
    Moves relation (step input) := by
  refine footprint.moves_get fun engine => ?_
  split
  · exact footprint.moves_pure _
  · by_cases running : input = .signal
    · rw [running]
      exact footprint.moves_bind (footprint.moves_trigger _) fun _ => stops
    · exact footprint.moves_handle starting handling placing amending running

end Inputs

end InputFootprint

end TradingEngine.Engine
