import TradingEngine.Connectivity.RateLimiterProperties
import TradingEngine.Engine.Footprint

/-! The requests a turn of the engine passes to the private client. The quoter
passes one for every slot the limiter grants it; the round trip passes its own
without asking. -/

set_option autoImplicit false

namespace TradingEngine

open Library.Exec

/-- The ops the exchange limits, each on its own. -/
inductive Endpoint where
  | order
  | amendOrder
  | cancelOrder
  deriving DecidableEq, Repr

def Outgoing.endpoint : Outgoing → Option Endpoint
  | .order _ _ => some .order
  | .amendOrder _ _ _ _ _ => some .amendOrder
  | .cancelOrder _ _ _ => some .cancelOrder
  | .other _ => none

def EndpointRateLimiter.limiter (limiter : EndpointRateLimiter) : Endpoint → SlidingWindowLimiter
  | .order => limiter.orderLimiter
  | .amendOrder => limiter.amendLimiter
  | .cancelOrder => limiter.cancelLimiter

def Effect.request : Effect → Option (Route × Endpoint)
  | .send route payload _ => payload.endpoint.map fun endpoint => (route, endpoint)
  | _ => none

def requests (effects : List Effect) : List (Route × Endpoint) := effects.filterMap Effect.request

/-- The endpoint on which the round trip goes on when a response to its request arrives. -/
def ResponseHandler.endpoint : ResponseHandler → Option Endpoint
  | .onOrderResponse => some .amendOrder
  | .onAmendResponse => some .cancelOrder
  | .onCancelResponse => none

theorem requests_append (early late : List Effect) : requests (early ++ late) = requests early ++ requests late :=
  List.filterMap_append

theorem Effect.Background.request {effect : Effect} (background : effect.Background) : effect.request = none :=
  match effect, background with
  | .send _ (.other _) _, _ => rfl
  | .restCancel _ _, _ => rfl
  | .restPending, _ => rfl
  | .removed _, _ => rfl

namespace Engine

variable {D : Type}

/-- The limiter is as before, and these requests were passed on. -/
structure Passes (sent : List (Route × Endpoint)) (before after : Engine D) : Prop where
  reading : after.steadyClock.reading = before.steadyClock.reading
  reads : before.steadyClock.reads ≤ after.steadyClock.reads
  limiter : after.rateLimiter = before.rateLimiter
  trace : ∃ new, after.trace = before.trace ++ new ∧ requests new = sent

theorem Passes.trans {early late : List (Route × Endpoint)} {first second third : Engine D}
    (before : Passes early first second) (after : Passes late second third) : Passes (early ++ late) first third where
  reading := after.reading.trans before.reading
  reads := before.reads.trans after.reads
  limiter := after.limiter.trans before.limiter
  trace := by
    obtain ⟨new, grown, sent⟩ := before.trace
    obtain ⟨more, grownAgain, sentAgain⟩ := after.trace
    exact ⟨new ++ more, by rw [grownAgain, grown, List.append_assoc], by rw [requests_append, sent, sentAgain]⟩

theorem passes_of_same {before after : Engine D} (reading : after.steadyClock.reading = before.steadyClock.reading)
    (reads : before.steadyClock.reads ≤ after.steadyClock.reads) (limiter : after.rateLimiter = before.rateLimiter)
    (trace : after.trace = before.trace) : Passes [] before after :=
  ⟨reading, reads, limiter, [], by simp [trace], rfl⟩

theorem passes_one {engine : Engine D} {effect : Effect} :
    Passes effect.request.toList engine { engine with trace := engine.trace ++ [effect] } := by
  refine ⟨rfl, le_rfl, rfl, [effect], rfl, ?_⟩
  cases request : effect.request <;> simp [requests, request]

theorem passesNothing : Footprint (fun effect => effect.request = none) (Passes [] : Engine D → Engine D → Prop) where
  refl _ := passes_of_same rfl le_rfl rfl rfl
  trans _ _ _ early late := early.trans late
  background _ background := background.request
  trace engine effect none := by
    have passes : Passes effect.request.toList engine { engine with trace := engine.trace ++ [effect] } := passes_one
    rwa [none] at passes
  reads engine := passes_of_same rfl (Nat.le_succ _) rfl rfl
  ids _ := passes_of_same rfl le_rfl rfl rfl
  calls _ := passes_of_same rfl le_rfl rfl rfl
  ws _ _ := passes_of_same rfl le_rfl rfl rfl
  store _ _ := passes_of_same rfl le_rfl rfl rfl
  quoter _ _ := passes_of_same rfl le_rfl rfl rfl
  pending _ _ := passes_of_same rfl le_rfl rfl rfl
  roundTrip _ _ := passes_of_same rfl le_rfl rfl rfl
  account _ _ := passes_of_same rfl le_rfl rfl rfl

/-- At most this one request was passed on. -/
def PassesUpTo (request : Route × Endpoint) (before after : Engine D) : Prop :=
  Passes [] before after ∨ Passes [request] before after

section UpTo

variable {request : Route × Endpoint} {α β : Type} {first : EngineM D α} {next : α → EngineM D β}

theorem upTo_after (firstMoves : Moves (Passes []) first) (nextMoves : ∀ value, Moves (PassesUpTo request) (next value)) :
    Moves (PassesUpTo request) (first >>= next) :=
  moves_seq (fun _ _ nothing => .inl nothing)
    (fun _ _ _ early late => late.imp (fun late => early.trans late) fun late => early.trans late) firstMoves nextMoves

theorem upTo_before (firstMoves : Moves (PassesUpTo request) first) (nextMoves : ∀ value, Moves (Passes []) (next value)) :
    Moves (PassesUpTo request) (first >>= next) :=
  moves_seq (fun _ _ passes => passes)
    (fun _ _ _ early late => early.imp (fun early => early.trans late) fun early => early.trans late) firstMoves nextMoves

end UpTo

theorem Passes.upTo {α : Type} {program : EngineM D α} (passes : Moves (Passes []) program) (request : Route × Endpoint) :
    Moves (PassesUpTo request) program := passes.imp fun _ _ nothing => .inl nothing

theorem passes_send {route : Route} {payload : Outgoing} {endpoint : Endpoint} (limited : payload.endpoint = some endpoint)
    (before : OrderStore) : Moves (PassesUpTo (route, endpoint)) (send route payload before : EngineM D PUnit) := by
  refine upTo_before (fun engine => ?_) fun _ => passesNothing.moves_writeRaw _
  have passes : Passes (Effect.request (.send route payload before)).toList engine
      { engine with trace := engine.trace ++ [.send route payload before] } := passes_one
  rw [Effect.request, limited] at passes
  exact .inr passes

/-!
## Round trip
-/

theorem passes_startOverWs (request : OrderRequest) (before : OrderStore) :
    Moves (PassesUpTo (.roundTrip, .order)) (startOverWs request before : EngineM D PUnit) :=
  upTo_after (passesNothing.moves_buildWsOrderMessage request) fun _ =>
    upTo_after (passesNothing.moves_setClOrdId _) fun _ =>
      upTo_after (passesNothing.moves_addOrder _ _ _ _ _) fun _ =>
        upTo_before (passes_send rfl before) fun _ => passesNothing.moves_track _ _

theorem passes_start : Moves (PassesUpTo (.roundTrip, .order)) (start : EngineM D PUnit) := by
  refine upTo_after (passesNothing.moves_get fun engine => passesNothing.moves_pure engine) fun engine => ?_
  split
  · exact passes_startOverWs _ _
  · exact Passes.upTo (passesNothing.moves_startOverRest fun _ => rfl) _

theorem passes_requestAmend (ordId : Text) :
    Moves (PassesUpTo (.roundTrip, .amendOrder)) (requestAmend ordId : EngineM D PUnit) :=
  upTo_after passesNothing.moves_steadyNow fun _ =>
    upTo_after (passesNothing.moves_updateOwnOrder _) fun _ =>
      upTo_after passesNothing.moves_generateId fun _ => upTo_after (Library.Exec.moves_get passesNothing.refl) fun _ =>
        upTo_before (passes_send rfl _) fun _ => passesNothing.moves_track _ _

theorem passes_requestCancel : Moves (PassesUpTo (.roundTrip, .cancelOrder)) (requestCancel : EngineM D PUnit) :=
  upTo_after passesNothing.moves_steadyNow fun _ =>
    upTo_after (passesNothing.moves_updateOwnOrder _) fun _ =>
      upTo_after passesNothing.moves_generateId fun _ => upTo_after (Library.Exec.moves_get passesNothing.refl) fun _ =>
        upTo_before (passes_send rfl _) fun _ => passesNothing.moves_track _ _

theorem passes_onOrderResponse (response : Text) :
    Moves (PassesUpTo (.roundTrip, .amendOrder)) (onOrderResponse response : EngineM D PUnit) := by
  unfold onOrderResponse
  split
  · exact Passes.upTo (passesNothing.moves_pure _) _
  · split
    · exact Passes.upTo (passesNothing.moves_pure _) _
    · refine upTo_after (passesNothing.moves_setOrdId _) fun _ =>
        upTo_after (Library.Exec.moves_get passesNothing.refl) fun engine => ?_
      split
      · exact passes_requestAmend _
      · exact Passes.upTo passesNothing.moves_fallBackToRestCancel _

theorem passes_onAmendResponse (response : Text) :
    Moves (PassesUpTo (.roundTrip, .cancelOrder)) (onAmendResponse response : EngineM D PUnit) := by
  refine upTo_after (passesNothing.moves_rejectUnlessAccepted response) fun _ =>
    upTo_after (Library.Exec.moves_get passesNothing.refl) fun engine => ?_
  split
  · exact passes_requestCancel
  · exact Passes.upTo passesNothing.moves_fallBackToRestCancel _

/-- What a run may pass on: nothing, or one request of the round trip on this endpoint. -/
def PassesOn (endpoint : Option Endpoint) (before after : Engine D) : Prop :=
  Passes [] before after ∨ ∃ limited, endpoint = some limited ∧ Passes [(.roundTrip, limited)] before after

theorem PassesUpTo.on {endpoint : Endpoint} {before after : Engine D} (passes : PassesUpTo (.roundTrip, endpoint) before after) :
    PassesOn (some endpoint) before after := passes.imp_right fun one => ⟨endpoint, rfl, one⟩

section On

variable {endpoint : Option Endpoint} {α β : Type} {first : EngineM D α} {next : α → EngineM D β}

theorem on_after (firstMoves : Moves (Passes []) first) (nextMoves : ∀ value, Moves (PassesOn endpoint) (next value)) :
    Moves (PassesOn endpoint) (first >>= next) := by
  refine moves_seq (fun _ _ nothing => .inl nothing) ?_ firstMoves nextMoves
  rintro _ _ _ early (late | ⟨limited, same, late⟩)
  · exact .inl (early.trans late)
  · exact .inr ⟨limited, same, early.trans late⟩

theorem on_before (firstMoves : Moves (PassesOn endpoint) first) (nextMoves : ∀ value, Moves (Passes []) (next value)) :
    Moves (PassesOn endpoint) (first >>= next) := by
  refine moves_seq (fun _ _ passes => passes) ?_ firstMoves nextMoves
  rintro _ _ _ (early | ⟨limited, same, early⟩) late
  · exact .inl (early.trans late)
  · exact .inr ⟨limited, same, early.trans late⟩

end On

theorem passes_runHandler (handler : ResponseHandler) (response : Text) :
    Moves (PassesOn handler.endpoint) (runHandler handler response : EngineM D PUnit) := by
  cases handler with
  | onOrderResponse => exact (passes_onOrderResponse response).imp fun _ _ passes => passes.on
  | onAmendResponse => exact (passes_onAmendResponse response).imp fun _ _ passes => passes.on
  | onCancelResponse => exact (passesNothing.moves_rejectUnlessAccepted response).imp fun _ _ passes => .inl passes

/-- The endpoint on which the round trip may make a request in reaction to a response. -/
def respondsOn (engine : Engine D) (message : Text) : Option Endpoint :=
  (engine.handlerFor message).bind fun waiting => waiting.2.endpoint

theorem passes_dispatch (message : Text) (engine : Engine D) :
    PassesOn (engine.respondsOn message) engine (finalState (dispatch message engine)) := by
  rw [dispatch, run_bind_ok (run_get engine), respondsOn]
  cases engine.handlerFor message with
  | none => exact .inl (passesNothing.refl engine)
  | some waiting =>
      obtain ⟨id, handler⟩ := waiting
      have taking : Moves (Passes []) (modify fun engine =>
          { engine with pending := engine.pending.filter fun entry => entry.1 ≠ id } : EngineM D PUnit) :=
        fun current => passesNothing.pending current _
      exact on_after taking (fun _ => on_before (passes_runHandler handler message) fun _ => passesNothing.moves_pure true) engine

end Engine

end TradingEngine
