import TradingEngine.Orders.OrderEvents

/-! The state machine of one order. Transitions are programs over the order: an
event that throws has already written the fields it writes before its check. -/

set_option autoImplicit false

namespace TradingEngine

inductive OrderState where
  | kPendingNew
  | kNew
  | kPartiallyFilled
  | kFilled
  | kCanceled
  | kRejected
  | kPendingCancel
  | kPendingAmend
  deriving DecidableEq, Repr

def OrderState.toText : OrderState → Text
  | .kPendingNew => "PendingNew".toList
  | .kNew => "New".toList
  | .kPartiallyFilled => "PartiallyFilled".toList
  | .kFilled => "Filled".toList
  | .kCanceled => "Canceled".toList
  | .kRejected => "Rejected".toList
  | .kPendingCancel => "PendingCancel".toList
  | .kPendingAmend => "PendingAmend".toList

def isTerminal (state : OrderState) : Bool :=
  state = .kFilled || state = .kCanceled || state = .kRejected

def isPending (state : OrderState) : Bool :=
  state = .kPendingNew || state = .kPendingCancel || state = .kPendingAmend

structure Order where
  ordId : Text
  clOrdId : Text
  instId : Text
  side : Text
  px : Text
  sz : Text
  accFillSz : Text
  avgPx : Text
  state : OrderState
  /-- The state to return to if the request in flight is rejected. -/
  prePendingState : OrderState
  pendingSince : Int
  deriving DecidableEq, Repr

namespace Order

def create (clOrdId instId side px sz : Text) (now : Int) : Order where
  ordId := []
  clOrdId := clOrdId
  instId := instId
  side := side
  px := px
  sz := sz
  accFillSz := []
  avgPx := []
  state := .kPendingNew
  prePendingState := .kPendingNew
  pendingSince := now

def unexpected (order : Order) (target : String) : Exn :=
  .runtimeError ("Order ".toList ++ order.clOrdId ++ ": unexpected ".toList ++ order.state.toText ++
    " -> ".toList ++ target.toList ++ " transition".toList)

variable {D : Type}

/-- The writes every event makes before its type is looked at. -/
def record (event : OrderEvent D) (order : Order) : Order :=
  { order with
    ordId := if order.ordId = [] then event.ordId else order.ordId
    accFillSz := event.accFillSz
    avgPx := event.avgPx }

/-- A transition out of every state that is not terminal. -/
def advance (target : String) (next : OrderState → OrderState) (order : Order) :
    EStateM.Result Exn Order PUnit :=
  if isTerminal order.state then .error (order.unexpected target) order
  else .ok .unit { order with state := next order.state }

def applyEvent (event : OrderEvent D) : EStateM Exn Order PUnit := fun before =>
  let order := before.record event
  match event.type with
  | .kLive =>
      if order.state = .kPendingNew then .ok .unit { order with state := .kNew }
      else if order.state = .kPendingAmend then
        .ok .unit { order with
          px := event.px
          state := if order.prePendingState = .kPendingNew then .kNew else order.prePendingState }
      else if order.state = .kNew ∨ order.state = .kPartiallyFilled ∨ order.state = .kPendingCancel then
        .ok .unit { order with px := event.px }
      else .error (order.unexpected "kLive") order
  | .kPartialFill => order.advance "kPartialFill" fun _ => .kPartiallyFilled
  | .kFill => order.advance "kFill" fun _ => .kFilled
  | .kCancel =>
      order.advance "kCancel" fun state => if state = .kPendingNew then .kRejected else .kCanceled

def requestError (order : Order) (request : String) : Exn :=
  .runtimeError ("Order ".toList ++ order.clOrdId ++ ": ".toList ++ request.toList ++
    " from state ".toList ++ order.state.toText)

/-- A cancel or amend request: `other` is the state of the opposite request,
which keeps the state to return to. -/
def request (message : String) (other pending : OrderState) (now : Int) : EStateM Exn Order PUnit :=
  fun order =>
    if order.state ≠ .kPendingNew ∧ order.state ≠ .kNew ∧ order.state ≠ .kPartiallyFilled ∧
        order.state ≠ other then .error (order.requestError message) order
    else
      .ok .unit { order with
        prePendingState := if order.state ≠ other then order.state else order.prePendingState
        pendingSince := now
        state := pending }

def onCancelRequested (now : Int) : EStateM Exn Order PUnit :=
  request "cancel requested" .kPendingAmend .kPendingCancel now

def onAmendRequested (now : Int) : EStateM Exn Order PUnit :=
  request "amend requested" .kPendingCancel .kPendingAmend now

def onRequestRejected : EStateM Exn Order PUnit := fun order =>
  if order.state ≠ .kPendingCancel ∧ order.state ≠ .kPendingAmend then
    .error (order.requestError "request-rejected event") order
  else .ok .unit { order with state := order.prePendingState }

end Order

end TradingEngine
