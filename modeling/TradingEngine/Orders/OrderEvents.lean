import TradingEngine.Util.Json

/-! Order events of the orders channel, as the engine reads them. -/

set_option autoImplicit false

namespace TradingEngine

open Library.Exec

inductive OrderEventType where
  | kLive
  | kPartialFill
  | kFill
  | kCancel
  deriving DecidableEq, Repr

structure OrderFill (D : Type) where
  px : D
  sz : D

structure OrderEvent (D : Type) where
  type : OrderEventType
  ordId : Text
  clOrdId : Text
  instId : Text
  side : Text
  px : Text
  sz : Text
  accFillSz : Text
  avgPx : Text
  fill : Option (OrderFill D)

variable {D : Type} [DoubleArith D]

def classifyState (state : Text) : Except Exn OrderEventType :=
  if state = kStateLive then .ok .kLive
  else if state = kStatePartiallyFilled then .ok .kPartialFill
  else if state = kStateFilled then .ok .kFill
  else if state = kStateCanceled ∨ state = kStateMmpCanceled then .ok .kCancel
  else .error (.runtimeError ("Unrecognized order state: ".toList ++ state))

/-- A positive number in a field, `none` where it is absent or empty. -/
def readPositive (order key : Text) : Except Exn (Option D) :=
  match Json.findString order key with
  | none => .ok none
  | some text =>
      if text = [] then .ok none
      else do
        let value : D ← Json.parseDouble text
        return if DoubleArith.le value (DoubleArith.lit 0) then none else some value

def classifyFill (order : Text) : Except Exn (Option (OrderFill D)) := do
  match ← readPositive order kFillPx with
  | none => return none
  | some px =>
      match ← readPositive order kFillSz with
      | none => return none
      | some sz => return some ⟨px, sz⟩

def field (order key : Text) : Text := (Json.findString order key).getD kEmpty

/-- The event of one element of the orders channel's data. -/
def readOrderEvent (order : Text) : Except Exn (OrderEvent D) :=
  match Json.findString order kState with
  | none => .error (.runtimeError ("Malformed orders channel message: ".toList ++ order))
  | some state => do
      let type ← classifyState state
      let fill ← classifyFill order
      return {
        type := type
        ordId := field order kOrdId
        clOrdId := field order kClOrdId
        instId := field order kInstId
        side := field order kSide
        px := field order kPx
        sz := field order kSz
        accFillSz := field order kAccFillSz
        avgPx := field order kAvgPx
        fill := fill }

def forEachOrderEvent {σ : Type} (message : Text) (action : OrderEvent D → EStateM Exn σ PUnit) :
    EStateM Exn σ PUnit :=
  if Json.findString message kChannel ≠ some kOrdersChannel then pure .unit
  else Json.forEachArrayElement message kData fun order => lift (readOrderEvent order) >>= action

end TradingEngine
