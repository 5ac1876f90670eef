import TradingEngine.Orders.OrderRequests
import TradingEngine.Orders.OrderStore

/-! Pre-trade limits, the position with its realized profit and loss, and the
account balances. -/

set_option autoImplicit false

namespace TradingEngine

open Library.Exec

variable {D : Type} [DoubleArith D]

/-!
## Pre-trade checks
-/

structure RiskLimits (D : Type) where
  maxOrderSz : D
  maxNotional : D
  priceCollarPct : D
  maxOpenOrders : Nat

structure RiskCheckResult where
  passed : Bool
  reason : Text

/-- A failed limit with its value, as the two messages of that shape are built. -/
def exceeds (what : String) (value limit : D) : RiskCheckResult :=
  ⟨false, what.toList ++ DoubleArith.format value ++ " exceeds max ".toList ++ DoubleArith.format limit⟩

def percent (value : D) : Text := DoubleArith.toCharsFixed (DoubleArith.mul value (DoubleArith.lit 100)) 2

/-- The price deviates from the reference by more than the collar. -/
def collarResult (limits : RiskLimits D) (px : D) : Option D → Option RiskCheckResult
  | none => none
  | some refPx =>
      let deviation := DoubleArith.div (DoubleArith.abs (DoubleArith.sub px refPx)) refPx
      if DoubleArith.lt limits.priceCollarPct deviation then
        some ⟨false, "px ".toList ++ DoubleArith.format px ++ " is ".toList ++ percent deviation ++
          "% from reference px ".toList ++ DoubleArith.format refPx ++ ", exceeds collar ".toList ++
          percent limits.priceCollarPct ++ "%".toList⟩
      else none

def checkPreTradeRisk (limits : RiskLimits D) (request : OrderRequest) (store : OrderStore)
    (maybeReferencePx : Option D) : Except Exn RiskCheckResult := do
  let sz : D ← Json.parseDouble request.sz
  let px : D ← Json.parseDouble request.px
  let notional := DoubleArith.mul sz px
  return if DoubleArith.lt limits.maxOrderSz sz then exceeds "Order size " sz limits.maxOrderSz
    else if DoubleArith.lt limits.maxNotional notional then exceeds "Notional " notional limits.maxNotional
    else match collarResult limits px maybeReferencePx with
      | some failed => failed
      | none =>
          if limits.maxOpenOrders ≤ store.size then
            ⟨false, "Open order count ".toList ++ toDecimal store.size ++ " exceeds limit of ".toList ++
              toDecimal limits.maxOpenOrders ++ " orders".toList⟩
          else ⟨true, []⟩

/-!
## Position
-/

structure Position (D : Type) where
  netQty : D
  avgEntryPx : D
  realizedPnl : D

namespace Position

def initial : Position D := ⟨DoubleArith.lit 0, DoubleArith.lit 0, DoubleArith.lit 0⟩

def positive (value : D) : Bool := DoubleArith.lt (DoubleArith.lit 0) value

def isZero (value : D) : Bool := DoubleArith.eq value (DoubleArith.lit 0)

/-- `std::min`. -/
def min (left right : D) : D := if DoubleArith.lt right left then right else left

def applyFill (position : Position D) (side : Text) (fillPx fillSz : D) : Position D :=
  let signedQty := if side = kBuy then fillSz else DoubleArith.neg fillSz
  let newQty := DoubleArith.add position.netQty signedQty
  let held := DoubleArith.abs position.netQty
  if isZero position.netQty || positive position.netQty == positive signedQty then
    { position with
      avgEntryPx := DoubleArith.div (DoubleArith.add (DoubleArith.mul held position.avgEntryPx)
        (DoubleArith.mul fillSz fillPx)) (DoubleArith.abs newQty)
      netQty := newQty }
  else
    let closingQty := min fillSz held
    let pnlPerUnit := if positive position.netQty then DoubleArith.sub fillPx position.avgEntryPx
      else DoubleArith.sub position.avgEntryPx fillPx
    { realizedPnl := DoubleArith.add position.realizedPnl (DoubleArith.mul pnlPerUnit closingQty)
      avgEntryPx :=
        if isZero newQty then DoubleArith.lit 0
        else if positive newQty != positive position.netQty then fillPx
        else position.avgEntryPx
      netQty := newQty }

def unrealizedPnl (position : Position D) (markPx : D) : D :=
  DoubleArith.mul position.netQty (DoubleArith.sub markPx position.avgEntryPx)

end Position

/-!
## Account balances
-/

structure Balance (D : Type) where
  ccy : Text
  cashBal : D
  availBal : D

def AccountState.kCapacity : Nat := 16

structure AccountState (D : Type) where
  balances : List (Balance D)
  bounded : balances.length ≤ AccountState.kCapacity

namespace AccountState

def initial : AccountState D := ⟨[], Nat.zero_le _⟩

def modifyAt (account : AccountState D) (index : Nat) (change : Balance D → Balance D) : AccountState D :=
  ⟨account.balances.modify index change, by simpa using account.bounded⟩

def push (account : AccountState D) (balance : Balance D) : AccountState D :=
  if room : account.balances.length < kCapacity then
    ⟨account.balances ++ [balance], by simpa using room⟩
  else account

/-- One element of `details`. The balances are parsed only where they are stored. -/
def applyDetail (detail : Text) : EStateM Exn (AccountState D) PUnit := do
  match Json.findString detail kCcy, Json.findString detail kCashBal, Json.findString detail kAvailBal with
  | some ccy, some cashBal, some availBal =>
      let account ← get
      match account.balances.findIdx? (fun held => held.ccy = ccy) with
      | some index =>
          let cash ← lift (Json.parseDouble cashBal)
          modify fun current => current.modifyAt index fun held => { held with cashBal := cash }
          let avail ← lift (Json.parseDouble availBal)
          modify fun current => current.modifyAt index fun held => { held with availBal := avail }
      | none =>
          if account.balances.length < kCapacity then
            let cash ← lift (Json.parseDouble cashBal)
            let avail ← lift (Json.parseDouble availBal)
            modify fun current => current.push ⟨ccy, cash, avail⟩
          else pure .unit
  | _, _, _ => throw (.runtimeError ("Malformed account channel detail: ".toList ++ detail))

def applyMessage (message : Text) : EStateM Exn (AccountState D) PUnit :=
  if Json.findString message kChannel ≠ some kAccountChannel then pure .unit
  else
    match findData message with
    | none => pure .unit
    | some data => Json.forEachArrayElement data kDetails applyDetail

def getBalance (account : AccountState D) (ccy : Text) : Option (Balance D) :=
  account.balances.find? fun held => held.ccy = ccy

end AccountState

end TradingEngine
