import TradingEngine.Engine.State

/-! The quoter: one order a side around the mid price, amended as the mid moves.
Measuring timestamps and log lines are left out. -/

set_option autoImplicit false

namespace TradingEngine

open Library.Exec

variable {D : Type} [DoubleArith D]

def kBpsPerUnit : D := DoubleArith.lit 10000

def decimalPlaces (tickSz : Text) : Nat :=
  match Json.findFrom tickSz ['.'] 0 with
  | none => 0
  | some dot => tickSz.length - dot - 1

namespace NaiveQuoter

def create (instId : Text) (instIdCode : Int) (sz tickSz : Text) (quoteBps requoteThresholdBps : D) :
    Except Exn (NaiveQuoter D) := do
  let tick ← Json.parseDouble tickSz
  return {
    instId := instId
    instIdCode := instIdCode
    sz := sz
    tickSz := tick
    tickDecimalPlaces := decimalPlaces tickSz
    quoteBps := quoteBps
    requoteThresholdBps := requoteThresholdBps
    lastQuotedMid := none
    bidClOrdId := none
    askClOrdId := none }

def formatPrice (quoter : NaiveQuoter D) (px : D) : Text :=
  let rounded := DoubleArith.mul (DoubleArith.round (DoubleArith.div px quoter.tickSz)) quoter.tickSz
  DoubleArith.toCharsFixed rounded quoter.tickDecimalPlaces

/-- The quoted price of a side, around a mid price. -/
def quotePrice (quoter : NaiveQuoter D) (mid : D) (side : QuoteSide) : D :=
  let offset := DoubleArith.div quoter.quoteBps kBpsPerUnit
  match side with
  | .bid => DoubleArith.mul mid (DoubleArith.sub (DoubleArith.lit 1) offset)
  | .ask => DoubleArith.mul mid (DoubleArith.add (DoubleArith.lit 1) offset)

/-- The request that places a side at a price. -/
def request (quoter : NaiveQuoter D) (side : QuoteSide) (px : D) : OrderRequest where
  instId := quoter.instId
  side := side.name
  ordType := kLimit
  px := quoter.formatPrice px
  sz := quoter.sz
  instIdCode := quoter.instIdCode

/-- The mid price a book update makes the quoter requote at, if it does. -/
def requoteMid (quoter : NaiveQuoter D) (book : OrderBook D) : Option D :=
  match book.bestBid, book.bestAsk with
  | some bestBid, some bestAsk =>
      let mid := DoubleArith.div (DoubleArith.add bestBid bestAsk) (DoubleArith.lit 2)
      match quoter.lastQuotedMid with
      | none => some mid
      | some lastMid =>
          let deviationBps := DoubleArith.mul
            (DoubleArith.div (DoubleArith.abs (DoubleArith.sub mid lastMid)) lastMid) kBpsPerUnit
          if DoubleArith.lt quoter.requoteThresholdBps deviationBps then some mid else none
  | _, _ => none

end NaiveQuoter

namespace Engine

def setHandle (side : QuoteSide) (clOrdId : Option Text) : EngineM D PUnit :=
  modify fun engine => { engine with quoter := engine.quoter.setHandle side clOrdId }

def placeSide (side : QuoteSide) (px : D) : EngineM D (Option Text) := do
  let granted ← tryAcquire kOrderOp
  if granted then
    let engine ← get
    let request := engine.quoter.request side px
    let id ← buildWsOrderMessage request
    addOrder id request.instId request.side request.px request.sz
    send .quoter (.order id request) engine.store
    return some id
  else return none

/-- A placement whose id becomes the handle of its side. -/
def quoteSide (side : QuoteSide) (px : D) : EngineM D PUnit := do
  let clOrdId ← placeSide side px
  setHandle side clOrdId

def amendSide (clOrdId ordId : Text) (px : D) : EngineM D PUnit := do
  let granted ← tryAcquire kAmendOrderOp
  if granted then
    let now ← steadyNow
    updateOrder clOrdId (.onAmendRequested now)
    let id ← generateId
    let engine ← get
    send .quoter (.amendOrder id engine.quoter.instIdCode ordId (engine.quoter.formatPrice px) engine.quoter.sz)
      engine.store
  else pure .unit

def replaceSide (side : QuoteSide) (px : D) : EngineM D PUnit := do
  let engine ← get
  match engine.quoter.handle side with
  | none => quoteSide side px
  | some clOrdId =>
      match engine.store.findByClOrdId clOrdId with
      | none =>
          setHandle side none
          quoteSide side px
      | some order =>
          if order.ordId = [] then
            setHandle side none
            quoteSide side px
          else if order.state = .kPendingAmend then pure .unit
          else amendSide clOrdId order.ordId px

def requote (mid : D) : EngineM D PUnit := do
  let engine ← get
  beginBatch
  replaceSide .bid (engine.quoter.quotePrice mid .bid)
  replaceSide .ask (engine.quoter.quotePrice mid .ask)
  endBatch
  modify fun engine => { engine with quoter := { engine.quoter with lastQuotedMid := some mid } }

def onBookUpdate (book : OrderBook D) : EngineM D PUnit := do
  let engine ← get
  match engine.quoter.requoteMid book with
  | none => pure .unit
  | some mid => requote mid

/-- The timer's part for one side: quotes it if it has no order. -/
def quoteIfEmpty (side : QuoteSide) (px : D) : EngineM D PUnit := do
  let engine ← get
  match engine.quoter.handle side with
  | none => quoteSide side px
  | some _ => pure .unit

def onTimer : EngineM D PUnit := do
  let engine ← get
  match engine.quoter.lastQuotedMid with
  | none => pure .unit
  | some mid =>
      beginBatch
      quoteIfEmpty .bid (engine.quoter.quotePrice mid .bid)
      quoteIfEmpty .ask (engine.quoter.quotePrice mid .ask)
      endBatch

end Engine

end TradingEngine
