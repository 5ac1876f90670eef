import TradingEngine.MarketData.OrderBook
import TradingEngine.Util.Json

/-! The JSON book feed: `ApplyBookMessage` and the source that owns the book.
An exception thrown by a malformed level leaves the levels before it applied. -/

set_option autoImplicit false

namespace TradingEngine

open Library.Exec

variable {D : Type} [DoubleArith D]

inductive BookMessageResult where
  | kIgnored
  | kApplied
  | kGapDetected
  deriving DecidableEq, Repr

def stripQuotes (text : Text) : Text :=
  if 2 ≤ text.length ∧ text.head? = some '"' ∧ text.getLast? = some '"' then
    Json.substr text 1 (text.length - 2)
  else text

def parseLevel (level : Text) : Except Exn (D × D) :=
  match Json.findElement level kBooksLevelPriceIdx, Json.findElement level kBooksLevelSizeIdx with
  | some priceText, some sizeText => do
      let price ← Json.parseDouble (stripQuotes priceText)
      let size ← Json.parseDouble (stripQuotes sizeText)
      return (price, size)
  | _, _ => throw (.runtimeError "Malformed order book price level".toList)

def applyLevel (key level : Text) : EStateM Exn (OrderBook D) PUnit := do
  let (price, size) ← lift (parseLevel level)
  if key = kBids then modify fun book => book.setBid price size
  else modify fun book => book.setAsk price size

def applyLevels (array key : Text) : EStateM Exn (OrderBook D) PUnit :=
  Json.forEachElement array (applyLevel key)

/-!
## ApplyBookMessage
-/

/-- What the field loop collects; a repeated key keeps its last value. -/
structure BookFields where
  seqId : Option Text := none
  prevSeqId : Option Text := none
  bids : Option Text := none
  asks : Option Text := none

def collectField (key value : Text) : EStateM Exn BookFields PUnit :=
  if key = kSeqId then modify fun fields => { fields with seqId := some value }
  else if key = kPrevSeqId then modify fun fields => { fields with prevSeqId := some value }
  else if key = kBids then modify fun fields => { fields with bids := some value }
  else if key = kAsks then modify fun fields => { fields with asks := some value }
  else pure .unit

def readFields (data : Text) : Except Exn BookFields :=
  match Json.forEachField data collectField {} with
  | .ok _ fields => .ok fields
  | .error exception _ => .error exception

/-- A push on the books channel, its levels and its own seqId still unparsed. -/
structure BookPush where
  prevSeqId : Int
  seqIdText : Text
  bids : Option Text
  asks : Option Text

def BookPush.isSnapshot (push : BookPush) : Bool := push.prevSeqId = kSnapshotSeqId

/-- The part of `ApplyBookMessage` that only reads; `none` for a message it ignores. -/
def readPush (message : Text) : Except Exn (Option BookPush) :=
  if Json.findString message kChannel ≠ some kBooksChannel then .ok none
  else
    match findData message with
    | none => .ok none
    | some data => do
        let fields ← readFields data
        match fields.seqId, fields.prevSeqId with
        | some seqIdText, some prevSeqIdText =>
            let prevSeqId ← Json.parseLL prevSeqIdText
            return some ⟨prevSeqId, seqIdText, fields.bids, fields.asks⟩
        | _, _ =>
            throw (.runtimeError ("Malformed books channel message: ".toList ++ data))

def applySide (array : Option Text) (key : Text) : EStateM Exn (OrderBook D) PUnit :=
  match array with
  | some levels => applyLevels levels key
  | none => pure .unit

/-- The book the levels of an accepted push are applied to. -/
def BookPush.base (push : BookPush) (book : OrderBook D) : OrderBook D :=
  if push.isSnapshot then book.beginSnapshot else book

/-- The part that writes, once a push is accepted. -/
def BookPush.apply (push : BookPush) : EStateM Exn (OrderBook D) PUnit := do
  modify push.base
  applySide push.bids kBids
  applySide push.asks kAsks
  let seqId ← lift (Json.parseLL push.seqIdText)
  modify fun book => book.setSeqId seqId

/-- A non-snapshot push must chain directly onto the last applied seqId. -/
def BookPush.gaps (push : BookPush) (book : OrderBook D) : Bool :=
  !push.isSnapshot && book.hasSnapshot && push.prevSeqId != book.lastSeqId

def applyBookMessage (message : Text) : EStateM Exn (OrderBook D) BookMessageResult := do
  match ← lift (readPush message) with
  | none => return .kIgnored
  | some push =>
      let book ← get
      if push.gaps book then
        return .kGapDetected
      push.apply
      return .kApplied

/-!
## JsonBookSource
-/

/-- The source, the messages it sent after a gap and the books it published. -/
structure JsonBookSource (D : Type) [DoubleArith D] where
  book : OrderBook D
  instId : Text
  sent : List Text
  published : List (OrderBook D)

namespace JsonBookSource

def initial (instId : Text) : JsonBookSource D := ⟨.initial, instId, [], []⟩

def unsubscribeMsg (source : JsonBookSource D) : Text :=
  "\x7b\"op\":\"unsubscribe\",\"args\":[\x7b\"channel\":\"books\",\"instId\":\"".toList ++
    source.instId ++ "\"\x7d]\x7d".toList

def resubscribeMsg (source : JsonBookSource D) : Text :=
  "\x7b\"op\":\"subscribe\",\"args\":[\x7b\"channel\":\"books\",\"instId\":\"".toList ++
    source.instId ++ "\"\x7d]\x7d".toList

def onMessage (message : Text) : EStateM Exn (JsonBookSource D) PUnit := fun source =>
  match applyBookMessage message source.book with
  | .error exception book => .error exception { source with book := book }
  | .ok .kApplied book =>
      .ok .unit { source with book := book, published := source.published ++ [book] }
  | .ok .kGapDetected book =>
      .ok .unit { source with
        book := book, sent := source.sent ++ [source.unsubscribeMsg, source.resubscribeMsg] }
  | .ok .kIgnored book => .ok .unit { source with book := book }

end JsonBookSource

end TradingEngine
