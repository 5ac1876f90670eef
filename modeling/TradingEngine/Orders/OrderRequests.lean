import TradingEngine.Util.Json

/-! Order requests: their ids, the messages sent over the private WebSocket, and the
reading of the answers to REST orders. -/

set_option autoImplicit false

namespace TradingEngine

open Library.Exec

/-- What `GenerateId` keeps between calls, and the clock it reads. -/
structure IdSource where
  lastId : Nat
  systemClock : Clock

namespace IdSource

def nextId (source : IdSource) : Nat := max (source.lastId + 1) source.systemClock.now.toNat

def advanced (source : IdSource) : IdSource := ⟨source.nextId, source.systemClock.tick⟩

/-- `last_id` is a `long long`; there is no id when it cannot be counted on. -/
def generateId : EStateM Fault IdSource Text := do
  let source ← get
  if 2 ^ 63 ≤ source.lastId + 1 then throw .outOfRange
  else
    set source.advanced
    return toDecimal source.nextId

theorem run_generateId {source : IdSource} (room : source.lastId + 1 < 2 ^ 63) :
    generateId source = .ok (toDecimal source.nextId) source.advanced := by
  rw [generateId, run_bind_ok (run_get _), if_neg (by omega)]
  rfl

end IdSource

structure OrderRequest where
  instId : Text
  side : Text
  ordType : Text
  px : Text
  sz : Text
  instIdCode : Int
  deriving DecidableEq, Repr

/-- A message built for `Send`, under its request id where it has one. -/
inductive Outgoing where
  | order (id : Text) (request : OrderRequest)
  | amendOrder (id : Text) (instIdCode : Int) (ordId newPx newSz : Text)
  | cancelOrder (id : Text) (instIdCode : Int) (ordId : Text)
  | other (message : Text)
  deriving DecidableEq, Repr

def formatOrderArg (request : OrderRequest) (clOrdId : Text) : Text :=
  "\x7b\"instIdCode\":".toList ++ toDecimalInt request.instIdCode ++ ",\"tdMode\":\"".toList ++ kCash ++
    "\",\"side\":\"".toList ++ request.side ++ "\",\"ordType\":\"".toList ++ request.ordType ++
    "\",\"px\":\"".toList ++ request.px ++ "\",\"sz\":\"".toList ++ request.sz ++
    "\",\"clOrdId\":\"".toList ++ clOrdId ++ "\"\x7d".toList

/-- The text handed to the socket. -/
def Outgoing.message : Outgoing → Text
  | .order id request =>
      "\x7b\"id\":\"".toList ++ id ++ "\",\"op\":\"order\",\"args\":[".toList ++
        formatOrderArg request id ++ "]\x7d".toList
  | .amendOrder id instIdCode ordId newPx newSz =>
      "\x7b\"id\":\"".toList ++ id ++ "\",\"op\":\"amend-order\",\"args\":[\x7b\"instIdCode\":".toList ++
        toDecimalInt instIdCode ++ ",\"ordId\":\"".toList ++ ordId ++ "\",\"newPx\":\"".toList ++ newPx ++
        "\",\"newSz\":\"".toList ++ newSz ++ "\"\x7d]\x7d".toList
  | .cancelOrder id instIdCode ordId =>
      "\x7b\"id\":\"".toList ++ id ++ "\",\"op\":\"cancel-order\",\"args\":[\x7b\"instIdCode\":".toList ++
        toDecimalInt instIdCode ++ ",\"ordId\":\"".toList ++ ordId ++ "\"\x7d]\x7d".toList
  | .other message => message

def marketOrderError : Exn := .invalidArgument "Market orders are not yet supported".toList

structure OrderResult where
  accepted : Bool := false
  ordId : Text := []
  clOrdId : Text := []
  code : Text := []
  sCode : Text := []
  sMsg : Text := []

def valueOrEmpty (value : Option Text) : Text := value.getD kEmpty

/-- Reads the two-level envelope of a REST order answer; a missing field is left
empty and the order counts as not accepted. -/
def parseOrderResult (body : Text) : OrderResult :=
  let code := valueOrEmpty (Json.findString body kCode)
  match findData body with
  | none => { code := code }
  | some data =>
      let sCode := valueOrEmpty (Json.findString data kSCode)
      { accepted := code = kSuccessCode && sCode = kSuccessCode
        ordId := valueOrEmpty (Json.findString data kOrdId)
        clOrdId := valueOrEmpty (Json.findString data kClOrdId)
        code := code
        sCode := sCode
        sMsg := valueOrEmpty (Json.findString data kSMsg) }

end TradingEngine
