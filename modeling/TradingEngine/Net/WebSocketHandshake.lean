import TradingEngine.Common.Basic
import TradingEngine.Library.Exec

/-! The upgrade handshake over a connected transport. The response is read until the
end of its header block has arrived; what came with it in the same read is dropped. -/

set_option autoImplicit false

namespace TradingEngine

open Library.Exec

/-- A connected socket, as the successive reads will return its bytes. -/
structure Transport where
  reads : List Bytes
  written : Bytes

namespace Transport

/-- The connection ends where the reads do. -/
def readSome : EStateM Exn Transport Bytes := fun transport =>
  match transport.reads with
  | [] => .error (.runtimeError "read_some: End of file".toList) transport
  | read :: rest => .ok read { transport with reads := rest }

def write (data : Bytes) : EStateM Exn Transport PUnit :=
  modify fun transport => { transport with written := transport.written ++ data }

end Transport

def npos : Nat := 2 ^ 64 - 1

/-- Offset of the first occurrence of `pattern`. -/
def findBytes (pattern : Bytes) : Bytes → Option Nat
  | [] => if pattern = [] then some 0 else none
  | byte :: rest =>
      if pattern.isPrefixOf (byte :: rest) then some 0 else (findBytes pattern rest).map (· + 1)

/-- `std::string_view::find` from a position on. -/
def findFrom (text pattern : Bytes) (pos : Nat) : Nat :=
  if pos ≤ text.length then ((findBytes pattern (text.drop pos)).map (· + pos)).getD npos else npos

def substrBytes (text : Bytes) (pos count : Nat) : Bytes := (text.drop pos).take count

def kExpectedStatusLine : Bytes := toBytes "HTTP/1.1 101".toList
def kAcceptHeaderName : Bytes := toBytes "sec-websocket-accept".toList
def kCrLf : Bytes := [13, 10]
def kColon : UInt8 := 58
def kWhitespace : UInt8 := 32
def kHeaderTerminator : Bytes := [13, 10, 13, 10]

def toLower (text : Bytes) : Bytes := text.map fun c => if 65 ≤ c ∧ c ≤ 90 then c + 32 else c

/-- The loop of `ReadHandshakeResponse`; `reads` bounds the reads left. -/
def readUntilTerminator : Nat → Bytes → EStateM Exn Transport Bytes
  | 0, _ => throw .outOfFuel
  | reads + 1, response =>
      if findFrom response kHeaderTerminator 0 ≠ npos then return response
      else do
        let chunk ← Transport.readSome
        readUntilTerminator reads (response ++ chunk)

def readHandshakeResponse : EStateM Exn Transport Bytes := do
  let transport ← get
  readUntilTerminator (transport.reads.length + 1) []

/-- The value of a header line, without its leading blanks. -/
def headerValue (line : Bytes) (colon : Nat) : Bytes := (line.drop (colon + 1)).dropWhile (· = kWhitespace)

/-- The loop of `FindHeader`. The position is a `std::size_t` and wraps with it. -/
def findHeaderFrom (response name : Bytes) : Nat → Nat → Except Exn (Option Bytes)
  | 0, _ => .error .outOfFuel
  | lines + 1, pos =>
      if pos < response.length then
        let lineEnd := findFrom response kCrLf pos
        let line := substrBytes response pos (sizeSub lineEnd pos)
        if line = [] then .ok none
        else
          let colon := findFrom line [kColon] 0
          if colon ≠ npos ∧ toLower (line.take colon) = name then .ok (some (headerValue line colon))
          else findHeaderFrom response name lines (sizeAdd lineEnd kCrLf.length)
      else .ok none

def findHeader (response name : Bytes) : Except Exn (Option Bytes) :=
  findHeaderFrom response name (response.length + 1) 0

def handshakeRequest (host path : Text) (key : Bytes) (extraHeaders : List Text) : Bytes :=
  toBytes ("GET ".toList ++ path ++ " HTTP/1.1\r\nHost: ".toList ++ host ++
      "\r\nUpgrade: websocket\r\nConnection: Upgrade\r\nSec-WebSocket-Key: ".toList) ++ key ++
    toBytes "\r\nSec-WebSocket-Version: 13\r\n".toList ++
    extraHeaders.flatMap (fun header => toBytes header ++ kCrLf) ++ kCrLf

def handshakeError (what : String) : Exn := .runtimeError ("WebSocket handshake failed".toList ++ what.toList)

/-- The checks on the response. -/
def checkHandshakeResponse (expectedAccept response : Bytes) : Except Exn PUnit :=
  if !kExpectedStatusLine.isPrefixOf response then
    .error (.runtimeError ("WebSocket handshake failed with error: ".toList ++
      Bytes.toText (substrBytes response 0 (findFrom response kCrLf 0))))
  else do
    match ← findHeader response kAcceptHeaderName with
    | none => throw (handshakeError ": missing Sec-WebSocket-Accept header")
    | some accept =>
        if accept ≠ expectedAccept then throw (handshakeError ": Sec-WebSocket-Accept did not verify")
        else return .unit

/-- `PerformWebSocketHandshake` with the key it draws. `expectedAccept` is the digest
the key calls for, `ComputeExpectedAccept`. -/
def performWebSocketHandshake (host path : Text) (extraHeaders : List Text) (key : Bytes)
    (expectedAccept : Bytes → Bytes) : EStateM Exn Transport PUnit := do
  Transport.write (handshakeRequest host path key extraHeaders)
  let response ← readHandshakeResponse
  lift (checkHandshakeResponse (expectedAccept key) response)

end TradingEngine
