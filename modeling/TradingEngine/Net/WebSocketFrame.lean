import TradingEngine.Common.Basic
import TradingEngine.Library.StreamDecoder

/-! WebSocket frames: the decoder of what the server sends, the encoder of what the
client sends, and the buffer a fragmented message is put together in. -/

set_option autoImplicit false

namespace TradingEngine

inductive WebSocketOpcode where
  | kContinuation
  | kText
  | kBinary
  | kClose
  | kPing
  | kPong
  deriving DecidableEq, Repr

def WebSocketOpcode.value : WebSocketOpcode → UInt8
  | .kContinuation => 0x0
  | .kText => 0x1
  | .kBinary => 0x2
  | .kClose => 0x8
  | .kPing => 0x9
  | .kPong => 0xA

/-- The opcode of a value, where `kValidOpcodes` has one. -/
def opcodeOf (value : UInt8) : Option WebSocketOpcode :=
  match value.toNat with
  | 0x0 => some .kContinuation
  | 0x1 => some .kText
  | 0x2 => some .kBinary
  | 0x8 => some .kClose
  | 0x9 => some .kPing
  | 0xA => some .kPong
  | _ => none

structure WebSocketFrameHeader where
  fin : Bool
  opcode : WebSocketOpcode
  payloadLength : Nat
  headerSize : Nat
  deriving DecidableEq, Repr

structure WebSocketFrame where
  header : WebSocketFrameHeader
  payload : Bytes
  totalSize : Nat
  deriving DecidableEq, Repr

def kBaseHeaderSize : Nat := 2
def kFinBit : UInt8 := 0x80
def kRsvMask : UInt8 := 0x70
def kOpcodeMask : UInt8 := 0x0F
def kMaskBit : UInt8 := 0x80
def kPayloadLengthMask : UInt8 := 0x7F
def kExtended16Marker : UInt8 := 126
def kExtended64Marker : UInt8 := 127
def kExtended16Bytes : Nat := 2
def kExtended64Bytes : Nat := 8
def kMaxBaseLength : Nat := 125
def kMaxExtended16Length : Nat := 0xFFFF

/-!
## Decoding
-/

/-- The byte at a position inside the data. -/
def byteAt (data : Bytes) (offset : Nat) : UInt8 := data.getD offset 0

def readBigEndian16 (data : Bytes) (offset : Nat) : Nat :=
  (byteAt data offset).toNat <<< 8 ||| (byteAt data (offset + 1)).toNat

def readBigEndian64 (data : Bytes) (offset : Nat) : Nat :=
  [0, 2, 4, 6].foldl (fun value chunk => (value <<< 16) % 2 ^ 64 ||| readBigEndian16 data (offset + chunk)) 0

def reservedBitsError : Exn :=
  .runtimeError "WebSocket frame sets reserved bits with no extension negotiated".toList

def maskedError : Exn := .runtimeError "WebSocket frame from server must not be masked".toList

def reservedOpcodeError : Exn := .runtimeError "WebSocket frame uses a reserved opcode".toList

/-- A header whose length field takes `extended` bytes more, read by `readLength`. -/
def extendedHeader (fin : Bool) (opcode : WebSocketOpcode) (extended : Nat) (readLength : Bytes → Nat → Nat)
    (data : Bytes) : Option WebSocketFrameHeader :=
  let headerSize := kBaseHeaderSize + extended
  if data.length < headerSize then none
  else some ⟨fin, opcode, readLength data kBaseHeaderSize, headerSize⟩

def decodeFrameHeader (data : Bytes) : Except Exn (Option WebSocketFrameHeader) :=
  if data.length < kBaseHeaderSize then .ok none
  else
    let byte0 := byteAt data 0
    let byte1 := byteAt data 1
    if byte0 &&& kRsvMask ≠ 0 then .error reservedBitsError
    else if byte1 &&& kMaskBit ≠ 0 then .error maskedError
    else
      match opcodeOf (byte0 &&& kOpcodeMask) with
      | none => .error reservedOpcodeError
      | some opcode =>
          let fin : Bool := byte0 &&& kFinBit ≠ 0
          let lengthMarker := byte1 &&& kPayloadLengthMask
          if lengthMarker = kExtended16Marker then
            .ok (extendedHeader fin opcode kExtended16Bytes readBigEndian16 data)
          else if lengthMarker = kExtended64Marker then
            .ok (extendedHeader fin opcode kExtended64Bytes readBigEndian64 data)
          else .ok (some ⟨fin, opcode, lengthMarker.toNat, kBaseHeaderSize⟩)

/-- The frame a header begins, once all of it is there. The sum of the sizes wraps. -/
def frameOf (data : Bytes) (header : WebSocketFrameHeader) : Option WebSocketFrame :=
  let totalSize := sizeAdd header.headerSize header.payloadLength
  if data.length < totalSize then none
  else some ⟨header, (data.drop header.headerSize).take header.payloadLength, totalSize⟩

def decodeFrame (data : Bytes) : Except Exn (Option WebSocketFrame) :=
  match decodeFrameHeader data with
  | .error exception => .error exception
  | .ok header => .ok (header.bind (frameOf data))

/-- `DecodeFrame` as the decoder of the receive loop. -/
def frameDecoder : Library.StreamDecoder.Decoder UInt8 WebSocketFrame Exn :=
  ⟨decodeFrame, WebSocketFrame.totalSize, .outOfFuel⟩

/-!
## Encoding
-/

def bigEndian16 (value : Nat) : Bytes := [UInt8.ofNat (value >>> 8), UInt8.ofNat value]

def bigEndian64 (value : Nat) : Bytes := [48, 32, 16, 0].flatMap fun shift => bigEndian16 (value >>> shift)

abbrev MaskKey := Vector UInt8 4

/-- The length field of a frame that is masked. -/
def lengthField (payloadLength : Nat) : Bytes :=
  if payloadLength ≤ kMaxBaseLength then [kMaskBit ||| UInt8.ofNat payloadLength]
  else if payloadLength ≤ kMaxExtended16Length then (kMaskBit ||| kExtended16Marker) :: bigEndian16 payloadLength
  else (kMaskBit ||| kExtended64Marker) :: bigEndian64 payloadLength

/-- `EncodeFrame` with the masking key it draws. -/
def encodeFrame (maskKey : MaskKey) (opcode : WebSocketOpcode) (payload : Bytes) : Bytes :=
  (kFinBit ||| opcode.value) :: lengthField payload.length ++ maskKey.toList ++
    payload.mapIdx fun index original => original ^^^ maskKey[index % 4]

/-!
## Messages
-/

/-- `WebSocketReassembler`: the bytes gathered so far, and whether they are a message. -/
structure WebSocketReassembler where
  message : Bytes
  complete : Bool
  deriving DecidableEq, Repr

namespace WebSocketReassembler

def empty : WebSocketReassembler := ⟨[], false⟩

def append (capacity : Nat) (payload : Bytes) (fin : Bool) (reassembler : WebSocketReassembler) :
    Except Exn WebSocketReassembler :=
  if capacity - reassembler.message.length < payload.length then
    .error (.runtimeError "WebSocket message exceeds reassembly buffer capacity".toList)
  else .ok ⟨reassembler.message ++ payload, fin⟩

end WebSocketReassembler

def kOkxPingText : Text := "ping".toList
def kOkxPongText : Text := "pong".toList

def isOkxPong (frame : WebSocketFrame) : Bool :=
  frame.header.opcode = .kText && frame.payload = toBytes kOkxPongText

/-- The opcode of the reply `BuildControlResponse` makes to a frame, with its payload. -/
def controlReply (opcode : WebSocketOpcode) : Option WebSocketOpcode :=
  match opcode with
  | .kPing => some .kPong
  | .kClose => some .kClose
  | .kContinuation | .kText | .kBinary | .kPong => none

end TradingEngine
