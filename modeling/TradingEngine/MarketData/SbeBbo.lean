import TradingEngine.MarketData.OrderBook

/-! The binary best-bid-offer feed: the message decoder and the source whose
every accepted message replaces the whole book by one level a side. -/

set_option autoImplicit false

namespace TradingEngine.Sbe

def kHeaderSize : Nat := 8
def kSchemaId : Nat := 1
def kBboTbtTemplateId : Nat := 1000
def kBboTbtBlockLength : Nat := 74

def kBlockLengthOffset : Nat := 0
def kTemplateIdOffset : Nat := 2
def kSchemaIdOffset : Nat := 4
def kVersionOffset : Nat := 6

def kInstIdCodeOffset : Nat := 0
def kTsUsOffset : Nat := 8
def kOutTimeOffset : Nat := 16
def kSeqIdOffset : Nat := 24
def kAskPxMantissaOffset : Nat := 32
def kAskSzMantissaOffset : Nat := 40
def kBidPxMantissaOffset : Nat := 48
def kBidSzMantissaOffset : Nat := 56
def kAskOrdCountOffset : Nat := 64
def kBidOrdCountOffset : Nat := 68
def kPxExponentOffset : Nat := 72
def kSzExponentOffset : Nat := 73

def kMinExponent : Int := -18
def kMaxExponent : Int := 18

/-- Little-endian value of a byte sequence. -/
def littleEndian : Text → Nat
  | [] => 0
  | byte :: rest => byte.toNat % 256 + 256 * littleEndian rest

def loadUnsigned (width : Nat) (source : Text) (offset : Nat) : Nat :=
  littleEndian ((source.drop offset).take width)

/-- Two's complement of `width` bytes. -/
def loadSigned (width : Nat) (source : Text) (offset : Nat) : Int :=
  let value := loadUnsigned width source offset
  if value < 2 ^ (8 * width - 1) then value else (value : Int) - 2 ^ (8 * width)

structure MessageHeader where
  blockLength : Nat
  templateId : Nat
  schemaId : Nat
  version : Nat

structure BboTbt (D : Type) where
  instIdCode : Int
  tsUs : Int
  outTime : Int
  seqId : Int
  askPx : D
  askSz : D
  bidPx : D
  bidSz : D
  askOrdCount : Int
  bidOrdCount : Int

def exponentInRange (exponent : Int) : Bool := kMinExponent ≤ exponent && exponent ≤ kMaxExponent

variable {D : Type} [DoubleArith D]

def magnitude : Nat → D
  | 0 => DoubleArith.lit 1
  | steps + 1 => DoubleArith.mul (magnitude steps) (DoubleArith.lit 10)

/-- The entry of the powers table for an exponent. -/
def pow10 (exponent : Int) : D :=
  if exponent < 0 then DoubleArith.div (DoubleArith.lit 1) (magnitude exponent.natAbs)
  else magnitude exponent.natAbs

def scale (mantissa exponent : Int) : D := DoubleArith.mul (DoubleArith.ofInt mantissa) (pow10 exponent)

def decodeHeader (message : Text) : Option MessageHeader :=
  if message.length < kHeaderSize then none
  else
    some {
      blockLength := loadUnsigned 2 message kBlockLengthOffset
      templateId := loadUnsigned 2 message kTemplateIdOffset
      schemaId := loadUnsigned 2 message kSchemaIdOffset
      version := loadUnsigned 2 message kVersionOffset }

def decodeBboTbt (message : Text) : Option (BboTbt D) :=
  match decodeHeader message with
  | none => none
  | some header =>
      if header.schemaId ≠ kSchemaId ∨ header.templateId ≠ kBboTbtTemplateId then none
      else if header.blockLength < kBboTbtBlockLength ∨
          message.length < kHeaderSize + header.blockLength then none
      else
        let block := message.drop kHeaderSize
        let pxExponent := loadSigned 1 block kPxExponentOffset
        let szExponent := loadSigned 1 block kSzExponentOffset
        if !exponentInRange pxExponent || !exponentInRange szExponent then none
        else
          some {
            instIdCode := loadSigned 8 block kInstIdCodeOffset
            tsUs := loadSigned 8 block kTsUsOffset
            outTime := loadSigned 8 block kOutTimeOffset
            seqId := loadSigned 8 block kSeqIdOffset
            askPx := scale (loadSigned 8 block kAskPxMantissaOffset) pxExponent
            askSz := scale (loadSigned 8 block kAskSzMantissaOffset) szExponent
            bidPx := scale (loadSigned 8 block kBidPxMantissaOffset) pxExponent
            bidSz := scale (loadSigned 8 block kBidSzMantissaOffset) szExponent
            askOrdCount := loadSigned 4 block kAskOrdCountOffset
            bidOrdCount := loadSigned 4 block kBidOrdCountOffset }

end TradingEngine.Sbe

namespace TradingEngine

variable {D : Type} [DoubleArith D]

/-- The source and the books it published. -/
structure SbeBboSource (D : Type) [DoubleArith D] where
  book : OrderBook D
  lastSeqId : Int
  published : List (OrderBook D)

namespace SbeBboSource

def initial : SbeBboSource D := ⟨.initial, -1, []⟩

/-- The book an accepted message leaves. -/
def replaceBook (bbo : Sbe.BboTbt D) (book : OrderBook D) : OrderBook D :=
  (((book.beginSnapshot).setBid bbo.bidPx bbo.bidSz).setAsk bbo.askPx bbo.askSz).setSeqId bbo.seqId

def onMessage (message : Text) (source : SbeBboSource D) : SbeBboSource D :=
  match Sbe.decodeBboTbt message with
  | none => source
  | some bbo =>
      if bbo.seqId ≤ source.lastSeqId then source
      else
        let book := replaceBook bbo source.book
        { book := book, lastSeqId := bbo.seqId, published := source.published ++ [book] }

end SbeBboSource

end TradingEngine
