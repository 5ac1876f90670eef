import TradingEngine.Library.WordRecords
import TradingEngine.MarketData.SbeBbo

/-! The best-bid-offer message as the schema lays it out, and the decoder against it.
The decoder inverts the layout, accepts what is valid and reads only inside the
message. -/

set_option autoImplicit false

namespace TradingEngine.Sbe

open Library.LittleEndian

/-!
## The schema
-/

/-- The primitive types of the schema that the message uses. -/
inductive PrimitiveType where
  | uint16
  | int8
  | int32
  | int64

def PrimitiveType.size : PrimitiveType → Nat
  | .uint16 => 2
  | .int8 => 1
  | .int32 => 4
  | .int64 => 8

/-- The values of the fields of `BboTbtChannelEvent`. -/
structure BboTbtChannelEvent where
  instIdCode : BitVec 64
  tsUs : BitVec 64
  outTime : BitVec 64
  seqId : BitVec 64
  askPxMantissa : BitVec 64
  askSzMantissa : BitVec 64
  bidPxMantissa : BitVec 64
  bidSzMantissa : BitVec 64
  askOrdCount : BitVec 32
  bidOrdCount : BitVec 32
  pxExponent : BitVec 8
  szExponent : BitVec 8

/-- The fields in the order of the schema. -/
def BboTbtChannelEvent.fields (event : BboTbtChannelEvent) : List (PrimitiveType × Nat) :=
  [(.int64, event.instIdCode.toNat), (.int64, event.tsUs.toNat), (.int64, event.outTime.toNat),
    (.int64, event.seqId.toNat), (.int64, event.askPxMantissa.toNat), (.int64, event.askSzMantissa.toNat),
    (.int64, event.bidPxMantissa.toNat), (.int64, event.bidSzMantissa.toNat), (.int32, event.askOrdCount.toNat),
    (.int32, event.bidOrdCount.toNat), (.int8, event.pxExponent.toNat), (.int8, event.szExponent.toNat)]

/-- The fields of `messageHeader`, for template 1000 of schema 1. -/
def messageHeader (blockLength : Nat) (version : BitVec 16) : List (PrimitiveType × Nat) :=
  [(.uint16, blockLength), (.uint16, 1000), (.uint16, 1), (.uint16, version.toNat)]

def sized (fields : List (PrimitiveType × Nat)) : List (Nat × Nat) := fields.map fun field => (field.1.size, field.2)

/-- Fields without gaps, the least significant byte first. -/
def layOut (fields : List (PrimitiveType × Nat)) : Text := record Char.ofNat (sized fields)

/-- A message whose block goes on after the known fields, with something behind it. -/
def BboTbtChannelEvent.message (event : BboTbtChannelEvent) (version : BitVec 16) (more trailer : Text) : Text :=
  layOut (messageHeader (kBboTbtBlockLength + more.length) version) ++ (layOut event.fields ++ (more ++ trailer))

/-- What the fields say, as exact numbers. -/
def BboTbtChannelEvent.bbo (event : BboTbtChannelEvent) : BboTbt ℚ where
  instIdCode := event.instIdCode.toInt
  tsUs := event.tsUs.toInt
  outTime := event.outTime.toInt
  seqId := event.seqId.toInt
  askPx := event.askPxMantissa.toInt * (10 : ℚ) ^ event.pxExponent.toInt
  askSz := event.askSzMantissa.toInt * (10 : ℚ) ^ event.szExponent.toInt
  bidPx := event.bidPxMantissa.toInt * (10 : ℚ) ^ event.pxExponent.toInt
  bidSz := event.bidSzMantissa.toInt * (10 : ℚ) ^ event.szExponent.toInt
  askOrdCount := event.askOrdCount.toInt
  bidOrdCount := event.bidOrdCount.toInt

/-!
## Loads
-/

theorem littleEndian_eq (text : Text) : littleEndian text = read (fun c => c.toNat % 256) text := by
  induction text with
  | nil => rfl
  | cons c rest ih => rw [littleEndian, Library.LittleEndian.read, ih]

theorem toNat_ofNat {number : Nat} (small : number < 256) : (Char.ofNat number).toNat % 256 = number := by
  have valid : number.isValidChar := .inl (by omega)
  rw [Char.ofNat, dif_pos valid]
  exact Nat.mod_eq_of_lt small

theorem loadUnsigned_field {fields : List (PrimitiveType × Nat)} {index number : Nat} {type : PrimitiveType}
    (field : fields[index]? = some (type, number)) (fits : number < 256 ^ type.size) (rest : Text) :
    loadUnsigned type.size (layOut fields ++ rest) (offset (sized fields) index) = number := by
  have here : (sized fields)[index]? = some (type.size, number) := by rw [sized, List.getElem?_map, field]; rfl
  rw [loadUnsigned, layOut, field_at here, littleEndian_eq, read_write (fun _ small => toNat_ofNat small) fits]

theorem loadSigned_of_unsigned {bits width : Nat} (wide : bits = 8 * width) {number : BitVec bits} {source : Text} {place : Nat}
    (loaded : loadUnsigned width source place = number.toNat) (some_bits : 0 < width) :
    loadSigned width source place = number.toInt := by
  subst wide
  have half : 2 ^ (8 * width) = 2 * 2 ^ (8 * width - 1) := by
    rw [← Nat.pow_succ']
    congr 1
    omega
  rw [loadSigned, loaded, BitVec.toInt_eq_toNat_cond]
  split_ifs <;> first | rfl | omega

theorem loadSigned_field {fields : List (PrimitiveType × Nat)} {index bits : Nat} {type : PrimitiveType} {number : BitVec bits}
    (field : fields[index]? = some (type, number.toNat)) (wide : bits = 8 * type.size) (rest : Text) :
    loadSigned type.size (layOut fields ++ rest) (offset (sized fields) index) = number.toInt := by
  have fits : number.toNat < 256 ^ type.size := by
    have bytes : 2 ^ bits = 256 ^ type.size := by rw [wide, Nat.pow_mul]
    exact bytes ▸ number.isLt
  refine loadSigned_of_unsigned wide (loadUnsigned_field field fits rest) ?_
  cases type <;> decide

/-!
## Decoding what is laid out
-/

theorem magnitude_rat (steps : Nat) : (magnitude steps : ℚ) = 10 ^ steps := by
  induction steps with
  | zero => rfl
  | succ steps ih =>
      rw [magnitude, ih, pow_succ]
      rfl

theorem scale_rat (mantissa exponent : Int) : (scale mantissa exponent : ℚ) = mantissa * 10 ^ exponent := by
  change (mantissa : ℚ) * pow10 exponent = _
  congr 1
  unfold pow10
  split_ifs with negative
  · obtain ⟨steps, rfl⟩ : ∃ steps : Nat, exponent = -steps := ⟨exponent.natAbs, by omega⟩
    rw [magnitude_rat, Int.natAbs_neg, Int.natAbs_natCast, zpow_neg, zpow_natCast]
    exact one_div _
  · obtain ⟨steps, rfl⟩ := Int.eq_ofNat_of_zero_le (not_lt.mp negative)
    rw [magnitude_rat, Int.natAbs_natCast, zpow_natCast]

/-- The widths of the known fields. -/
def blockWidths : List Nat := [8, 8, 8, 8, 8, 8, 8, 8, 4, 4, 1, 1]

theorem offset_fields (event : BboTbtChannelEvent) (index : Nat) :
    offset (sized event.fields) index = (blockWidths.take index).sum := by
  rw [offset, List.map_take]
  rfl

theorem exponentInRange_iff (exponent : Int) : exponentInRange exponent = true ↔ -18 ≤ exponent ∧ exponent ≤ 18 := by
  rw [exponentInRange, Bool.and_eq_true, decide_eq_true_iff, decide_eq_true_iff]
  rfl

section Inverse

variable (event : BboTbtChannelEvent) (version : BitVec 16) (more trailer : Text)

theorem length_messageHeader (blockLength : Nat) : (layOut (messageHeader blockLength version)).length = kHeaderSize :=
  length_record _ _

theorem length_fields : (layOut event.fields).length = kBboTbtBlockLength := length_record _ _

theorem drop_header : (event.message version more trailer).drop kHeaderSize = layOut event.fields ++ (more ++ trailer) :=
  List.drop_left' (length_messageHeader version _)

variable {more}

theorem decodeHeader_message (fits : kBboTbtBlockLength + more.length < 2 ^ 16) :
    decodeHeader (event.message version more trailer) =
      some ⟨kBboTbtBlockLength + more.length, kBboTbtTemplateId, kSchemaId, version.toNat⟩ := by
  have length : kHeaderSize ≤ (event.message version more trailer).length := by
    rw [BboTbtChannelEvent.message, List.length_append, length_messageHeader]
    omega
  have load (index : Nat) {number : Nat}
      (field : (messageHeader (kBboTbtBlockLength + more.length) version)[index]? = some (.uint16, number))
      (small : number < 2 ^ 16) :
      loadUnsigned 2 (event.message version more trailer)
        (offset (sized (messageHeader (kBboTbtBlockLength + more.length) version)) index) = number :=
    loadUnsigned_field field small _
  have blockLength : loadUnsigned 2 (event.message version more trailer) kBlockLengthOffset = _ := load 0 rfl fits
  have templateId : loadUnsigned 2 (event.message version more trailer) kTemplateIdOffset = _ := load 1 rfl (by decide)
  have schemaId : loadUnsigned 2 (event.message version more trailer) kSchemaIdOffset = _ := load 2 rfl (by decide)
  have versionLoaded : loadUnsigned 2 (event.message version more trailer) kVersionOffset = _ := load 3 rfl version.isLt
  rw [decodeHeader, if_neg (by omega), blockLength, templateId, schemaId, versionLoaded]
  rfl

/-- The decoder inverts the layout. -/
theorem decodeBboTbt_message (fits : kBboTbtBlockLength + more.length < 2 ^ 16)
    (pxInRange : -18 ≤ event.pxExponent.toInt ∧ event.pxExponent.toInt ≤ 18)
    (szInRange : -18 ≤ event.szExponent.toInt ∧ event.szExponent.toInt ≤ 18) :
    decodeBboTbt (event.message version more trailer) = some event.bbo := by
  have length : (event.message version more trailer).length =
      kHeaderSize + (kBboTbtBlockLength + more.length + trailer.length) := by
    rw [BboTbtChannelEvent.message, List.length_append, length_messageHeader, List.length_append, length_fields,
      List.length_append, Nat.add_assoc kBboTbtBlockLength]
  have load (index place : Nat) (type : PrimitiveType) {bits : Nat} (number : BitVec bits)
      (field : event.fields[index]? = some (type, number.toNat)) (wide : bits = 8 * type.size)
      (begins : (blockWidths.take index).sum = place) :
      loadSigned type.size (layOut event.fields ++ (more ++ trailer)) place = number.toInt := by
    rw [← begins, ← offset_fields event]
    exact loadSigned_field field wide _
  have pxExponent := load 10 kPxExponentOffset .int8 event.pxExponent rfl rfl rfl
  have szExponent := load 11 kSzExponentOffset .int8 event.szExponent rfl rfl rfl
  have instIdCode := load 0 kInstIdCodeOffset .int64 event.instIdCode rfl rfl rfl
  have tsUs := load 1 kTsUsOffset .int64 event.tsUs rfl rfl rfl
  have outTime := load 2 kOutTimeOffset .int64 event.outTime rfl rfl rfl
  have seqId := load 3 kSeqIdOffset .int64 event.seqId rfl rfl rfl
  have askPx := load 4 kAskPxMantissaOffset .int64 event.askPxMantissa rfl rfl rfl
  have askSz := load 5 kAskSzMantissaOffset .int64 event.askSzMantissa rfl rfl rfl
  have bidPx := load 6 kBidPxMantissaOffset .int64 event.bidPxMantissa rfl rfl rfl
  have bidSz := load 7 kBidSzMantissaOffset .int64 event.bidSzMantissa rfl rfl rfl
  have askOrdCount := load 8 kAskOrdCountOffset .int32 event.askOrdCount rfl rfl rfl
  have bidOrdCount := load 9 kBidOrdCountOffset .int32 event.bidOrdCount rfl rfl rfl
  simp only [PrimitiveType.size] at pxExponent szExponent instIdCode tsUs outTime seqId
  simp only [PrimitiveType.size] at askPx askSz bidPx bidSz askOrdCount bidOrdCount
  rw [decodeBboTbt, decodeHeader_message event version trailer fits]
  dsimp only
  rw [if_neg (by simp), if_neg (by omega), drop_header, pxExponent, szExponent, if_neg, instIdCode, tsUs, outTime, seqId, askPx,
    askSz, bidPx, bidSz, askOrdCount, bidOrdCount, scale_rat, scale_rat, scale_rat, scale_rat]
  · rfl
  · simp [(exponentInRange_iff _).mpr pxInRange, (exponentInRange_iff _).mpr szInRange]

end Inverse

/-!
## Acceptance and reads
-/

/-- What a message needs to be decoded. -/
structure Accepted (message : Text) : Prop where
  header : kHeaderSize ≤ message.length
  schemaId : loadUnsigned 2 message 4 = 1
  templateId : loadUnsigned 2 message 2 = 1000
  blockLength : 74 ≤ loadUnsigned 2 message 0
  size : kHeaderSize + loadUnsigned 2 message 0 ≤ message.length
  pxExponent : -18 ≤ loadSigned 1 (message.drop kHeaderSize) 72 ∧ loadSigned 1 (message.drop kHeaderSize) 72 ≤ 18
  szExponent : -18 ≤ loadSigned 1 (message.drop kHeaderSize) 73 ∧ loadSigned 1 (message.drop kHeaderSize) 73 ≤ 18

variable {D : Type} [DoubleArith D]

theorem decodeBboTbt_isSome_iff (message : Text) :
    (decodeBboTbt message : Option (BboTbt D)).isSome = true ↔ Accepted message := by
  rw [decodeBboTbt, decodeHeader]
  by_cases short : message.length < kHeaderSize
  · rw [if_pos short]
    exact iff_of_false Bool.false_ne_true fun accepted => absurd accepted.header (not_le.mpr short)
  rw [if_neg short]
  dsimp only
  by_cases foreign : loadUnsigned 2 message kSchemaIdOffset ≠ kSchemaId ∨ loadUnsigned 2 message kTemplateIdOffset ≠ kBboTbtTemplateId
  · rw [if_pos foreign]
    refine iff_of_false Bool.false_ne_true fun accepted => ?_
    rcases foreign with schema | template
    · exact absurd accepted.schemaId schema
    · exact absurd accepted.templateId template
  rw [if_neg foreign]
  rw [not_or, not_not, not_not] at foreign
  by_cases cut : loadUnsigned 2 message kBlockLengthOffset < kBboTbtBlockLength ∨
      message.length < kHeaderSize + loadUnsigned 2 message kBlockLengthOffset
  · rw [if_pos cut]
    refine iff_of_false Bool.false_ne_true fun accepted => ?_
    rcases cut with small | long
    · exact absurd accepted.blockLength (not_le.mpr small)
    · exact absurd accepted.size (not_le.mpr long)
  rw [if_neg cut]
  rw [not_or, not_lt, not_lt] at cut
  by_cases ranges : exponentInRange (loadSigned 1 (message.drop kHeaderSize) kPxExponentOffset) = true ∧
      exponentInRange (loadSigned 1 (message.drop kHeaderSize) kSzExponentOffset) = true
  · rw [if_neg (by simp [ranges])]
    exact ⟨fun _ => ⟨not_lt.mp short, foreign.1, foreign.2, cut.1, cut.2, (exponentInRange_iff _).mp ranges.1,
      (exponentInRange_iff _).mp ranges.2⟩, fun _ => rfl⟩
  · have outside : (!exponentInRange (loadSigned 1 (message.drop kHeaderSize) kPxExponentOffset) ||
        !exponentInRange (loadSigned 1 (message.drop kHeaderSize) kSzExponentOffset)) = true := by
      rw [← Bool.not_and, Bool.not_eq_true', ← Bool.not_eq_true, Bool.and_eq_true]
      exact ranges
    rw [if_pos outside]
    refine iff_of_false Bool.false_ne_true fun accepted => absurd ?_ ranges
    exact ⟨(exponentInRange_iff _).mpr accepted.pxExponent, (exponentInRange_iff _).mpr accepted.szExponent⟩

namespace Checked

/-- The bytes of a load, a fault where it reaches past the end. -/
def bytes (width : Nat) (source : Text) (offset : Nat) : Except Fault Text :=
  if offset + width ≤ source.length then .ok ((source.drop offset).take width) else .error .outOfRange

def loadUnsigned (width : Nat) (source : Text) (offset : Nat) : Except Fault Nat := do
  return littleEndian (← bytes width source offset)

def loadSigned (width : Nat) (source : Text) (offset : Nat) : Except Fault Int := do
  let value ← loadUnsigned width source offset
  return if value < 2 ^ (8 * width - 1) then (value : Int) else (value : Int) - 2 ^ (8 * width)

def decodeHeader (message : Text) : Except Fault (Option MessageHeader) := do
  if message.length < kHeaderSize then return none
  return some {
    blockLength := ← loadUnsigned 2 message kBlockLengthOffset
    templateId := ← loadUnsigned 2 message kTemplateIdOffset
    schemaId := ← loadUnsigned 2 message kSchemaIdOffset
    version := ← loadUnsigned 2 message kVersionOffset }

def decodeBboTbt (message : Text) : Except Fault (Option (BboTbt D)) := do
  match ← decodeHeader message with
  | none => return none
  | some header =>
      if header.schemaId ≠ kSchemaId ∨ header.templateId ≠ kBboTbtTemplateId then return none
      if header.blockLength < kBboTbtBlockLength ∨ message.length < kHeaderSize + header.blockLength then return none
      let block := message.drop kHeaderSize
      let pxExponent ← loadSigned 1 block kPxExponentOffset
      let szExponent ← loadSigned 1 block kSzExponentOffset
      if !exponentInRange pxExponent || !exponentInRange szExponent then return none
      return some {
        instIdCode := ← loadSigned 8 block kInstIdCodeOffset
        tsUs := ← loadSigned 8 block kTsUsOffset
        outTime := ← loadSigned 8 block kOutTimeOffset
        seqId := ← loadSigned 8 block kSeqIdOffset
        askPx := scale (← loadSigned 8 block kAskPxMantissaOffset) pxExponent
        askSz := scale (← loadSigned 8 block kAskSzMantissaOffset) szExponent
        bidPx := scale (← loadSigned 8 block kBidPxMantissaOffset) pxExponent
        bidSz := scale (← loadSigned 8 block kBidSzMantissaOffset) szExponent
        askOrdCount := ← loadSigned 4 block kAskOrdCountOffset
        bidOrdCount := ← loadSigned 4 block kBidOrdCountOffset }

theorem loadUnsigned_eq {width offset : Nat} {source : Text} (inside : offset + width ≤ source.length) :
    loadUnsigned width source offset = .ok (Sbe.loadUnsigned width source offset) := by
  rw [loadUnsigned, bytes, if_pos inside]
  rfl

theorem loadSigned_eq {width offset : Nat} {source : Text} (inside : offset + width ≤ source.length) :
    loadSigned width source offset = .ok (Sbe.loadSigned width source offset) := by
  rw [loadSigned, loadUnsigned_eq inside]
  rfl

theorem decodeHeader_eq (message : Text) : decodeHeader message = .ok (Sbe.decodeHeader message) := by
  rw [decodeHeader, Sbe.decodeHeader]
  by_cases short : message.length < kHeaderSize
  · rw [if_pos short, if_pos short]
    rfl
  · have long : 8 ≤ message.length := not_lt.mp short
    rw [if_neg short, if_neg short]
    have inside {offset : Nat} (small : offset + 2 ≤ 8) : offset + 2 ≤ message.length := small.trans long
    rw [loadUnsigned_eq (inside (by decide)), loadUnsigned_eq (inside (by decide)), loadUnsigned_eq (inside (by decide)),
      loadUnsigned_eq (inside (by decide))]
    rfl

/-- No load reaches outside the message. -/
theorem decodeBboTbt_eq (message : Text) : decodeBboTbt message = .ok (Sbe.decodeBboTbt message : Option (BboTbt D)) := by
  rw [decodeBboTbt, Sbe.decodeBboTbt, decodeHeader_eq]
  cases Sbe.decodeHeader message with
  | none => rfl
  | some header =>
      change (if _ then _ else _) = _
      dsimp only
      by_cases foreign : header.schemaId ≠ kSchemaId ∨ header.templateId ≠ kBboTbtTemplateId
      · rw [if_pos foreign, if_pos foreign]
        rfl
      rw [if_neg foreign, if_neg foreign]
      by_cases cut : header.blockLength < kBboTbtBlockLength ∨ message.length < kHeaderSize + header.blockLength
      · rw [if_pos cut, if_pos cut]
        rfl
      rw [if_neg cut, if_neg cut]
      have long : 74 ≤ (message.drop kHeaderSize).length := by
        rw [not_or, not_lt, not_lt, kBboTbtBlockLength] at cut
        rw [List.length_drop]
        omega
      have inside {width offset : Nat} (small : offset + width ≤ 74) : offset + width ≤ (message.drop kHeaderSize).length :=
        small.trans long
      rw [loadSigned_eq (inside (by decide)), loadSigned_eq (inside (by decide))]
      change (if _ then _ else _) = _
      by_cases outside : (!exponentInRange (Sbe.loadSigned 1 (message.drop kHeaderSize) kPxExponentOffset) ||
          !exponentInRange (Sbe.loadSigned 1 (message.drop kHeaderSize) kSzExponentOffset)) = true
      · rw [if_pos outside, if_pos outside]
        rfl
      rw [if_neg outside, if_neg outside, loadSigned_eq (inside (by decide)), loadSigned_eq (inside (by decide)),
        loadSigned_eq (inside (by decide)), loadSigned_eq (inside (by decide)), loadSigned_eq (inside (by decide)),
        loadSigned_eq (inside (by decide)), loadSigned_eq (inside (by decide)), loadSigned_eq (inside (by decide)),
        loadSigned_eq (inside (by decide)), loadSigned_eq (inside (by decide))]
      rfl

end Checked

/-- The decoder inverts the layout of the schema; it returns a value only for what is
valid, and no load reaches outside the message. -/
theorem bbo_decoding_exact :
    (∀ (event : BboTbtChannelEvent) (version : BitVec 16) (more trailer : Text), 74 + more.length < 2 ^ 16 →
      (-18 ≤ event.pxExponent.toInt ∧ event.pxExponent.toInt ≤ 18) →
      (-18 ≤ event.szExponent.toInt ∧ event.szExponent.toInt ≤ 18) →
      decodeBboTbt (event.message version more trailer) = some event.bbo) ∧
    ∀ message : Text, ((decodeBboTbt message : Option (BboTbt D)).isSome = true ↔ Accepted message) ∧
      Checked.decodeBboTbt message = .ok (decodeBboTbt message : Option (BboTbt D)) :=
  ⟨fun event version _ trailer fits pxInRange szInRange => decodeBboTbt_message event version trailer fits pxInRange szInRange,
    fun message => ⟨decodeBboTbt_isSome_iff message, Checked.decodeBboTbt_eq message⟩⟩

/-- A negative mantissa and exponent, three bytes more in the block and two behind it. -/
def sampleEvent : BboTbtChannelEvent where
  instIdCode := 7
  tsUs := 1
  outTime := 2
  seqId := 3
  askPxMantissa := -250001
  askSzMantissa := 5
  bidPxMantissa := 24999
  bidSzMantissa := 4
  askOrdCount := 6
  bidOrdCount := -1
  pxExponent := -2
  szExponent := 0

theorem bbo_decoding_exact_extended : decodeBboTbt (sampleEvent.message 0 ['x', 'y', 'z'] ['u', 'v']) = some sampleEvent.bbo :=
  (bbo_decoding_exact (D := ℚ)).1 sampleEvent 0 ['x', 'y', 'z'] ['u', 'v'] (by decide) (by decide) (by decide)

end TradingEngine.Sbe
