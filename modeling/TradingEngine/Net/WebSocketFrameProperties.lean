import TradingEngine.Net.WebSocketFrame

/-! The decoder against the bytes a frame of a server begins with, and against the frames
themselves: a frame is read from its bytes whatever follows, and never before they are
all there. -/

set_option autoImplicit false

namespace TradingEngine

open Library.StreamDecoder

/-!
## Big-endian numbers
-/

theorem toNat_lt (byte : UInt8) : byte.toNat < 256 := byte.toNat_lt

theorem readBigEndian16_eq (data : Bytes) (offset : Nat) :
    readBigEndian16 data offset = (byteAt data offset).toNat * 256 + (byteAt data (offset + 1)).toNat := by
  have low := toNat_lt (byteAt data (offset + 1))
  rw [readBigEndian16, ← Nat.shiftLeft_add_eq_or_of_lt (i := 8) low, Nat.shiftLeft_eq]

theorem readBigEndian16_lt (data : Bytes) (offset : Nat) : readBigEndian16 data offset < 65536 := by
  have high := toNat_lt (byteAt data offset)
  have low := toNat_lt (byteAt data (offset + 1))
  rw [readBigEndian16_eq]
  omega

theorem readBigEndian64_eq (data : Bytes) (offset : Nat) :
    readBigEndian64 data offset = ((readBigEndian16 data offset * 65536 + readBigEndian16 data (offset + 2)) * 65536 +
      readBigEndian16 data (offset + 4)) * 65536 + readBigEndian16 data (offset + 6) := by
  have join {value word : Nat} (small : value < 2 ^ 48) (short : word < 65536) :
      (value <<< 16) % 2 ^ 64 ||| word = value * 65536 + word := by
    have shifted : (value <<< 16) % 2 ^ 64 = value <<< 16 := by
      rw [Nat.shiftLeft_eq]
      omega
    rw [shifted, ← Nat.shiftLeft_add_eq_or_of_lt (i := 16) short, Nat.shiftLeft_eq]
  have first := readBigEndian16_lt data offset
  have second := readBigEndian16_lt data (offset + 2)
  have third := readBigEndian16_lt data (offset + 4)
  have fourth := readBigEndian16_lt data (offset + 6)
  simp only [readBigEndian64, List.foldl_cons, List.foldl_nil, Nat.add_zero]
  rw [join (by omega) first, Nat.zero_mul, Nat.zero_add, join (by omega) second, join (by omega) third,
    join (by omega) fourth]

/-- The number that bytes spell, the first of them the highest. -/
def bigEndianValue (bytes : Bytes) : Nat := bytes.foldl (fun value byte => value * 256 + byte.toNat) 0

theorem readBigEndian16_field (first second : UInt8) {field : Bytes} (two : field.length = 2) (rest : Bytes) :
    readBigEndian16 (first :: second :: field ++ rest) 2 = bigEndianValue field := by
  match field, two with
  | [high, low], _ =>
      rw [readBigEndian16_eq]
      simp [byteAt, bigEndianValue]

theorem readBigEndian64_field (first second : UInt8) {field : Bytes} (eight : field.length = 8) (rest : Bytes) :
    readBigEndian64 (first :: second :: field ++ rest) 2 = bigEndianValue field := by
  match field, eight with
  | [b0, b1, b2, b3, b4, b5, b6, b7], _ =>
      rw [readBigEndian64_eq]
      simp only [readBigEndian16_eq, byteAt, bigEndianValue, List.cons_append, List.getD_cons_succ,
        List.getD_cons_zero, List.foldl_cons, List.foldl_nil]
      ring

theorem bigEndianValue_bigEndian16 {value : Nat} (short : value ≤ kMaxExtended16Length) :
    bigEndianValue (bigEndian16 value) = value := by
  unfold kMaxExtended16Length at short
  simp only [bigEndianValue, bigEndian16, List.foldl_cons, List.foldl_nil, UInt8.toNat_ofNat',
    Nat.shiftRight_eq_div_pow]
  omega

theorem bigEndianValue_bigEndian64 {value : Nat} (short : value < 2 ^ 64) :
    bigEndianValue (bigEndian64 value) = value := by
  simp only [bigEndianValue, bigEndian64, bigEndian16, List.flatMap_cons, List.flatMap_nil, List.cons_append,
    List.nil_append, List.foldl_cons, List.foldl_nil, UInt8.toNat_ofNat', Nat.shiftRight_eq_div_pow]
  omega

theorem bigEndianValue_lt (bytes : Bytes) : bigEndianValue bytes < 256 ^ bytes.length := by
  induction bytes using List.reverseRecOn with
  | nil => decide
  | append_singleton bytes byte ih =>
      have low := toNat_lt byte
      simp only [bigEndianValue, List.foldl_append, List.foldl_cons, List.foldl_nil, List.length_append,
        List.length_singleton, pow_succ] at ih ⊢
      omega

/-!
## Headers
-/

def ServerFrame.byte0 (fin : Bool) (opcode : WebSocketOpcode) : UInt8 :=
  if fin then kFinBit ||| opcode.value else opcode.value

/-- The bytes an unmasked frame without reserved bits may begin with, and the length of
the payload that they declare. -/
inductive Declares (fin : Bool) (opcode : WebSocketOpcode) : Bytes → Nat → Prop where
  | base (length : Nat) (short : length ≤ kMaxBaseLength) :
      Declares fin opcode [ServerFrame.byte0 fin opcode, UInt8.ofNat length] length
  | extended16 (field : Bytes) (two : field.length = kExtended16Bytes) :
      Declares fin opcode (ServerFrame.byte0 fin opcode :: kExtended16Marker :: field) (bigEndianValue field)
  | extended64 (field : Bytes) (eight : field.length = kExtended64Bytes) :
      Declares fin opcode (ServerFrame.byte0 fin opcode :: kExtended64Marker :: field) (bigEndianValue field)

open ServerFrame (byte0)

/-- A property of bytes that holds of each of the 256. -/
@[elab_as_elim]
theorem byte_forall {motive : UInt8 → Prop} (all : ∀ value : Fin 256, motive (UInt8.ofNat value)) (byte : UInt8) :
    motive byte := by
  have here := all ⟨byte.toNat, toNat_lt byte⟩
  rwa [UInt8.ofNat_toNat] at here

theorem byte0_bits (fin : Bool) (opcode : WebSocketOpcode) :
    byte0 fin opcode &&& kRsvMask = 0 ∧ opcodeOf (byte0 fin opcode &&& kOpcodeMask) = some opcode ∧
      (byte0 fin opcode &&& kFinBit ≠ 0 ↔ fin = true) := by
  cases fin <;> cases opcode <;> decide

theorem byte0_of_bits (byte : UInt8) (opcode : WebSocketOpcode) : byte &&& kRsvMask = 0 →
    opcodeOf (byte &&& kOpcodeMask) = some opcode → byte = byte0 (byte &&& kFinBit ≠ 0) opcode := by
  refine byte_forall ?_ byte
  cases opcode <;> decide +kernel

theorem marker_bits {length : Nat} (short : length ≤ 127) :
    UInt8.ofNat length &&& kMaskBit = 0 ∧ UInt8.ofNat length &&& kPayloadLengthMask = UInt8.ofNat length := by
  have all : ∀ value : Fin 128, UInt8.ofNat value &&& kMaskBit = 0 ∧
      UInt8.ofNat value &&& kPayloadLengthMask = UInt8.ofNat value := by decide
  exact all ⟨length, by omega⟩

theorem marker_of_bits (marker : UInt8) : marker &&& kMaskBit = 0 →
    marker &&& kPayloadLengthMask = marker ∧ marker.toNat ≤ 127 := by
  refine byte_forall ?_ marker
  decide +kernel

theorem marker_ne {marker : UInt8} (short : marker.toNat ≤ kMaxBaseLength) :
    marker ≠ kExtended16Marker ∧ marker ≠ kExtended64Marker := by
  constructor
  all_goals
    rintro rfl
    revert short
    decide

/-- The header of a frame, by its marker of the length. -/
theorem decodeFrameHeader_cons (fin : Bool) (opcode : WebSocketOpcode) {marker : UInt8}
    (unmasked : marker &&& kMaskBit = 0) (whole : marker &&& kPayloadLengthMask = marker) (rest : Bytes) :
    decodeFrameHeader (byte0 fin opcode :: marker :: rest) = .ok (
      if marker = kExtended16Marker then
        extendedHeader fin opcode kExtended16Bytes readBigEndian16 (byte0 fin opcode :: marker :: rest)
      else if marker = kExtended64Marker then
        extendedHeader fin opcode kExtended64Bytes readBigEndian64 (byte0 fin opcode :: marker :: rest)
      else some ⟨fin, opcode, marker.toNat, kBaseHeaderSize⟩) := by
  obtain ⟨unreserved, named, final⟩ := byte0_bits fin opcode
  have first : byteAt (byte0 fin opcode :: marker :: rest) 0 = byte0 fin opcode := rfl
  have second : byteAt (byte0 fin opcode :: marker :: rest) 1 = marker := rfl
  have finBit : decide (byte0 fin opcode &&& kFinBit ≠ 0) = fin := by
    rw [Bool.eq_iff_iff, decide_eq_true_iff]
    exact final
  have long : ¬ (byte0 fin opcode :: marker :: rest).length < kBaseHeaderSize := by
    simp [kBaseHeaderSize]
  unfold decodeFrameHeader
  rw [if_neg long]
  simp only [first, second, unreserved, unmasked, named, whole, finBit, ne_eq, not_true_eq_false, if_false]
  split
  · rfl
  · split <;> rfl

theorem extendedHeader_of_field {fin : Bool} {opcode : WebSocketOpcode} {extended : Nat}
    {readLength : Bytes → Nat → Nat} {first second : UInt8} {field : Bytes} (rest : Bytes)
    (whole : field.length = extended)
    (spelled : readLength (first :: second :: field ++ rest) kBaseHeaderSize = bigEndianValue field) :
    extendedHeader fin opcode extended readLength (first :: second :: field ++ rest) =
      some ⟨fin, opcode, bigEndianValue field, (first :: second :: field).length⟩ := by
  have long : ¬ (first :: second :: field ++ rest).length < kBaseHeaderSize + extended := by
    simp only [List.length_append, List.length_cons, kBaseHeaderSize]
    omega
  have size : kBaseHeaderSize + extended = (first :: second :: field).length := by
    simp only [List.length_cons, kBaseHeaderSize]
    omega
  simp only [extendedHeader]
  rw [if_neg long, spelled, size]

/-- A head is enough to read its header. -/
theorem decodeFrameHeader_of_declares {fin : Bool} {opcode : WebSocketOpcode} {head : Bytes} {length : Nat}
    (declares : Declares fin opcode head length) (rest : Bytes) :
    decodeFrameHeader (head ++ rest) = .ok (some ⟨fin, opcode, length, head.length⟩) := by
  cases declares with
  | base _ short =>
      have value : (UInt8.ofNat length).toNat = length := by
        unfold kMaxBaseLength at short
        rw [UInt8.toNat_ofNat']
        omega
      obtain ⟨unmasked, whole⟩ := marker_bits (show length ≤ 127 by unfold kMaxBaseLength at short; omega)
      obtain ⟨not16, not64⟩ := marker_ne (value.trans_le short)
      have decoded := decodeFrameHeader_cons fin opcode unmasked whole rest
      rw [if_neg not16, if_neg not64, value] at decoded
      exact decoded
  | extended16 field two =>
      have decoded := decodeFrameHeader_cons fin opcode (show kExtended16Marker &&& kMaskBit = 0 from rfl) rfl
        (field ++ rest)
      rw [if_pos rfl] at decoded
      exact decoded.trans
        (congrArg Except.ok (extendedHeader_of_field rest two (readBigEndian16_field _ _ two rest)))
  | extended64 field eight =>
      have decoded := decodeFrameHeader_cons fin opcode (show kExtended64Marker &&& kMaskBit = 0 from rfl) rfl
        (field ++ rest)
      rw [if_neg (by decide), if_pos rfl] at decoded
      exact decoded.trans
        (congrArg Except.ok (extendedHeader_of_field rest eight (readBigEndian64_field _ _ eight rest)))

/-- A header that was read stands at the front of the data. -/
def HasHead (data : Bytes) (header : WebSocketFrameHeader) : Prop :=
  ∃ head rest, data = head ++ rest ∧ head.length = header.headerSize ∧
    Declares header.fin header.opcode head header.payloadLength

theorem hasHead_of_extendedHeader {fin : Bool} {opcode : WebSocketOpcode} {extended : Nat}
    {readLength : Bytes → Nat → Nat} {first second : UInt8} {others : Bytes} {header : WebSocketFrameHeader}
    (declares : ∀ field rest : Bytes, field.length = extended → others = field ++ rest →
      Declares fin opcode (first :: second :: field) (readLength (first :: second :: others) kBaseHeaderSize))
    (read : extendedHeader fin opcode extended readLength (first :: second :: others) = some header) :
    HasHead (first :: second :: others) header := by
  unfold extendedHeader at read
  by_cases short : (first :: second :: others).length < kBaseHeaderSize + extended
  · rw [if_pos short] at read
    cases read
  · rw [if_neg short] at read
    cases read
    have enough : extended ≤ others.length := by
      simp only [List.length_cons, kBaseHeaderSize] at short
      omega
    have whole : (others.take extended).length = extended := by
      rw [List.length_take]
      omega
    refine ⟨first :: second :: others.take extended, others.drop extended, by simp, ?_, ?_⟩
    · simp only [List.length_cons, whole, kBaseHeaderSize]
      omega
    · exact declares _ _ whole (List.take_append_drop extended others).symm

/-- The checks a header has passed. -/
theorem of_decodeFrameHeader {first second : UInt8} {others : Bytes} {header : Option WebSocketFrameHeader}
    (read : decodeFrameHeader (first :: second :: others) = .ok header) :
    second &&& kMaskBit = 0 ∧ ∃ fin opcode, first = byte0 fin opcode := by
  have long : ¬ (first :: second :: others).length < kBaseHeaderSize := by simp [kBaseHeaderSize]
  unfold decodeFrameHeader at read
  rw [if_neg long] at read
  simp only [byteAt, List.getD_cons_zero, List.getD_cons_succ] at read
  split at read
  · cases read
  · rename_i unreserved
    split at read
    · cases read
    · rename_i unmasked
      split at read
      · cases read
      · rename_i opcode named
        exact ⟨not_not.mp unmasked, _, opcode, byte0_of_bits first opcode (not_not.mp unreserved) named⟩

theorem hasHead_of_decodeFrameHeader {data : Bytes} {header : WebSocketFrameHeader}
    (read : decodeFrameHeader data = .ok (some header)) : HasHead data header := by
  match data with
  | [] => cases read
  | [_] => cases read
  | first :: second :: others =>
      obtain ⟨unmasked, fin, opcode, rfl⟩ := of_decodeFrameHeader read
      obtain ⟨whole, short⟩ := marker_of_bits second unmasked
      rw [decodeFrameHeader_cons fin opcode unmasked whole] at read
      split at read
      · rename_i is16
        subst is16
        refine hasHead_of_extendedHeader ?_ (Except.ok.inj read)
        rintro field rest two rfl
        rw [show kBaseHeaderSize = 2 from rfl, ← List.cons_append, ← List.cons_append, readBigEndian16_field _ _ two]
        exact .extended16 field two
      · rename_i not16
        split at read
        · rename_i is64
          subst is64
          refine hasHead_of_extendedHeader ?_ (Except.ok.inj read)
          rintro field rest eight rfl
          rw [show kBaseHeaderSize = 2 from rfl, ← List.cons_append, ← List.cons_append,
            readBigEndian64_field _ _ eight]
          exact .extended64 field eight
        · rename_i not64
          cases read
          have declares : Declares fin opcode _ _ := .base second.toNat ?_
          · rw [UInt8.ofNat_toNat] at declares
            exact ⟨_, others, rfl, rfl, declares⟩
          · unfold kMaxBaseLength
            by_contra long
            rcases (show second.toNat = 126 ∨ second.toNat = 127 by omega) with value | value
            · exact not16 (UInt8.toNat_inj.mp value)
            · exact not64 (UInt8.toNat_inj.mp value)

/-!
## Frames of a server
-/

inductive LengthForm where
  | base
  | extended16
  | extended64
  deriving DecidableEq, Repr

namespace LengthForm

/-- The lengths a form can hold; the protocol leaves the top bit of 64 unused. -/
def holds : LengthForm → Nat → Prop
  | .base, length => length ≤ kMaxBaseLength
  | .extended16, length => length ≤ kMaxExtended16Length
  | .extended64, length => length < 2 ^ 63

instance : (form : LengthForm) → (length : Nat) → Decidable (form.holds length)
  | .base, length => inferInstanceAs (Decidable (length ≤ kMaxBaseLength))
  | .extended16, length => inferInstanceAs (Decidable (length ≤ kMaxExtended16Length))
  | .extended64, length => inferInstanceAs (Decidable (length < 2 ^ 63))

/-- The length field of a frame that is not masked. -/
def field : LengthForm → Nat → Bytes
  | .base, length => [UInt8.ofNat length]
  | .extended16, length => kExtended16Marker :: bigEndian16 length
  | .extended64, length => kExtended64Marker :: bigEndian64 length

def headerSize : LengthForm → Nat
  | .base => 2
  | .extended16 => 4
  | .extended64 => 10

@[simp] theorem length_field (form : LengthForm) (length : Nat) :
    (form.field length).length + 1 = form.headerSize := by
  cases form <;> rfl

end LengthForm

/-- An unmasked frame with a valid opcode and no reserved bits. -/
structure ServerFrame where
  fin : Bool
  opcode : WebSocketOpcode
  payload : Bytes
  form : LengthForm
  fits : form.holds payload.length

namespace ServerFrame

/-- The bytes before the payload. -/
def head (frame : ServerFrame) : Bytes := byte0 frame.fin frame.opcode :: frame.form.field frame.payload.length

def wire (frame : ServerFrame) : Bytes := frame.head ++ frame.payload

def header (frame : ServerFrame) : WebSocketFrameHeader :=
  ⟨frame.fin, frame.opcode, frame.payload.length, frame.form.headerSize⟩

/-- The frame as the decoder returns it. -/
def decoded (frame : ServerFrame) : WebSocketFrame :=
  ⟨frame.header, frame.payload, frame.form.headerSize + frame.payload.length⟩

@[simp] theorem length_head (frame : ServerFrame) : frame.head.length = frame.form.headerSize := by
  simp [head]

theorem declares (frame : ServerFrame) : Declares frame.fin frame.opcode frame.head frame.payload.length := by
  obtain ⟨fin, opcode, payload, form, fits⟩ := frame
  cases form with
  | base => exact .base payload.length fits
  | extended16 =>
      have declares : Declares fin opcode _ _ := .extended16 (bigEndian16 payload.length) rfl
      rwa [bigEndianValue_bigEndian16 fits] at declares
  | extended64 =>
      have bounded : payload.length < 2 ^ 63 := fits
      have declares : Declares fin opcode _ _ := .extended64 (bigEndian64 payload.length) rfl
      rwa [bigEndianValue_bigEndian64 (by omega)] at declares

theorem decodeFrameHeader_head (frame : ServerFrame) (rest : Bytes) :
    decodeFrameHeader (frame.head ++ rest) = .ok (some frame.header) := by
  rw [decodeFrameHeader_of_declares frame.declares, length_head]
  rfl

/-- A part of the head is not. -/
theorem decodeFrameHeader_of_part {frame : ServerFrame} {front : Bytes} (part : front <+: frame.head)
    (proper : front ≠ frame.head) : decodeFrameHeader front = .ok none := by
  have shorter : front.length < frame.form.headerSize := by
    rw [← frame.length_head]
    exact lt_of_le_of_ne part.length_le fun same => proper (part.eq_of_length same)
  match front with
  | [] => rfl
  | [_] => rfl
  | first :: second :: rest =>
      obtain ⟨fin, opcode, payload, form, fits⟩ := frame
      obtain ⟨rfl, inField⟩ := List.cons_prefix_cons.mp part
      cases form with
      | base =>
          simp only [List.length_cons, LengthForm.headerSize] at shorter
          omega
      | extended16 =>
          obtain ⟨rfl, -⟩ := List.cons_prefix_cons.mp inField
          rw [decodeFrameHeader_cons fin opcode rfl rfl, if_pos rfl, extendedHeader, if_pos (by exact shorter)]
      | extended64 =>
          obtain ⟨rfl, -⟩ := List.cons_prefix_cons.mp inField
          rw [decodeFrameHeader_cons fin opcode rfl rfl, if_neg (by decide), if_pos rfl, extendedHeader,
            if_pos (by exact shorter)]

theorem totalSize_eq (frame : ServerFrame) :
    sizeAdd frame.header.headerSize frame.header.payloadLength = frame.form.headerSize + frame.payload.length := by
  refine sizeAdd_eq ?_
  obtain ⟨fin, opcode, payload, form, fits⟩ := frame
  cases form <;> simp only [LengthForm.holds, kMaxBaseLength, kMaxExtended16Length] at fits <;>
    simp only [header, LengthForm.headerSize] <;> omega

theorem encodes (frame : ServerFrame) : Encodes frameDecoder frame.wire frame.decoded where
  decodes rest := by
    have read := frame.decodeFrameHeader_head (frame.payload ++ rest)
    rw [← List.append_assoc] at read
    simp only [frameDecoder, decodeFrame, wire, read, Option.bind_some, frameOf, frame.totalSize_eq]
    rw [if_neg (by simp)]
    have behind : (frame.head ++ frame.payload ++ rest).drop frame.header.headerSize = frame.payload ++ rest := by
      rw [List.append_assoc]
      exact List.drop_left' frame.length_head
    rw [behind]
    simp [decoded, header]
  silent front part proper := by
    obtain ⟨back, whole⟩ := part
    simp only [frameDecoder, decodeFrame]
    by_cases inHead : frame.head <+: front
    · obtain ⟨payload, rfl⟩ := inHead
      have shorter : payload.length < frame.payload.length := by
        rw [wire, List.append_assoc, List.append_cancel_left_eq] at whole
        rw [← whole, List.length_append, Nat.lt_add_right_iff_pos, List.length_pos_iff]
        rintro rfl
        exact proper (by rw [wire, ← whole, List.append_nil])
      rw [frame.decodeFrameHeader_head]
      simp only [Option.bind_some, frameOf, frame.totalSize_eq]
      rw [if_pos]
      simpa using shorter
    · have part : front <+: frame.head := by
        rcases List.append_eq_append_iff.mp whole with ⟨missing, same, -⟩ | ⟨extra, same, -⟩
        · exact ⟨missing, same.symm⟩
        · exact absurd ⟨extra, same.symm⟩ inHead
      rw [decodeFrameHeader_of_part part fun same => inHead (same ▸ List.prefix_rfl)]
      rfl
  size := by simp [frameDecoder, decoded, wire]
  nonempty := by simp [wire, head]

end ServerFrame

/-- A frame that was read, in terms of its bytes. -/
structure ReadFrom (data : Bytes) (frame : WebSocketFrame) : Prop where
  header : decodeFrameHeader data = .ok (some frame.header)
  payload : frame.payload = (data.drop frame.header.headerSize).take frame.header.payloadLength
  totalSize : frame.totalSize = sizeAdd frame.header.headerSize frame.header.payloadLength
  enough : frame.totalSize ≤ data.length

theorem readFrom_of_decodeFrame {data : Bytes} {frame : WebSocketFrame} (read : decodeFrame data = .ok (some frame)) :
    ReadFrom data frame := by
  unfold decodeFrame at read
  split at read
  · cases read
  · rename_i header decoded
    obtain ⟨header, rfl, framed⟩ := Option.bind_eq_some_iff.mp (Except.ok.inj read)
    unfold frameOf at framed
    dsimp only at framed
    by_cases short : data.length < sizeAdd header.headerSize header.payloadLength
    · rw [if_pos short] at framed
      cases framed
    · rw [if_neg short] at framed
      cases framed
      exact ⟨decoded, rfl, rfl, not_lt.mp short⟩

/-- The size of the shortest header a payload of this length can have. -/
def minimalHeaderSize (length : Nat) : Nat :=
  if length ≤ kMaxBaseLength then 2 else if length ≤ kMaxExtended16Length then 4 else 10

theorem length_encodeFrame (key : MaskKey) (opcode : WebSocketOpcode) (payload : Bytes) :
    (encodeFrame key opcode payload).length = minimalHeaderSize payload.length + 4 + payload.length := by
  have field : (lengthField payload.length).length + 1 = minimalHeaderSize payload.length := by
    unfold lengthField minimalHeaderSize
    split
    · rfl
    · split <;> rfl
  simp only [encodeFrame, List.length_append, List.length_cons, List.length_mapIdx, Vector.length_toList]
  omega

end TradingEngine
