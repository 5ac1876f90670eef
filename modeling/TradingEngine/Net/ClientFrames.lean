import TradingEngine.Net.WebSocketFrameProperties

/-! The frames the client sends, as a server reads them, and as the client's own
decoder would read them without their mask. -/

set_option autoImplicit false

namespace TradingEngine

/-!
## A server's decoder
-/

/-- A frame as a server that follows RFC 6455 reads it. -/
structure ClientFrame where
  fin : Bool
  opcode : Nat
  payload : Bytes
  deriving DecidableEq, Repr

/-- An extended length of so many bytes; a length a shorter form could hold is refused. -/
def referenceExtension (bytes tooShort : Nat) (rest : Bytes) : Option (Nat × Bytes) :=
  if rest.length < bytes ∨ bigEndianValue (rest.take bytes) ≤ tooShort then none
  else some (bigEndianValue (rest.take bytes), rest.drop bytes)

/-- The length of the payload, and what stands behind it. -/
def referenceLength (marker : Nat) (rest : Bytes) : Option (Nat × Bytes) :=
  if marker = 126 then referenceExtension 2 125 rest
  else if marker = 127 then referenceExtension 8 65535 rest
  else some (marker, rest)

def unmask (key masked : Bytes) : Bytes := masked.mapIdx fun index byte => byte ^^^ key.getD (index % 4) 0

/-- The first frame of some bytes and what follows it. Reserved bits are refused, and so
is a frame without a mask. -/
def referenceDecode : Bytes → Option (ClientFrame × Bytes)
  | byte0 :: byte1 :: rest =>
      if byte0.toNat / 16 % 8 ≠ 0 ∨ byte1.toNat < 128 then none
      else do
        let (length, rest) ← referenceLength (byte1.toNat - 128) rest
        if rest.length < 4 + length then none
        else
          let payload := unmask (rest.take 4) ((rest.drop 4).take length)
          return (⟨128 ≤ byte0.toNat, byte0.toNat % 16, payload⟩, rest.drop (4 + length))
  | _ => none

/-- A masked frame with the mask bit and the key taken out and the payload unmasked. -/
def withoutMask : Bytes → Bytes
  | byte0 :: byte1 :: rest =>
      let marker := byte1.toNat - 128
      let extension := if marker = 126 then 2 else if marker = 127 then 8 else 0
      byte0 :: UInt8.ofNat marker :: rest.take extension ++
        unmask ((rest.drop extension).take 4) (rest.drop (extension + 4))
  | data => data

/-!
## Lengths
-/

/-- The marker of a length and the bytes that extend it. -/
def lengthMarker (length : Nat) : Nat :=
  if length ≤ kMaxBaseLength then length else if length ≤ kMaxExtended16Length then 126 else 127

def lengthExtension (length : Nat) : Bytes :=
  if length ≤ kMaxBaseLength then []
  else if length ≤ kMaxExtended16Length then bigEndian16 length
  else bigEndian64 length

theorem lengthField_eq (length : Nat) :
    lengthField length = (kMaskBit ||| UInt8.ofNat (lengthMarker length)) :: lengthExtension length := by
  unfold lengthField lengthMarker lengthExtension
  split
  · rfl
  · split <;> rfl

theorem lengthMarker_le (length : Nat) : lengthMarker length ≤ 127 := by
  unfold lengthMarker kMaxBaseLength
  split
  · omega
  · split <;> omega

theorem toNat_masked {marker : Nat} (short : marker ≤ 127) : (kMaskBit ||| UInt8.ofNat marker).toNat = 128 + marker := by
  have all : ∀ value : Fin 128, (kMaskBit ||| UInt8.ofNat value).toNat = 128 + value := by decide
  exact all ⟨marker, by omega⟩

theorem byte0_parts (opcode : WebSocketOpcode) :
    (kFinBit ||| opcode.value).toNat / 16 % 8 = 0 ∧ 128 ≤ (kFinBit ||| opcode.value).toNat ∧
      (kFinBit ||| opcode.value).toNat % 16 = opcode.value.toNat := by
  cases opcode <;> decide

theorem referenceExtension_field {bytes tooShort : Nat} {field : Bytes} (exactly : field.length = bytes)
    (long : tooShort < bigEndianValue field) (rest : Bytes) :
    referenceExtension bytes tooShort (field ++ rest) = some (bigEndianValue field, rest) := by
  have front : (field ++ rest).take bytes = field := List.take_left' exactly
  have behind : (field ++ rest).drop bytes = rest := List.drop_left' exactly
  rw [referenceExtension, front, behind, if_neg]
  simp only [List.length_append, not_or]
  omega

/-- The length is read back, and was written in the shortest form. -/
theorem referenceLength_field {length : Nat} (short : length < 2 ^ 64) (rest : Bytes) :
    referenceLength (lengthMarker length) (lengthExtension length ++ rest) = some (length, rest) := by
  unfold referenceLength lengthMarker lengthExtension
  by_cases base : length ≤ kMaxBaseLength
  · have small : length ≤ 125 := base
    rw [if_pos base, if_pos base, if_neg (by omega), if_neg (by omega), List.nil_append]
  · have long : 125 < length := not_le.mp base
    by_cases extended : length ≤ kMaxExtended16Length
    · have value := bigEndianValue_bigEndian16 extended
      have read := referenceExtension_field (show (bigEndian16 length).length = 2 from rfl) (long.trans_eq value.symm) rest
      rw [value] at read
      rw [if_neg base, if_pos extended, if_neg base, if_pos extended, if_pos rfl, read]
    · have value := bigEndianValue_bigEndian64 short
      have longer : 65535 < length := not_le.mp extended
      have read := referenceExtension_field (show (bigEndian64 length).length = 8 from rfl) (longer.trans_eq value.symm) rest
      rw [value] at read
      rw [if_neg base, if_neg extended, if_neg base, if_neg extended, if_neg (by decide), if_pos rfl, read]

/-!
## Masks
-/

theorem mod_four_lt (index : Nat) : index % 4 < 4 := Nat.mod_lt index (Nat.succ_pos 3)

def masked (key : MaskKey) (payload : Bytes) : Bytes :=
  payload.mapIdx fun index original => original ^^^ getElem key (index % 4) (mod_four_lt index)

theorem unmask_masked (key : MaskKey) (payload : Bytes) : unmask key.toList (masked key payload) = payload := by
  unfold unmask masked
  rw [List.mapIdx_mapIdx]
  refine List.ext_getElem (by simp) fun index here there => ?_
  have bound : index % 4 < key.toList.length := by
    rw [Vector.length_toList]
    omega
  simp only [List.getElem_mapIdx, List.getD_eq_getElem _ _ bound, Vector.getElem_toList]
  dsimp only [Function.comp_apply]
  rw [UInt8.xor_assoc, UInt8.xor_self, UInt8.xor_zero]

@[simp] theorem length_masked (key : MaskKey) (payload : Bytes) : (masked key payload).length = payload.length := by
  simp [masked]

/-!
## Frames
-/

theorem encodeFrame_eq (key : MaskKey) (opcode : WebSocketOpcode) (payload : Bytes) :
    encodeFrame key opcode payload =
      (kFinBit ||| opcode.value) :: (kMaskBit ||| UInt8.ofNat (lengthMarker payload.length)) ::
        (lengthExtension payload.length ++ (key.toList ++ masked key payload)) := by
  rw [encodeFrame, lengthField_eq, ← masked]
  simp only [List.cons_append, List.append_assoc]

theorem referenceDecode_encodeFrame (key : MaskKey) (opcode : WebSocketOpcode) {payload : Bytes}
    (short : payload.length < 2 ^ 64) :
    referenceDecode (encodeFrame key opcode payload) = some (⟨true, opcode.value.toNat, payload⟩, []) := by
  obtain ⟨unreserved, final, named⟩ := byte0_parts opcode
  have marker := toNat_masked (lengthMarker_le payload.length)
  have front : (key.toList ++ masked key payload).take 4 = key.toList := List.take_left' key.length_toList
  have behind : (key.toList ++ masked key payload).drop 4 = masked key payload := List.drop_left' key.length_toList
  have whole : (masked key payload).take payload.length = masked key payload := List.take_of_length_le (by simp)
  have nothing : (key.toList ++ masked key payload).drop (4 + payload.length) = [] :=
    List.drop_of_length_le (by simp)
  have long : ¬ (key.toList ++ masked key payload).length < 4 + payload.length := by simp
  rw [encodeFrame_eq, referenceDecode, if_neg (by omega), marker, Nat.add_sub_cancel_left, referenceLength_field short,
    Option.bind_eq_bind, Option.bind_some]
  dsimp only
  rw [if_neg long, front, behind, whole, unmask_masked, nothing, named, decide_eq_true final]
  rfl

theorem length_lengthExtension (length : Nat) :
    (lengthExtension length).length =
      if lengthMarker length = 126 then 2 else if lengthMarker length = 127 then 8 else 0 := by
  unfold lengthExtension lengthMarker
  by_cases base : length ≤ kMaxBaseLength
  · have small : length ≤ 125 := base
    rw [if_pos base, if_pos base, if_neg (by omega), if_neg (by omega)]
    rfl
  · rw [if_neg base, if_neg base]
    split <;> rfl

/-- The head of the frame without its mask. -/
def unmaskedHead (opcode : WebSocketOpcode) (length : Nat) : Bytes :=
  (kFinBit ||| opcode.value) :: UInt8.ofNat (lengthMarker length) :: lengthExtension length

theorem withoutMask_encodeFrame (key : MaskKey) (opcode : WebSocketOpcode) (payload : Bytes) :
    withoutMask (encodeFrame key opcode payload) = unmaskedHead opcode payload.length ++ payload := by
  have marker := toNat_masked (lengthMarker_le payload.length)
  have front : (lengthExtension payload.length ++ (key.toList ++ masked key payload)).take
      (lengthExtension payload.length).length = lengthExtension payload.length := List.take_left' rfl
  have behind : (lengthExtension payload.length ++ (key.toList ++ masked key payload)).drop
      (lengthExtension payload.length).length = key.toList ++ masked key payload := List.drop_left' rfl
  have keyBytes : (key.toList ++ masked key payload).take 4 = key.toList := List.take_left' key.length_toList
  have bytes : (key.toList ++ masked key payload).drop 4 = masked key payload := List.drop_left' key.length_toList
  rw [encodeFrame_eq, withoutMask, marker, Nat.add_sub_cancel_left, ← length_lengthExtension, front, ← List.drop_drop,
    behind, keyBytes, bytes, unmask_masked]
  rfl

theorem declares_unmaskedHead (opcode : WebSocketOpcode) {length : Nat} (short : length < 2 ^ 64) :
    Declares true opcode (unmaskedHead opcode length) length := by
  unfold unmaskedHead lengthMarker lengthExtension
  by_cases base : length ≤ kMaxBaseLength
  · rw [if_pos base, if_pos base]
    exact .base length base
  · by_cases extended : length ≤ kMaxExtended16Length
    · have declares : Declares true opcode _ _ := .extended16 (bigEndian16 length) rfl
      rw [bigEndianValue_bigEndian16 extended] at declares
      rw [if_neg base, if_neg base, if_pos extended, if_pos extended]
      exact declares
    · have declares : Declares true opcode _ _ := .extended64 (bigEndian64 length) rfl
      rw [bigEndianValue_bigEndian64 short] at declares
      rw [if_neg base, if_neg base, if_neg extended, if_neg extended]
      exact declares

theorem length_unmaskedHead (opcode : WebSocketOpcode) (length : Nat) :
    (unmaskedHead opcode length).length = minimalHeaderSize length := by
  unfold unmaskedHead lengthExtension minimalHeaderSize
  split
  · rfl
  · split <;> rfl

/-- What the client's decoder makes of a whole frame: its size is the sum of the parts. -/
theorem decodeFrame_of_declares {opcode : WebSocketOpcode} {head payload : Bytes}
    (declares : Declares true opcode head payload.length) (fits : (head ++ payload).length < 2 ^ 64) :
    decodeFrame (head ++ payload) =
      .ok (some ⟨⟨true, opcode, payload.length, head.length⟩, payload, (head ++ payload).length⟩) := by
  rw [List.length_append] at fits
  unfold decodeFrame
  rw [decodeFrameHeader_of_declares declares]
  dsimp only [Option.bind_some, frameOf]
  rw [sizeAdd_eq fits, if_neg (by simp), List.drop_left' rfl, List.take_length, List.length_append]

/-- The frame of a payload is read back by the server, its length in the shortest form,
and without its mask by the client. -/
structure RoundTrips (key : MaskKey) (opcode : WebSocketOpcode) (payload : Bytes) : Prop where
  server : referenceDecode (encodeFrame key opcode payload) = some (⟨true, opcode.value.toNat, payload⟩, [])
  shortest : (encodeFrame key opcode payload).length = minimalHeaderSize payload.length + 4 + payload.length
  /-- The argument of the decoder is a string, whose size is below `2 ^ 64`. -/
  client : (withoutMask (encodeFrame key opcode payload)).length < 2 ^ 64 →
    decodeFrame (withoutMask (encodeFrame key opcode payload)) =
      .ok (some ⟨⟨true, opcode, payload.length, minimalHeaderSize payload.length⟩, payload,
        (withoutMask (encodeFrame key opcode payload)).length⟩)

theorem client_frames_round_trip (key : MaskKey) (opcode : WebSocketOpcode) {payload : Bytes}
    (short : payload.length < 2 ^ 64) : RoundTrips key opcode payload where
  server := referenceDecode_encodeFrame key opcode short
  shortest := length_encodeFrame key opcode payload
  client fits := by
    rw [withoutMask_encodeFrame] at fits ⊢
    rw [decodeFrame_of_declares (declares_unmaskedHead opcode short) fits, length_unmaskedHead]

theorem client_frames_round_trip_at_126 :
    RoundTrips #v[1, 2, 3, 4] .kText (List.replicate 126 65) :=
  client_frames_round_trip _ _ (by simp)

end TradingEngine
