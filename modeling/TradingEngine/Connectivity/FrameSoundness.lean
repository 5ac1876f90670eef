import TradingEngine.Connectivity.OkxWsClientProperties
import TradingEngine.Net.WebSocketFrameProperties

/-! What `DecodeFrame` returns against the bytes it was given, and the loop of `ReadLoop`
that drains the buffer with it. The size of a frame is a sum of `std::size_t` values: a
declared length of nearly 2^64 makes it wrap, and the loop may then take nothing. -/

set_option autoImplicit false

namespace TradingEngine

open Library.Exec Library.StreamDecoder

/-- The frame stands at the front of the data: a head, and the payload it declares. -/
structure SoundFrame (data : Bytes) (frame : WebSocketFrame) : Prop where
  totalSize : frame.totalSize = frame.header.headerSize + frame.header.payloadLength
  progress : 2 ≤ frame.totalSize
  within : frame.totalSize ≤ data.length
  length_payload : frame.payload.length = frame.header.payloadLength
  parts : ∃ head rest, data = head ++ frame.payload ++ rest ∧ head.length = frame.header.headerSize ∧
    Declares frame.header.fin frame.header.opcode head frame.header.payloadLength

def DecodesSoundly (data : Bytes) : Prop := ∀ frame, decodeFrame data = .ok (some frame) → SoundFrame data frame

/-- The data begin with a head whose size and declared length do not fit `std::size_t`. -/
def Wraps (data : Bytes) : Prop :=
  ∃ fin opcode head length rest, data = head ++ rest ∧ Declares fin opcode head length ∧ 2 ^ 64 ≤ head.length + length

/-- Such a head stands behind some number of whole frames. -/
inductive Wrapping : Bytes → Prop where
  | here {data : Bytes} : Wraps data → Wrapping data
  | later {fin : Bool} {opcode : WebSocketOpcode} {head payload rest : Bytes} :
      Declares fin opcode head payload.length → Wrapping rest → Wrapping (head ++ payload ++ rest)

/-- What the loop still has to drain before one of its iterations. -/
inductive Remains : Bytes → Bytes → Prop where
  | start (data : Bytes) : Remains data data
  | next {data rest : Bytes} {frame : WebSocketFrame} :
      decodeFrame data = .ok (some frame) → Remains (data.drop frame.totalSize) rest → Remains data rest

/-- Every iteration takes a sound frame, and there are at most half as many as bytes. -/
structure DrainsSoundly (data : Bytes) : Prop where
  sound : ∀ rest, Remains data rest → DecodesSoundly rest
  terminates : ∀ {σ : Type} (handle : WebSocketFrame → EStateM Exn σ PUnit),
    (∀ frame, Raises (· ≠ .outOfFuel) (handle frame)) → ∀ state exception next,
      drain frameDecoder handle (data.length / 2 + 1) ⟨data, state⟩ = .error exception next → exception ≠ .outOfFuel

/-!
## One frame
-/

namespace Declares

variable {fin : Bool} {opcode : WebSocketOpcode} {head : Bytes} {length : Nat}

theorem two_le_length (declares : Declares fin opcode head length) : 2 ≤ head.length := by
  cases declares <;> simp

theorem declared_lt (declares : Declares fin opcode head length) : length < 2 ^ 64 := by
  cases declares with
  | base _ short =>
      unfold kMaxBaseLength at short
      omega
  | extended16 field two =>
      have bound := bigEndianValue_lt field
      rw [two] at bound
      exact bound.trans (by decide)
  | extended64 field eight =>
      have bound := bigEndianValue_lt field
      rw [eight] at bound
      exact bound

/-- Only the longest form of the length makes the size wrap. -/
theorem length_of_wraps (declares : Declares fin opcode head length) (wraps : 2 ^ 64 ≤ head.length + length) :
    head.length = 10 := by
  cases declares with
  | base _ short =>
      simp only [kMaxBaseLength, List.length_cons, List.length_nil] at short wraps
      omega
  | extended16 field two =>
      have bound := bigEndianValue_lt field
      rw [two] at bound
      simp only [List.length_cons, two, kExtended16Bytes] at bound wraps
      omega
  | extended64 field eight => simp [eight, kExtended64Bytes]

/-- The decoder on a head, however the size comes out. -/
theorem decodeFrame_eq (declares : Declares fin opcode head length) (rest : Bytes)
    (enough : sizeAdd head.length length ≤ (head ++ rest).length) :
    decodeFrame (head ++ rest) =
      .ok (some ⟨⟨fin, opcode, length, head.length⟩, rest.take length, sizeAdd head.length length⟩) := by
  simp only [decodeFrame, decodeFrameHeader_of_declares declares, Option.bind_some, frameOf]
  rw [if_neg (not_lt.mpr enough), List.drop_left]

/-- A whole frame is taken, and nothing behind it. -/
theorem decodeFrame_whole {payload rest : Bytes} (declares : Declares fin opcode head payload.length)
    (fits : head.length + payload.length < 2 ^ 64) :
    decodeFrame (head ++ payload ++ rest) =
      .ok (some ⟨⟨fin, opcode, payload.length, head.length⟩, payload, head.length + payload.length⟩) := by
  have size := sizeAdd_eq fits
  rw [List.append_assoc, declares.decodeFrame_eq _ (by simp only [size, List.length_append]; omega), size, List.take_left]

end Declares

/-- A frame read where the size does not wrap is sound. -/
theorem sound_of_not_wraps {data : Bytes} (fits : ¬ Wraps data) : DecodesSoundly data := by
  intro frame decoded
  have read := readFrom_of_decodeFrame decoded
  obtain ⟨head, rest, rfl, size, declares⟩ := hasHead_of_decodeFrameHeader read.header
  have small : head.length + frame.header.payloadLength < 2 ^ 64 := by
    by_contra wraps
    exact fits ⟨_, _, head, _, rest, rfl, declares, not_lt.mp wraps⟩
  have total : frame.totalSize = head.length + frame.header.payloadLength := by
    rw [read.totalSize, ← size, sizeAdd_eq small]
  have enough := read.enough
  rw [total, List.length_append] at enough
  have payload : frame.payload = rest.take frame.header.payloadLength := by
    rw [read.payload, ← size, List.drop_left]
  have atLeast := declares.two_le_length
  refine ⟨by rw [total, size], by omega, read.enough, ?_, head, rest.drop frame.header.payloadLength, ?_, size, declares⟩
  · rw [payload, List.length_take]
    omega
  · rw [payload, List.append_assoc, List.take_append_drop]

theorem not_sound_of_wraps {data : Bytes} (wraps : Wraps data) : ¬ DecodesSoundly data := by
  obtain ⟨fin, opcode, head, length, rest, rfl, declares, wraps⟩ := wraps
  intro sound
  have ten := declares.length_of_wraps wraps
  have small := declares.declared_lt
  have size : sizeAdd head.length length < 10 := by
    unfold sizeAdd
    omega
  have decoded := declares.decodeFrame_eq rest (by rw [List.length_append]; omega)
  have total := (sound _ decoded).totalSize
  simp only at total
  omega

/-!
## The loop
-/

theorem wrapping_of_remains {data rest : Bytes} (remains : Remains data rest) (wraps : Wraps rest) : Wrapping data := by
  induction remains with
  | start => exact .here wraps
  | @next data rest frame decoded remains ih =>
      by_cases here : Wraps data
      · exact .here here
      · obtain ⟨head, behind, split, size, declares⟩ := (sound_of_not_wraps here frame decoded).parts
        have sound := sound_of_not_wraps here frame decoded
        have left : data.drop frame.totalSize = behind := by
          rw [sound.totalSize, ← size, ← sound.length_payload, ← List.length_append, split, List.drop_left]
        rw [← sound.length_payload] at declares
        rw [split]
        exact .later declares (left ▸ ih wraps)

theorem remains_of_wrapping {data : Bytes} (wrapping : Wrapping data) : ∃ rest, Remains data rest ∧ Wraps rest := by
  induction wrapping with
  | here wraps => exact ⟨_, .start _, wraps⟩
  | @later fin opcode head payload rest declares _ ih =>
      by_cases fits : head.length + payload.length < 2 ^ 64
      · obtain ⟨final, remains, wraps⟩ := ih
        refine ⟨final, .next (declares.decodeFrame_whole fits) ?_, wraps⟩
        rwa [← List.length_append, List.drop_left]
      · exact ⟨_, .start _, _, _, head, _, payload ++ rest, List.append_assoc .., declares, not_lt.mp fits⟩

theorem decodeFrame_error {data : Bytes} {exception : Exn} (threw : decodeFrame data = .error exception) :
    exception ≠ .outOfFuel := by
  unfold decodeFrame at threw
  split at threw
  · rename_i header
    cases threw
    unfold decodeFrameHeader at header
    dsimp only at header
    repeat' split at header
    all_goals cases header
    all_goals
      intro same
      cases same
  · cases threw

/-- Each iteration takes two bytes at least, so half as many as there are bytes are enough. -/
theorem drain_terminates {σ : Type} {handle : WebSocketFrame → EStateM Exn σ PUnit}
    (raises : ∀ frame, Raises (· ≠ .outOfFuel) (handle frame)) {fuel : Nat} {data : Bytes}
    (fits : ¬ Wrapping data) (enough : data.length < 2 * fuel) {state : σ} {exception : Exn}
    {next : Receiver UInt8 σ} (threw : drain frameDecoder handle fuel ⟨data, state⟩ = .error exception next) :
    exception ≠ .outOfFuel := by
  induction fuel generalizing data state with
  | zero => omega
  | succ fuel ih =>
      rw [drain, run_bind_ok (run_get _), run_bind, run_lift] at threw
      cases decoded : frameDecoder.decode data with
      | error failure =>
          rw [decoded] at threw
          cases threw
          exact decodeFrame_error decoded
      | ok found =>
          rw [decoded] at threw
          cases found with
          | none => cases threw
          | some frame =>
              dsimp only at threw
              have sound := sound_of_not_wraps (fun here => fits (.here here)) frame decoded
              rcases of_bind_error threw with early | ⟨_, middle, handled, threw⟩
              · unfold Receiver.onState at early
                split at early
                · cases early
                · rename_i failed
                  cases early
                  exact raises frame _ _ _ failed
              · obtain ⟨-, same⟩ := Receiver.onState_ok handled
                rw [run_bind_ok (run_modify _ _), same] at threw
                refine ih ?_ ?_ threw
                · intro wrapping
                  obtain ⟨final, remains, wraps⟩ := remains_of_wrapping wrapping
                  exact fits (wrapping_of_remains (.next decoded remains) wraps)
                · have progress := sound.progress
                  have within := sound.within
                  change (data.drop frame.totalSize).length < _
                  rw [List.length_drop]
                  omega

theorem decoding_sound_iff (data : Bytes) :
    (DecodesSoundly data ↔ ¬ Wraps data) ∧ (DrainsSoundly data ↔ ¬ Wrapping data) := by
  refine ⟨⟨fun sound wraps => not_sound_of_wraps wraps sound, sound_of_not_wraps⟩, ?_, ?_⟩
  · intro drains wrapping
    obtain ⟨rest, remains, wraps⟩ := remains_of_wrapping wrapping
    exact not_sound_of_wraps wraps (drains.sound rest remains)
  · intro fits
    refine ⟨fun rest remains => sound_of_not_wraps fun wraps => fits (wrapping_of_remains remains wraps), ?_⟩
    intro σ handle raises state exception next threw
    exact drain_terminates raises fits (by omega) threw

/-- A pong that declares 2^64 - 10 bytes. -/
def endlessPong : Bytes := [0x8A, 127, 0xFF, 0xFF, 0xFF, 0xFF, 0xFF, 0xFF, 0xFF, 0xF6]

theorem decode_endlessPong :
    decodeFrame endlessPong = .ok (some ⟨⟨true, .kPong, 2 ^ 64 - 10, 10⟩, [], 0⟩) := by
  decide +kernel

/-- The frame has size 0: however long the loop goes on, it does not get past it. -/
theorem endless_pong_never_drained :
    decodeFrame endlessPong = .ok (some ⟨⟨true, .kPong, 2 ^ 64 - 10, 10⟩, [], 0⟩) ∧
      ∀ fuel link, drain frameDecoder Ws.handleFrame fuel ⟨endlessPong, link⟩ =
        .error .outOfFuel ⟨endlessPong, link⟩ := by
  refine ⟨decode_endlessPong, fun fuel link => ?_⟩
  induction fuel with
  | zero => rfl
  | succ fuel ih =>
      have decoded : frameDecoder.decode endlessPong = _ := decode_endlessPong
      rw [drain, run_bind_ok (run_get _), run_bind, run_lift, decoded]
      exact ih

end TradingEngine
