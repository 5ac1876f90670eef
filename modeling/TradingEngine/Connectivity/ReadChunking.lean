import TradingEngine.Connectivity.OkxWsClientProperties
import TradingEngine.Net.WebSocketFrameProperties

/-! Reads against frames. Where the server's frames are cut into reads does not show:
the handler gets the frames of the stream, and what is left is the incomplete one. -/

set_option autoImplicit false

namespace TradingEngine.Ws

open Library.Exec Library.StreamDecoder

/-- The beginning of a frame, short of its end. -/
def Incomplete (tail : Bytes) : Prop := ∃ frame : ServerFrame, tail <+: frame.wire ∧ tail ≠ frame.wire

theorem Incomplete.silent {tail : Bytes} (incomplete : Incomplete tail) : Silent frameDecoder tail := by
  obtain ⟨frame, part, proper⟩ := incomplete
  intro front earlier
  refine frame.encodes.silent front (earlier.trans part) fun same => proper ?_
  subst same
  exact part.eq_of_length (Nat.le_antisymm part.length_le earlier.length_le)

theorem encodes_wires (frames : List ServerFrame) :
    List.Forall₂ (Encodes frameDecoder) (frames.map ServerFrame.wire) (frames.map ServerFrame.decoded) := by
  induction frames with
  | nil => exact .nil
  | cons frame frames ih => exact .cons frame.encodes ih

theorem decodeFrame_nil : decodeFrame [] = .ok none := rfl

/-- The stream is split into its frames. -/
theorem splitAll_frames (frames : List ServerFrame) {tail : Bytes} (incomplete : Incomplete tail) {reads : List Bytes}
    (stream : reads.flatten = (frames.map ServerFrame.wire).flatten ++ tail) :
    splitAll frameDecoder [] reads = (frames.map ServerFrame.decoded, .ok tail) :=
  splitAll_of_encoded (encodes_wires frames) incomplete.silent decodeFrame_nil stream

/-- From an empty buffer the reads come down to handling these frames one after the
other; if that returns, `tail` is what stays in the buffer. -/
def PassesFrames {σ : Type} (handle : WebSocketFrame → EStateM Exn σ PUnit) (reads : List Bytes)
    (frames : List WebSocketFrame) (tail : Bytes) : Prop :=
  ∀ state, ∃ rxBuffer,
    (forM reads (receive frameDecoder handle)) ⟨[], state⟩ = Receiver.attach rxBuffer ((forM frames handle) state) ∧
      ∀ next, (forM frames handle) state = .ok .unit next → rxBuffer = tail

theorem passesFrames_of_split {σ : Type} (handle : WebSocketFrame → EStateM Exn σ PUnit) {reads : List Bytes}
    {frames : List WebSocketFrame} {tail : Bytes} (splits : splitAll frameDecoder [] reads = (frames, .ok tail)) :
    PassesFrames handle reads frames tail := by
  intro state
  obtain ⟨rxBuffer, ran, leaves⟩ := run_receive frameDecoder handle reads [] state
  rw [splits] at ran leaves
  have handled : handleAll handle (frames, (.ok tail : Except Exn Bytes)) = forM frames handle := by
    simp only [handleAll, lift, bind_pure_comp]
    exact bind_pure (forM frames handle)
  rw [handled] at ran leaves
  exact ⟨rxBuffer, ran, fun next returned => leaves next tail returned rfl⟩

/-- However a stream of frames is cut into reads, the handler gets its frames, as it
does when the stream is read at once, and the incomplete tail stays in the buffer. -/
theorem reads_pass_frames {σ : Type} (handle : WebSocketFrame → EStateM Exn σ PUnit) (frames : List ServerFrame)
    {tail : Bytes} (incomplete : Incomplete tail) {reads : List Bytes}
    (stream : reads.flatten = (frames.map ServerFrame.wire).flatten ++ tail) :
    PassesFrames handle reads (frames.map ServerFrame.decoded) tail ∧
      PassesFrames handle [reads.flatten] (frames.map ServerFrame.decoded) tail :=
  ⟨passesFrames_of_split handle (splitAll_frames frames incomplete stream),
    passesFrames_of_split handle (splitAll_frames frames incomplete (by simpa using stream))⟩

/-- A text frame, and an empty final fragment with a length of 16 bits. -/
def sampleFrames : List ServerFrame :=
  [⟨true, .kText, toBytes "hi".toList, .base, by decide⟩, ⟨true, .kContinuation, [], .extended16, by decide⟩]

theorem reads_pass_frames_cut :
    (finalState (forM [[0x81], [2, 104], [105, 0x80, 126], [0, 0, 0x82]] (receive frameDecoder handleFrame)
        sampleClient)).buffer = [0x82] ∧
      PassesFrames handleFrame [[0x81], [2, 104], [105, 0x80, 126], [0, 0, 0x82]]
        (sampleFrames.map ServerFrame.decoded) [0x82] :=
  have incomplete : Incomplete [0x82] := ⟨⟨true, .kBinary, [], .base, by decide⟩, by decide, by decide⟩
  ⟨by decide +kernel, (reads_pass_frames handleFrame sampleFrames incomplete (by decide +kernel)).1⟩

end TradingEngine.Ws
