import TradingEngine.Connectivity.ReadChunking
import TradingEngine.Net.WebSocketHandshakeProperties

/-! From the handshake to the frames. The reader of the upgrade response drops what came
behind the response in the same read, so the frames are the server's just where no read
straddles the boundary. -/

set_option autoImplicit false

namespace TradingEngine.Ws

open Library.Exec Library.StreamDecoder

/-- A handler that only notes the frames it gets. -/
def recordFrame (frame : WebSocketFrame) : EStateM Exn (List WebSocketFrame) PUnit :=
  modify fun frames => frames ++ [frame]

theorem run_recordFrames (frames noted : List WebSocketFrame) :
    (forM frames recordFrame) noted = .ok .unit (noted ++ frames) := by
  induction frames generalizing noted with
  | nil => rw [List.append_nil]; rfl
  | cons frame frames ih =>
      rw [List.forM_cons, recordFrame, run_bind_ok (run_modify _ _)]
      refine (ih _).trans ?_
      rw [List.append_assoc]
      rfl

/-- The receive loop, started on an empty buffer, reads exactly these frames. -/
def Decodes (reads : List Bytes) (frames : List WebSocketFrame) : Prop :=
  ∃ rxBuffer, (forM reads (receive frameDecoder recordFrame)) ⟨[], []⟩ = .ok .unit ⟨rxBuffer, frames⟩

theorem within_frameDecoder : Within frameDecoder := fun _ _ decoded => (readFrom_of_decodeFrame decoded).enough

theorem decodes_of_stream {frames : List ServerFrame} {reads : List Bytes}
    (stream : reads.flatten = (frames.map ServerFrame.wire).flatten) : Decodes reads (frames.map ServerFrame.decoded) := by
  have incomplete : Incomplete [] := ⟨⟨true, .kText, [], .base, by decide⟩, List.nil_prefix, by decide⟩
  have splits := splitAll_frames frames incomplete (stream.trans (List.append_nil _).symm)
  obtain ⟨rxBuffer, ran, -⟩ := passesFrames_of_split recordFrame splits []
  rw [run_recordFrames] at ran
  exact ⟨rxBuffer, ran⟩

/-- Frames that were decoded fit the bytes that arrived. -/
theorem Decodes.length_le {frames : List ServerFrame} {reads : List Bytes}
    (decodes : Decodes reads (frames.map ServerFrame.decoded)) :
    (frames.map ServerFrame.wire).flatten.length ≤ reads.flatten.length := by
  obtain ⟨rxBuffer, ran⟩ := decodes
  obtain ⟨values, splits, recorded⟩ := forM_receive_ok frameDecoder ran
  rw [run_recordFrames] at recorded
  have same : values = frames.map ServerFrame.decoded := by
    injection recorded
  have sizes := length_splitAll frameDecoder within_frameDecoder splits
  have total : ((frames.map ServerFrame.decoded).map frameDecoder.size).sum = (frames.map ServerFrame.wire).flatten.length := by
    rw [List.length_flatten, List.map_map, List.map_map]
    exact congrArg List.sum (List.map_congr_left fun frame _ => frame.encodes.size)
  rw [same, total] at sizes
  simp only [List.length_nil] at sizes
  omega

/-- However the response and the frames behind it are cut into reads, the handshake
returns, and the frames read after it are the server's just where a read ends with the
response. -/
theorem handshake_keeps_frames_iff {accept : Bytes} (response : UpgradeResponse accept) (host path : Text)
    (extraHeaders : List Text) (key : Bytes) (expectedAccept : Bytes → Bytes) (digest : expectedAccept key = accept)
    (frames : List ServerFrame) {reads : List Bytes}
    (arrives : reads.flatten = response.bytes ++ (frames.map ServerFrame.wire).flatten)
    (bounded : ∀ read ∈ reads, response.bytes.length + read.length < 2 ^ 63) :
    ∃ transport, performWebSocketHandshake host path extraHeaders key expectedAccept ⟨reads, []⟩ =
        .ok .unit transport ∧
      (Decodes transport.reads (frames.map ServerFrame.decoded) ↔ CutAfter response.bytes reads) := by
  obtain ⟨extra, back, ran, keeps, cut⟩ :=
    response.run_performWebSocketHandshake host path extraHeaders key digest arrives bounded []
  refine ⟨_, ran, ?_⟩
  rw [← cut]
  constructor
  · intro decodes
    have sizes := decodes.length_le
    rw [keeps, List.length_append] at sizes
    dsimp only at sizes
    exact List.length_eq_zero_iff.mp (by omega)
  · rintro rfl
    exact decodes_of_stream keeps.symm

def sampleUpgrade : UpgradeResponse (toBytes "accept".toList) where
  status := toBytes " Switching Protocols".toList
  leading := []
  name := toBytes "Sec-WebSocket-Accept".toList
  blanks := 1
  trailing := []
  lines := by decide +kernel
  named := by decide +kernel
  first := by
    intro line member names
    rw [List.mem_singleton] at member
    subst member
    exact absurd names.colon_mem (by decide +kernel)
  trimmed := by decide +kernel

/-- An empty text frame. -/
def sampleText : ServerFrame := ⟨true, .kText, [], .base, by decide⟩

theorem handshake_keeps_frames_iff_cut :
    CutAfter sampleUpgrade.bytes [sampleResponse.take 20, sampleResponse.drop 20, [0x81], [0]] ∧
      ∃ transport, performWebSocketHandshake [] [] [] [] (fun _ => toBytes "accept".toList)
          ⟨[sampleResponse.take 20, sampleResponse.drop 20, [0x81], [0]], []⟩ = .ok .unit transport ∧
        Decodes transport.reads [sampleText.decoded] := by
  have cut : CutAfter sampleUpgrade.bytes [sampleResponse.take 20, sampleResponse.drop 20, [0x81], [0]] :=
    ⟨[sampleResponse.take 20, sampleResponse.drop 20], [[0x81], [0]], rfl, by decide +kernel⟩
  have arrives : [sampleResponse.take 20, sampleResponse.drop 20, [0x81], [0]].flatten =
      sampleUpgrade.bytes ++ ([sampleText].map ServerFrame.wire).flatten := by decide +kernel
  obtain ⟨transport, ran, exactly⟩ := handshake_keeps_frames_iff sampleUpgrade [] [] [] []
    (fun _ => toBytes "accept".toList) rfl [sampleText] arrives (by decide +kernel)
  exact ⟨cut, transport, ran, exactly.mpr cut⟩

/-- A frame that comes in one read with the response is never decoded. -/
theorem handshake_drops_frame :
    (sampleUpgrade.bytes ++ sampleText.wire = sampleResponse ++ [0x81, 0] ∧
      returned (performWebSocketHandshake [] [] [] [] (fun _ => toBytes "accept".toList)
        ⟨[sampleResponse ++ [0x81, 0]], []⟩) = some .unit) ∧
      (finalState (performWebSocketHandshake [] [] [] [] (fun _ => toBytes "accept".toList)
        ⟨[sampleResponse ++ [0x81, 0]], []⟩)).reads = [] ∧
      ¬ Decodes [] [sampleText.decoded] := by
  refine ⟨by decide +kernel, by decide +kernel, ?_⟩
  rintro ⟨rxBuffer, ran⟩
  cases ran

end TradingEngine.Ws
