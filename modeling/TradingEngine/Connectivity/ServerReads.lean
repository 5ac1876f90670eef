import TradingEngine.Connectivity.OrderedTransmission
import TradingEngine.Library.StreamDecoder
import TradingEngine.Net.ClientFrames

/-! What the exchange reads off a connection. The bytes the socket has taken split
into whole frames: the first ones that were queued, unchanged and in order, and all
of them once the transmit ring is empty. -/

set_option autoImplicit false

namespace TradingEngine

open Library.Exec Library.StreamDecoder

/-!
## The server's stream
-/

theorem referenceExtension_append {bytes tooShort : Nat} {data rest : Bytes} {length : Nat}
    (read : referenceExtension bytes tooShort data = some (length, rest)) (more : Bytes) :
    referenceExtension bytes tooShort (data ++ more) = some (length, rest ++ more) := by
  unfold referenceExtension at read ⊢
  split at read
  · cases read
  · rename_i complete
    rw [not_or, not_lt] at complete
    cases read
    rw [List.take_append_of_le_length complete.1, List.drop_append_of_le_length complete.1, if_neg]
    rw [not_or, not_lt, List.length_append]
    exact ⟨complete.1.trans (Nat.le_add_right _ _), complete.2⟩

theorem referenceLength_append {marker : Nat} {data rest : Bytes} {length : Nat}
    (read : referenceLength marker data = some (length, rest)) (more : Bytes) :
    referenceLength marker (data ++ more) = some (length, rest ++ more) := by
  unfold referenceLength at read ⊢
  by_cases two : marker = 126
  · rw [if_pos two] at read ⊢
    exact referenceExtension_append read more
  · by_cases eight : marker = 127
    · rw [if_neg two, if_pos eight] at read ⊢
      exact referenceExtension_append read more
    · rw [if_neg two, if_neg eight] at read ⊢
      cases read
      rfl

/-- A complete frame is read alike whatever follows it. -/
theorem referenceDecode_append {data rest : Bytes} {frame : ClientFrame}
    (read : referenceDecode data = some (frame, rest)) (more : Bytes) :
    referenceDecode (data ++ more) = some (frame, rest ++ more) := by
  match data, read with
  | byte0 :: byte1 :: tail, read =>
      rw [referenceDecode] at read
      rw [List.cons_append, List.cons_append, referenceDecode]
      split at read
      · cases read
      · rename_i accepted
        rw [if_neg accepted]
        obtain ⟨⟨length, behind⟩, lengthRead, read⟩ := Option.bind_eq_some_iff.mp read
        rw [referenceLength_append lengthRead more, Option.bind_eq_bind, Option.bind_some]
        dsimp only at read ⊢
        split at read
        · cases read
        · rename_i complete
          have fits : 4 + length ≤ behind.length := not_lt.mp complete
          have afterKey : (behind.drop 4 ++ more).take length = (behind.drop 4).take length :=
            List.take_append_of_le_length (by rw [List.length_drop]; omega)
          cases read
          rw [if_neg (by rw [List.length_append]; omega), List.take_append_of_le_length (by omega),
            List.drop_append_of_le_length (show 4 ≤ behind.length by omega), afterKey,
            List.drop_append_of_le_length fits]
          rfl

/-- A server's decoder, with the number of bytes each frame takes. -/
def serverDecoder : Decoder UInt8 (ClientFrame × Nat) Exn where
  decode data := .ok ((referenceDecode data).map fun found => (found.1, data.length - found.2.length))
  size := Prod.snd
  outOfFuel := .outOfFuel

/-- The frames that are complete in what a server has received. -/
def serverFrames (received : Bytes) : List ClientFrame :=
  (split serverDecoder (received.length + 1) received).1.map Prod.fst

/-- The frame a server reads from the encoding of a payload. -/
def ClientFrame.whole (opcode : WebSocketOpcode) (payload : Bytes) : ClientFrame := ⟨true, opcode.value.toNat, payload⟩

theorem encodes_encodeFrame (key : MaskKey) (opcode : WebSocketOpcode) {payload : Bytes}
    (short : payload.length < 2 ^ 64) :
    Encodes serverDecoder (encodeFrame key opcode payload)
      (.whole opcode payload, (encodeFrame key opcode payload).length) := by
  have whole := referenceDecode_encodeFrame key opcode short
  constructor
  · intro rest
    have read := referenceDecode_append whole rest
    simp only [serverDecoder, read, Option.map_some, List.nil_append, List.length_append, Nat.add_sub_cancel]
    rfl
  · rintro front ⟨more, together⟩ different
    cases read : referenceDecode front with
    | none => simp only [serverDecoder, read, Option.map_none]
    | some found =>
        have extended := referenceDecode_append read more
        rw [together, whole, Option.some.injEq, Prod.mk.injEq] at extended
        have nothing := (List.append_eq_nil_iff.mp extended.2.symm).2
        rw [nothing, List.append_nil] at together
        exact absurd together different
  · rfl
  · rw [encodeFrame_eq]
    exact List.cons_ne_nil _ _

/-!
## Deliveries
-/

namespace Ws

/-- A transmission beside the frames that were queued on it. -/
structure Delivery where
  transmission : Transmission
  queued : List ClientFrame

/-- The frames an input queues. -/
def WireInput.frames : WireInput → List ClientFrame
  | .send payload _ => [.whole .kText payload]
  | .writeRaw frame _ => (referenceDecode frame).toList.map Prod.fst
  | .beginBatch | .endBatch | .written _ => []

namespace Delivery

def step (input : WireInput) : EStateM Exn Delivery PUnit := fun delivery =>
  match Transmission.wireStep input delivery.transmission with
  | .ok _ transmission => .ok .unit ⟨transmission, delivery.queued ++ input.frames⟩
  | .error exception transmission => .error exception { delivery with transmission := transmission }

/-- The heartbeat and the answers to control frames are encoded frames as well. -/
def Encoded : WireInput → Prop
  | .writeRaw frame _ => ∃ key opcode payload, payload.length < 2 ^ 64 ∧ frame = encodeFrame key opcode payload
  | .send _ _ | .beginBatch | .endBatch | .written _ => True

def Admits (delivery : Delivery) (input : WireInput) : Prop :=
  Transmission.OfCurrent delivery.transmission input ∧ Encoded input

structure Carries (delivery : Delivery) : Prop where
  wire : Transmission.WireInv delivery.transmission
  encoded : ∃ encodings values, List.Forall₂ (Encodes serverDecoder) encodings values ∧
    values.map Prod.fst = delivery.queued ∧ delivery.transmission.frames = encodings.flatten

theorem frames_queueFrame {frame : Bytes} {trace : Option TickToTradeTrace} {transmission next : Transmission}
    (ran : Transmission.queueFrame frame trace transmission = .ok .unit next) :
    next.frames = transmission.frames ++ frame := by
  obtain ⟨_, middle, wrote, noted⟩ := of_bind_ok ran
  obtain ⟨-, kept⟩ := Transmission.onLink_ok wrote
  cases noted
  rw [kept]

/-- A frame that was queued fits the transmit ring. -/
theorem length_queueFrame {frame : Bytes} {trace : Option TickToTradeTrace} {transmission next : Transmission}
    (inv : Transmission.WireInv transmission)
    (ran : Transmission.queueFrame frame trace transmission = .ok .unit next) : frame.length ≤ kTxRingCapacity := by
  obtain ⟨_, middle, wrote, -⟩ := of_bind_ok ran
  obtain ⟨wrote, -⟩ := Transmission.onLink_ok wrote
  obtain ⟨after, appends⟩ := inv.link.writeRaw wrote
  have bounded := after.valid.size
  rw [appends.size] at bounded
  omega

theorem encoded_ok {opcode : WebSocketOpcode} {payload frame : Bytes} {transmission next : Transmission}
    (ran : Transmission.encoded opcode payload transmission = .ok frame next) :
    (∃ key, frame = encodeFrame key opcode payload) ∧ next.frames = transmission.frames := by
  unfold Transmission.encoded at ran
  rw [run_encode] at ran
  cases drawn : transmission.link.maskKeys transmission.link.masked with
  | none =>
      rw [drawn] at ran
      cases ran
  | some key =>
      rw [drawn] at ran
      cases ran
      exact ⟨⟨key, rfl⟩, rfl⟩

/-- One more encoded frame behind the others. -/
theorem Carries.push {delivery : Delivery} (carries : Carries delivery) {transmission : Transmission}
    (wire : Transmission.WireInv transmission) {key : MaskKey} {opcode : WebSocketOpcode} {payload : Bytes}
    (short : payload.length < 2 ^ 64)
    (grown : transmission.frames = delivery.transmission.frames ++ encodeFrame key opcode payload) :
    Carries ⟨transmission, delivery.queued ++ [.whole opcode payload]⟩ := by
  obtain ⟨encodings, values, encoded, named, frames⟩ := carries.encoded
  refine ⟨wire, encodings ++ [encodeFrame key opcode payload],
    values ++ [(.whole opcode payload, (encodeFrame key opcode payload).length)], ?_, ?_, ?_⟩
  · exact List.rel_append encoded (.cons (encodes_encodeFrame key opcode short) .nil)
  · rw [List.map_append, named]
    rfl
  · rw [grown, frames, List.flatten_append, List.flatten_singleton]

theorem Carries.idle {delivery : Delivery} (carries : Carries delivery) {transmission : Transmission}
    (wire : Transmission.WireInv transmission) (frames : transmission.frames = delivery.transmission.frames) :
    Carries ⟨transmission, delivery.queued ++ []⟩ := by
  rw [List.append_nil]
  exact ⟨wire, frames ▸ carries.encoded⟩

theorem frames_onLink {program : LinkM PUnit} {transmission next : Transmission}
    (ran : Transmission.onLink program transmission = .ok .unit next) : next.frames = transmission.frames := by
  rw [(Transmission.onLink_ok ran).2]

theorem payload_le_encodeFrame (key : MaskKey) (opcode : WebSocketOpcode) (payload : Bytes) :
    payload.length ≤ (encodeFrame key opcode payload).length := by
  rw [encodeFrame_eq]
  simp only [List.length_cons, List.length_append, length_masked]
  omega

theorem carries_step {delivery next : Delivery} {input : WireInput} (carries : Carries delivery)
    (admitted : Admits delivery input) (ran : step input delivery = .ok .unit next) : Carries next := by
  unfold step at ran
  split at ran
  · rename_i transmission wired
    cases ran
    have wire := carries.wire.step admitted.1 wired
    cases input with
    | writeRaw frame trace =>
        obtain ⟨key, opcode, payload, short, rfl⟩ := admitted.2
        have read : (WireInput.writeRaw (encodeFrame key opcode payload) trace).frames = [.whole opcode payload] := by
          rw [WireInput.frames, referenceDecode_encodeFrame key opcode short]
          rfl
        rw [read]
        exact carries.push wire short (frames_queueFrame wired)
    | send payload trace =>
        obtain ⟨frame, middle, encoded, queued⟩ := of_bind_ok wired
        obtain ⟨⟨key, rfl⟩, same⟩ := encoded_ok encoded
        have fits := length_queueFrame (carries.wire.encoded encoded) queued
        have short : payload.length < 2 ^ 64 :=
          (payload_le_encodeFrame key .kText payload).trans_lt (fits.trans_lt (by decide))
        have grown : transmission.frames = delivery.transmission.frames ++ encodeFrame key .kText payload := by
          rw [frames_queueFrame queued, same]
        exact carries.push wire short grown
    | beginBatch | endBatch =>
        obtain ⟨_, middle, called, noted⟩ := of_bind_ok wired
        cases noted
        have same : middle.frames = delivery.transmission.frames := frames_onLink called
        exact carries.idle wire same
    | written index =>
        refine carries.idle wire ?_
        rw [Transmission.wireStep, run_bind_ok (run_get _)] at wired
        cases here : delivery.transmission.link.pendingWrites[index]? with
        | none =>
            rw [here] at wired
            cases wired
            rfl
        | some write =>
            rw [here] at wired
            dsimp only at wired
            rw [Transmission.complete, run_bind_ok (run_modify _ _)] at wired
            exact (frames_onLink wired).trans rfl
  · cases ran

/-- The empty stream is no frame. -/
theorem silent_nil : Silent serverDecoder [] := by
  intro front isFront
  rw [List.prefix_nil.mp isFront]
  rfl

/-- What a server has read is the first frames of the queue, and all of them once
nothing is left in the ring. -/
theorem Carries.reads {delivery : Delivery} (carries : Carries delivery) :
    serverFrames delivery.transmission.sent <+: delivery.queued ∧
      (delivery.transmission.link.txRing.size = 0 →
        serverFrames delivery.transmission.sent = delivery.queued) := by
  obtain ⟨encodings, values, encoded, named, frames⟩ := carries.encoded
  have stream : delivery.transmission.sent ++ delivery.transmission.link.txRing.contents =
      encodings.flatten ++ [] := by
    rw [carries.wire.order, frames, List.append_nil]
  obtain ⟨count, left, splits, remaining, unread⟩ := split_of_encoded encoded silent_nil stream (Nat.lt_succ_self _)
  have read : serverFrames delivery.transmission.sent = delivery.queued.take count := by
    rw [serverFrames, splits, ← named, List.map_take]
  refine ⟨read ▸ List.take_prefix _ _, fun flushed => ?_⟩
  have none : delivery.transmission.link.txRing.contents = [] := by
    rw [← List.length_eq_zero_iff, RingBuffer.length_contents, flushed]
  rw [none, List.append_nil, List.append_nil] at remaining
  have all : encodings.drop count = [] := by
    cases later : encodings.drop count with
    | nil => rfl
    | cons encoding rest =>
        -- a whole encoding would have been read
        have encodedLater := List.forall₂_drop count encoded
        rw [later] at encodedLater
        obtain ⟨value, others, first, -, -⟩ := List.forall₂_cons_left_iff.mp encodedLater
        rw [remaining, later, List.flatten_cons, first.decodes] at unread
        cases unread
  have length := encoded.length_eq
  rw [List.drop_eq_nil_iff, length] at all
  rw [read, ← named]
  exact List.take_of_length_le (by simpa using all)

/-- Whatever is queued, batched and completed on a fresh connection, a server reads
the queued frames in their order, none changed, lost or repeated. -/
theorem server_reads_queue {link : Link} (opening : Transmission.Opening link) (empty : link.txRing.size = 0)
    {delivery : Delivery} (run : Reaches step Admits ⟨⟨link, [], [], link.batching⟩, []⟩ delivery) :
    serverFrames delivery.transmission.sent <+: delivery.queued ∧
      (delivery.transmission.link.txRing.size = 0 →
        serverFrames delivery.transmission.sent = delivery.queued) := by
  have nothing : link.txRing.contents = [] := by
    rw [← List.length_eq_zero_iff, RingBuffer.length_contents, empty]
  have wire : Transmission.WireInv ⟨link, [], [], link.batching⟩ := by
    have none : Transmission.outstanding link = [] :=
      List.filter_eq_nil_iff.mpr fun write member => by simpa using opening.fresh write member
    refine ⟨⟨opening.valid, opening.live, ?_, fun _ => opening.flushed⟩, nothing, rfl⟩
    rw [if_neg (by simp [opening.idle])]
    exact none
  have carries : Carries delivery :=
    run.invariant Carries ⟨wire, [], [], .nil, rfl, rfl⟩ fun _ _ _ holds admitted ran =>
      carries_step holds admitted ran
  exact carries.reads

/-- Messages of the client's owner only. -/
def Owned (delivery : Delivery) (input : WireInput) : Prop :=
  Transmission.OfCurrent delivery.transmission input ∧ match input with
    | .writeRaw _ _ => False
    | .send _ _ | .beginBatch | .endBatch | .written _ => True

instance (delivery : Delivery) (input : WireInput) : Decidable (Owned delivery input) :=
  have : Decidable (match input with
      | .writeRaw _ _ => False
      | .send _ _ | .beginBatch | .endBatch | .written _ => True) := by cases input <;> infer_instance
  inferInstanceAs (Decidable (_ ∧ _))

theorem Owned.admits {delivery : Delivery} {input : WireInput} (owned : Owned delivery input) :
    Admits delivery input := by
  refine ⟨owned.1, ?_⟩
  cases input with
  | writeRaw frame trace => exact owned.2.elim
  | send | beginBatch | endBatch | written => trivial

/-- One message, then two in a batch that is written in several pieces. -/
def sampleWires : List WireInput :=
  [.send [104, 105] none, .beginBatch, .send [1] none, .written 0, .send [2, 3] none, .endBatch, .written 0, .written 0]

def sampleDelivery : Delivery :=
  finalState (forM sampleWires step ⟨⟨Transmission.nearlyWrapped, [], [], false⟩, []⟩)

theorem server_reads_queue_batched :
    serverFrames sampleDelivery.transmission.sent =
      [.whole .kText [104, 105], .whole .kText [1], .whole .kText [2, 3]] := by
  have facts : AdmitsAll step Owned ⟨⟨Transmission.nearlyWrapped, [], [], false⟩, []⟩ sampleWires ∧
      sampleDelivery.transmission.link.txRing.size = 0 ∧
      sampleDelivery.queued = [.whole .kText [104, 105], .whole .kText [1], .whole .kText [2, 3]] := by
    decide +kernel
  have opening : Transmission.Opening Transmission.nearlyWrapped :=
    ⟨⟨by decide, by decide, Nat.zero_le _⟩, rfl, fun _ => rfl, rfl, fun write member => by cases member⟩
  have run : Reaches step Admits ⟨⟨Transmission.nearlyWrapped, [], [], false⟩, []⟩ sampleDelivery :=
    (Reaches.start.all sampleWires facts.1).mono fun _ _ => Owned.admits
  have reads := (server_reads_queue opening rfl run).2 facts.2.1
  rw [reads, facts.2.2]

end Delivery

end Ws

end TradingEngine
