import TradingEngine.Connectivity.OkxWsClientProperties
import TradingEngine.Net.WebSocketFrameProperties

/-! Frames against messages. What `HandleFrame` does with the data it gets is a pure
function of the bytes gathered so far and the frame. -/

set_option autoImplicit false

namespace TradingEngine.Ws

open Library.Exec

/-- What reassembly sees of a frame. -/
structure Piece where
  fin : Bool
  opcode : WebSocketOpcode
  payload : Bytes
  deriving DecidableEq, Repr

def Piece.isControl (piece : Piece) : Bool :=
  match piece.opcode with
  | .kPing | .kPong | .kClose => true
  | .kContinuation | .kText | .kBinary => false

def Piece.isHeartbeat (piece : Piece) : Bool := piece.opcode = .kText && piece.payload = toBytes kOkxPongText

def pieceOf (frame : WebSocketFrame) : Piece := ⟨frame.header.fin, frame.header.opcode, frame.payload⟩

theorem isControl_pieceOf (frame : WebSocketFrame) :
    (pieceOf frame).isControl = ((controlReply frame.header.opcode).isSome || frame.header.opcode = .kPong) := by
  cases kind : frame.header.opcode <;> simp [kind, controlReply, Piece.isControl, pieceOf]

/-!
## Reassembly
-/

/-- The bytes gathered after a piece, and the messages it completes. -/
def assemble (gathered : Bytes) (piece : Piece) : Bytes × List Bytes :=
  if piece.isControl || piece.isHeartbeat then (gathered, [])
  else if !piece.fin then (gathered ++ piece.payload, [])
  else if piece.opcode = .kContinuation then ([], [gathered ++ piece.payload])
  else (gathered, [piece.payload])

def assembleAll (gathered : Bytes) : List Piece → Bytes × List Bytes
  | [] => (gathered, [])
  | piece :: pieces =>
      let rest := assembleAll (assemble gathered piece).1 pieces
      (rest.1, (assemble gathered piece).2 ++ rest.2)

theorem assembleAll_append (gathered : Bytes) (early late : List Piece) :
    assembleAll gathered (early ++ late) =
      ((assembleAll (assembleAll gathered early).1 late).1,
        (assembleAll gathered early).2 ++ (assembleAll (assembleAll gathered early).1 late).2) := by
  induction early generalizing gathered with
  | nil => rfl
  | cons piece early ih => simp only [List.cons_append, assembleAll, ih, List.append_assoc]

/-- Control frames take no part in it. -/
theorem assembleAll_filter (gathered : Bytes) (pieces : List Piece) :
    assembleAll gathered (pieces.filter fun piece => !piece.isControl) = assembleAll gathered pieces := by
  induction pieces generalizing gathered with
  | nil => rfl
  | cons piece pieces ih =>
      cases control : piece.isControl with
      | true =>
          have passed : assemble gathered piece = (gathered, []) := by simp [assemble, control]
          rw [List.filter_cons_of_neg (by simp [control]), ih, assembleAll, passed]
          rfl
      | false => rw [List.filter_cons_of_pos (by simp [control]), assembleAll, assembleAll, ih]

/-- The link has taken in pieces with this outcome. -/
structure Assembles (before : Link) (outcome : Bytes × List Bytes) (after : Link) : Prop where
  reassembler : after.reassembler = ⟨outcome.1, false⟩
  dispatched : after.dispatched = before.dispatched ++ outcome.2.map (before.source, ·)
  source : after.source = before.source

theorem Sends.assembles {before after : Link} {gathered : Bytes} (sends : Sends before after)
    (gathers : before.reassembler = ⟨gathered, false⟩) : Assembles before (gathered, []) after :=
  ⟨sends.reassembler.trans gathers, by rw [sends.dispatched, List.map_nil, List.append_nil], sends.source⟩

theorem Assembles.trans {first second third : Link} {early late : Bytes × List Bytes}
    (before : Assembles first early second) (after : Assembles second late third) :
    Assembles first (late.1, early.2 ++ late.2) third where
  reassembler := after.reassembler
  dispatched := by
    rw [after.dispatched, before.dispatched, before.source, List.map_append, List.append_assoc]
  source := after.source.trans before.source

theorem Assembles.messages {before after : Link} {outcome : Bytes × List Bytes}
    (assembles : Assembles before outcome after) :
    after.dispatched.map Prod.snd = before.dispatched.map Prod.snd ++ outcome.2 := by
  rw [assembles.dispatched, List.map_append, List.map_map]
  exact congrArg _ (List.map_id' outcome.2)

theorem dispatchMessage_ok {message : Bytes} {link next : Link} (ran : dispatchMessage message link = .ok .unit next) :
    next.reassembler = link.reassembler ∧ next.dispatched = link.dispatched ++ [(link.source, message)] ∧
      next.source = link.source := by
  rw [run_dispatchMessage] at ran
  have sends := (sends_acts _).ok ran
  have same : (noted message link).reassembler = link.reassembler ∧
      (noted message link).dispatched = link.dispatched ++ [(link.source, message)] ∧
      (noted message link).source = link.source := by
    unfold noted noteLogin
    split <;> exact ⟨rfl, rfl, rfl⟩
  exact ⟨sends.reassembler.trans same.1, sends.dispatched.trans same.2.1, sends.source.trans same.2.2⟩

theorem appendFragment_ok {payload : Bytes} {fin : Bool} {link next : Link}
    (ran : appendFragment payload fin link = .ok .unit next) :
    next = { link with reassembler := ⟨link.reassembler.message ++ payload, fin⟩ } := by
  rw [run_appendFragment] at ran
  unfold WebSocketReassembler.append at ran
  split at ran
  · cases ran
  · rename_i reassembler appended
    split at appended
    · cases appended
    · cases appended
      cases ran
      rfl

theorem assembles_dispatch {message : Bytes} {link next : Link} {gathered : Bytes}
    (gathers : link.reassembler = ⟨gathered, false⟩) (ran : dispatchMessage message link = .ok .unit next) :
    Assembles link (gathered, [message]) next := by
  obtain ⟨reassembler, dispatched, source⟩ := dispatchMessage_ok ran
  exact ⟨reassembler.trans gathers, dispatched, source⟩

theorem assembles_handleData {frame : WebSocketFrame} {link next : Link} {gathered : Bytes}
    (gathers : link.reassembler = ⟨gathered, false⟩) (data : (pieceOf frame).isControl = false)
    (message : (pieceOf frame).isHeartbeat = false) (ran : handleData frame link = .ok .unit next) :
    Assembles link (assemble gathered (pieceOf frame)) next := by
  have outcome : assemble gathered (pieceOf frame) =
      if !frame.header.fin then (gathered ++ frame.payload, [])
      else if frame.header.opcode = .kContinuation then ([], [gathered ++ frame.payload])
      else (gathered, [frame.payload]) := by
    unfold assemble
    rw [data, message]
    rfl
  rw [outcome]
  unfold handleData at ran
  by_cases continues : frame.header.opcode = .kContinuation
  · rw [if_pos continues] at ran ⊢
    obtain ⟨_, middle, appended, ran⟩ := of_bind_ok ran
    obtain rfl := appendFragment_ok appended
    rw [run_bind_ok (run_get _)] at ran
    cases fin : frame.header.fin with
    | false =>
        rw [fin] at ran
        cases ran
        exact ⟨by rw [gathers]; rfl, by simp, rfl⟩
    | true =>
        rw [fin] at ran
        obtain ⟨_, last, dispatched, ran⟩ := of_bind_ok ran
        obtain ⟨-, messages, source⟩ := dispatchMessage_ok dispatched
        cases ran
        exact ⟨rfl, by rw [messages, gathers]; rfl, source⟩
  · rw [if_neg continues] at ran ⊢
    cases fin : frame.header.fin with
    | false =>
        rw [fin] at ran
        obtain rfl := appendFragment_ok ran
        exact ⟨by rw [gathers]; rfl, by simp, rfl⟩
    | true =>
        rw [fin] at ran
        exact assembles_dispatch gathers ran

theorem assembles_handleFrame {frame : WebSocketFrame} {link next : Link} {gathered : Bytes}
    (gathers : link.reassembler = ⟨gathered, false⟩) (ran : handleFrame frame link = .ok .unit next) :
    Assembles link (assemble gathered (pieceOf frame)) next := by
  have ignored (passes : (pieceOf frame).isControl || (pieceOf frame).isHeartbeat) (sends : Sends link next) :
      Assembles link (assemble gathered (pieceOf frame)) next := by
    rw [assemble, if_pos passes]
    exact sends.assembles gathers
  obtain ⟨response, middle, built, ran⟩ := of_bind_ok ran
  have answers := (sends_buildControlResponse frame).ok built
  unfold buildControlResponse at built
  cases reply : controlReply frame.header.opcode with
  | some opcode =>
      have control : (pieceOf frame).isControl := by rw [isControl_pieceOf, reply]; rfl
      rw [reply] at built
      obtain ⟨encoded, last, -, built⟩ := of_bind_ok built
      cases built
      exact ignored (by rw [control]; rfl) (answers.trans _ _ _ ((sends_writeRaw _ _).ok ran))
  | none =>
      rw [reply] at built
      cases built
      dsimp only at ran
      split at ran
      · rename_i passed
        cases ran
        refine ignored ?_ answers
        simp only [Bool.or_eq_true, decide_eq_true_eq] at passed ⊢
        exact passed.imp (fun pong => by rw [Piece.isControl, pieceOf, pong]) fun heartbeat => heartbeat
      · rename_i message
        simp only [Bool.or_eq_true, decide_eq_true_eq, not_or, Bool.not_eq_true] at message
        refine assembles_handleData gathers ?_ message.2 ran
        simp [isControl_pieceOf, reply, message.1]

/-- Whatever frames are handled, the bytes gathered and the messages dispatched are
those of the pure function. -/
theorem assembles_frames {frames : List WebSocketFrame} {link next : Link} {gathered : Bytes}
    (gathers : link.reassembler = ⟨gathered, false⟩) (ran : (forM frames handleFrame) link = .ok .unit next) :
    Assembles link (assembleAll gathered (frames.map pieceOf)) next := by
  induction frames generalizing link gathered with
  | nil =>
      cases ran
      exact (Sends.refl _).assembles gathers
  | cons frame frames ih =>
      rw [List.forM_cons] at ran
      obtain ⟨_, middle, handled, ran⟩ := of_bind_ok ran
      have first := assembles_handleFrame gathers handled
      exact first.trans (ih first.reassembler ran)

/-!
## Fragmented messages
-/

/-- A text or binary message and the way it is split into frames. -/
structure Fragmented where
  opcode : WebSocketOpcode
  first : Bytes
  rest : List Bytes
  data : opcode = .kText ∨ opcode = .kBinary

/-- The frames after the first one. -/
def continuations : List Bytes → List Piece
  | [] => []
  | payload :: rest => ⟨rest.isEmpty, .kContinuation, payload⟩ :: continuations rest

namespace Fragmented

def content (message : Fragmented) : Bytes := message.first ++ message.rest.flatten

def pieces (message : Fragmented) : List Piece :=
  ⟨message.rest.isEmpty, message.opcode, message.first⟩ :: continuations message.rest

/-- A text message of several fragments of which the first one reads as a heartbeat. -/
def BeginsAsHeartbeat (message : Fragmented) : Prop :=
  message.opcode = .kText ∧ message.first = toBytes kOkxPongText ∧ message.rest ≠ []

instance (message : Fragmented) : Decidable message.BeginsAsHeartbeat := inferInstanceAs (Decidable (_ ∧ _ ∧ _))

/-- What is dispatched for the message. -/
def received (message : Fragmented) : Bytes :=
  if message.BeginsAsHeartbeat then message.rest.flatten else message.content

/-- The message is not the heartbeat, and fits the reassembly buffer if it needs it. -/
structure Sendable (message : Fragmented) : Prop where
  notHeartbeat : message.opcode = .kText → message.content ≠ toBytes kOkxPongText
  fits : message.rest ≠ [] → message.content.length ≤ kMaxMessageSize

end Fragmented

theorem assemble_continuation (gathered payload : Bytes) (fin : Bool) :
    assemble gathered ⟨fin, .kContinuation, payload⟩ =
      if fin then ([], [gathered ++ payload]) else (gathered ++ payload, []) := by
  cases fin <;> rfl

theorem assembleAll_continuations (gathered : Bytes) {rest : List Bytes} (more : rest ≠ []) :
    assembleAll gathered (continuations rest) = ([], [gathered ++ rest.flatten]) := by
  induction rest generalizing gathered with
  | nil => contradiction
  | cons payload rest ih =>
      rw [continuations, assembleAll, assemble_continuation]
      cases rest with
      | nil => simp [assembleAll, continuations]
      | cons next rest => simp [ih]

theorem assemble_first (gathered payload : Bytes) (fin : Bool) {opcode : WebSocketOpcode}
    (data : opcode = .kText ∨ opcode = .kBinary) :
    assemble gathered ⟨fin, opcode, payload⟩ =
      if opcode = .kText ∧ payload = toBytes kOkxPongText then (gathered, [])
      else if fin then (gathered, [payload]) else (gathered ++ payload, []) := by
  rcases data with rfl | rfl <;> cases fin <;> simp [assemble, Piece.isControl, Piece.isHeartbeat]

theorem Fragmented.Sendable.assembleAll_pieces {message : Fragmented} (sendable : message.Sendable) :
    assembleAll [] message.pieces = ([], [message.received]) := by
  rw [Fragmented.pieces, assembleAll, assemble_first _ _ _ message.data, Fragmented.received]
  by_cases split : message.rest = []
  · have whole : message.content = message.first := by simp [Fragmented.content, split]
    have differs : ¬(message.opcode = .kText ∧ message.first = toBytes kOkxPongText) :=
      fun heartbeat => sendable.notHeartbeat heartbeat.1 (whole.trans heartbeat.2)
    rw [if_neg differs, if_neg (fun lost : message.BeginsAsHeartbeat => lost.2.2 split), whole, split]
    rfl
  · have more : message.rest.isEmpty = false := by simpa using split
    by_cases heartbeat : message.opcode = .kText ∧ message.first = toBytes kOkxPongText
    · rw [if_pos heartbeat, if_pos (show message.BeginsAsHeartbeat from ⟨heartbeat.1, heartbeat.2, split⟩)]
      simp [assembleAll_continuations _ split]
    · rw [if_neg heartbeat, if_neg (fun lost : message.BeginsAsHeartbeat => heartbeat ⟨lost.1, lost.2.1⟩), more]
      simp [assembleAll_continuations _ split, Fragmented.content]

theorem assembleAll_messages {messages : List Fragmented} (sendable : ∀ message ∈ messages, message.Sendable) :
    assembleAll [] (messages.flatMap Fragmented.pieces) = ([], messages.map Fragmented.received) := by
  induction messages with
  | nil => rfl
  | cons message messages ih =>
      rw [List.forall_mem_cons] at sendable
      rw [List.flatMap_cons, assembleAll_append, sendable.1.assembleAll_pieces, ih sendable.2]
      rfl

/-- Nothing is lost just where no message begins as a heartbeat. -/
theorem map_received_eq_iff (messages : List Fragmented) :
    messages.map Fragmented.received = messages.map Fragmented.content ↔
      ∀ message ∈ messages, ¬message.BeginsAsHeartbeat := by
  rw [List.map_inj_left]
  refine forall₂_congr fun message _ => ⟨fun same lost => ?_, fun kept => if_neg kept⟩
  rw [Fragmented.received, if_pos lost, Fragmented.content, lost.2.1] at same
  have lengths := congrArg List.length same
  rw [List.length_append] at lengths
  have : (toBytes kOkxPongText).length = 4 := by decide
  omega

/-!
## Room
-/

/-- The bytes a frame with this payload takes in the ring. -/
def frameCost (payload : Bytes) : Nat := minimalHeaderSize payload.length + 4 + payload.length

def Action.cost : Action → Nat
  | .send payload _ => frameCost payload
  | .beginBatch | .endBatch | .raise _ => 0

/-- The bytes of the reply to a frame. -/
def replyCost (frame : WebSocketFrame) : Nat :=
  if (controlReply frame.header.opcode).isSome then frameCost frame.payload else 0

/-- The ring has room for what the owner's handler sends and for `budget` bytes more,
masking keys can be drawn and the handler does not throw. -/
structure Ready (budget : Nat) (link : Link) : Prop where
  ring : link.txRing.Valid
  keys : ∀ index, (link.maskKeys index).isSome
  returns : ∀ actions ∈ link.onMessage, ∀ exception, Action.raise exception ∉ actions
  room : link.txRing.size + (link.onMessage.flatten.map Action.cost).sum + budget ≤ kTxRingCapacity

/-- The program returns, with the room that is left. -/
abbrev Affords {α : Type} (budget : Nat) (program : LinkM α) (link : Link) : Prop :=
  Wp program (fun _ => Ready budget) (fun _ _ => False) link

theorem Ready.sends {budget : Nat} {before after : Link} (ready : Ready budget before) (sends : Sends before after)
    (ring : after.txRing = before.txRing) : Ready budget after where
  ring := ring ▸ ready.ring
  keys := sends.maskKeys ▸ ready.keys
  returns := sends.onMessage ▸ ready.returns
  room := by
    rw [ring, sends.onMessage]
    exact ready.room

theorem Ready.writeRaw {budget : Nat} {frame : Bytes} {link : Link} (trace : Option TickToTradeTrace)
    (ready : Ready (frame.length + budget) link) : Affords budget (writeRaw frame trace) link := by
  have written := ready.ring.write frame
  have room := ready.room
  rw [if_pos (by omega)] at written
  obtain ⟨ring, wrote, appends⟩ := written
  have sends := sends_writeRaw frame trace link
  rw [Affords, wp_def]
  rw [run_writeRaw, wrote] at sends ⊢
  refine ⟨?_, sends.maskKeys ▸ ready.keys, sends.onMessage ▸ ready.returns, ?_⟩
  · rw [startedIf_txRing]
    exact appends.valid
  · have size := appends.size
    have same := sends.onMessage
    rw [finalState_ok] at same
    rw [startedIf_txRing, same, queued, size]
    omega

theorem Ready.encode {budget : Nat} {payload : Bytes} {opcode : WebSocketOpcode} {link : Link}
    (ready : Ready budget link) :
    Wp (encode opcode payload) (fun frame next => frame.length = frameCost payload ∧ Ready budget next)
      (fun _ _ => False) link := by
  obtain ⟨key, drawn⟩ := Option.isSome_iff_exists.mp (ready.keys link.masked)
  rw [wp_def, run_encode, drawn]
  exact ⟨length_encodeFrame key opcode payload, ready.ring, ready.keys, ready.returns, ready.room⟩

theorem Ready.encode_writeRaw {budget : Nat} {payload : Bytes} {opcode : WebSocketOpcode} {link : Link}
    (trace : Option TickToTradeTrace) (ready : Ready (frameCost payload + budget) link) :
    Affords budget (Ws.encode opcode payload >>= fun frame => Ws.writeRaw frame trace) link := by
  rw [Affords, wp_bind]
  refine ready.encode.mono (fun frame next outcome => ?_) fun _ _ threw => threw
  obtain ⟨length, ready⟩ := outcome
  exact Ready.writeRaw trace (length ▸ ready)

theorem Ready.act {budget : Nat} {action : Action} {link : Link} (ready : Ready (action.cost + budget) link)
    (returns : ∀ exception, action ≠ .raise exception) : Affords budget (act action) link := by
  cases action with
  | send payload trace => exact Ready.encode_writeRaw trace ready
  | beginBatch => exact ⟨ready.ring, ready.keys, ready.returns, by simpa [Action.cost] using ready.room⟩
  | endBatch =>
      have sends := sends_endBatch link
      rw [Affords, Ws.act, wp_def]
      rw [run_endBatch] at sends ⊢
      exact Ready.sends (by simpa [Action.cost] using ready) sends (startedIf_txRing _ _)
  | raise exception => exact absurd rfl (returns exception)

theorem Ready.acts {budget : Nat} {actions : List Action} {link : Link}
    (ready : Ready ((actions.map Action.cost).sum + budget) link)
    (returns : ∀ exception, Action.raise exception ∉ actions) : Affords budget (forM actions Ws.act) link := by
  induction actions generalizing link with
  | nil => simpa [Affords] using ready
  | cons action rest ih =>
      rw [List.map_cons, List.sum_cons, Nat.add_assoc] at ready
      rw [Affords, List.forM_cons, wp_bind]
      have first := ready.act fun exception same => returns exception (same ▸ List.mem_cons_self)
      exact first.mono
        (fun _ _ ready => ih ready fun exception member => returns exception (List.mem_cons_of_mem _ member))
        fun _ _ threw => threw

theorem Ready.dispatchMessage {budget : Nat} {message : Bytes} {link : Link} (ready : Ready budget link) :
    Affords budget (dispatchMessage message) link := by
  obtain ⟨ring, keys, returns, room⟩ := ready
  rw [Affords, wp_def, run_dispatchMessage]
  have same : (noted message link).txRing = link.txRing ∧ (noted message link).maskKeys = link.maskKeys := by
    unfold noted noteLogin
    split <;> exact ⟨rfl, rfl⟩
  have tail : (noted message link).onMessage = link.onMessage.tail := rfl
  refine Ready.acts ⟨same.1 ▸ ring, same.2 ▸ keys, ?_, ?_⟩ ?_ <;> try rw [tail]
  · exact fun actions member => returns actions (List.mem_of_mem_tail member)
  · rw [same.1]
    cases script : link.onMessage with
    | nil => simpa [script] using room
    | cons head rest =>
        simp only [script, List.flatten_cons, List.map_append, List.sum_append] at room
        simp only [List.headD_cons, List.tail_cons]
        omega
  · cases script : link.onMessage with
    | nil => simp
    | cons head rest => exact returns head (script ▸ List.mem_cons_self)

theorem Ready.appendFragment {budget : Nat} {payload : Bytes} {fin : Bool} {link : Link} (ready : Ready budget link)
    (fits : link.reassembler.message.length + payload.length ≤ kMaxMessageSize) :
    Affords budget (appendFragment payload fin) link := by
  rw [Affords, wp_def, run_appendFragment, WebSocketReassembler.append, if_neg (by omega)]
  exact ⟨ready.ring, ready.keys, ready.returns, ready.room⟩

/-- The bytes the reassembly buffer has to hold for a piece. -/
def spaceFor (gathered : Bytes) (piece : Piece) : Nat :=
  if piece.isControl || piece.isHeartbeat || (piece.fin && piece.opcode ≠ .kContinuation) then 0
  else gathered.length + piece.payload.length

theorem Ready.handleData {budget : Nat} {frame : WebSocketFrame} {link : Link} (ready : Ready budget link)
    (data : (pieceOf frame).isControl = false) (message : (pieceOf frame).isHeartbeat = false)
    (fits : spaceFor link.reassembler.message (pieceOf frame) ≤ kMaxMessageSize) :
    Affords budget (handleData frame) link := by
  rw [spaceFor, data, message] at fits
  unfold Ws.handleData
  by_cases continues : frame.header.opcode = .kContinuation
  · rw [if_neg (by simp [pieceOf, continues])] at fits
    rw [if_pos continues, Affords, wp_bind]
    refine (ready.appendFragment fits).mono (fun _ next ready => ?_) fun _ _ threw => threw
    rw [wp_bind, wp_get, wp_ite]
    split
    · rw [wp_bind]
      refine ready.dispatchMessage.mono (fun _ last ready => ?_) fun _ _ threw => threw
      exact ⟨ready.ring, ready.keys, ready.returns, ready.room⟩
    · exact ready
  · rw [if_neg continues]
    cases fin : frame.header.fin with
    | false =>
        rw [if_neg (by simp [pieceOf, fin])] at fits
        exact ready.appendFragment fits
    | true => exact ready.dispatchMessage

theorem Ready.handleFrame {budget : Nat} {frame : WebSocketFrame} {link : Link}
    (ready : Ready (replyCost frame + budget) link)
    (fits : spaceFor link.reassembler.message (pieceOf frame) ≤ kMaxMessageSize) :
    Affords budget (handleFrame frame) link := by
  rw [Affords, Ws.handleFrame, wp_bind, buildControlResponse]
  cases reply : controlReply frame.header.opcode with
  | some opcode =>
      rw [replyCost, reply, if_pos (by rfl)] at ready
      have answered : Affords budget (Ws.encode opcode frame.payload >>= fun frame => Ws.writeRaw frame none) link :=
        ready.encode_writeRaw none
      rw [Affords, wp_bind] at answered
      dsimp only
      rw [wp_bind]
      exact answered
  | none =>
      rw [replyCost, reply, if_neg (by decide), Nat.zero_add] at ready
      dsimp only
      rw [wp_pure]
      dsimp only
      rw [wp_ite]
      split
      · exact ready
      · rename_i message
        simp only [Bool.or_eq_true, decide_eq_true_eq, not_or, Bool.not_eq_true] at message
        refine ready.handleData ?_ message.2 fits
        simp [isControl_pieceOf, reply, message.1]

theorem Affords.returns {budget : Nat} {program : LinkM PUnit} {link : Link} (leaves : Affords budget program link) :
    ∃ next, program link = .ok .unit next ∧ Ready budget next := by
  rw [Affords, wp_def] at leaves
  cases ran : program link with
  | error exception next =>
      rw [ran] at leaves
      exact leaves.elim
  | ok value next =>
      rw [ran] at leaves
      exact ⟨next, rfl, leaves⟩

/-- The reassembly buffer holds every piece. -/
def Holds (gathered : Bytes) : List Piece → Prop
  | [] => True
  | piece :: pieces => spaceFor gathered piece ≤ kMaxMessageSize ∧ Holds (assemble gathered piece).1 pieces

theorem Ready.handleFrames {frames : List WebSocketFrame} {gathered : Bytes} {link : Link}
    (ready : Ready (frames.map replyCost).sum link) (gathers : link.reassembler = ⟨gathered, false⟩)
    (holds : Holds gathered (frames.map pieceOf)) : ∃ next, (forM frames Ws.handleFrame) link = .ok .unit next := by
  induction frames generalizing link gathered with
  | nil => exact ⟨link, rfl⟩
  | cons frame frames ih =>
      rw [List.map_cons, List.sum_cons] at ready
      obtain ⟨middle, handled, ready⟩ := (ready.handleFrame (by rw [gathers]; exact holds.1)).returns
      rw [List.forM_cons, run_bind_ok handled]
      exact ih ready (assembles_handleFrame gathers handled).reassembler holds.2

theorem holds_append (gathered : Bytes) (early late : List Piece) :
    Holds gathered (early ++ late) ↔ Holds gathered early ∧ Holds (assembleAll gathered early).1 late := by
  induction early generalizing gathered with
  | nil => exact (and_iff_right trivial).symm
  | cons piece early ih =>
      rw [List.cons_append, Holds, Holds, ih, and_assoc]
      rfl

theorem holds_filter (gathered : Bytes) (pieces : List Piece) :
    Holds gathered (pieces.filter fun piece => !piece.isControl) ↔ Holds gathered pieces := by
  induction pieces generalizing gathered with
  | nil => rfl
  | cons piece pieces ih =>
      cases control : piece.isControl with
      | true =>
          have passed : assemble gathered piece = (gathered, []) := by simp [assemble, control]
          have free : spaceFor gathered piece = 0 := by simp [spaceFor, control]
          rw [List.filter_cons_of_neg (by simp [control]), ih, Holds, passed, free]
          exact (and_iff_right (Nat.zero_le _)).symm
      | false => rw [List.filter_cons_of_pos (by simp [control]), Holds, Holds, ih]

theorem spaceFor_le (gathered : Bytes) (piece : Piece) :
    spaceFor gathered piece ≤ gathered.length + piece.payload.length := by
  unfold spaceFor
  split
  · exact Nat.zero_le _
  · exact le_rfl

theorem holds_continuations {gathered : Bytes} {rest : List Bytes}
    (fits : gathered.length + rest.flatten.length ≤ kMaxMessageSize) : Holds gathered (continuations rest) := by
  induction rest generalizing gathered with
  | nil => trivial
  | cons payload rest ih =>
      rw [List.flatten_cons, List.length_append] at fits
      refine ⟨(spaceFor_le _ _).trans (by dsimp only; omega), ih ?_⟩
      rw [assemble_continuation]
      split <;> simp only [List.length_append, List.length_nil] <;> omega

theorem Fragmented.Sendable.holds {message : Fragmented} (sendable : message.Sendable) : Holds [] message.pieces := by
  by_cases split : message.rest = []
  · have whole : message.opcode ≠ .kContinuation := by
      rcases message.data with text | binary
      · simp [text]
      · simp [binary]
    refine ⟨?_, by rw [split]; trivial⟩
    simp [spaceFor, split, whole]
  · have fits := sendable.fits split
    rw [Fragmented.content, List.length_append] at fits
    refine ⟨(spaceFor_le _ _).trans (by dsimp only [List.length_nil]; omega), holds_continuations ?_⟩
    rw [assemble_first _ _ _ message.data]
    split_ifs <;> simp only [List.length_append, List.length_nil] <;> omega

theorem holds_messages {messages : List Fragmented} (sendable : ∀ message ∈ messages, message.Sendable) :
    Holds [] (messages.flatMap Fragmented.pieces) := by
  induction messages with
  | nil => trivial
  | cons message messages ih =>
      rw [List.forall_mem_cons] at sendable
      rw [List.flatMap_cons, holds_append, sendable.1.assembleAll_pieces]
      exact ⟨sendable.1.holds, ih sendable.2⟩

/-- However the messages are split and whatever control frames come between, handling
the frames returns if there is room for the replies; and when it has returned, the
messages were dispatched whole, once each and in order, just where none of several
fragments begins with a fragment that reads as a heartbeat. -/
theorem fragmentation_invisible_iff {messages : List Fragmented} {frames : List WebSocketFrame} {link : Link}
    (split : (frames.map pieceOf).filter (fun piece => !piece.isControl) = messages.flatMap Fragmented.pieces)
    (sendable : ∀ message ∈ messages, message.Sendable) (clean : link.reassembler = .empty) :
    (Ready (frames.map replyCost).sum link → ∃ next, (forM frames handleFrame) link = .ok .unit next) ∧
      ∀ next, (forM frames handleFrame) link = .ok .unit next →
        next.reassembler = .empty ∧
          (next.dispatched = link.dispatched ++ messages.map (fun message => (link.source, message.content)) ↔
            ∀ message ∈ messages, ¬message.BeginsAsHeartbeat) := by
  constructor
  · intro ready
    refine ready.handleFrames clean ?_
    rw [← holds_filter, split]
    exact holds_messages sendable
  · intro next ran
    obtain ⟨reassembler, dispatched, -⟩ := assembles_frames clean ran
    rw [← assembleAll_filter, split, assembleAll_messages sendable] at reassembler dispatched
    refine ⟨reassembler, ?_⟩
    have tagged : messages.map (fun message => (link.source, message.content)) =
        (messages.map Fragmented.content).map (link.source, ·) := by
      rw [List.map_map]
      rfl
    rw [dispatched, List.append_cancel_left_eq, ← map_received_eq_iff, tagged]
    exact List.map_inj_right fun first second same => (Prod.mk.inj same).2

/-- A frame with a base header. -/
def sampleFrame (fin : Bool) (opcode : WebSocketOpcode) (payload : String) : WebSocketFrame :=
  ⟨⟨fin, opcode, payload.length, 2⟩, toBytes payload.toList, payload.length + 2⟩

/-- Two messages in four frames, with a ping and a pong between them. -/
def sampleStream : List WebSocketFrame :=
  [sampleFrame false .kText "he", sampleFrame true .kPing "?", sampleFrame false .kContinuation "",
    sampleFrame true .kContinuation "llo", sampleFrame true .kPong "", sampleFrame true .kBinary "pong"]

def sampleMessages : List Fragmented :=
  [⟨.kText, toBytes "he".toList, [[], toBytes "llo".toList], .inl rfl⟩, ⟨.kBinary, toBytes "pong".toList, [], .inr rfl⟩]

theorem fragmentation_invisible_iff_interleaved :
    (finalState ((forM sampleStream handleFrame) sampleClient.state)).dispatched =
        [(0, toBytes "hello".toList), (0, toBytes "pong".toList)] ∧
      ∃ next, (forM sampleStream handleFrame) sampleClient.state = .ok .unit next ∧ next.reassembler = .empty := by
  have split : (sampleStream.map pieceOf).filter (fun piece => !piece.isControl) =
      sampleMessages.flatMap Fragmented.pieces := by decide +kernel
  have sendable : ∀ message ∈ sampleMessages, message.Sendable := by
    simp only [sampleMessages, List.forall_mem_cons]
    exact ⟨⟨by decide +kernel, by decide +kernel⟩, ⟨by decide +kernel, by decide +kernel⟩, by simp⟩
  have clean : sampleClient.state.reassembler = .empty := rfl
  have ready : Ready (sampleStream.map replyCost).sum sampleClient.state :=
    ⟨RingBuffer.valid_empty (by decide) (by decide), fun _ => rfl, by simp [sampleClient, initial], by decide +kernel⟩
  obtain ⟨next, ran⟩ := (fragmentation_invisible_iff split sendable clean).1 ready
  exact ⟨by decide +kernel, next, ran, ((fragmentation_invisible_iff split sendable clean).2 next ran).1⟩

/-- A text that begins with the heartbeat, split after it, loses its beginning. -/
theorem fragmented_pong_lost :
    [sampleFrame false .kText "pong", sampleFrame true .kContinuation "!"].map pieceOf =
        Fragmented.pieces ⟨.kText, toBytes "pong".toList, [toBytes "!".toList], .inl rfl⟩ ∧
      returned ((forM [sampleFrame false .kText "pong", sampleFrame true .kContinuation "!"] handleFrame)
        sampleClient.state) = some .unit ∧
      (finalState ((forM [sampleFrame false .kText "pong", sampleFrame true .kContinuation "!"] handleFrame)
        sampleClient.state)).dispatched = [(0, toBytes "!".toList)] := by
  decide +kernel

end TradingEngine.Ws
