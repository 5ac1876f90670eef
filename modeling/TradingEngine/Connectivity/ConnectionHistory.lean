import TradingEngine.Connectivity.Fragmentation
import TradingEngine.Connectivity.ReadChunking

/-! What a new connection inherits. `Connect` empties the read buffer but not the
reassembly buffer, so the messages of a connection depend on what an earlier one left
unfinished there, and on nothing else. -/

set_option autoImplicit false

namespace TradingEngine.Ws

open Library.Exec Library.StreamDecoder

/-- A client whose last input was a `Connect` that succeeded. -/
def Connected (client : OkxWsClient) : Prop :=
  ∃ host path auth kind maskKeys counter earlier attempt,
    Reaches step (fun _ _ => True) (initial host path auth kind maskKeys counter) earlier ∧
      tryConnect attempt earlier = .ok .unit client

/-- A run on the current connection that receives these reads, whatever else happens. -/
inductive Receives : OkxWsClient → List Bytes → OkxWsClient → Prop where
  | done (client : OkxWsClient) : Receives client [] client
  | read {client next final : OkxWsClient} {index source : Nat} {onMessage : List (List Action)} {bytes : Bytes}
      {reads : List Bytes} :
      client.state.pendingReads[index]? = some source → client.state.transport = some source →
      step (.readDone index onMessage (.ok bytes)) client = .ok .unit next →
      Receives next reads final → Receives client (bytes :: reads) final
  | other {client next final : OkxWsClient} {input : Input} {reads : List Bytes} :
      input.isQuiet = true → step input client = .ok .unit next →
      Receives next reads final → Receives client reads final

/-- The messages dispatched from one state of a run to a later one. -/
def messagesSince (before after : OkxWsClient) : List Bytes :=
  (after.state.dispatched.drop before.state.dispatched.length).map Prod.snd

/-- The same bytes: in the same reads, or as the same frames however they are cut. -/
def SameBytes (first second : List Bytes) : Prop :=
  first = second ∨ ∃ (frames : List ServerFrame) (tail : Bytes), Incomplete tail ∧
    first.flatten = (frames.map ServerFrame.wire).flatten ++ tail ∧
    second.flatten = (frames.map ServerFrame.wire).flatten ++ tail

/-!
## The state a connection starts in
-/

/-- The link while a read is handled. -/
def handling (index source : Nat) (onMessage : List (List Action)) (link : Link) : Link :=
  { link with
    pendingReads := link.pendingReads.eraseIdx index
    source := source
    onMessage := onMessage }

theorem run_readDone {index source : Nat} {onMessage : List (List Action)} {bytes : Bytes} {client : OkxWsClient}
    (pending : client.state.pendingReads[index]? = some source) :
    step (.readDone index onMessage (.ok bytes)) client = (do
      receive frameDecoder handleFrame bytes
      Receiver.onState readLoop) ⟨client.buffer, handling index source onMessage client.state⟩ := by
  rw [step, run_bind_ok (run_get _), pending]
  dsimp only
  rw [run_bind_ok (Receiver.run_onState (run_modify _ _)), onReadDone,
    run_bind_ok (Receiver.run_onState (run_modify _ _))]
  rfl

theorem readDone_ok {index source : Nat} {onMessage : List (List Action)} {bytes : Bytes} {client next : OkxWsClient}
    (pending : client.state.pendingReads[index]? = some source)
    (ran : step (.readDone index onMessage (.ok bytes)) client = .ok .unit next) :
    ∃ frames, split frameDecoder ((client.buffer ++ bytes).length + 1) (client.buffer ++ bytes) = (frames, .ok next.buffer) ∧
      ∃ middle, (forM frames handleFrame) (handling index source onMessage client.state) = .ok .unit middle ∧
        Keeps middle next.state := by
  rw [run_readDone pending] at ran
  obtain ⟨_, middle, received, looped⟩ := of_bind_ok ran
  obtain ⟨frames, splits, handled⟩ := receive_ok frameDecoder received
  have unread := (unread_onState keeps_readLoop).ok looped
  exact ⟨frames, unread.buffer ▸ splits, middle.state, handled, unread.keeps⟩

theorem connect_keeps {attempt : Attempt} {client next : OkxWsClient}
    (ran : connect attempt client = .ok .unit next) : Keeps client.state next.state := by
  have tried := keeps_tryConnect attempt client
  unfold connect at ran
  split at ran
  · rename_i connected
    rw [connected] at tried
    cases ran
    exact tried
  · cases ran
  all_goals
    rename_i failed
    rw [failed] at tried
    exact tried.trans _ _ _ ((unread_onState keeps_scheduleReconnect).ok ran).keeps

/-- Between inputs the reassembler never holds a complete message. -/
theorem incomplete_step {input : Input} {client next : OkxWsClient} (open' : client.state.reassembler.complete = false)
    (ran : step input client = .ok .unit next) : next.state.reassembler.complete = false := by
  cases quiet : input.isQuiet with
  | true => rw [((unread_step quiet).ok ran).keeps.reassembler, open']
  | false =>
      cases input with
      | send | beginBatch | endBatch | heartbeat | scheduleReconnect | writeDone => cases quiet
      | connect attempt => rw [(connect_keeps ran).reassembler, open']
      | readDone index onMessage result =>
          cases result with
          | error message => cases quiet
          | ok bytes =>
              cases pending : client.state.pendingReads[index]? with
              | none =>
                  rw [step, run_bind_ok (run_get _), pending] at ran
                  cases ran
                  exact open'
              | some source =>
                  obtain ⟨frames, -, middle, handled, keeps⟩ := readDone_ok pending ran
                  have gathers : (handling index source onMessage client.state).reassembler =
                      ⟨client.state.reassembler.message, false⟩ := by
                    rw [← open']
                    rfl
                  rw [keeps.reassembler, (assembles_frames gathers handled).reassembler]

/-- What `Connect` leaves for the new connection. -/
structure Starts (client : OkxWsClient) : Prop where
  buffer : client.buffer = []
  open' : client.state.reassembler.complete = false
  reading : ∃ (index source : Nat), client.state.pendingReads[index]? = some source ∧ client.state.transport = some source

theorem signIn_transport : Moves (fun before after : Link => after.transport = before.transport) signIn := by
  have transitive (first second third : Link) (early : second.transport = first.transport)
      (late : third.transport = second.transport) : third.transport = first.transport := late.trans early
  refine moves_bind transitive (moves_modify _ fun _ => rfl) fun _ => ?_
  refine moves_bind transitive (moves_get fun _ => rfl) fun link => ?_
  split
  · exact moves_modify _ fun _ => rfl
  · split
    · exact sends_sendLogin.imp fun _ _ sends => sends.transport
    · exact fun _ => rfl

theorem Connected.starts {client : OkxWsClient} (connected : Connected client) : Starts client := by
  obtain ⟨host, path, auth, kind, maskKeys, counter, earlier, attempt, run, tried⟩ := connected
  have open' : earlier.state.reassembler.complete = false :=
    run.invariant (fun client => client.state.reassembler.complete = false) rfl
      fun _ _ _ open' _ ran => incomplete_step open' ran
  have keeps := (keeps_tryConnect attempt).ok tried
  rw [tryConnect] at tried
  obtain ⟨_, emplaced, emplace, tried⟩ := of_bind_ok tried
  obtain ⟨_, shaken, handshake, tried⟩ := of_bind_ok tried
  rw [run_bind_ok (run_modify _ _)] at tried
  obtain ⟨_, signed, signIn, tried⟩ := of_bind_ok tried
  obtain ⟨_, acted, acts, looped⟩ := of_bind_ok tried
  obtain ⟨signIn, signedBuffer⟩ := Receiver.onState_ok signIn
  obtain ⟨acts, actedBuffer⟩ := Receiver.onState_ok acts
  obtain ⟨looped, buffer⟩ := Receiver.onState_ok looped
  have transport : acted.state.transport = some earlier.state.opened := by
    rw [((sends_acts _).ok acts).transport, signIn_transport.ok signIn,
      (moves_handshake attempt).ok (Receiver.onState_ok handshake).1]
    rw [(moves_emplaceTransport _).ok (Receiver.onState_ok emplace).1]
    rfl
  rw [run_readLoop transport] at looped
  have after : client.state = { acted.state with pendingReads := acted.state.pendingReads ++ [earlier.state.opened] } :=
    (congrArg finalState looped).symm
  refine ⟨by rw [buffer, actedBuffer, signedBuffer], by rw [keeps.reassembler, open'],
    acted.state.pendingReads.length, earlier.state.opened, ?_, ?_⟩
  · rw [after]
    exact List.getElem?_concat_length
  · rw [after]
    exact transport

/-!
## Messages
-/

/-- A run on the connection splits the bytes into frames, and gathers and dispatches
what these come to. -/
theorem Receives.assembles {client final : OkxWsClient} {reads : List Bytes} (receives : Receives client reads final)
    {gathered : Bytes} (gathers : client.state.reassembler = ⟨gathered, false⟩) :
    ∃ frames, splitAll frameDecoder client.buffer reads = (frames, .ok final.buffer) ∧
      ∃ outcome, outcome = assembleAll gathered (frames.map pieceOf) ∧
        final.state.reassembler = ⟨outcome.1, false⟩ ∧
        final.state.dispatched.map Prod.snd = client.state.dispatched.map Prod.snd ++ outcome.2 := by
  induction receives generalizing gathered with
  | done client => exact ⟨[], rfl, _, rfl, gathers, by simp [assembleAll]⟩
  | other quiet ran later ih =>
      have unread := (unread_step quiet).ok ran
      obtain ⟨frames, splits, outcome, assembled, reassembler, dispatched⟩ :=
        ih (unread.keeps.reassembler.trans gathers)
      rw [unread.buffer] at splits
      rw [unread.keeps.dispatched] at dispatched
      exact ⟨frames, splits, outcome, assembled, reassembler, dispatched⟩
  | @read client next final index source onMessage bytes reads pending current ran later ih =>
      obtain ⟨early, splits, middle, handled, keeps⟩ := readDone_ok pending ran
      have first := assembles_frames (by exact gathers) handled
      obtain ⟨late, rest, outcome, assembled, reassembler, dispatched⟩ :=
        ih (keeps.reassembler.trans first.reassembler)
      refine ⟨early ++ late, ?_, _, rfl, ?_, ?_⟩
      · simp only [splitAll, splits, rest]
      · rw [reassembler, assembled, List.map_append, assembleAll_append]
      · rw [dispatched, keeps.dispatched, first.messages, List.map_append, assembleAll_append, ← assembled,
          List.append_assoc]
        rfl

theorem Starts.messages {client final : OkxWsClient} {reads : List Bytes} (starts : Starts client)
    (receives : Receives client reads final) :
    ∃ frames, splitAll frameDecoder [] reads = (frames, .ok final.buffer) ∧
      messagesSince client final = (assembleAll client.state.reassembler.message (frames.map pieceOf)).2 := by
  have gathers : client.state.reassembler = ⟨client.state.reassembler.message, false⟩ := by rw [← starts.open']
  obtain ⟨frames, splits, outcome, rfl, -, dispatched⟩ := receives.assembles gathers
  rw [starts.buffer] at splits
  refine ⟨frames, splits, ?_⟩
  rw [messagesSince, List.map_drop, dispatched, List.drop_left' (List.length_map _)]

theorem SameBytes.frames {first second : List Bytes} (same : SameBytes first second)
    {firstFrames secondFrames : List WebSocketFrame} {firstLeft secondLeft : Bytes}
    (splitsFirst : splitAll frameDecoder [] first = (firstFrames, .ok firstLeft))
    (splitsSecond : splitAll frameDecoder [] second = (secondFrames, .ok secondLeft)) :
    firstFrames = secondFrames := by
  rcases same with rfl | ⟨frames, tail, incomplete, firstStream, secondStream⟩
  · rw [splitsFirst] at splitsSecond
    exact congrArg Prod.fst splitsSecond
  · rw [splitAll_frames frames incomplete firstStream] at splitsFirst
    rw [splitAll_frames frames incomplete secondStream] at splitsSecond
    exact (congrArg Prod.fst splitsFirst).symm.trans (congrArg Prod.fst splitsSecond)

/-- A final fragment without content. -/
def lastFragment : Bytes := [0x80, 0]

theorem splitAll_lastFragment : splitAll frameDecoder [] [lastFragment] =
    ([⟨⟨true, .kContinuation, 0, 2⟩, [], 2⟩], .ok []) := by
  rfl

theorem handle_lastFragment (link : Link) (quiet : link.onMessage = []) :
    ∃ next, (forM [⟨⟨true, .kContinuation, 0, 2⟩, [], 2⟩] handleFrame) link = .ok .unit next := by
  have appended : appendFragment [] true link =
      .ok .unit { link with reassembler := ⟨link.reassembler.message ++ [], true⟩ } := by
    rw [run_appendFragment, WebSocketReassembler.append, if_neg (by simp)]
  have dispatched (message : Bytes) (link : Link) (quiet : link.onMessage = []) :
      dispatchMessage message link = .ok .unit (noted message link) := by
    rw [run_dispatchMessage, quiet]
    rfl
  have data : handleFrame ⟨⟨true, .kContinuation, 0, 2⟩, [], 2⟩ = handleData ⟨⟨true, .kContinuation, 0, 2⟩, [], 2⟩ := rfl
  rw [List.forM_cons, List.forM_nil, data, handleData, if_pos rfl, bind_assoc, run_bind_ok appended, bind_assoc,
    run_bind_ok (run_get _)]
  dsimp only
  rw [if_pos rfl, bind_assoc, run_bind_ok (dispatched _ _ (by exact quiet)), run_bind_ok (run_modify _ _)]
  exact ⟨_, rfl⟩

/-- A new connection that receives it dispatches what was left unfinished. -/
theorem Starts.lastFragment {client : OkxWsClient} (starts : Starts client) :
    ∃ final, Receives client [Ws.lastFragment] final ∧
      messagesSince client final = [client.state.reassembler.message] := by
  obtain ⟨index, source, pending, current⟩ := starts.reading
  obtain ⟨next, handled⟩ := handle_lastFragment (handling index source [] client.state) rfl
  obtain ⟨rxBuffer, ran, -⟩ :=
    passesFrames_of_split handleFrame splitAll_lastFragment (handling index source [] client.state)
  rw [handled, List.forM_cons, List.forM_nil, bind_pure_unit] at ran
  have stepped : step (.readDone index [] (.ok Ws.lastFragment)) client =
      Receiver.onState readLoop ⟨rxBuffer, next⟩ := by
    rw [run_readDone pending, starts.buffer, run_bind_ok ran]
  obtain ⟨final, looped⟩ : ∃ final, Receiver.onState readLoop (⟨rxBuffer, next⟩ : OkxWsClient) = .ok .unit final :=
    ⟨_, Receiver.run_onState rfl⟩
  have receives : Receives client [Ws.lastFragment] final :=
    .read pending current (stepped.trans looped) (.done final)
  obtain ⟨frames, splits, messages⟩ := starts.messages receives
  rw [splitAll_lastFragment] at splits
  obtain rfl : [⟨⟨true, .kContinuation, 0, 2⟩, [], 2⟩] = frames := congrArg Prod.fst splits
  refine ⟨final, receives, ?_⟩
  rw [messages]
  simp [assembleAll, assemble, pieceOf, Piece.isControl, Piece.isHeartbeat]

/-- For the same bytes the two connections dispatch the same messages, whatever else
happens on them. -/
def SameMessages (first second : OkxWsClient) : Prop :=
  ∀ firstReads secondReads firstFinal secondFinal, SameBytes firstReads secondReads →
    Receives first firstReads firstFinal → Receives second secondReads secondFinal →
    messagesSince first firstFinal = messagesSince second secondFinal

/-- The messages of two connections are the same just where both started with the same
unfinished message. -/
theorem messages_independent_iff {first second : OkxWsClient} (firstConnected : Connected first)
    (secondConnected : Connected second) :
    SameMessages first second ↔ first.state.reassembler.message = second.state.reassembler.message := by
  have firstStarts := firstConnected.starts
  have secondStarts := secondConnected.starts
  constructor
  · intro independent
    obtain ⟨firstFinal, firstReceives, firstMessages⟩ := firstStarts.lastFragment
    obtain ⟨secondFinal, secondReceives, secondMessages⟩ := secondStarts.lastFragment
    have same := independent _ _ _ _ (.inl rfl) firstReceives secondReceives
    rw [firstMessages, secondMessages] at same
    exact List.head_eq_of_cons_eq same
  · intro unfinished firstReads secondReads firstFinal secondFinal same firstReceives secondReceives
    obtain ⟨firstFrames, firstSplits, firstMessages⟩ := firstStarts.messages firstReceives
    obtain ⟨secondFrames, secondSplits, secondMessages⟩ := secondStarts.messages secondReceives
    rw [firstMessages, secondMessages, unfinished, same.frames firstSplits secondSplits]

/-!
## Samples
-/

/-- The client connected once these inputs were handled. -/
def connectedAfter (inputs : List Input) : OkxWsClient :=
  finalState (tryConnect sampleAttempt (finalState (forM inputs step sampleClient)))

theorem connected_connectedAfter {inputs : List Input} (admitted : AdmitsAll step (fun _ _ => True) sampleClient inputs)
    (succeeds : returned (tryConnect sampleAttempt (finalState (forM inputs step sampleClient))) = some .unit) :
    Connected (connectedAfter inputs) :=
  ⟨_, _, _, _, _, _, _, sampleAttempt, Reaches.start.all inputs admitted, eq_ok_of_returned succeeds⟩

/-- A connection that breaks after the first fragment of a message. -/
def brokenOff : List Input := [.connect sampleAttempt, .readDone 0 [] (.ok [0x01, 2, 97, 98]), .scheduleReconnect]

/-- A connection that breaks after a whole message. -/
def completed : List Input := [.connect sampleAttempt, .readDone 0 [] (.ok [0x81, 2, 97, 98]), .scheduleReconnect]

theorem messages_independent_iff_completed :
    (connectedAfter completed).state.dispatched = [(0, [97, 98])] ∧
      SameMessages (connectedAfter []) (connectedAfter completed) :=
  ⟨by decide +kernel,
    (messages_independent_iff (connected_connectedAfter (by decide +kernel) (by decide +kernel))
      (connected_connectedAfter (by decide +kernel) (by decide +kernel))).mpr (by decide +kernel)⟩

/-- The client after a last fragment on the connection. -/
def afterFragment (index : Nat) (client : OkxWsClient) : OkxWsClient :=
  finalState (step (.readDone index [] (.ok [0x80, 1, 99])) client)

/-- The new connection completes the message that the old one left unfinished. -/
theorem fragment_survives_reconnect :
    (Connected (connectedAfter []) ∧ Connected (connectedAfter brokenOff)) ∧
      (Receives (connectedAfter []) [[0x80, 1, 99]] (afterFragment 0 (connectedAfter [])) ∧
        Receives (connectedAfter brokenOff) [[0x80, 1, 99]] (afterFragment 1 (connectedAfter brokenOff))) ∧
      messagesSince (connectedAfter []) (afterFragment 0 (connectedAfter [])) = [[99]] ∧
      messagesSince (connectedAfter brokenOff) (afterFragment 1 (connectedAfter brokenOff)) = [[97, 98, 99]] :=
  have received (index source : Nat) (client : OkxWsClient) (pending : client.state.pendingReads[index]? = some source)
      (current : client.state.transport = some source)
      (ran : returned (step (.readDone index [] (.ok [0x80, 1, 99])) client) = some .unit) :
      Receives client [[0x80, 1, 99]] (afterFragment index client) :=
    .read pending current (eq_ok_of_returned ran) (.done _)
  ⟨⟨connected_connectedAfter (by decide +kernel) (by decide +kernel),
      connected_connectedAfter (by decide +kernel) (by decide +kernel)⟩,
    ⟨received 0 0 _ (by decide +kernel) (by decide +kernel) (by decide +kernel),
      received 1 1 _ (by decide +kernel) (by decide +kernel) (by decide +kernel)⟩,
    by decide +kernel, by decide +kernel⟩

end TradingEngine.Ws
