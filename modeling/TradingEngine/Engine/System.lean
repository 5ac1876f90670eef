import TradingEngine.Engine.InputFootprint
import TradingEngine.Library.Simulation
import TradingEngine.MarketData.MarketDataProperties
import TradingEngine.MarketData.SbeBbo

/-! The process: the engine with its market data source, fed with the texts that
arrive on the two connections. A text on the private connection is served as a
list of the engine's inputs, so a run of the process is a run of the engine. -/

set_option autoImplicit false

namespace TradingEngine

open Library.Exec

inductive MarketDataMode where
  | kJsonBook
  | kSbeBbo
  deriving DecidableEq, Repr

inductive MarketDataSource (D : Type) [DoubleArith D] where
  | json (source : JsonBookSource D)
  | sbe (source : SbeBboSource D)

variable {D : Type} [DoubleArith D]

namespace MarketDataSource

def make : MarketDataMode → MarketDataSource D
  | .kJsonBook => .json (.initial kEthUsdt)
  | .kSbeBbo => .sbe .initial

def published : MarketDataSource D → List (OrderBook D)
  | .json source => source.published
  | .sbe source => source.published

/-- The handler of a message, and the book it hands on, if it does. -/
def onMessage (message : Text) : EStateM Exn (MarketDataSource D) (Option (OrderBook D))
  | .json source =>
      match JsonBookSource.onMessage message source with
      | .ok _ next => .ok next.published[source.published.length]? (.json next)
      | .error exception next => .error exception (.json next)
  | .sbe source =>
      let next := source.onMessage message
      .ok next.published[source.published.length]? (.sbe next)

/-- A message alone, without a listener. -/
def receive (message : Text) : EStateM Exn (MarketDataSource D) PUnit := do
  let _ ← onMessage message

end MarketDataSource

structure System (D : Type) [DoubleArith D] where
  engine : Engine D
  marketData : MarketDataSource D

/-- What the io_context hands to the process. -/
inductive Arrival where
  | marketData (message : Text)
  | privateMessage (message : Text)
  | quoterTimer
  | timeoutCheck
  | signal
  | connected (login : Text)
  | disconnected
  | controlFrame (bytes : Nat)
  | written (bytes : Nat)

namespace System

def initial (mode : MarketDataMode) (engine : Engine D) : System D := ⟨engine, .make mode⟩

def onEngine {α : Type} (program : EngineM D α) : EStateM Exn (System D) α := fun system =>
  match program system.engine with
  | .ok value engine => .ok value { system with engine := engine }
  | .error exception engine => .error exception { system with engine := engine }

def onMarketData {α : Type} (program : EStateM Exn (MarketDataSource D) α) : EStateM Exn (System D) α :=
  fun system =>
    match program system.marketData with
    | .ok value source => .ok value { system with marketData := source }
    | .error exception source => .error exception { system with marketData := source }

/-- A message of the market data connection, with the engine as listener. -/
def handleMarketData (message : Text) : EStateM Exn (System D) PUnit := do
  match ← onMarketData (MarketDataSource.onMessage message) with
  | none => pure .unit
  | some book => onEngine (Engine.handle (.bookUpdate book))

def handle : Arrival → EStateM Exn (System D) PUnit
  | .marketData message => handleMarketData message
  | .privateMessage message => onEngine (Engine.dispatchMessage message)
  | .quoterTimer => onEngine (Engine.handle .quoterTimer)
  | .timeoutCheck => onEngine (Engine.handle .timeoutCheck)
  | .signal => onEngine (Engine.handle .signal)
  | .connected login => onEngine (Engine.handle (.connected login))
  | .disconnected => onEngine (Engine.handle .disconnected)
  | .controlFrame bytes => onEngine (Engine.handle (.controlFrame bytes))
  | .written bytes => onEngine (Engine.handle (.written bytes))

/-- One turn of the loop in `Engine::Run`. -/
def step (arrival : Arrival) : EStateM Exn (System D) PUnit := do
  let system ← get
  if system.engine.stopped then pure .unit else handle arrival

end System

/-!
## Inputs that keep the loop running
-/

namespace Engine

def SameStopped (before after : Engine D) : Prop := after.stopped = before.stopped

omit [DoubleArith D] in
theorem sameStopped : InputFootprint (fun _ => True) (SameStopped : Engine D → Engine D → Prop) where
  refl _ := rfl
  trans _ _ _ early late := late.trans early
  background _ _ := trivial
  trace _ _ _ := rfl
  reads _ := rfl
  ids _ := rfl
  calls _ := rfl
  ws _ _ := rfl
  store _ _ := rfl
  quoter _ _ := rfl
  pending _ _ := rfl
  roundTrip _ _ := rfl
  account _ _ := rfl
  trips _ _ := rfl
  position _ _ := rfl
  limits _ _ := rfl

theorem step_of_running {engine : Engine D} (running : engine.stopped = false) (input : Input D) :
    step input engine = handle input engine := by
  rw [step, run_bind_ok (run_get _), if_neg (by simp [running])]

/-!
## Private messages
-/

/-- An input as the outside produces it: a book some run of the source published, an
event read from a row of a message. -/
def Genuine (mode : MarketDataMode) : Input D → Prop
  | .bookUpdate book => ∃ source, Reaches MarketDataSource.receive (fun _ _ => True) (.make mode) source ∧
      book ∈ source.published
  | .login message => Json.findString message kEvent = some kLoginEvent
  | .orderEvent event => ∃ message, ∃ row ∈ (Json.arrayElements message kData).1, readOrderEvent row = .ok event
  | _ => True

omit [DoubleArith D] in
theorem noteLogin_of_other {message : Text} (other : Json.findString message kEvent ≠ some kLoginEvent)
    (engine : Engine D) : noteLogin message engine = .ok .unit engine := by
  have unmatched : (Json.findString message kEvent == some kLoginEvent) = false := beq_eq_false_iff_ne.mpr other
  rw [noteLogin, run_modify, unmatched, Bool.and_false]
  rfl

omit [DoubleArith D] in
theorem dispatch_of_untracked {engine : Engine D} {message : Text} (untracked : engine.handlerFor message = none) :
    dispatch message engine = .ok false engine := by
  rw [dispatch, run_bind_ok (run_get _), untracked]
  rfl

/-- A tracked response is never passed on to the channels. -/
theorem dispatch_bind_of_tracked {engine : Engine D} {message : Text} {entry : Text × ResponseHandler}
    (tracked : engine.handlerFor message = some entry) (otherwise : EngineM D PUnit) :
    (dispatch message >>= fun dispatched => if dispatched then pure .unit else otherwise) engine =
      handle (.response message) engine := by
  have dispatched {value : Bool} {next : Engine D} (ran : dispatch message engine = .ok value next) :
      value = true := by
    rw [dispatch, run_bind_ok (run_get _), tracked] at ran
    obtain ⟨_, _, -, ran⟩ := of_bind_ok ran
    obtain ⟨_, _, -, ran⟩ := of_bind_ok ran
    cases ran
    rfl
  simp only [handle]
  rw [run_bind, run_bind]
  cases ran : dispatch message engine with
  | error exception next => rfl
  | ok value next =>
      rw [dispatched ran]
      rfl

/-- The rows of the orders channel, up to the first that cannot be read. -/
theorem expands_events (mode : MarketDataMode) {engine : Engine D} (running : engine.stopped = false) (message : Text) :
    Expands step (Genuine mode) (forEachOrderEvent message (handleOrderEvent : OrderEvent D → EngineM D PUnit))
      engine := by
  unfold forEachOrderEvent
  split
  · exact .none rfl
  rw [Json.forEachArrayElement_eq]
  let read (row : Text) : Except Exn (Input D) := (readOrderEvent row).map .orderEvent
  have served : forM (Json.arrayElements message kData).1
      (fun row => lift (readOrderEvent row) >>= handleOrderEvent) engine =
        forM (Json.arrayElements message kData).1 (fun row => lift (read row) >>= step) engine := by
    refine forM_eq_of_kept (fun row current (still : current.stopped = false) => ?_) (fun row => ?_) running
    · change _ = (lift ((readOrderEvent row).map .orderEvent) >>= step) current
      cases (readOrderEvent row : Except Exn (OrderEvent D)) with
      | error exception => rfl
      | ok event => exact (step_of_running still (.orderEvent event)).symm
    · refine (sameStopped.moves_bind (sameStopped.moves_lift _) fun event =>
        sameStopped.moves_handleOrderEvent event).imp ?_
      exact fun before after same still => same.trans still
  refine Expands.bind_idle (.congr served (expands_forM_lift (fun row listed input found => ?_) engine)) ?_
  · change (readOrderEvent row).map _ = _ at found
    cases event : (readOrderEvent row : Except Exn (OrderEvent D)) with
    | error exception =>
        rw [event] at found
        cases found
    | ok event =>
        rw [event] at found
        cases found
        exact ⟨message, row, listed, ‹_›⟩
  · intro _ middle
    split <;> rfl

theorem expands_dispatchMessage (mode : MarketDataMode) {engine : Engine D} (running : engine.stopped = false)
    (message : Text) : Expands step (Genuine mode) (dispatchMessage message) engine := by
  by_cases login : Json.findString message kEvent = some kLoginEvent
  · have genuine : Genuine mode (.login message : Input D) := login
    refine Expands.one genuine ?_
    rw [step_of_running running, dispatchMessage, onPrivateWsMessage, if_pos login]
    rfl
  · have served : dispatchMessage message engine = onPrivateWsMessage message engine :=
      run_bind_ok (noteLogin_of_other login engine) _
    rw [onPrivateWsMessage, if_neg login] at served
    cases tracked : engine.handlerFor message with
    | some entry =>
        have genuine : Genuine mode (.response message : Input D) := trivial
        refine Expands.one genuine ?_
        rw [step_of_running running, served]
        exact dispatch_bind_of_tracked tracked _
    | none =>
        rw [run_bind_ok (dispatch_of_untracked tracked), if_neg Bool.false_ne_true] at served
        refine .congr served ?_
        split
        · exact expands_events mode running message
        · split
          · have genuine : Genuine mode (.account message : Input D) := trivial
            exact Expands.one genuine (step_of_running running (.account message)).symm
          · exact .none rfl

end Engine

/-!
## Runs of the process
-/

namespace System

/-- What the program does to the engine, inputs of the engine do. -/
def Serves (mode : MarketDataMode) (program : EStateM Exn (System D) PUnit) (system : System D) : Prop :=
  ∃ inputs : List (Engine.Input D), (∀ input ∈ inputs, Engine.Genuine mode input) ∧
    finalState (forM inputs Engine.step system.engine) = (finalState (program system)).engine ∧
    ((returned (program system)).isSome = true →
      returned (forM inputs Engine.step system.engine) = some .unit)

theorem serves_onEngine {mode : MarketDataMode} {program : EngineM D PUnit} {system : System D}
    (expands : Expands Engine.step (Engine.Genuine mode) program system.engine) :
    Serves mode (onEngine program) system := by
  obtain ⟨inputs, genuine, final, returns⟩ := expands
  refine ⟨inputs, genuine, ?_, ?_⟩
  · rw [final, onEngine]
    cases program system.engine <;> rfl
  · rw [onEngine]
    cases ran : program system.engine with
    | error exception engine => exact fun finished => by cases finished
    | ok value engine => exact fun _ => returns (by rw [ran]; rfl)

theorem serves_input {mode : MarketDataMode} {system : System D} (running : system.engine.stopped = false)
    {input : Engine.Input D} (genuine : Engine.Genuine mode input) :
    Serves mode (onEngine (Engine.handle input)) system :=
  serves_onEngine (.one genuine (Engine.step_of_running running input).symm)

def Fed (mode : MarketDataMode) (source : MarketDataSource D) : Prop :=
  Reaches MarketDataSource.receive (fun _ _ => True) (.make mode) source

theorem mem_published {message : Text} {source next : MarketDataSource D} {book : OrderBook D}
    (ran : MarketDataSource.onMessage message source = .ok (some book) next) : book ∈ next.published := by
  cases source with
  | json source =>
      simp only [MarketDataSource.onMessage] at ran
      split at ran
      · rw [EStateM.Result.ok.injEq] at ran
        rw [← ran.2]
        exact List.mem_of_getElem? ran.1
      · cases ran
  | sbe source =>
      simp only [MarketDataSource.onMessage, EStateM.Result.ok.injEq] at ran
      rw [← ran.2]
      exact List.mem_of_getElem? ran.1

theorem Fed.receive {mode : MarketDataMode} {source next : MarketDataSource D} (fed : Fed mode source)
    {message : Text} {book : Option (OrderBook D)}
    (ran : MarketDataSource.onMessage message source = .ok book next) : Fed mode next := by
  have received : MarketDataSource.receive message source = .ok .unit next := run_bind_ok ran _
  exact Reaches.step fed trivial received

theorem serves_handleMarketData {mode : MarketDataMode} {system : System D} (running : system.engine.stopped = false)
    (fed : Fed mode system.marketData) (message : Text) : Serves mode (handleMarketData message) system := by
  have idle {program : EStateM Exn (System D) PUnit} (same : (finalState (program system)).engine = system.engine) :
      Serves mode program system := ⟨[], by simp, same.symm, fun _ => rfl⟩
  cases ran : MarketDataSource.onMessage message system.marketData with
  | error exception source =>
      refine idle ?_
      rw [handleMarketData, run_bind, onMarketData, ran]
      rfl
  | ok book source =>
      have received : handleMarketData message system = _ :=
        run_bind_ok (show onMarketData (MarketDataSource.onMessage message) system =
          .ok book { system with marketData := source } by rw [onMarketData, ran]) _
      cases book with
      | none =>
          refine idle ?_
          rw [received]
          rfl
      | some book =>
          have genuine : Engine.Genuine mode (.bookUpdate book) := ⟨source, fed.receive ran, mem_published ran⟩
          have still : (System.mk system.engine source).engine.stopped = false := running
          unfold Serves
          rw [received]
          exact serves_input still genuine

/-- Whatever arrives, the engine serves it as inputs of its own. -/
theorem serves_handle {mode : MarketDataMode} {system : System D} (running : system.engine.stopped = false)
    (fed : Fed mode system.marketData) (arrival : Arrival) : Serves mode (handle arrival) system := by
  cases arrival with
  | marketData message => exact serves_handleMarketData running fed message
  | privateMessage message => exact serves_onEngine (Engine.expands_dispatchMessage mode running message)
  | disconnected =>
      have genuine : Engine.Genuine mode (.disconnected : Engine.Input D) := trivial
      exact serves_input running genuine
  | written bytes =>
      have genuine : Engine.Genuine mode (.written bytes : Engine.Input D) := trivial
      exact serves_input running genuine
  | quoterTimer | timeoutCheck | signal | connected | controlFrame =>
      refine serves_input running ?_
      trivial

theorem serves_step {mode : MarketDataMode} {system : System D} (fed : Fed mode system.marketData)
    (arrival : Arrival) : Serves mode (step arrival) system := by
  have same : step arrival system = if system.engine.stopped then .ok .unit system else handle arrival system := by
    rw [step, run_bind_ok (run_get _)]
    split <;> rfl
  unfold Serves
  rw [same]
  cases running : system.engine.stopped with
  | true => exact ⟨[], by simp, rfl, fun _ => rfl⟩
  | false => exact serves_handle running fed arrival

/-- The source only moves by its own messages. -/
theorem fed_handle {mode : MarketDataMode} {system next : System D} (fed : Fed mode system.marketData)
    {arrival : Arrival} (ran : handle arrival system = .ok .unit next) : Fed mode next.marketData := by
  have alone {α : Type} {program : EngineM D α} {value : α} {before after : System D}
      (ran : onEngine program before = .ok value after) : after.marketData = before.marketData := by
    unfold onEngine at ran
    split at ran
    · cases ran
      rfl
    · cases ran
  cases arrival with
  | marketData message =>
      obtain ⟨book, middle, received, later⟩ := of_bind_ok ran
      unfold onMarketData at received
      split at received
      · rename_i source updated
        cases received
        cases book with
        | none =>
            cases later
            exact fed.receive updated
        | some book =>
            rw [alone later]
            exact fed.receive updated
      · cases received
  | disconnected =>
      have ended : onEngine (Engine.handle .disconnected) system = .ok .unit next := ran
      rw [alone ended]
      exact fed
  | written bytes =>
      have ended : onEngine (Engine.handle (.written bytes)) system = .ok .unit next := ran
      rw [alone ended]
      exact fed
  | privateMessage | quoterTimer | timeoutCheck | signal | connected | controlFrame =>
      rw [alone ran]
      exact fed

theorem fed_step {mode : MarketDataMode} {system next : System D} (fed : Fed mode system.marketData)
    {arrival : Arrival} (ran : step arrival system = .ok .unit next) : Fed mode next.marketData := by
  rw [step, run_bind_ok (run_get _)] at ran
  split at ran
  · cases ran
    exact fed
  · exact fed_handle fed ran

/-- A run of the process is a run of the engine on inputs the connections produced,
beside a run of the source; the next arrival, whether it returns or throws, takes
the engine where inputs of the engine take it. -/
theorem run_is_engine_run (mode : MarketDataMode) (start : Engine D) {system : System D}
    (run : Reaches step (fun _ _ => True) (initial mode start) system) :
    Reaches Engine.step (fun _ => Engine.Genuine mode) start system.engine ∧
      Fed mode system.marketData ∧
      ∀ arrival, ∃ inputs : List (Engine.Input D), (∀ input ∈ inputs, Engine.Genuine mode input) ∧
        finalState (forM inputs Engine.step system.engine) = (finalState (step arrival system)).engine := by
  have reached : Reaches Engine.step (fun _ => Engine.Genuine mode) start system.engine ∧
      Fed mode system.marketData := by
    induction run with
    | start => exact ⟨.start, .start⟩
    | step _ _ ran ih =>
        obtain ⟨inputs, genuine, final, returns⟩ := serves_step ih.2 _
        rw [ran] at final returns
        refine ⟨?_, fed_step ih.2 ran⟩
        have all := ih.1.through genuine (returns rfl)
        rwa [final] at all
  refine ⟨reached.1, reached.2, fun arrival => ?_⟩
  obtain ⟨inputs, genuine, final, -⟩ := serves_step reached.2 arrival
  exact ⟨inputs, genuine, final⟩

/-- A login, a first book, and the fill of the order the engine placed on it. -/
def sampleArrivals : List Arrival :=
  [.connected [], .privateMessage "\x7b\"event\":\"login\",\"code\":\"0\"\x7d".toList,
    .marketData snapshotPush,
    .privateMessage ("\x7b\"arg\":\x7b\"channel\":\"orders\"\x7d,\"data\":[\x7b\"state\":\"filled\"," ++
      "\"clOrdId\":\"2\",\"side\":\"buy\",\"fillPx\":\"99\",\"fillSz\":\"0.01\"\x7d]\x7d").toList]

theorem run_is_engine_run_session :
    ∃ engine : Engine ℚ, Reaches Engine.step (fun _ => Engine.Genuine .kJsonBook) Engine.sampleEngine engine ∧
      engine.position.netQty = 1 / 100 ∧ engine.quoter.lastQuotedMid = some 100 := by
  have facts : AdmitsAll step (fun _ _ => True) (initial .kJsonBook Engine.sampleEngine) sampleArrivals ∧
      (finalState (forM sampleArrivals step (initial .kJsonBook Engine.sampleEngine))).engine.position.netQty =
        1 / 100 ∧
      (finalState (forM sampleArrivals step
        (initial .kJsonBook Engine.sampleEngine))).engine.quoter.lastQuotedMid = some 100 := by
    decide +kernel
  have run := Reaches.start.all sampleArrivals facts.1
  exact ⟨_, (run_is_engine_run .kJsonBook Engine.sampleEngine run).1, facts.2⟩

end System

end TradingEngine
