import TradingEngine.Engine.Footprint
import TradingEngine.Orders.ReconciliationProperties
import TradingEngine.Orders.WsOrderRoundTripProperties
import TradingEngine.Strategy.NaiveQuoterProperties

/-! What each handler of the engine may change and send. Placing and amending are
told apart from everything else that leaves the engine. -/

set_option autoImplicit false

namespace TradingEngine

open Library.Exec

namespace Effect

/-- A message that opens or moves an order on the exchange. -/
def Opens : Effect → Prop
  | .send _ (.order _ _) _ => True
  | .send _ (.amendOrder _ _ _ _ _) _ => True
  | .restPlace _ _ => True
  | _ => False

def IsOrder : Effect → Prop
  | .send _ (.order _ _) _ => True
  | _ => False

def IsTriggered : Effect → Prop
  | .triggered _ => True
  | _ => False

instance : DecidablePred Opens
  | .send _ (.order _ _) _ => isTrue trivial
  | .send _ (.amendOrder _ _ _ _ _) _ => isTrue trivial
  | .send _ (.cancelOrder _ _ _) _ => isFalse id
  | .send _ (.other _) _ => isFalse id
  | .restPlace _ _ => isTrue trivial
  | .restCancel _ _ => isFalse id
  | .restPending => isFalse id
  | .triggered _ => isFalse id
  | .removed _ => isFalse id

instance : DecidablePred IsTriggered
  | .triggered _ => isTrue trivial
  | .send _ _ _ => isFalse id
  | .restPlace _ _ => isFalse id
  | .restCancel _ _ => isFalse id
  | .restPending => isFalse id
  | .removed _ => isFalse id

/-- Neither opens an order nor reports the kill switch. -/
def Quiet (effect : Effect) : Prop := ¬ effect.Opens ∧ ¬ effect.IsTriggered

theorem Background.quiet {effect : Effect} (background : effect.Background) : effect.Quiet :=
  match effect, background with
  | .send _ (.other _) _, _ => ⟨id, id⟩
  | .restCancel _ _, _ => ⟨id, id⟩
  | .restPending, _ => ⟨id, id⟩
  | .removed _, _ => ⟨id, id⟩

end Effect

namespace Engine

variable {D : Type}

/-- Switch, position and REST answers are as before, and what was sent is allowed. -/
structure Keeps (allowed : Effect → Prop) (before after : Engine D) : Prop where
  triggered : after.triggered = before.triggered
  position : after.position = before.position
  answers : after.rest.answers = before.rest.answers
  emits : Emits allowed before after

namespace Keeps

variable {allowed : Effect → Prop}

theorem refl (engine : Engine D) : Keeps allowed engine engine := ⟨rfl, rfl, rfl, emits_of_same rfl⟩

theorem trans (first second third : Engine D) (early : Keeps allowed first second)
    (late : Keeps allowed second third) : Keeps allowed first third :=
  ⟨late.triggered.trans early.triggered, late.position.trans early.position, late.answers.trans early.answers,
    early.emits.trans late.emits⟩

theorem mono {wider : Effect → Prop} {before after : Engine D} (keeps : Keeps allowed before after)
    (widen : ∀ effect, allowed effect → wider effect) : Keeps wider before after :=
  ⟨keeps.triggered, keeps.position, keeps.answers, keeps.emits.mono widen⟩

end Keeps

variable {allowed : Effect → Prop}

theorem Keeps.footprint (background : ∀ effect, effect.Background → allowed effect) :
    Footprint allowed (Keeps allowed : Engine D → Engine D → Prop) where
  refl := Keeps.refl
  trans := Keeps.trans
  background := background
  trace _ _ allows := ⟨rfl, rfl, rfl, emits_one rfl allows⟩
  reads _ := ⟨rfl, rfl, rfl, emits_of_same rfl⟩
  ids _ := ⟨rfl, rfl, rfl, emits_of_same rfl⟩
  calls _ := ⟨rfl, rfl, rfl, emits_of_same rfl⟩
  ws _ _ := ⟨rfl, rfl, rfl, emits_of_same rfl⟩
  store _ _ := ⟨rfl, rfl, rfl, emits_of_same rfl⟩
  quoter _ _ := ⟨rfl, rfl, rfl, emits_of_same rfl⟩
  pending _ _ := ⟨rfl, rfl, rfl, emits_of_same rfl⟩
  roundTrip _ _ := ⟨rfl, rfl, rfl, emits_of_same rfl⟩
  account _ _ := ⟨rfl, rfl, rfl, emits_of_same rfl⟩

theorem Keeps.limits (engine : Engine D) (limiter : EndpointRateLimiter) :
    Keeps allowed engine { engine with rateLimiter := limiter } :=
  ⟨rfl, rfl, rfl, emits_of_same rfl⟩

theorem keepsQuiet : Footprint Effect.Quiet (Keeps Effect.Quiet : Engine D → Engine D → Prop) :=
  Keeps.footprint fun _ => Effect.Background.quiet

section Quoting

variable [DoubleArith D] (background : ∀ effect, effect.Background → allowed effect)
  (places : ∀ effect, effect.IsOrder → allowed effect)

include background places

theorem keeps_onTimer : Moves (Keeps allowed) (onTimer : EngineM D PUnit) :=
  (Keeps.footprint background).moves_onTimer
    ((Keeps.footprint background).moves_placeSide Keeps.limits fun _ _ _ => places _ trivial)

theorem keeps_onBookUpdate (amends : ∀ effect, Effect.IsAmend effect → allowed effect) (book : OrderBook D) :
    Moves (Keeps allowed) (onBookUpdate book) :=
  (Keeps.footprint background).moves_onBookUpdate
    ((Keeps.footprint background).moves_placeSide Keeps.limits fun _ _ _ => places _ trivial)
    ((Keeps.footprint background).moves_amendSide Keeps.limits fun _ _ _ _ _ _ => amends _ trivial) book

end Quoting

/-!
## Login
-/

/-- The placement of the round trip goes out with the store it found. -/
def StartEffect (request : OrderRequest) (before : OrderStore) (effect : Effect) : Prop :=
  effect.Quiet ∨ (∃ clOrdId, effect = .send .roundTrip (.order clOrdId request) before) ∨
    ∃ clOrdId, effect = .restPlace clOrdId request

theorem StartEffect.of_background {request : OrderRequest} {before : OrderStore} {effect : Effect}
    (background : effect.Background) : StartEffect request before effect :=
  .inl background.quiet

section Login

variable [DoubleArith D]

variable (D) in
/-- The pre-trade check lets the request through against a store. -/
def RiskPassed (request : OrderRequest) (before : OrderStore) : Prop :=
  ∃ result, checkPreTradeRisk (kRiskLimits : RiskLimits D) request before none = .ok result ∧ result.passed = true

variable (D) in
/-- What the round trip sends once its request has passed the check. -/
def StartsChecked (effect : Effect) : Prop :=
  ∃ request before, StartEffect request before effect ∧ RiskPassed D request before

/-- Whatever is not quiet is sent with the switch off, and checked. -/
def Gated (before after : Engine D) : Prop :=
  Keeps (fun effect => effect.Quiet ∨ (before.triggered = false ∧ StartsChecked D effect)) before after

theorem Gated.trans (first second third : Engine D) (early : Gated first second) (late : Gated second third) :
    Gated first third := by
  unfold Gated at late
  rw [early.triggered] at late
  exact Keeps.trans first second third early late

theorem gated_of_quiet {α : Type} {program : EngineM D α} (keeps : Moves (Keeps Effect.Quiet) program) :
    Moves Gated program :=
  keeps.imp fun _ _ keeps => keeps.mono fun _ quiet => .inl quiet

theorem gated_startIfAllowed : Moves Gated (startIfAllowed : EngineM D PUnit) := by
  intro engine
  rw [startIfAllowed, run_bind_ok (run_get _)]
  split
  · exact Keeps.refl engine
  · rename_i untriggered
    rw [run_bind, run_lift]
    cases checked : checkPreTradeRisk (kRiskLimits : RiskLimits D) engine.roundTrip.orderRequest engine.store none with
    | error exception => exact Keeps.refl engine
    | ok result =>
        dsimp only
        split
        · rename_i passed
          have allows (effect : Effect)
              (starts : StartEffect engine.roundTrip.orderRequest engine.store effect) :
              effect.Quiet ∨ (engine.triggered = false ∧ StartsChecked D effect) :=
            .inr ⟨Bool.eq_false_iff.mpr untriggered, _, _, starts, result, checked, passed⟩
          have starting : Footprint (StartEffect engine.roundTrip.orderRequest engine.store)
              (Keeps (StartEffect engine.roundTrip.orderRequest engine.store) : Engine D → Engine D → Prop) :=
            Keeps.footprint fun _ => StartEffect.of_background
          rw [start, run_bind_ok (run_get _)]
          split
          · exact (starting.moves_startOverWs (fun clOrdId => .inr (.inl ⟨clOrdId, rfl⟩)) engine).mono allows
          · exact (starting.moves_startOverRest (fun clOrdId => .inr (.inr ⟨clOrdId, rfl⟩)) engine).mono allows
        · exact Keeps.refl engine

theorem gated_handleLoginEvent (message : Text) : Moves Gated (handleLoginEvent message : EngineM D PUnit) := by
  unfold handleLoginEvent
  split
  · exact fun engine => Keeps.refl engine
  · exact moves_bind Gated.trans (gated_of_quiet (moves_get Keeps.refl)) fun engine =>
      moves_bind Gated.trans (gated_of_quiet (keepsQuiet.moves_send ⟨id, id⟩)) fun _ =>
        moves_bind Gated.trans (gated_of_quiet keepsQuiet.moves_getPendingOrders) fun pending =>
          moves_bind Gated.trans (gated_of_quiet (keepsQuiet.moves_reconcileOrders pending)) fun _ => gated_startIfAllowed

theorem gated_login (message : Text) : Moves Gated (handle (.login message) : EngineM D PUnit) :=
  moves_bind Gated.trans (gated_of_quiet (keepsQuiet.moves_noteLogin message)) fun _ => gated_handleLoginEvent message

end Login

end Engine

/-!
## A sample engine
-/

def OrderStore.single (order : Order) : OrderStore :=
  ⟨[order], List.pairwise_singleton _ order, Nat.le_add_left 1 1023⟩

def sampleOrder (state : OrderState) : Order where
  ordId := "9".toList
  clOrdId := "1".toList
  instId := kEthUsdt
  side := kBuy
  px := "100.00".toList
  sz := kQuoterSz
  accFillSz := "0".toList
  avgPx := []
  state := state
  prePendingState := .kNew
  pendingSince := 0

/-- The row that reports the order live. -/
def sampleRow : Text :=
  ("\x7b\"clOrdId\":\"1\",\"ordId\":\"9\",\"state\":\"live\",\"side\":\"buy\",\"px\":\"100.00\"," ++
    "\"sz\":\"0.01\",\"accFillSz\":\"0\"\x7d").toList

def pendingAnswer (rows : Text) : Text :=
  "\x7b\"code\":\"0\",\"data\":[".toList ++ rows ++ "],\"msg\":\"\"\x7d".toList

def samplePending : Text := pendingAnswer sampleRow

namespace Engine

/-- Clocks that count their readings and an exchange that has no order. -/
def sampleEnvironment : Environment where
  steadyClock reading := reading
  systemClock reading := reading
  restAnswers _ := .ok (pendingAnswer [])

def sampleQuoter : NaiveQuoter ℚ where
  instId := kEthUsdt
  instIdCode := 7
  sz := kQuoterSz
  tickSz := 1 / 100
  tickDecimalPlaces := 2
  quoteBps := kQuoterBps
  requoteThresholdBps := kRequoteThresholdBps
  lastQuotedMid := none
  bidClOrdId := none
  askClOrdId := none

def sampleRequest : OrderRequest := ⟨kEthUsdt, kBuy, kLimit, "100.00".toList, kQuoterSz, 7⟩

def sampleEngine : Engine ℚ := initial sampleEnvironment sampleQuoter sampleRequest 0

def sampleBook (bid ask : ℚ) : OrderBook ℚ := (OrderBook.initial.setBid bid 1).setAsk ask 1

/-- The exchange acknowledges an order, as live. -/
def acknowledgement (clOrdId ordId side px : String) : OrderEvent ℚ where
  type := .kLive
  ordId := ordId.toList
  clOrdId := clOrdId.toList
  instId := kEthUsdt
  side := side.toList
  px := px.toList
  sz := kQuoterSz
  accFillSz := "0".toList
  avgPx := []
  fill := none

/-- A fill of an order the account has elsewhere. -/
def fillEvent (side : Text) (px sz : ℚ) : OrderEvent ℚ where
  type := .kFill
  ordId := "80".toList
  clOrdId := "other".toList
  instId := kEthUsdt
  side := side
  px := []
  sz := []
  accFillSz := []
  avgPx := []
  fill := some ⟨px, sz⟩

/-- The connection is up and the exchange has accepted the login. -/
def loggedIn : List (Input ℚ) :=
  [.connected [], .login "\x7b\"event\":\"login\",\"code\":\"0\"\x7d".toList]

/-- A bought unit is sold for 60 less. -/
def losses : List (Input ℚ) := [.orderEvent (fillEvent kBuy 100 1), .orderEvent (fillEvent kSell 40 1)]

/-- The exchange accepts the request with this id. -/
def accepted (id : String) : Input ℚ :=
  .response ("\x7b\"id\":\"".toList ++ id.toList ++
    "\",\"code\":\"0\",\"data\":[\x7b\"ordId\":\"9\",\"sCode\":\"0\"\x7d]\x7d".toList)

def holding (engine : Engine ℚ) (store : OrderStore) : Engine ℚ := { engine with store := store }

end Engine

end TradingEngine
