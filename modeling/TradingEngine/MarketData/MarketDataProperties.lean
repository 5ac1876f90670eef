import TradingEngine.MarketData.MarketData
import TradingEngine.MarketData.OrderBookProperties
import TradingEngine.MarketData.SbeBbo
import TradingEngine.Util.JsonProperties

/-! What a message does to the book. The level updates a push makes, and whether
it returns, depend on its text alone; on that rests what both feeds keep. -/

set_option autoImplicit false

namespace TradingEngine

open Library.Exec Library.BoundedRanking

variable {D : Type} [DoubleArith D]

/-- A push as the exchange writes it, around its level arrays and numbers. -/
def booksPush (asks bids seqId prevSeqId : String) : Text :=
  "\x7b\"arg\":\x7b\"channel\":\"books\",\"instId\":\"ETH-USDT\"\x7d,\"data\":[\x7b\"asks\":".toList ++
    asks.toList ++ ",\"bids\":".toList ++ bids.toList ++ ",\"seqId\":".toList ++ seqId.toList ++
    ",\"prevSeqId\":".toList ++ prevSeqId.toList ++ "\x7d]\x7d".toList

def snapshotPush : Text := booksPush "[[\"101\",\"2\"]]" "[[\"99\",\"1\"]]" "10" "-1"

def updatePush : Text := booksPush "[[\"101\",\"0\"],[\"102\",\"1\"]]" "[]" "11" "10"

/-!
## Level updates of a push
-/

/-- The levels before the first malformed one, and how reading them ends. -/
def readLevels : List Text → List (D × D) × Except Exn Unit
  | [] => ([], .ok .unit)
  | level :: rest =>
      match parseLevel level with
      | .error exception => ([], .error exception)
      | .ok entry => (entry :: (readLevels rest).1, (readLevels rest).2)

def readArray (array : Text) : List (D × D) × Except Exn Unit :=
  let elements := Json.elementsFrom array (array.length + 1) 1
  let levels := readLevels elements.1
  (levels.1, do levels.2; if elements.2 then pure .unit else throw .outOfFuel)

def readSide : Option Text → List (D × D) × Except Exn Unit
  | none => ([], .ok .unit)
  | some array => readArray array

def BookSide.key : BookSide → Text
  | .bid => kBids
  | .ask => kAsks

def OrderBook.setAll (book : OrderBook D) (side : BookSide) (entries : List (D × D)) : OrderBook D :=
  entries.foldl (fun current entry => current.setLevel side entry.1 entry.2) book

theorem applyLevel_eq (side : BookSide) (level : Text) (book : OrderBook D) :
    applyLevel side.key level book = match (parseLevel level : Except Exn (D × D)) with
      | .ok entry => .ok .unit (book.setLevel side entry.1 entry.2)
      | .error exception => .error exception book := by
  rw [applyLevel, run_bind, run_lift]
  cases (parseLevel level : Except Exn (D × D)) with
  | error exception => rfl
  | ok entry => cases side <;> rfl

theorem forM_applyLevel (side : BookSide) (levels : List Text) (book : OrderBook D) :
    forM levels (applyLevel side.key) book =
      conclude (readLevels levels : List (D × D) × Except Exn Unit).2
        (book.setAll side (readLevels levels).1) := by
  induction levels generalizing book with
  | nil => rfl
  | cons level rest ih =>
      rw [List.forM_cons, run_bind, applyLevel_eq, readLevels]
      cases (parseLevel level : Except Exn (D × D)) with
      | error exception => rfl
      | ok entry => exact ih _

theorem applyLevels_eq (side : BookSide) (array : Text) (book : OrderBook D) :
    applyLevels array side.key book =
      conclude (readArray array : List (D × D) × Except Exn Unit).2 (book.setAll side (readArray array).1) := by
  rw [applyLevels, Json.forEachElement, Json.forEachElementFrom_eq, Json.runElements, run_bind,
    forM_applyLevel, readArray]
  cases (readLevels (Json.elementsFrom array (array.length + 1) 1).1 :
    List (D × D) × Except Exn Unit).2 with
  | error exception => rfl
  | ok value => cases (Json.elementsFrom array (array.length + 1) 1).2 <;> rfl

theorem applySide_eq (side : BookSide) (array : Option Text) (book : OrderBook D) :
    applySide array side.key book =
      conclude (readSide array : List (D × D) × Except Exn Unit).2 (book.setAll side (readSide array).1) := by
  cases array with
  | none => rfl
  | some array => exact applyLevels_eq side array book

/-- The level updates of a push, in order; those of the asks only if reading the
bids returns. -/
def BookPush.updates (push : BookPush) : List (BookSide × D × D) :=
  let bids : List (D × D) × Except Exn Unit := readSide push.bids
  bids.1.map (fun entry => (.bid, entry)) ++
    match bids.2 with
    | .ok _ => (readSide push.asks).1.map fun entry => (.ask, entry)
    | .error _ => []

/-- How applying a push ends, with its seqId if it returns. -/
def BookPush.outcome (D : Type) [DoubleArith D] (push : BookPush) : Except Exn Int := do
  (readSide push.bids : List (D × D) × Except Exn Unit).2
  (readSide push.asks : List (D × D) × Except Exn Unit).2
  Json.parseLL push.seqIdText

def OrderBook.update (book : OrderBook D) (updates : List (BookSide × D × D)) : OrderBook D :=
  updates.foldl (fun current change => current.setLevel change.1 change.2.1 change.2.2) book

theorem OrderBook.update_append (book : OrderBook D) (first second : List (BookSide × D × D)) :
    book.update (first ++ second) = (book.update first).update second :=
  List.foldl_append

theorem OrderBook.update_map (book : OrderBook D) (side : BookSide) (entries : List (D × D)) :
    book.update (entries.map fun entry => (side, entry)) = book.setAll side entries := by
  simp [update, setAll, List.foldl_map]

/-- An accepted push: its level updates, then its seqId if nothing was thrown. -/
theorem BookPush.apply_eq (push : BookPush) (book : OrderBook D) :
    push.apply book = match push.outcome D with
      | .ok seqId => .ok .unit (((push.base book).update push.updates).setSeqId seqId)
      | .error exception => .error exception ((push.base book).update push.updates) := by
  have bids : applySide push.bids kBids (push.base book) = _ := applySide_eq .bid push.bids (push.base book)
  rw [BookPush.apply, run_bind_ok (run_modify push.base book), run_bind, bids, BookPush.outcome, BookPush.updates,
    OrderBook.update_append, OrderBook.update_map]
  cases (readSide push.bids : List (D × D) × Except Exn Unit).2 with
  | error exception => rfl
  | ok _ =>
      have asks (middle : OrderBook D) : applySide push.asks kAsks middle = _ :=
        applySide_eq .ask push.asks middle
      simp only [conclude, run_bind, asks, OrderBook.update_map]
      cases (readSide push.asks : List (D × D) × Except Exn Unit).2 with
      | error exception => rfl
      | ok _ =>
          simp only [run_lift]
          cases Json.parseLL push.seqIdText <;> rfl

theorem applyBookMessage_eq (message : Text) (book : OrderBook D) :
    applyBookMessage message book = match readPush message with
      | .error exception => .error exception book
      | .ok none => .ok .kIgnored book
      | .ok (some push) =>
          if push.gaps book then .ok .kGapDetected book
          else match push.apply book with
            | .ok _ next => .ok .kApplied next
            | .error exception next => .error exception next := by
  rw [applyBookMessage, run_bind, run_lift]
  cases readPush message with
  | error exception => rfl
  | ok read =>
      cases read with
      | none => rfl
      | some push =>
          simp only [run_bind, run_get]
          by_cases gap : push.gaps book = true
          · rw [if_pos gap, if_pos gap]
            rfl
          · rw [if_neg gap, if_neg gap, run_bind]
            cases push.apply book <;> rfl

end TradingEngine
