import TradingEngine.Library.BoundedRanking
import TradingEngine.MarketData.OrderBook

/-! `PriceLevels` as the list of levels it holds. Every operation acts on the
list alone, whatever the comparison does, so two sides with the same levels
stay indistinguishable. -/

set_option autoImplicit false

namespace TradingEngine

open Library.SlotArray

variable {D : Type} [DoubleArith D]

/-- `Set` on the list of held levels. -/
def setLevels (compare : D → D → Bool) (price size : D) (entries : List (D × D)) : List (D × D) :=
  let index := Library.SlotArray.lowerBound (testAt (fun entry => compare entry.1 price) entries) entries.length
  let inserted := (entries.insertIdx index (price, size)).take OrderBook.kCapacity
  match entries[index]? with
  | some entry =>
      if DoubleArith.eq entry.1 price then
        if DoubleArith.eq size (DoubleArith.lit 0) then entries.eraseIdx index
        else entries.set index (entry.1, size)
      else inserted
  | none => inserted

namespace PriceLevels

variable {compare : D → D → Bool}

omit [DoubleArith D] in
theorem length_view (side : PriceLevels D compare) : side.view.length = side.count := by
  simp [view, length_live _ side.bounded]

omit [DoubleArith D] in
theorem getElem?_view (side : PriceLevels D compare) (index : Nat) :
    side.view[index]? = if index < side.count then
      side.levels[index]?.map (fun level => (level.price, level.size)) else none := by
  rw [view, List.getElem?_map, getElem?_live]
  split <;> rfl

omit [DoubleArith D] in
theorem lowerBound_view (side : PriceLevels D compare) (price : D) :
    side.lowerBound price =
      Library.SlotArray.lowerBound (testAt (fun entry => compare entry.1 price) side.view) side.view.length := by
  rw [length_view]
  refine lowerBoundFrom_congr _ _ _ fun index inside => ?_
  simp only [testAt, Vector.getElem?_toList, getElem?_view, inside, ↓reduceIte]
  cases side.levels[index]? <;> rfl

omit [DoubleArith D] in
theorem lowerBound_le (side : PriceLevels D compare) (price : D) : side.lowerBound price ≤ side.count :=
  Library.SlotArray.lowerBound_le _ _

omit [DoubleArith D] in
@[simp] theorem view_clear (side : PriceLevels D compare) : side.clear.view = [] := by
  simp [view, clear, live]

@[simp] theorem view_initial : (PriceLevels.initial : PriceLevels D compare).view = [] := by
  simp [view, initial, live]

omit [DoubleArith D] in
theorem view_insertAt (side : PriceLevels D compare) {index : Nat} (position : index ≤ side.count)
    (level : Level D) :
    (side.insertAt index level).view =
      (side.view.insertIdx index (level.price, level.size)).take OrderBook.kCapacity := by
  unfold insertAt
  split
  · rename_i room
    simp only [view]
    rw [live_insert side.levels side.count index _ level side.bounded position room rfl,
      List.map_take, List.map_insertIdx]
  · rename_i noRoom
    have full : index = side.view.length := by
      have bounded := side.bounded
      rw [length_view]
      omega
    have bounded := side.bounded
    rw [full, List.insertIdx_length_self, List.take_append_of_le_length (by rw [← full]; omega),
      List.take_of_length_le (by rw [length_view]; exact bounded)]

omit [DoubleArith D] in
theorem view_removeAt (side : PriceLevels D compare) {index : Nat} (position : index < side.count) :
    (side.removeAt index).view = side.view.eraseIdx index := by
  simp only [view, removeAt]
  rw [live_remove side.levels side.count index side.bounded position, List.eraseIdx_map]

theorem find_eq_some {side : PriceLevels D compare} {price : D} {slot : Fin OrderBook.kCapacity}
    (found : side.find price = some slot) :
    slot.val = side.lowerBound price ∧ slot.val < side.count ∧
      DoubleArith.eq (side.levels.get slot).price price = true := by
  simp only [find] at found
  split at found
  · rename_i held
    split at found
    · rename_i same
      cases found
      exact ⟨rfl, held, same⟩
    · cases found
  · cases found

theorem find_eq_none {side : PriceLevels D compare} {price : D} (missing : side.find price = none)
    {entry : D × D} (here : side.view[side.lowerBound price]? = some entry) :
    DoubleArith.eq entry.1 price = false := by
  rw [getElem?_view] at here
  split at here
  · rename_i held
    have inside : side.lowerBound price < OrderBook.kCapacity := held.trans_le side.bounded
    simp only [find, held, ↓reduceDIte] at missing
    rw [Vector.getElem?_eq_getElem inside, Option.map_some, Option.some.injEq] at here
    subst here
    split at missing
    · cases missing
    · rename_i different
      simpa using different
  · cases here

/-- The array code is `setLevels` on what the side holds. -/
theorem view_set (side : PriceLevels D compare) (price size : D) :
    (side.set price size).view = setLevels compare price size side.view := by
  have position := side.lowerBound_le price
  simp only [setLevels, ← lowerBound_view]
  cases found : side.find price with
  | some slot =>
      obtain ⟨here, held, same⟩ := find_eq_some found
      have entryAt : side.view[side.lowerBound price]? =
          some ((side.levels.get slot).price, (side.levels.get slot).size) := by
        rw [← here, getElem?_view, if_pos held, Vector.getElem?_eq_getElem slot.isLt]
        rfl
      simp only [set, found, entryAt, same, ↓reduceIte]
      split
      · rw [view_removeAt side held, here]
      · simp only [view]
        rw [live_set, List.map_set, ← here]
        rfl
  | none =>
      simp only [set, found]
      rw [view_insertAt side position]
      cases entryAt : side.view[side.lowerBound price]? with
      | none => rfl
      | some entry => simp [find_eq_none found entryAt]

omit [DoubleArith D] in
theorem best_eq_head (side : PriceLevels D compare) : side.best = (side.view.map Prod.fst).head? := by
  rw [best, List.head?_eq_getElem?, List.getElem?_map, getElem?_view]
  by_cases empty : side.count = 0
  · simp [empty]
  · have first : (0 : Nat) < OrderBook.kCapacity := by decide
    rw [if_neg empty, if_pos (by omega), Vector.getElem?_eq_getElem first]
    rfl

end PriceLevels

/-!
## The book by sides
-/

inductive BookSide where
  | bid
  | ask
  deriving DecidableEq

def BookSide.compare : BookSide → D → D → Bool
  | .bid => bidCompare
  | .ask => askCompare

namespace OrderBook

def levels (book : OrderBook D) : BookSide → List (D × D)
  | .bid => book.bids.view
  | .ask => book.asks.view

def setLevel (book : OrderBook D) : BookSide → D → D → OrderBook D
  | .bid => book.setBid
  | .ask => book.setAsk

def best (book : OrderBook D) : BookSide → Option D
  | .bid => book.bestBid
  | .ask => book.bestAsk

def Holds (book : OrderBook D) (side : BookSide) (price : D) : Prop :=
  price ∈ (book.levels side).map Prod.fst

instance [DecidableEq D] (book : OrderBook D) (side : BookSide) (price : D) :
    Decidable (book.Holds side price) :=
  inferInstanceAs (Decidable (price ∈ (book.levels side).map Prod.fst))

@[simp] theorem levels_initial (side : BookSide) : (initial : OrderBook D).levels side = [] := by
  cases side <;> exact PriceLevels.view_initial

@[simp] theorem levels_beginSnapshot (book : OrderBook D) (side : BookSide) :
    book.beginSnapshot.levels side = [] := by
  cases side <;> exact PriceLevels.view_clear _

@[simp] theorem levels_setSeqId (book : OrderBook D) (seqId : Int) (side : BookSide) :
    (book.setSeqId seqId).levels side = book.levels side := by
  cases side <;> rfl

/-- A level update acts on its own side only. -/
theorem levels_setLevel (book : OrderBook D) (side other : BookSide) (price size : D) :
    (book.setLevel side price size).levels other =
      if other = side then setLevels side.compare price size (book.levels side)
      else book.levels other := by
  cases side with
  | bid =>
      cases other with
      | bid => exact PriceLevels.view_set book.bids price size
      | ask => rfl
  | ask =>
      cases other with
      | bid => rfl
      | ask => exact PriceLevels.view_set book.asks price size

theorem best_eq_head (book : OrderBook D) (side : BookSide) :
    book.best side = ((book.levels side).map Prod.fst).head? := by
  cases side with
  | bid => exact PriceLevels.best_eq_head book.bids
  | ask => exact PriceLevels.best_eq_head book.asks

end OrderBook

/-!
## A side as a bounded ranking
-/

open Library.BoundedRanking

/-- The order in which a side ranks prices. -/
def BookSide.before (side : BookSide) (left right : D) : Prop := side.compare left right = true

instance (side : BookSide) : DecidableRel (side.before : D → D → Prop) :=
  fun left right => inferInstanceAs (Decidable (side.compare left right = true))

section total

variable [TotalDouble D]

instance (side : BookSide) : IsStrictTotalOrder D side.before where
  irrefl value := by
    cases side <;> simp [BookSide.before, BookSide.compare, bidCompare, askCompare, TotalDouble.lt_irrefl]
  trans first second third := by
    cases side with
    | bid => exact fun earlier later => TotalDouble.lt_trans third second first later earlier
    | ask => exact TotalDouble.lt_trans first second third
  trichotomous left right := by
    cases side with
    | bid =>
        exact fun notEarlier notLater => TotalDouble.lt_total left right
          (Bool.eq_false_iff.mpr notLater) (Bool.eq_false_iff.mpr notEarlier)
    | ask =>
        exact fun notEarlier notLater => TotalDouble.lt_total left right
          (Bool.eq_false_iff.mpr notEarlier) (Bool.eq_false_iff.mpr notLater)

/-- What a level update does to a ranked side. -/
theorem setLevels_ranked [DecidableEq D] (side : BookSide) {entries : List (D × D)}
    (ranked : Ranked side.before entries) (price size : D) :
    setLevels side.compare price size entries =
      if DoubleArith.eq size (DoubleArith.lit 0) = true ∧ price ∈ keys entries then erase price entries
      else assign side.before OrderBook.kCapacity price size entries := by
  have test : (fun entry : D × D => side.compare entry.1 price) = ranksBefore side.before price := by
    funext entry
    exact Bool.decide_eq_true.symm
  have partitioned := dropWhile_partitioned ranked (ranked_closed side.before price)
  simp only [setLevels, test, lowerBound_testAt _ _ partitioned, insertIdx_takeWhile]
  by_cases held : price ∈ keys entries
  · obtain ⟨old, entryAt⟩ := getElem?_rank side.before ranked held
    simp only [entryAt, (TotalDouble.eq_iff price price).mpr rfl, ↓reduceIte,
      eraseIdx_rank side.before ranked held, set_rank side.before ranked held, assign, held, and_true]
  · simp only [held, and_false, ↓reduceIte, assign]
    cases entryAt : entries[(entries.takeWhile (ranksBefore side.before price)).length]? with
    | none => rfl
    | some entry =>
        have different : ¬ DoubleArith.eq entry.1 price = true := by
          rw [TotalDouble.eq_iff]
          exact fun same => held (List.mem_map.mpr ⟨entry, List.mem_of_getElem? entryAt, same⟩)
        simp only [different, Bool.false_eq_true, ↓reduceIte]
        rfl

end total

end TradingEngine
