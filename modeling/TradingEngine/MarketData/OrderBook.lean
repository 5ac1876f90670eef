import TradingEngine.Common.Basic
import TradingEngine.Library.SlotArray

/-! The order book: two fixed arrays of price levels, best first. `view` is what
a side holds; the slots beyond `count` keep whatever was shifted out of them. -/

set_option autoImplicit false

namespace TradingEngine

open Library.SlotArray

structure Level (D : Type) where
  price : D
  size : D

def OrderBook.kCapacity : Nat := 32

structure PriceLevels (D : Type) (compare : D → D → Bool) where
  levels : Vector (Level D) OrderBook.kCapacity
  count : Nat
  bounded : count ≤ OrderBook.kCapacity

namespace PriceLevels

variable {D : Type} [DoubleArith D] {compare : D → D → Bool}

def initial : PriceLevels D compare where
  levels := Vector.replicate OrderBook.kCapacity ⟨DoubleArith.lit 0, DoubleArith.lit 0⟩
  count := 0
  bounded := Nat.zero_le _

def clear (side : PriceLevels D compare) : PriceLevels D compare :=
  { side with count := 0, bounded := Nat.zero_le _ }

def lowerBound (side : PriceLevels D compare) (price : D) : Nat :=
  Library.SlotArray.lowerBound
    (testAt (fun level => compare level.price price) side.levels.toList) side.count

def insertAt (side : PriceLevels D compare) (index : Nat) (level : Level D) : PriceLevels D compare :=
  if room : index < OrderBook.kCapacity then
    { levels := (shiftUp side.levels index
          (if side.count = OrderBook.kCapacity then side.count - 1 else side.count)
          (by have held := side.bounded; split <;> omega)).set index level room
      count := if side.count < OrderBook.kCapacity then side.count + 1 else side.count
      bounded := by have held := side.bounded; split <;> omega }
  else side

def removeAt (side : PriceLevels D compare) (index : Nat) : PriceLevels D compare where
  levels := shiftDown side.levels side.count side.bounded side.count index
  count := side.count - 1
  bounded := (Nat.sub_le _ _).trans side.bounded

/-- The slot in which `set` finds the price. -/
def find (side : PriceLevels D compare) (price : D) : Option (Fin OrderBook.kCapacity) :=
  let index := side.lowerBound price
  if held : index < side.count then
    let slot : Fin OrderBook.kCapacity := ⟨index, held.trans_le side.bounded⟩
    if DoubleArith.eq side.levels[slot].price price then some slot else none
  else none

def set (side : PriceLevels D compare) (price size : D) : PriceLevels D compare :=
  match side.find price with
  | some slot =>
      if DoubleArith.eq size (DoubleArith.lit 0) then side.removeAt slot
      else { side with levels := side.levels.set slot { side.levels[slot] with size := size } }
  | none => side.insertAt (side.lowerBound price) ⟨price, size⟩

def best (side : PriceLevels D compare) : Option D :=
  if side.count = 0 then none else some (side.levels.get ⟨0, by decide⟩).price

/-- The prices and sizes a side holds, best first. -/
def view (side : PriceLevels D compare) : List (D × D) :=
  (live side.levels side.count).map fun level => (level.price, level.size)

end PriceLevels

variable {D : Type} [DoubleArith D]

def bidCompare (left right : D) : Bool := DoubleArith.lt right left

def askCompare (left right : D) : Bool := DoubleArith.lt left right

structure OrderBook (D : Type) [DoubleArith D] where
  bids : PriceLevels D bidCompare
  asks : PriceLevels D askCompare
  lastSeqId : Int
  hasSnapshot : Bool

namespace OrderBook

def initial : OrderBook D := ⟨.initial, .initial, -1, false⟩

def beginSnapshot (book : OrderBook D) : OrderBook D :=
  { book with bids := book.bids.clear, asks := book.asks.clear, hasSnapshot := true }

def setBid (book : OrderBook D) (price size : D) : OrderBook D :=
  { book with bids := book.bids.set price size }

def setAsk (book : OrderBook D) (price size : D) : OrderBook D :=
  { book with asks := book.asks.set price size }

def setSeqId (book : OrderBook D) (seqId : Int) : OrderBook D := { book with lastSeqId := seqId }

def bestBid (book : OrderBook D) : Option D := book.bids.best

def bestAsk (book : OrderBook D) : Option D := book.asks.best

end OrderBook

end TradingEngine
