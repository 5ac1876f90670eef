import TradingEngine.MarketData.OrderBookProperties

/-! One side of the book over every sequence of `Clear` and `Set`: the array stays sorted
and within its capacity, no access leaves it, and each `Set` does to the levels what its
size and price ask for. -/

set_option autoImplicit false

namespace TradingEngine

open Library Library.BoundedRanking

variable {D : Type} [DoubleArith D]

/-!
## The code with checked accesses
-/

/-- The array and the counter of a side, with nothing known of either. -/
structure RawLevels (D : Type) where
  levels : List (Level D)
  count : Nat

namespace RawLevels

def clear (raw : RawLevels D) : RawLevels D := { raw with count := 0 }

def insertAt (raw : RawLevels D) (index : Nat) (level : Level D) : Option (RawLevels D) :=
  if OrderBook.kCapacity ≤ index then some raw
  else do
    let last := if raw.count = OrderBook.kCapacity then raw.count - 1 else raw.count
    let shifted ← SlotArray.Checked.shiftUp raw.levels index last
    let levels ← SlotArray.Checked.write shifted index level
    return ⟨levels, if raw.count < OrderBook.kCapacity then raw.count + 1 else raw.count⟩

def removeAt (raw : RawLevels D) (index : Nat) : Option (RawLevels D) := do
  let levels ← SlotArray.Checked.shiftDown raw.levels raw.count raw.count index
  return ⟨levels, raw.count - 1⟩

def set (compare : D → D → Bool) (raw : RawLevels D) (price size : D) : Option (RawLevels D) := do
  let index ← SlotArray.Checked.lowerBoundFrom (fun level => compare level.price price) raw.levels raw.count 0 raw.count
  if index < raw.count then
    let level ← raw.levels[index]?
    if DoubleArith.eq level.price price then
      if DoubleArith.eq size (DoubleArith.lit 0) then raw.removeAt index
      else
        let levels ← SlotArray.Checked.write raw.levels index { level with size := size }
        return { raw with levels := levels }
    else raw.insertAt index ⟨price, size⟩
  else raw.insertAt index ⟨price, size⟩

end RawLevels

namespace PriceLevels

variable {compare : D → D → Bool}

def raw (side : PriceLevels D compare) : RawLevels D := ⟨side.levels.toList, side.count⟩

omit [DoubleArith D] in
theorem raw_insertAt (side : PriceLevels D compare) (index : Nat) (level : Level D) :
    side.raw.insertAt index level = some (side.insertAt index level).raw := by
  unfold RawLevels.insertAt insertAt
  by_cases room : index < OrderBook.kCapacity
  · have held := side.bounded
    have last : (if side.count = OrderBook.kCapacity then side.count - 1 else side.count) < OrderBook.kCapacity := by
      split <;> omega
    rw [if_neg (not_le.mpr room), dif_pos room]
    unfold raw
    dsimp only
    rw [SlotArray.checked_shiftUp _ _ _ last, Option.bind_eq_bind, Option.bind_some,
      SlotArray.checked_write _ _ _ room]
    rfl
  · rw [if_pos (not_lt.mp room), dif_neg room]

omit [DoubleArith D] in
theorem raw_removeAt (side : PriceLevels D compare) (index : Nat) :
    side.raw.removeAt index = some (side.removeAt index).raw := by
  simp only [RawLevels.removeAt, raw]
  rw [SlotArray.checked_shiftDown _ _ side.bounded]
  rfl

/-- No access of `Set` is outside the array. -/
theorem raw_set (side : PriceLevels D compare) (price size : D) :
    side.raw.set compare price size = some (side.set price size).raw := by
  have searched : SlotArray.Checked.lowerBoundFrom (fun level => compare level.price price) side.raw.levels side.raw.count
      0 side.raw.count = some (side.lowerBound price) :=
    SlotArray.checked_lowerBoundFrom _ _ _ _ _ (by simpa [raw] using side.bounded)
  unfold RawLevels.set
  rw [searched, Option.bind_eq_bind, Option.bind_some]
  have inserted := side.raw_insertAt (side.lowerBound price) ⟨price, size⟩
  cases found : side.find price with
  | some slot =>
      obtain ⟨here, held, same⟩ := find_eq_some found
      have level : side.raw.levels[side.lowerBound price]? = some (side.levels.get slot) := by
        rw [← here]
        simp only [raw, Vector.getElem?_toList, Vector.getElem?_eq_getElem slot.isLt]
        rfl
      rw [if_pos (here ▸ held), level, Option.bind_eq_bind, Option.bind_some, if_pos same, set, found]
      dsimp only
      split
      · rw [← here]
        exact side.raw_removeAt slot
      · rw [← here]
        change (SlotArray.Checked.write side.levels.toList slot _).bind _ = _
        rw [SlotArray.checked_write _ _ _ slot.isLt]
        rfl
  | none =>
      rw [set, found]
      split
      · rename_i held
        have held : side.lowerBound price < side.count := held
        have bound : side.lowerBound price < OrderBook.kCapacity := lt_of_lt_of_le held side.bounded
        have level : side.raw.levels[side.lowerBound price]? = some side.levels[side.lowerBound price] := by
          simp only [raw, Vector.getElem?_toList, Vector.getElem?_eq_getElem bound]
        have entry : side.view[side.lowerBound price]? =
            some (side.levels[side.lowerBound price].price, side.levels[side.lowerBound price].size) := by
          rw [getElem?_view, if_pos held, Vector.getElem?_eq_getElem bound]
          rfl
        have different := find_eq_none found entry
        rw [level, Option.bind_eq_bind, Option.bind_some, different]
        exact inserted
      · exact inserted

end PriceLevels

/-!
## Sequences of calls
-/

inductive LevelCall (D : Type) where
  | clear
  | set (price size : D)

namespace PriceLevels

variable {compare : D → D → Bool}

def call (side : PriceLevels D compare) : LevelCall D → PriceLevels D compare
  | .clear => side.clear
  | .set price size => side.set price size

def callAll (calls : List (LevelCall D)) : PriceLevels D compare := calls.foldl call initial

end PriceLevels

/-- The checked code of a call. -/
def RawLevels.call (compare : D → D → Bool) (raw : RawLevels D) : LevelCall D → Option (RawLevels D)
  | .clear => some raw.clear
  | .set price size => raw.set compare price size

/-- What a `Set` turns levels into. -/
structure SetActs [DecidableEq D] (before : D → D → Prop) (price size : D) (levels after : List (D × D)) : Prop where
  replaces : price ∈ keys levels → size ≠ DoubleArith.lit 0 →
    after = levels.map fun level => if level.1 = price then (price, size) else level
  removes : price ∈ keys levels → size = DoubleArith.lit 0 → after = levels.filter fun level => level.1 ≠ price
  inserts : price ∉ keys levels → size ≠ DoubleArith.lit 0 →
    ∃ merged, merged.Perm ((price, size) :: levels) ∧ Ranked before merged ∧ after = merged.take OrderBook.kCapacity

section total

variable [TotalDouble D] [DecidableEq D]

theorem ranked_set (side : BookSide) {levels : PriceLevels D side.compare} (ranked : Ranked side.before levels.view)
    (price size : D) : Ranked side.before (levels.set price size).view := by
  rw [PriceLevels.view_set, setLevels_ranked side ranked]
  split
  · exact ranked.sublist List.filter_sublist
  · exact ranked_assign side.before ranked _ price size

theorem ranked_callAll (side : BookSide) (calls : List (LevelCall D)) :
    Ranked side.before (PriceLevels.callAll calls : PriceLevels D side.compare).view := by
  induction calls using List.reverseRecOn with
  | nil =>
      rw [PriceLevels.callAll, List.foldl_nil, PriceLevels.view_initial]
      exact List.Pairwise.nil
  | append_singleton calls call ih =>
      rw [PriceLevels.callAll, List.foldl_append, List.foldl_cons, List.foldl_nil]
      cases call with
      | clear =>
          simp only [PriceLevels.call, PriceLevels.view_clear]
          exact List.Pairwise.nil
      | set price size => exact ranked_set side ih price size

theorem setActs (side : BookSide) {levels : PriceLevels D side.compare} (ranked : Ranked side.before levels.view)
    (price size : D) : SetActs side.before price size levels.view (levels.set price size).view := by
  have isZero : DoubleArith.eq size (DoubleArith.lit 0) = true ↔ size = DoubleArith.lit 0 := TotalDouble.eq_iff _ _
  rw [PriceLevels.view_set, setLevels_ranked side ranked]
  refine ⟨fun held some => ?_, fun held zero => ?_, fun fresh some => ?_⟩
  · rw [if_neg fun both => some (isZero.mp both.1), assign, if_pos held]
    rfl
  · rw [if_pos ⟨isZero.mpr zero, held⟩]
    rfl
  · rw [if_neg fun both => some (isZero.mp both.1), assign, if_neg fresh]
    exact ⟨_, insertRanked_perm side.before price size levels.view, ranked_insert side.before ranked size fresh, rfl⟩

theorem price_level_array (side : BookSide) (calls : List (LevelCall D)) :
    let levels : PriceLevels D side.compare := .callAll calls
    levels.count ≤ 32 ∧ levels.view.length = levels.count ∧ Ranked side.before levels.view ∧ (keys levels.view).Nodup ∧
      (∀ call, levels.raw.call side.compare call = some (levels.call call).raw) ∧
      ∀ price size, SetActs side.before price size levels.view (levels.set price size).view := by
  intro levels
  have ranked := ranked_callAll side calls
  refine ⟨levels.bounded, levels.length_view, ranked, keys_nodup side.before ranked, fun call => ?_,
    setActs side ranked⟩
  cases call with
  | clear => rfl
  | set price size => exact levels.raw_set price size

end total

theorem price_level_array_bids :
    let levels : PriceLevels ℚ (BookSide.compare .bid) := .callAll [.set 10 1, .set 11 2, .clear, .set 9 4, .set 12 3]
    levels.view = [(12, 3), (9, 4)] ∧ Ranked (BookSide.before .bid) levels.view :=
  ⟨by decide +kernel, (price_level_array .bid [.set 10 1, .set 11 2, .clear, .set 9 4, .set 12 3]).2.2.1⟩

end TradingEngine
