import TradingEngine.MarketData.OrderBookProperties

/-! The top of one side of the book against the unbounded book of the same
updates, prices and sizes being exact. The side keeps 32 levels; a level that
was crowded out is not restored when better ones are deleted. -/

set_option autoImplicit false

namespace TradingEngine

open Library.BoundedRanking

/-- A book under updates of one side, beside the unbounded book and, for each price,
how many better prices were deleted since the side last lost it to lack of room, less
those that came in. -/
structure TopRun where
  book : OrderBook ℚ
  reference : ℚ → Option ℚ
  netDeletions : ℚ → Nat

namespace TopRun

def start (book : OrderBook ℚ) : TopRun := ⟨book.beginSnapshot, fun _ => none, fun _ => 0⟩

def update (side : BookSide) (run : TopRun) (price size : ℚ) : TopRun :=
  let book := run.book.setLevel side price size
  { book := book
    reference := Function.update run.reference price (if size = 0 then none else some size)
    netDeletions := fun other =>
      if size = 0 then
        if run.book.Holds side price ∧ side.before price other then run.netDeletions other + 1
        else run.netDeletions other
      else if (other = price ∨ run.book.Holds side other) ∧ ¬ book.Holds side other then 0
      else if ¬ run.book.Holds side price ∧ side.before price other then run.netDeletions other - 1
      else run.netDeletions other }

def updateAll (side : BookSide) (run : TopRun) (updates : List (ℚ × ℚ)) : TopRun :=
  updates.foldl (fun current change => current.update side change.1 change.2) run

/-- Every zero-size update names a price the side holds when it is applied. -/
def Deletes (side : BookSide) : TopRun → List (ℚ × ℚ) → Prop
  | _, [] => True
  | run, change :: rest =>
      (change.2 = 0 → run.book.Holds side change.1) ∧ Deletes side (run.update side change.1 change.2) rest

instance decidableDeletes (side : BookSide) : (run : TopRun) → (updates : List (ℚ × ℚ)) →
    Decidable (Deletes side run updates)
  | _, [] => isTrue trivial
  | run, change :: rest =>
      have := decidableDeletes side (run.update side change.1 change.2) rest
      inferInstanceAs (Decidable (_ ∧ _))

def tracked (side : BookSide) (run : TopRun) : Tracked ℚ ℚ :=
  ⟨run.book.levels side, run.reference, run.netDeletions⟩

theorem tracked_update (side : BookSide) {run : TopRun} (ranked : Ranked side.before (run.book.levels side))
    {price size : ℚ} (deletes : size = 0 → run.book.Holds side price) :
    (run.update side price size).tracked side =
      (run.tracked side).apply side.before OrderBook.kCapacity
        (if size = 0 then .erase price else .assign price size) := by
  have levels := run.book.levels_setLevel side side price size
  have isZero : DoubleArith.eq size (DoubleArith.lit 0) = true ↔ size = 0 := TotalDouble.eq_iff size 0
  rw [if_pos rfl, setLevels_ranked side ranked] at levels
  by_cases zero : size = 0
  · have held : price ∈ keys (run.book.levels side) := deletes zero
    rw [if_pos ⟨isZero.mpr zero, held⟩] at levels
    simp only [tracked, update, levels, if_pos zero, Tracked.apply]
    rfl
  · rw [if_neg fun both => zero (isZero.mp both.1)] at levels
    simp only [tracked, update, zero, ↓reduceIte, Tracked.apply, OrderBook.Holds, levels,
      List.mem_cons]
    rfl

theorem valid_updateAll (side : BookSide) (updates : List (ℚ × ℚ)) {run : TopRun}
    (valid : (run.tracked side).Valid side.before OrderBook.kCapacity)
    (deletes : Deletes side run updates) :
    ((run.updateAll side updates).tracked side).Valid side.before OrderBook.kCapacity := by
  induction updates generalizing run with
  | nil => exact valid
  | cons change rest ih =>
      obtain ⟨first, later⟩ := deletes
      refine ih ?_ later
      rw [tracked_update side valid.ranked first]
      exact valid.apply side.before _

theorem valid_start (side : BookSide) (book : OrderBook ℚ) :
    ((start book).tracked side).Valid side.before OrderBook.kCapacity := by
  have empty : (start book).tracked side = Tracked.empty := by
    simp only [tracked, start, OrderBook.levels_beginSnapshot]
    rfl
  rw [empty]
  exact Tracked.Valid.empty side.before _

theorem reference_updateAll (side : BookSide) (updates : List (ℚ × ℚ)) (run : TopRun) {price : ℚ}
    (untouched : price ∉ updates.map Prod.fst) : (run.updateAll side updates).reference price = run.reference price := by
  induction updates generalizing run with
  | nil => rfl
  | cons change rest ih =>
      rw [List.map_cons, List.mem_cons, not_or] at untouched
      exact (ih _ untouched.2).trans (Function.update_of_ne untouched.1 _ _)

/-- Prices 1 to 33 quoted, then 1 deleted and quoted again 32 times. -/
def refilled : List (ℚ × ℚ) :=
  (List.range 33).map (fun level => ((level + 1 : ℚ), 1)) ++ (List.replicate 32 [(1, 0), (1, 1)]).flatten

/-- Prices 1 to 33 quoted, then 1 to 32 deleted. -/
def crowdedOut : List (ℚ × ℚ) :=
  (List.range 33).map (fun level => ((level + 1 : ℚ), 1)) ++
    (List.range 32).map (fun level => ((level + 1 : ℚ), 0))

end TopRun

end TradingEngine
