import Mathlib

/-! Sorted sequences kept in a fixed array: binary search by an index predicate,
and insertion and removal by shifting neighbours one slot. The live elements are
the first `count` slots; the array beyond them is never looked at. -/

set_option autoImplicit false

namespace TradingEngine.Library.SlotArray

/-!
## Binary search
-/

/-- The loop of a lower-bound search between `start` and `stop`. -/
def lowerBoundFrom (before : Nat → Bool) : Nat → Nat → Nat → Nat
  | 0, start, _ => start
  | fuel + 1, start, stop =>
      if start < stop then
        let mid := start + (stop - start) / 2
        if before mid then lowerBoundFrom before fuel (mid + 1) stop
        else lowerBoundFrom before fuel start mid
      else start

def lowerBound (before : Nat → Bool) (count : Nat) : Nat := lowerBoundFrom before count 0 count

theorem lowerBoundFrom_le (before : Nat → Bool) (fuel start stop : Nat) (ordered : start ≤ stop) :
    lowerBoundFrom before fuel start stop ≤ stop := by
  induction fuel generalizing start stop with
  | zero => exact ordered
  | succ fuel ih =>
      simp only [lowerBoundFrom]
      split
      · split
        · exact ih _ _ (by omega)
        · exact (ih _ _ (by omega)).trans (by omega)
      · exact ordered

theorem lowerBound_le (before : Nat → Bool) (count : Nat) : lowerBound before count ≤ count :=
  lowerBoundFrom_le before count 0 count (Nat.zero_le _)

/-- The search only asks about indices below its upper end. -/
theorem lowerBoundFrom_congr {before other : Nat → Bool} (fuel start stop : Nat)
    (same : ∀ index, index < stop → before index = other index) :
    lowerBoundFrom before fuel start stop = lowerBoundFrom other fuel start stop := by
  induction fuel generalizing start stop with
  | zero => rfl
  | succ fuel ih =>
      simp only [lowerBoundFrom]
      split
      · rw [same _ (by omega), ih _ _ same, ih _ _ fun index below => same index (by omega)]
      · rfl

/-- The search ends at the index where the predicate turns from true to false. -/
theorem lowerBoundFrom_eq {before : Nat → Bool} {boundary : Nat} (fuel start stop : Nat)
    (enough : stop - start ≤ fuel) (after : start ≤ boundary) (within : boundary ≤ stop)
    (below : ∀ index, index < boundary → before index = true)
    (above : ∀ index, boundary ≤ index → index < stop → before index = false) :
    lowerBoundFrom before fuel start stop = boundary := by
  induction fuel generalizing start stop with
  | zero =>
      simp only [lowerBoundFrom]
      omega
  | succ fuel ih =>
      simp only [lowerBoundFrom]
      split
      · rename_i nonempty
        split
        · rename_i isBefore
          have passed : start + (stop - start) / 2 < boundary := by
            by_contra beyond
            have isAfter := above (start + (stop - start) / 2) (by omega) (by omega)
            exact absurd isBefore (by simp [isAfter])
          exact ih _ _ (by omega) (by omega) within above
        · rename_i isAfter
          have reached : boundary ≤ start + (stop - start) / 2 := by
            by_contra earlier
            exact isAfter (below _ (by omega))
          exact ih _ _ (by omega) after reached fun index least most => above index least (by omega)
      · omega

/-- The predicate a search asks of the element at an index. -/
def testAt {α : Type} (test : α → Bool) (items : List α) (index : Nat) : Bool :=
  match items[index]? with
  | none => false
  | some item => test item

/-- On a list whose tail from the first failure on fails throughout, the search
returns the length of the passing prefix. -/
theorem lowerBound_testAt {α : Type} (test : α → Bool) (items : List α)
    (partitioned : ∀ item ∈ items.dropWhile test, test item = false) :
    lowerBound (testAt test items) items.length = (items.takeWhile test).length := by
  have split := List.takeWhile_append_dropWhile (p := test) (l := items)
  have short : (items.takeWhile test).length ≤ items.length :=
    (List.takeWhile_prefix test).length_le
  refine lowerBoundFrom_eq _ _ _ (by omega) (Nat.zero_le _) short ?_ ?_
  · intro index inside
    have found : items[index]? = (items.takeWhile test)[index]? := by
      conv_lhs => rw [← split]
      exact List.getElem?_append_left inside
    have member := List.getElem_mem (l := items.takeWhile test) inside
    simp only [testAt, found, List.getElem?_eq_getElem inside]
    exact List.mem_takeWhile_imp member
  · intro index beyond inside
    have found : items[index]? = (items.dropWhile test)[index - (items.takeWhile test).length]? := by
      conv_lhs => rw [← split]
      exact List.getElem?_append_right beyond
    have lengths := congrArg List.length split
    simp only [List.length_append] at lengths
    have within : index - (items.takeWhile test).length < (items.dropWhile test).length := by omega
    simp only [testAt, found, List.getElem?_eq_getElem within]
    exact partitioned _ (List.getElem_mem within)

/-- A list sorted for a transitive relation is partitioned at every key. -/
theorem dropWhile_partitioned {α : Type} {related : α → α → Prop} {test : α → Bool} {items : List α}
    (sorted : items.Pairwise related)
    (closed : ∀ left right, related left right → test right = true → test left = true) :
    ∀ item ∈ items.dropWhile test, test item = false := by
  induction items with
  | nil => simp
  | cons head tail ih =>
      intro item member
      rw [List.pairwise_cons] at sorted
      by_cases passes : test head = true
      · rw [List.dropWhile_cons_of_pos passes] at member
        exact ih sorted.2 item member
      · rw [List.dropWhile_cons_of_neg passes] at member
        rcases List.mem_cons.mp member with rfl | inTail
        · simpa using passes
        · by_contra itemPasses
          exact passes (closed head item (sorted.1 item inTail) (by simpa using itemPasses))

theorem insertIdx_takeWhile {α : Type} (test : α → Bool) (items : List α) (item : α) :
    items.insertIdx (items.takeWhile test).length item =
      items.takeWhile test ++ item :: items.dropWhile test := by
  induction items with
  | nil => simp
  | cons head tail ih =>
      by_cases passes : test head = true
      · simp [List.takeWhile_cons_of_pos passes, List.dropWhile_cons_of_pos passes, ih]
      · simp [List.takeWhile_cons_of_neg passes, List.dropWhile_cons_of_neg passes]

/-!
## Shifting
-/

variable {α : Type} {size : Nat}

/-- `for (j = last; j > i; j--) slots[j] = slots[j - 1]`. -/
def shiftUp (slots : Vector α size) (index : Nat) : (last : Nat) → last < size → Vector α size
  | 0, _ => slots
  | last + 1, bound =>
      if index < last + 1 then
        shiftUp (slots.set (last + 1) slots[last]) index last (by omega)
      else slots

/-- `for (j = i; j + 1 < count; j++) slots[j] = slots[j + 1]`. -/
def shiftDown (slots : Vector α size) (count : Nat) (bound : count ≤ size) : Nat → Nat → Vector α size
  | 0, _ => slots
  | fuel + 1, index =>
      if inside : index + 1 < count then
        shiftDown (slots.set index slots[index + 1]) count bound fuel (index + 1)
      else slots

theorem getElem?_shiftUp (slots : Vector α size) (index last : Nat) (bound : last < size) (slot : Nat) :
    (shiftUp slots index last bound)[slot]? =
      if index < slot ∧ slot ≤ last then slots[slot - 1]? else slots[slot]? := by
  induction last generalizing slots with
  | zero =>
      simp only [shiftUp]
      rw [if_neg (by omega)]
  | succ last ih =>
      simp only [shiftUp]
      split
      · rw [ih, Vector.getElem?_set, Vector.getElem?_set]
        by_cases top : slot = last + 1
        · subst top
          rw [if_neg (by omega), if_pos rfl, if_pos (by omega)]
          exact (Vector.getElem?_eq_getElem (by omega)).symm
        · by_cases shifted : index < slot ∧ slot ≤ last
          · rw [if_pos shifted, if_neg (by omega), if_pos (by omega)]
          · rw [if_neg shifted, if_neg (by omega), if_neg (by omega)]
      · rw [if_neg (by omega)]

theorem getElem?_shiftDown (slots : Vector α size) (count : Nat) (bound : count ≤ size)
    (fuel index : Nat) (enough : count ≤ index + fuel) (slot : Nat) :
    (shiftDown slots count bound fuel index)[slot]? =
      if index ≤ slot ∧ slot + 1 < count then slots[slot + 1]? else slots[slot]? := by
  induction fuel generalizing slots index with
  | zero =>
      simp only [shiftDown]
      rw [if_neg (by omega)]
  | succ fuel ih =>
      simp only [shiftDown]
      split
      · rename_i inside
        rw [ih _ _ (by omega), Vector.getElem?_set, Vector.getElem?_set]
        by_cases here : slot = index
        · subst here
          rw [if_neg (by omega), if_pos rfl, if_pos (by omega)]
          exact (Vector.getElem?_eq_getElem (by omega)).symm
        · by_cases shifted : index + 1 ≤ slot ∧ slot + 1 < count
          · rw [if_pos shifted, if_neg (by omega), if_pos (by omega)]
          · rw [if_neg shifted, if_neg (by omega), if_neg (by omega)]
      · rw [if_neg (by omega)]

/-- The live elements of an array. -/
def live (slots : Vector α size) (count : Nat) : List α := slots.toList.take count

theorem length_live (slots : Vector α size) {count : Nat} (bound : count ≤ size) :
    (live slots count).length = count := by
  simp [live, bound]

theorem getElem?_live (slots : Vector α size) (count slot : Nat) :
    (live slots count)[slot]? = if slot < count then slots[slot]? else none := by
  rw [live, List.getElem?_take, Vector.getElem?_toList]

/-- Opening a slot and writing it inserts; at capacity the last element leaves. -/
theorem live_insert (slots : Vector α size) (count index last : Nat) (item : α)
    (bound : count ≤ size) (position : index ≤ count) (room : index < size)
    (isLast : last = if count = size then count - 1 else count) (lastBound : last < size) :
    live ((shiftUp slots index last lastBound).set index item room) (if count < size then count + 1 else count) =
      ((live slots count).insertIdx index item).take size := by
  have width := length_live slots bound
  apply List.ext_getElem?
  intro slot
  rw [getElem?_live, Vector.getElem?_set, getElem?_shiftUp, List.getElem?_take,
    List.getElem?_insertIdx, getElem?_live, getElem?_live, width]
  by_cases full : count = size
  · have kept : (if count < size then count + 1 else count) = count := if_neg (by omega)
    rw [if_pos full] at isLast
    rw [kept]
    split_ifs <;> first | rfl | omega
  · have grown : (if count < size then count + 1 else count) = count + 1 := if_pos (by omega)
    rw [if_neg full] at isLast
    rw [grown]
    split_ifs <;> first | rfl | omega

/-- Closing a slot erases. -/
theorem live_remove (slots : Vector α size) (count index : Nat) (bound : count ≤ size)
    (position : index < count) :
    live (shiftDown slots count bound count index) (count - 1) = (live slots count).eraseIdx index := by
  apply List.ext_getElem?
  intro slot
  rw [getElem?_live, getElem?_shiftDown _ _ _ _ _ (by omega), List.getElem?_eraseIdx, getElem?_live,
    getElem?_live]
  split_ifs <;> first | rfl | omega

/-- Overwriting a live slot. -/
theorem live_set (slots : Vector α size) (count index : Nat) (item : α) (bound : index < size) :
    live (slots.set index item bound) count = (live slots count).set index item := by
  rw [live, Vector.toList_set, List.take_set, live]

/-!
## Checked accesses

The same loops on an array of which nothing is known, where an access outside it has
no result.
-/

namespace Checked

variable {β : Type}

def write (slots : List β) (index : Nat) (item : β) : Option (List β) :=
  if index < slots.length then some (slots.set index item) else none

def lowerBoundFrom (test : β → Bool) (slots : List β) : Nat → Nat → Nat → Option Nat
  | 0, start, _ => some start
  | fuel + 1, start, stop =>
      if start < stop then do
        let mid := start + (stop - start) / 2
        let item ← slots[mid]?
        if test item then lowerBoundFrom test slots fuel (mid + 1) stop
        else lowerBoundFrom test slots fuel start mid
      else some start

def shiftUp (slots : List β) (index : Nat) : Nat → Option (List β)
  | 0 => some slots
  | last + 1 =>
      if index < last + 1 then do
        let item ← slots[last]?
        let slots ← write slots (last + 1) item
        shiftUp slots index last
      else some slots

def shiftDown (slots : List β) (count : Nat) : Nat → Nat → Option (List β)
  | 0, _ => some slots
  | fuel + 1, index =>
      if index + 1 < count then do
        let item ← slots[index + 1]?
        let slots ← write slots index item
        shiftDown slots count fuel (index + 1)
      else some slots

end Checked

theorem checked_write (slots : Vector α size) (index : Nat) (item : α) (bound : index < size) :
    Checked.write slots.toList index item = some (slots.set index item).toList := by
  rw [Checked.write, if_pos (by simpa using bound), Vector.toList_set]

theorem checked_lowerBoundFrom (test : α → Bool) (slots : List α) (fuel start stop : Nat) (bound : stop ≤ slots.length) :
    Checked.lowerBoundFrom test slots fuel start stop = some (lowerBoundFrom (testAt test slots) fuel start stop) := by
  induction fuel generalizing start stop with
  | zero => rfl
  | succ fuel ih =>
      simp only [Checked.lowerBoundFrom, lowerBoundFrom]
      by_cases nonempty : start < stop
      · have inside : start + (stop - start) / 2 < slots.length := by omega
        rw [if_pos nonempty, if_pos nonempty, List.getElem?_eq_getElem inside, Option.bind_eq_bind, Option.bind_some,
          ih _ _ bound, ih _ _ (by omega)]
        simp only [testAt, List.getElem?_eq_getElem inside]
        split <;> rfl
      · rw [if_neg nonempty, if_neg nonempty]

theorem checked_shiftUp (slots : Vector α size) (index last : Nat) (bound : last < size) :
    Checked.shiftUp slots.toList index last = some (shiftUp slots index last bound).toList := by
  induction last generalizing slots with
  | zero => rfl
  | succ last ih =>
      simp only [Checked.shiftUp, shiftUp]
      split
      · have inside : slots.toList[last]? = some slots[last] := by
          rw [Vector.getElem?_toList, Vector.getElem?_eq_getElem (by omega)]
        rw [inside, Option.bind_eq_bind, Option.bind_some, checked_write slots (last + 1) _ bound, Option.bind_eq_bind,
          Option.bind_some]
        exact ih _ _
      · rfl

theorem checked_shiftDown (slots : Vector α size) (count : Nat) (bound : count ≤ size) (fuel index : Nat) :
    Checked.shiftDown slots.toList count fuel index = some (shiftDown slots count bound fuel index).toList := by
  induction fuel generalizing slots index with
  | zero => rfl
  | succ fuel ih =>
      simp only [Checked.shiftDown, shiftDown]
      split
      · rename_i shifts
        have inside : slots.toList[index + 1]? = some slots[index + 1] := by
          rw [Vector.getElem?_toList, Vector.getElem?_eq_getElem (by omega)]
        rw [inside, Option.bind_eq_bind, Option.bind_some, checked_write slots index _ (by omega), Option.bind_eq_bind,
          Option.bind_some]
        exact ih _ _
      · rfl

/-!
## Moves

A move takes the item of a slot to another and leaves something else behind it.
-/

namespace Checked

variable {β : Type}

def move (left : β → β) (slots : List β) (source target : Nat) : Option (List β) := do
  let item ← slots[source]?
  let slots ← write slots target item
  write slots source (left item)

def moveUp (left : β → β) (slots : List β) (index : Nat) : Nat → Option (List β)
  | 0 => some slots
  | last + 1 =>
      if index < last + 1 then do
        let slots ← move left slots last (last + 1)
        moveUp left slots index last
      else some slots

def moveDown (left : β → β) (slots : List β) (count : Nat) : Nat → Nat → Option (List β)
  | 0, _ => some slots
  | fuel + 1, index =>
      if index + 1 < count then do
        let slots ← move left slots (index + 1) index
        moveDown left slots count fuel (index + 1)
      else some slots

end Checked

section Moves

variable {β : Type} (left : β → β)

theorem set_middle {front back : List β} {old new : β} {index : Nat} (here : index = front.length) :
    (front ++ old :: back).set index new = front ++ new :: back := by
  rw [here, List.set_append_right _ _ le_rfl, Nat.sub_self, List.set_cons_zero]

theorem getElem?_middle {front back : List β} {item : β} {index : Nat} (here : index = front.length) :
    (front ++ item :: back)[index]? = some item := by
  rw [here, List.getElem?_append_right le_rfl, Nat.sub_self, List.getElem?_cons_zero]

theorem exists_middle {items : List β} {index : Nat} {item : β} (here : items[index]? = some item) :
    ∃ front back, items = front ++ item :: back ∧ index = front.length ∧ items.eraseIdx index = front ++ back := by
  obtain ⟨inside, rfl⟩ := List.getElem?_eq_some_iff.mp here
  refine ⟨items.take index, items.drop (index + 1), ?_, ?_, List.eraseIdx_eq_take_drop_succ _ _⟩
  · rw [← List.drop_eq_getElem_cons inside, List.take_append_drop]
  · rw [List.length_take]
    omega

theorem write_middle {front back : List β} {old new : β} {index : Nat} (here : index = front.length) :
    Checked.write (front ++ old :: back) index new = some (front ++ new :: back) := by
  rw [Checked.write, if_pos (by simp [here]), set_middle here]

theorem move_up {front : List β} (item spare : β) (back : List β) {index : Nat} (here : index = front.length) :
    Checked.move left (front ++ item :: spare :: back) index (index + 1) = some (front ++ left item :: item :: back) := by
  have above : Checked.write (front ++ [item] ++ spare :: back) (index + 1) item =
      some (front ++ [item] ++ item :: back) := write_middle (by simp [here])
  rw [List.append_assoc, List.append_assoc, List.singleton_append, List.singleton_append] at above
  rw [Checked.move, getElem?_middle here, Option.bind_eq_bind, Option.bind_some, above, Option.bind_eq_bind,
    Option.bind_some, write_middle here]

theorem move_down {front : List β} (item spare : β) (back : List β) {index : Nat} (here : index = front.length) :
    Checked.move left (front ++ spare :: item :: back) (index + 1) index = some (front ++ item :: left item :: back) := by
  have above : (front ++ [spare] ++ item :: back)[index + 1]? = some item := getElem?_middle (by simp [here])
  have behind : Checked.write (front ++ [item] ++ item :: back) (index + 1) (left item) =
      some (front ++ [item] ++ left item :: back) := write_middle (by simp [here])
  rw [List.append_assoc, List.singleton_append] at above
  rw [List.append_assoc, List.append_assoc, List.singleton_append, List.singleton_append] at behind
  rw [Checked.move, above, Option.bind_eq_bind, Option.bind_some, write_middle here, Option.bind_eq_bind,
    Option.bind_some, behind]

/-- Moving items up makes room for one at the index. -/
theorem moveUp_write {front back : List β} (spare : β) (rest : List β) {index last : Nat} (here : index = front.length)
    (upTo : last = index + back.length) (new : β) :
    ∃ slots, Checked.moveUp left (front ++ (back ++ spare :: rest)) index last = some slots ∧
      Checked.write slots index new = some (front ++ new :: (back ++ rest)) := by
  -- the last item moves first, so the induction is from the end
  induction back using List.reverseRecOn generalizing spare rest last with
  | nil =>
      refine ⟨front ++ spare :: rest, ?_, write_middle here⟩
      cases last with
      | zero => rfl
      | succ last => rw [Checked.moveUp, if_neg (by rw [upTo, List.length_nil]; omega), List.nil_append]
  | append_singleton back item ih =>
      rw [List.length_append, List.length_singleton] at upTo
      obtain ⟨last, rfl⟩ : ∃ before, last = before + 1 := ⟨last - 1, by omega⟩
      have lastItem : last = (front ++ back).length := by
        rw [List.length_append]
        omega
      have first := move_up left item spare rest lastItem
      obtain ⟨slots, moved, written⟩ := ih (left item) (item :: rest) (show last = index + back.length by omega)
      refine ⟨slots, ?_, by simpa using written⟩
      rw [Checked.moveUp, if_pos (by omega)]
      simp only [List.append_assoc, List.singleton_append] at first ⊢
      rw [first, Option.bind_eq_bind, Option.bind_some, moved]

/-- Moving items down over the one at the index leaves the last slot free. -/
theorem moveDown_write {front back : List β} (old : β) (rest : List β) {index count fuel : Nat}
    (here : index = front.length) (upTo : count = index + 1 + back.length) (enough : back.length ≤ fuel) (free : β) :
    ∃ slots, Checked.moveDown left (front ++ old :: (back ++ rest)) count fuel index = some slots ∧
      Checked.write slots (count - 1) free = some (front ++ (back ++ free :: rest)) := by
  induction back generalizing front old index fuel with
  | nil =>
      rw [List.length_nil] at upTo
      refine ⟨front ++ old :: rest, ?_, write_middle (by omega)⟩
      cases fuel with
      | zero => rfl
      | succ fuel => rw [Checked.moveDown, if_neg (by omega), List.nil_append]
  | cons item back ih =>
      rw [List.length_cons] at upTo enough
      obtain ⟨fuel, rfl⟩ : ∃ fewer, fuel = fewer + 1 := ⟨fuel - 1, by omega⟩
      have first := move_down left item old (back ++ rest) here
      have shifted : index + 1 = (front ++ [item]).length := by simp [here]
      obtain ⟨slots, moved, written⟩ := ih (left item) shifted (by omega) (show back.length ≤ fuel by omega)
      refine ⟨slots, ?_, by simpa using written⟩
      rw [Checked.moveDown, if_pos (by omega), List.cons_append, first, Option.bind_eq_bind, Option.bind_some, ← moved]
      simp

end Moves

end TradingEngine.Library.SlotArray
