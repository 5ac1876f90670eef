import Mathlib

/-! Cells addressed modulo a capacity. A window is the cells from an address on,
around the end of the memory; a block is stored without crossing the end. -/

set_option autoImplicit false

namespace TradingEngine.Library.CircularMemory

variable {α : Type}

/-- The cells in a row, not crossing the end. -/
def block (memory : Nat → α) (start count : Nat) : List α :=
  (List.range count).map fun index => memory (start + index)

/-- The cells from an address on, modulo the capacity. -/
def window (capacity : Nat) (memory : Nat → α) (start count : Nat) : List α :=
  (List.range count).map fun index => memory ((start + index) % capacity)

/-- Copies data to an address on. -/
def store (memory : Nat → α) (start : Nat) (data : List α) (address : Nat) : α :=
  if start ≤ address then data[address - start]?.getD (memory address) else memory address

variable {capacity start count : Nat} {memory : Nat → α}

@[simp] theorem length_block : (block memory start count).length = count := by simp [block]

@[simp] theorem length_window : (window capacity memory start count).length = count := by simp [window]

@[simp] theorem window_zero : window capacity memory start 0 = [] := rfl

theorem window_mod (start : Nat) :
    window capacity memory (start % capacity) count = window capacity memory start count := by
  simp only [window, Nat.mod_add_mod]

theorem window_add (more : Nat) : window capacity memory start (count + more) =
    window capacity memory start count ++ window capacity memory (start + count) more := by
  simp only [window, List.range_add, List.map_append, List.map_map, Function.comp_def, Nat.add_assoc]

theorem window_take {fewer : Nat} (within : fewer ≤ count) :
    (window capacity memory start count).take fewer = window capacity memory start fewer := by
  obtain ⟨more, rfl⟩ := Nat.exists_eq_add_of_le within
  rw [window_add]
  exact List.take_left' length_window

theorem window_drop {fewer : Nat} (within : fewer ≤ count) :
    (window capacity memory start count).drop fewer = window capacity memory (start + fewer) (count - fewer) := by
  obtain ⟨more, rfl⟩ := Nat.exists_eq_add_of_le within
  rw [window_add, Nat.add_sub_cancel_left]
  exact List.drop_left' length_window

/-- Short of the end a window is a block. -/
theorem window_eq_block (within : start + count ≤ capacity) :
    window capacity memory start count = block memory start count := by
  refine List.map_congr_left fun index member => ?_
  rw [Nat.mod_eq_of_lt]
  have := List.mem_range.mp member
  omega

theorem block_store (data : List α) : block (store memory start data) start data.length = data := by
  refine List.ext_getElem (by simp) fun index here there => ?_
  have bounded : index < data.length := by simpa using here
  simp [block, store, bounded]

/-- Two addresses of one turn around the memory differ. -/
theorem mod_ne_of_lt {first second : Nat} (before : first < second) (turn : second < first + capacity) :
    first % capacity ≠ second % capacity := by
  intro same
  have divides : capacity ∣ second - first := (Nat.modEq_iff_dvd' before.le).mp same
  have bound := Nat.le_of_dvd (by omega) divides
  omega

theorem store_apply_of_not_mem {data : List α} {address : Nat}
    (outside : address < start ∨ start + data.length ≤ address) : store memory start data address = memory address := by
  unfold store
  split
  · rw [List.getElem?_eq_none (by omega), Option.getD_none]
  · rfl

/-- Data stored right behind a window leaves it alone. -/
theorem window_store_behind {data : List α} (fits : count + data.length ≤ capacity)
    (contiguous : (start + count) % capacity + data.length ≤ capacity) :
    window capacity (store memory ((start + count) % capacity) data) start count =
      window capacity memory start count := by
  refine List.map_congr_left fun index member => store_apply_of_not_mem ?_
  have inside := List.mem_range.mp member
  by_contra overlap
  obtain ⟨offset, within, same⟩ : ∃ offset, offset < data.length ∧
      (start + index) % capacity = (start + count) % capacity + offset :=
    ⟨(start + index) % capacity - (start + count) % capacity, by omega, by omega⟩
  have apart : (start + index) % capacity ≠ (start + count + offset) % capacity :=
    mod_ne_of_lt (by omega) (by omega)
  have inRange : (start + count) % capacity + offset < capacity := by omega
  rw [← Nat.mod_add_mod (start + count), Nat.mod_eq_of_lt inRange] at apart
  exact apart same

/-- Data stored right behind a window extends it. -/
theorem window_store {data : List α} (fits : count + data.length ≤ capacity)
    (contiguous : (start + count) % capacity + data.length ≤ capacity) :
    window capacity (store memory ((start + count) % capacity) data) start (count + data.length) =
      window capacity memory start count ++ data := by
  rw [window_add, window_store_behind fits contiguous, ← window_mod (start + count),
    window_eq_block contiguous, block_store]

end TradingEngine.Library.CircularMemory
