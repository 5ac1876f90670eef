import Mathlib

/-! Records of numbers laid out one after another, each in its own number of bytes and
the least significant byte first. -/

set_option autoImplicit false

namespace TradingEngine.Library.LittleEndian

variable {α : Type} (value : α → Nat) (byte : Nat → α)

def read : List α → Nat
  | [] => 0
  | first :: rest => value first + 256 * read rest

def write : Nat → Nat → List α
  | 0, _ => []
  | width + 1, number => byte (number % 256) :: write width (number / 256)

/-- Numbers with their widths, one after another. -/
def record (fields : List (Nat × Nat)) : List α := fields.flatMap fun field => write byte field.1 field.2

/-- Where the field of an index begins. -/
def offset (fields : List (Nat × Nat)) (index : Nat) : Nat := ((fields.take index).map Prod.fst).sum

theorem length_write (width number : Nat) : (write byte width number).length = width := by
  induction width generalizing number with
  | zero => rfl
  | succ width ih => rw [write, List.length_cons, ih]

theorem length_record (fields : List (Nat × Nat)) : (record byte fields).length = (fields.map Prod.fst).sum := by
  induction fields with
  | nil => rfl
  | cons field rest ih =>
      rw [record, List.flatMap_cons, List.length_append, length_write, List.map_cons, List.sum_cons, ← ih]
      rfl

variable {value byte}

theorem read_write (faithful : ∀ number, number < 256 → value (byte number) = number) {width number : Nat}
    (fits : number < 256 ^ width) : read value (write byte width number) = number := by
  induction width generalizing number with
  | zero => simp_all [write, read]
  | succ width ih =>
      have small : number / 256 < 256 ^ width := by
        rw [Nat.pow_succ] at fits
        exact Nat.div_lt_of_lt_mul (by rwa [Nat.mul_comm] at fits)
      rw [write, read, faithful _ (Nat.mod_lt _ (by decide)), ih small]
      exact Nat.mod_add_div number 256

theorem field_at {fields : List (Nat × Nat)} {index width number : Nat} (field : fields[index]? = some (width, number))
    (rest : List α) :
    ((record byte fields ++ rest).drop (offset fields index)).take width = write byte width number := by
  induction fields generalizing index with
  | nil => cases field
  | cons first later ih =>
      have split : record byte (first :: later) ++ rest = write byte first.1 first.2 ++ (record byte later ++ rest) := by
        rw [record, List.flatMap_cons, List.append_assoc]
        rfl
      cases index with
      | zero =>
          cases field
          rw [split, offset, List.take_zero, List.map_nil, List.sum_nil, List.drop_zero,
            List.take_left' (length_write byte width number)]
      | succ index =>
          have behind : offset (first :: later) (index + 1) = (write byte first.1 first.2).length + offset later index := by
            rw [offset, List.take_succ_cons, List.map_cons, List.sum_cons, length_write]
            rfl
          rw [split, behind, ← List.drop_drop, List.drop_left]
          exact ih field

end TradingEngine.Library.LittleEndian
