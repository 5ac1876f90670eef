import Mathlib

/-! Order statistics of lists, and buckets whose width grows with their place: the
bucket of a number is its leading bits, so that its width is a fixed part of it. -/

set_option autoImplicit false

namespace TradingEngine.Library.Percentiles

/-!
## Order statistics
-/

/-- The number of a rank, counted from one, in ascending order. -/
def ranked (values : List Nat) (rank : Nat) : Nat := (values.insertionSort (· ≤ ·)).getD (rank - 1) 0

theorem getElem_le_iff {values : List Nat} (sorted : values.Pairwise (· ≤ ·)) {index : Nat} (inside : index < values.length)
    (bound : Nat) : values[index] ≤ bound ↔ index < values.countP (· ≤ bound) := by
  induction values generalizing index with
  | nil => cases inside
  | cons first rest ih =>
      rw [List.pairwise_cons] at sorted
      by_cases below : first ≤ bound
      · cases index with
        | zero => simp [below]
        | succ index =>
            rw [List.length_cons, Nat.add_lt_add_iff_right] at inside
            simp [below, ih sorted.2 inside]
      · have none : (first :: rest).countP (· ≤ bound) = 0 := by
          rw [List.countP_eq_zero]
          intro value member
          rcases List.mem_cons.mp member with rfl | later
          · simpa using below
          · have above := sorted.1 value later
            simp only [decide_eq_true_eq]
            omega
        have least : first ≤ (first :: rest)[index] := by
          cases index with
          | zero => exact Nat.le_refl _
          | succ index => exact sorted.1 _ (List.getElem_mem _)
        rw [none]
        omega

/-- A number is at least the one of a rank exactly when that many are not above it. -/
theorem ranked_le_iff {values : List Nat} {rank : Nat} (positive : 1 ≤ rank) (within : rank ≤ values.length) (bound : Nat) :
    ranked values rank ≤ bound ↔ rank ≤ values.countP (· ≤ bound) := by
  have perm := List.perm_insertionSort (· ≤ ·) values
  have sorted := List.pairwise_insertionSort (· ≤ ·) values
  have inside : rank - 1 < (values.insertionSort (· ≤ ·)).length := by
    rw [perm.length_eq]
    omega
  rw [ranked, List.getD_eq_getElem _ _ inside, getElem_le_iff sorted inside, perm.countP_eq]
  omega

theorem ranked_mono {values : List Nat} {lower higher : Nat} (positive : 1 ≤ lower) (ordered : lower ≤ higher)
    (within : higher ≤ values.length) : ranked values lower ≤ ranked values higher := by
  rw [ranked_le_iff positive (ordered.trans within)]
  exact ordered.trans ((ranked_le_iff (positive.trans ordered) within _).mp le_rfl)

theorem ranked_mem {values : List Nat} {rank : Nat} (positive : 1 ≤ rank) (within : rank ≤ values.length) :
    ranked values rank ∈ values := by
  have perm := List.perm_insertionSort (· ≤ ·) values
  have inside : rank - 1 < (values.insertionSort (· ≤ ·)).length := by
    rw [perm.length_eq]
    omega
  rw [ranked, List.getD_eq_getElem _ _ inside]
  exact perm.mem_iff.mp (List.getElem_mem inside)

theorem countP_lt_add_eq (index : Nat → Nat) (values : List Nat) (bound : Nat) :
    values.countP (index · < bound) + values.countP (index · = bound) = values.countP (index · ≤ bound) := by
  induction values with
  | nil => rfl
  | cons value rest ih =>
      simp only [List.countP_cons, ← ih, decide_eq_true_eq]
      split_ifs <;> omega

/-!
## Buckets of growing width
-/

section Buckets

variable {bits : Nat}

/-- The bits of a number that are dropped to find its bucket. -/
def dropped (bits value : Nat) : Nat := value.log2 - bits

/-- The bucket of a number: its leading bits, behind those of all shorter numbers. -/
def bucket (bits value : Nat) : Nat := dropped bits value * 2 ^ bits + value / 2 ^ dropped bits value

/-- The bits that the numbers of a bucket drop. -/
def bucketDropped (bits index : Nat) : Nat := index / 2 ^ bits - 1

/-- The leading bits of the numbers of a bucket. -/
def leading (bits index : Nat) : Nat := index - bucketDropped bits index * 2 ^ bits

/-- The largest number of a bucket. -/
def largest (bits index : Nat) : Nat := (leading bits index + 1) * 2 ^ bucketDropped bits index - 1

theorem index_eq (bits index : Nat) : index = bucketDropped bits index * 2 ^ bits + leading bits index := by
  have whole := Nat.div_mul_le_self index (2 ^ bits)
  have less : bucketDropped bits index * 2 ^ bits ≤ index / 2 ^ bits * 2 ^ bits := Nat.mul_le_mul_right _ (Nat.sub_le _ _)
  rw [leading]
  omega

theorem leading_lt (bits index : Nat) : leading bits index < 2 * 2 ^ bits := by
  have positive : 0 < 2 ^ bits := Nat.two_pow_pos bits
  have next := Nat.lt_mul_div_succ index positive
  have split := index_eq bits index
  have enough : index / 2 ^ bits ≤ bucketDropped bits index + 1 := by
    rw [bucketDropped]
    omega
  have bound : 2 ^ bits * (index / 2 ^ bits + 1) ≤ 2 ^ bits * (bucketDropped bits index + 2) :=
    Nat.mul_le_mul_left _ (by omega)
  have spread : 2 ^ bits * (bucketDropped bits index + 2) = bucketDropped bits index * 2 ^ bits + 2 * 2 ^ bits := by ring
  omega

theorem le_leading {index : Nat} (some_dropped : 0 < bucketDropped bits index) : 2 ^ bits ≤ leading bits index := by
  have split := index_eq bits index
  have whole := Nat.div_mul_le_self index (2 ^ bits)
  have quotient : index / 2 ^ bits = bucketDropped bits index + 1 := by
    rw [bucketDropped] at some_dropped ⊢
    omega
  rw [quotient, Nat.add_mul, Nat.one_mul] at whole
  omega

theorem lt_of_dropped (bits value : Nat) : value < 2 * 2 ^ bits * 2 ^ dropped bits value := by
  have small : value < 2 ^ (value.log2 + 1) := Nat.lt_log2_self
  calc value < 2 ^ (value.log2 + 1) := small
    _ ≤ 2 ^ (1 + bits + dropped bits value) := Nat.pow_le_pow_right (by omega) (by rw [dropped]; omega)
    _ = 2 * 2 ^ bits * 2 ^ dropped bits value := by rw [Nat.pow_add, Nat.pow_add, Nat.pow_one]

theorem le_of_dropped {value : Nat} (some_dropped : 0 < dropped bits value) : 2 ^ bits * 2 ^ dropped bits value ≤ value := by
  have large : value ≠ 0 := by
    rintro rfl
    simp [dropped] at some_dropped
  rw [← Nat.pow_add]
  refine le_trans (Nat.pow_le_pow_right (by omega) ?_) (Nat.log2_self_le large)
  rw [dropped] at some_dropped ⊢
  omega

theorem quotient_lt (bits value : Nat) : value / 2 ^ dropped bits value < 2 * 2 ^ bits :=
  (Nat.div_lt_iff_lt_mul (Nat.two_pow_pos _)).mpr (lt_of_dropped bits value)

/-- A number falls in or below a bucket exactly when it is at most the largest number of that. -/
theorem bucket_le_iff (value index : Nat) : bucket bits value ≤ index ↔ value ≤ largest bits index := by
  have split := index_eq bits index
  have width := Nat.two_pow_pos (bucketDropped bits index)
  have top : value ≤ largest bits index ↔ value < (leading bits index + 1) * 2 ^ bucketDropped bits index := by
    have some_largest : 0 < (leading bits index + 1) * 2 ^ bucketDropped bits index := Nat.mul_pos (by omega) width
    rw [largest]
    omega
  rw [top]
  rcases Nat.lt_trichotomy (dropped bits value) (bucketDropped bits index) with fewer | same | more
  · refine iff_of_true ?_ ?_
    · have quotient := quotient_lt bits value
      have first := le_leading (Nat.zero_lt_of_lt fewer)
      have spread : (dropped bits value + 1) * 2 ^ bits ≤ bucketDropped bits index * 2 ^ bits := Nat.mul_le_mul_right _ fewer
      rw [Nat.add_mul, Nat.one_mul] at spread
      rw [bucket]
      omega
    · calc value < 2 * 2 ^ bits * 2 ^ dropped bits value := lt_of_dropped bits value
        _ = 2 ^ bits * 2 ^ (dropped bits value + 1) := by ring
        _ ≤ (leading bits index + 1) * 2 ^ bucketDropped bits index :=
            Nat.mul_le_mul (Nat.le_succ_of_le (le_leading (Nat.zero_lt_of_lt fewer))) (Nat.pow_le_pow_right (by omega) fewer)
  · rw [bucket, same, ← Nat.div_lt_iff_lt_mul width]
    omega
  · refine iff_of_false ?_ ?_
    · have first : 2 ^ bits ≤ value / 2 ^ dropped bits value :=
        (Nat.le_div_iff_mul_le (Nat.two_pow_pos _)).mpr (le_of_dropped (Nat.zero_lt_of_lt more))
      have last := leading_lt bits index
      have spread : (bucketDropped bits index + 1) * 2 ^ bits ≤ dropped bits value * 2 ^ bits := Nat.mul_le_mul_right _ more
      rw [Nat.add_mul, Nat.one_mul] at spread
      rw [bucket]
      omega
    · rw [Nat.not_lt]
      calc (leading bits index + 1) * 2 ^ bucketDropped bits index
          ≤ 2 * 2 ^ bits * 2 ^ bucketDropped bits index := Nat.mul_le_mul_right _ (leading_lt bits index)
        _ = 2 ^ bits * 2 ^ (bucketDropped bits index + 1) := by ring
        _ ≤ 2 ^ bits * 2 ^ dropped bits value := Nat.mul_le_mul_left _ (Nat.pow_le_pow_right (by omega) more)
        _ ≤ value := le_of_dropped (Nat.zero_lt_of_lt more)

theorem le_largest (bits value : Nat) : value ≤ largest bits (bucket bits value) := (bucket_le_iff _ _).mp le_rfl

theorem bucket_mono {lower higher : Nat} (ordered : lower ≤ higher) : bucket bits lower ≤ bucket bits higher :=
  (bucket_le_iff _ _).mpr (ordered.trans (le_largest bits higher))

theorem largest_mono {lower higher : Nat} (ordered : lower ≤ higher) : largest bits lower ≤ largest bits higher :=
  (bucket_le_iff _ _).mp (((bucket_le_iff _ _).mpr le_rfl).trans ordered)

theorem bucket_largest (bits value : Nat) : bucket bits (largest bits (bucket bits value)) = bucket bits value :=
  Nat.le_antisymm ((bucket_le_iff _ _).mpr le_rfl) (bucket_mono (le_largest bits value))

theorem bucketDropped_bucket (bits value : Nat) : bucketDropped bits (bucket bits value) = dropped bits value := by
  have positive : 0 < 2 ^ bits := Nat.two_pow_pos bits
  have quotient : value / 2 ^ dropped bits value / 2 ^ bits < 2 := (Nat.div_lt_iff_lt_mul positive).mpr (quotient_lt bits value)
  rw [bucketDropped, bucket, Nat.mul_comm, Nat.mul_add_div positive]
  rcases Nat.eq_zero_or_pos (dropped bits value) with none | some_dropped
  · rw [none] at quotient ⊢
    omega
  · have first : 1 ≤ value / 2 ^ dropped bits value / 2 ^ bits := by
      rw [Nat.le_div_iff_mul_le positive, Nat.le_div_iff_mul_le (Nat.two_pow_pos _), Nat.one_mul]
      exact le_of_dropped some_dropped
    omega

theorem largest_lt (bits value : Nat) : largest bits (bucket bits value) < value + 2 ^ dropped bits value := by
  have lead : leading bits (bucket bits value) = value / 2 ^ dropped bits value := by
    rw [leading, bucketDropped_bucket, bucket, Nat.add_sub_cancel_left]
  have whole := Nat.div_mul_le_self value (2 ^ dropped bits value)
  have width := Nat.two_pow_pos (dropped bits value)
  rw [largest, bucketDropped_bucket, lead, Nat.add_mul, Nat.one_mul]
  omega

/-- The largest number of a bucket exceeds none in it by more than one part in `2 ^ bits`. -/
theorem largest_close (bits value : Nat) : 2 ^ bits * (largest bits (bucket bits value) - value) ≤ value := by
  have close := largest_lt bits value
  have width := Nat.two_pow_pos (dropped bits value)
  rcases Nat.eq_zero_or_pos (dropped bits value) with none | some_dropped
  · rw [none] at close
    have same : largest bits (bucket bits value) - value = 0 := by omega
    rw [same]
    exact Nat.zero_le _
  · calc 2 ^ bits * (largest bits (bucket bits value) - value)
        ≤ 2 ^ bits * 2 ^ dropped bits value := Nat.mul_le_mul_left _ (by omega)
      _ ≤ value := le_of_dropped some_dropped

theorem dropped_small {value : Nat} (small : value < 2 * 2 ^ bits) : dropped bits value = 0 := by
  by_contra some_dropped
  have large := le_of_dropped (Nat.pos_of_ne_zero some_dropped)
  have twice : 2 ^ 1 ≤ 2 ^ dropped bits value := Nat.pow_le_pow_right (by omega) (Nat.pos_of_ne_zero some_dropped)
  have more := Nat.mul_le_mul_left (2 ^ bits) twice
  omega

theorem largest_exact {value : Nat} (small : value < 2 * 2 ^ bits) : largest bits (bucket bits value) = value := by
  have close := largest_lt bits value
  rw [dropped_small small] at close
  have above := le_largest bits value
  omega

end Buckets

end TradingEngine.Library.Percentiles
