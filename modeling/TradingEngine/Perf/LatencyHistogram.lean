import TradingEngine.Common.Basic
import TradingEngine.Library.Percentiles

/-! The latency histogram. Its counters are 64-bit words, its buckets have a
sixty-fourth of the width of the values in them. -/

set_option autoImplicit false

namespace TradingEngine

open Library.Percentiles

namespace LatencyHistogram

def kSubBucketBits : Nat := 6

def kSubBucketCount : Nat := 1 <<< kSubBucketBits

/-- The last octave covers 8.6s - 17.2s. -/
def kNumOctaves : Nat := 28

def kNumBuckets : Nat := kSubBucketCount + kNumOctaves * kSubBucketCount

/-- `std::countl_zero` of a 64-bit word. -/
def countlZero (word : Nat) : Nat := if word = 0 then 64 else 63 - word.log2

def bucketIndex (nanos : Nat) : Nat :=
  if nanos < kSubBucketCount then nanos
  else
    let msb := 63 - countlZero nanos
    let octave := msb - kSubBucketBits + 1
    if kNumOctaves < octave then kNumBuckets - 1
    else
      let shift := octave - 1
      let subOffset := (nanos >>> shift) - kSubBucketCount
      kSubBucketCount + (octave - 1) * kSubBucketCount + subOffset

def bucketUpperBound (index : Nat) : Nat :=
  if index < kSubBucketCount then index
  else
    let offsetFromBase := index - kSubBucketCount
    let octave := offsetFromBase / kSubBucketCount + 1
    let subOffset := offsetFromBase % kSubBucketCount
    let shift := octave - 1
    let lower := ((kSubBucketCount + subOffset) <<< shift) % 2 ^ 64
    sizeSub (sizeAdd lower (1 <<< shift)) 1

/-!
## Index and bound
-/

theorem bucketIndex_of_lt {nanos : Nat} (below : nanos < 2 ^ 34) : bucketIndex nanos = bucket kSubBucketBits nanos := by
  unfold bucketIndex
  split
  case isTrue small =>
    have none : dropped kSubBucketBits nanos = 0 := dropped_small (Nat.lt_of_lt_of_le small (by decide))
    rw [bucket, none, Nat.zero_mul, Nat.zero_add, Nat.pow_zero, Nat.div_one]
  case isFalse large =>
    rw [Nat.not_lt] at large
    have nonzero : nanos ≠ 0 := by
      rintro rfl
      exact absurd large (by decide)
    have atLeast : kSubBucketBits ≤ nanos.log2 := (Nat.le_log2 nonzero).mpr large
    have atMost : nanos.log2 < 34 := (Nat.log2_lt nonzero).mpr below
    have msb : 63 - countlZero nanos = nanos.log2 := by
      rw [countlZero, if_neg nonzero]
      omega
    have first : kSubBucketCount ≤ nanos / 2 ^ dropped kSubBucketBits nanos := by
      rw [Nat.le_div_iff_mul_le (Nat.two_pow_pos _), dropped, kSubBucketCount, Nat.one_shiftLeft, ← Nat.pow_add,
        Nat.add_sub_cancel' atLeast]
      exact Nat.log2_self_le nonzero
    dsimp only
    rw [msb, if_neg (by rw [kNumOctaves, kSubBucketBits]; omega), Nat.add_sub_cancel, Nat.shiftRight_eq_div_pow, bucket]
    change kSubBucketCount + dropped kSubBucketBits nanos * kSubBucketCount + (_ - kSubBucketCount) =
      dropped kSubBucketBits nanos * kSubBucketCount + _
    rw [← dropped]
    omega

theorem bucketIndex_of_le {nanos : Nat} (above : 2 ^ 34 ≤ nanos) (word : nanos < 2 ^ 64) : bucketIndex nanos = kNumBuckets - 1 := by
  have large : ¬ nanos < kSubBucketCount := Nat.not_lt.mpr (le_trans (by decide) above)
  have nonzero : nanos ≠ 0 := by omega
  have atLeast : 34 ≤ nanos.log2 := (Nat.le_log2 nonzero).mpr above
  have atMost : nanos.log2 < 64 := (Nat.log2_lt nonzero).mpr word
  rw [bucketIndex, if_neg large]
  dsimp only
  rw [if_pos]
  rw [countlZero, if_neg nonzero, kNumOctaves, kSubBucketBits]
  omega

theorem bucketUpperBound_eq {index : Nat} (inside : index < kNumBuckets) :
    bucketUpperBound index = largest kSubBucketBits index := by
  have count : kSubBucketCount = 64 := rfl
  have buckets : kNumBuckets = 1856 := rfl
  have power : 2 ^ kSubBucketBits = 64 := rfl
  rw [largest, leading, bucketDropped, power]
  unfold bucketUpperBound
  rw [count]
  split
  case isTrue small =>
    have none : index / 64 - 1 = 0 := by omega
    simp [none]
  case isFalse large =>
    have quotient : index / 64 - 1 = (index - 64) / 64 := by omega
    have lead : index - (index - 64) / 64 * 64 = 64 + (index - 64) % 64 := by omega
    have shift : (index - 64) / 64 ≤ 27 := by omega
    have sub : (index - 64) % 64 < 64 := Nat.mod_lt _ (by decide)
    have width : 2 ^ ((index - 64) / 64) ≤ 2 ^ 27 := Nat.pow_le_pow_right (by decide) shift
    have positive := Nat.two_pow_pos ((index - 64) / 64)
    have lower : (64 + (index - 64) % 64) * 2 ^ ((index - 64) / 64) ≤ 127 * 2 ^ 27 := Nat.mul_le_mul (by omega) width
    dsimp only
    rw [Nat.add_sub_cancel, quotient, lead, Nat.one_shiftLeft, Nat.shiftLeft_eq, Nat.mod_eq_of_lt (by omega), Nat.add_mul _ 1,
      Nat.one_mul, sizeAdd, sizeSub]
    omega

theorem bucketIndex_lt {nanos : Nat} (word : nanos < 2 ^ 64) : bucketIndex nanos < kNumBuckets := by
  rcases Nat.lt_or_ge nanos (2 ^ 34) with below | above
  · rw [bucketIndex_of_lt below]
    have last : bucket kSubBucketBits nanos ≤ kNumBuckets - 1 := (bucket_le_iff _ _).mpr (Nat.le_of_lt_succ below)
    exact Nat.lt_of_le_pred (by decide) last
  · rw [bucketIndex_of_le above word]
    decide

theorem bucketIndex_mono {lower higher : Nat} (ordered : lower ≤ higher) (word : higher < 2 ^ 64) :
    bucketIndex lower ≤ bucketIndex higher := by
  rcases Nat.lt_or_ge higher (2 ^ 34) with below | above
  · rw [bucketIndex_of_lt below, bucketIndex_of_lt (by omega)]
    exact bucket_mono ordered
  · rw [bucketIndex_of_le above word]
    exact Nat.le_pred_of_lt (bucketIndex_lt (by omega))

theorem bucketUpperBound_bucketIndex {nanos : Nat} (below : nanos < 2 ^ 34) :
    bucketUpperBound (bucketIndex nanos) = largest kSubBucketBits (bucket kSubBucketBits nanos) := by
  rw [bucketUpperBound_eq (bucketIndex_lt (by omega)), bucketIndex_of_lt below]

/-- The bound of a value's bucket is the largest value in it. -/
theorem bucketUpperBound_isGreatest {nanos : Nat} (below : nanos < 2 ^ 34) :
    IsGreatest {other | other < 2 ^ 34 ∧ bucketIndex other = bucketIndex nanos} (bucketUpperBound (bucketIndex nanos)) := by
  rw [bucketUpperBound_bucketIndex below]
  have last : bucket kSubBucketBits nanos ≤ kNumBuckets - 1 := (bucket_le_iff _ _).mpr (Nat.le_of_lt_succ below)
  have bound : largest kSubBucketBits (bucket kSubBucketBits nanos) < 2 ^ 34 := Nat.lt_succ_of_le (largest_mono last)
  refine ⟨⟨bound, ?_⟩, fun other member => ?_⟩
  · rw [bucketIndex_of_lt bound, bucketIndex_of_lt below, bucket_largest]
  · obtain ⟨otherBelow, same⟩ := member
    rw [bucketIndex_of_lt otherBelow, bucketIndex_of_lt below] at same
    rw [← same]
    exact le_largest _ other

/-!
## Recording and scanning
-/

def ticksToNanos (kFreq ticks : Nat) : Nat := ticks * 1000000000 % 2 ^ 64 / kFreq

theorem ticksToNanos_lt (kFreq ticks : Nat) : ticksToNanos kFreq ticks < 2 ^ 64 :=
  Nat.lt_of_le_of_lt (Nat.div_le_self _ _) (Nat.mod_lt _ (by decide))

end LatencyHistogram

structure LatencyHistogram where
  counts : Fin LatencyHistogram.kNumBuckets → Nat
  totalCount : Nat
  max : Nat

namespace LatencyHistogram

def initial : LatencyHistogram := ⟨fun _ => 0, 0, 0⟩

def recordTicks (kFreq : Nat) (histogram : LatencyHistogram) (ticks : Nat) : LatencyHistogram :=
  let nanos := ticksToNanos kFreq ticks
  let index : Fin kNumBuckets := ⟨bucketIndex nanos, bucketIndex_lt (ticksToNanos_lt kFreq ticks)⟩
  { totalCount := sizeAdd histogram.totalCount 1
    max := Nat.max histogram.max nanos
    counts := Function.update histogram.counts index (sizeAdd (histogram.counts index) 1) }

/-- The loop of `Percentile`, from one bucket on. -/
def scanFrom (histogram : LatencyHistogram) (target cumulative i : Nat) : Nat :=
  if inside : i < kNumBuckets then
    let cumulative := sizeAdd cumulative (histogram.counts ⟨i, inside⟩)
    if target ≤ cumulative then bucketUpperBound i else histogram.scanFrom target cumulative (i + 1)
  else histogram.max
termination_by kNumBuckets - i

def scan (histogram : LatencyHistogram) (target : Nat) : Nat := histogram.scanFrom target 0 0

/-- The parameter is the part of the target that is computed in doubles, `ceil(p * count)`. -/
def percentile (ceilTimes : Nat → Nat) (histogram : LatencyHistogram) : Nat :=
  if histogram.totalCount = 0 then 0 else histogram.scan (Nat.max 1 (ceilTimes histogram.totalCount))

/-- The histogram after some calls of `RecordTicks`. -/
def recordAll (kFreq : Nat) (ticks : List Nat) : LatencyHistogram := ticks.foldl (recordTicks kFreq) initial

/-- The values those calls record. -/
def recorded (kFreq : Nat) (ticks : List Nat) : List Nat := ticks.map (ticksToNanos kFreq)

theorem recordAll_append (kFreq : Nat) (ticks : List Nat) (last : Nat) :
    recordAll kFreq (ticks ++ [last]) = recordTicks kFreq (recordAll kFreq ticks) last := by
  rw [recordAll, List.foldl_append]
  rfl

theorem totalCount_recordAll (kFreq : Nat) (ticks : List Nat) : (recordAll kFreq ticks).totalCount = ticks.length % 2 ^ 64 := by
  induction ticks using List.reverseRecOn with
  | nil => rfl
  | append_singleton ticks last ih =>
      rw [recordAll_append]
      change sizeAdd (recordAll kFreq ticks).totalCount 1 = _
      rw [ih, sizeAdd, Nat.mod_add_mod, List.length_append, List.length_singleton]

/-- A counter is the number of recorded values in its bucket, as a 64-bit word. -/
theorem counts_recordAll (kFreq : Nat) (ticks : List Nat) (index : Fin kNumBuckets) :
    (recordAll kFreq ticks).counts index = (recorded kFreq ticks).countP (bucketIndex · = index) % 2 ^ 64 := by
  induction ticks using List.reverseRecOn with
  | nil => rfl
  | append_singleton ticks last ih =>
      rw [recordAll_append, recorded, List.map_append, ← recorded, List.countP_append, List.map_singleton,
        List.countP_singleton]
      dsimp only [recordTicks]
      by_cases here : bucketIndex (ticksToNanos kFreq last) = index
      · have same : (⟨bucketIndex (ticksToNanos kFreq last), bucketIndex_lt (ticksToNanos_lt kFreq last)⟩ : Fin kNumBuckets) =
            index := Fin.ext here
        rw [same, Function.update_self, ih, sizeAdd, Nat.mod_add_mod, if_pos (decide_eq_true here)]
      · rw [Function.update_of_ne (fun same => here (congrArg Fin.val same).symm), ih, if_neg (by simpa using here), Nat.add_zero]

section Ranks

variable {kFreq : Nat} {ticks : List Nat} (few : ticks.length < 2 ^ 64)
include few

/-- With the sum of all counters below the current bucket, the scan stops at the
first bucket that makes the target full. -/
theorem scanFrom_eq {target stop i : Nat} (inside : stop < kNumBuckets) (started : i ≤ stop)
    (first : ∀ index < kNumBuckets, target ≤ (recorded kFreq ticks).countP (bucketIndex · ≤ index) ↔ stop ≤ index) :
    (recordAll kFreq ticks).scanFrom target ((recorded kFreq ticks).countP (bucketIndex · < i)) i = bucketUpperBound stop := by
  have length : (recorded kFreq ticks).length < 2 ^ 64 := by rwa [recorded, List.length_map]
  have counter (index : Fin kNumBuckets) : (recordAll kFreq ticks).counts index =
      (recorded kFreq ticks).countP (bucketIndex · = index) := by
    rw [counts_recordAll, Nat.mod_eq_of_lt (Nat.lt_of_le_of_lt List.countP_le_length length)]
  have sum (i : Nat) (bound : i < kNumBuckets) : sizeAdd ((recorded kFreq ticks).countP (bucketIndex · < i))
      ((recordAll kFreq ticks).counts ⟨i, bound⟩) = (recorded kFreq ticks).countP (bucketIndex · ≤ i) := by
    rw [counter, sizeAdd, countP_lt_add_eq, Nat.mod_eq_of_lt (Nat.lt_of_le_of_lt List.countP_le_length length)]
  induction distance : stop - i generalizing i with
  | zero =>
      obtain rfl : i = stop := by omega
      rw [scanFrom, dif_pos inside, sum i inside]
      exact if_pos ((first i inside).mpr le_rfl)
  | succ distance ih =>
      have bound : i < kNumBuckets := by omega
      have notYet : ¬ target ≤ (recorded kFreq ticks).countP (bucketIndex · ≤ i) := by
        rw [first i bound]
        omega
      have next := ih (i := i + 1) (by omega) (by omega)
      simp only [Nat.lt_succ_iff] at next
      rw [scanFrom, dif_pos bound, sum i bound]
      dsimp only
      rw [if_neg notYet, next]

/-- The scan for a rank ends in the bucket of the value of that rank. -/
theorem scan_eq {rank : Nat} (below : ∀ nanos ∈ recorded kFreq ticks, nanos < 2 ^ 34) (positive : 1 ≤ rank)
    (within : rank ≤ (recorded kFreq ticks).length) :
    (recordAll kFreq ticks).scan rank = bucketUpperBound (bucketIndex (ranked (recorded kFreq ticks) rank)) := by
  have isBelow := below _ (ranked_mem positive within)
  have first (index : Nat) : rank ≤ (recorded kFreq ticks).countP (bucketIndex · ≤ index) ↔
      bucketIndex (ranked (recorded kFreq ticks) rank) ≤ index := by
    have same : (recorded kFreq ticks).countP (bucketIndex · ≤ index) =
        (recorded kFreq ticks).countP (· ≤ largest kSubBucketBits index) := by
      refine List.countP_congr fun nanos member => ?_
      rw [bucketIndex_of_lt (below nanos member), decide_eq_true_iff, decide_eq_true_iff, bucket_le_iff]
    rw [same, ← ranked_le_iff positive within, ← bucket_le_iff, bucketIndex_of_lt isBelow]
  have stops := scanFrom_eq few (bucketIndex_lt (Nat.lt_trans isBelow (by decide))) (Nat.zero_le _) fun index _ => first index
  have none : (recorded kFreq ticks).countP (bucketIndex · < 0) = 0 := by simp
  rw [none] at stops
  exact stops

end Ranks

/-- While the counters do not wrap, the scan for a rank exceeds the recorded value
of that rank by at most a sixty-fourth. Every 64-bit value has a bucket, in order. -/
theorem percentiles_accurate (kFreq : Nat) (ticks : List Nat) (few : ticks.length < 2 ^ 64)
    (below : ∀ nanos ∈ recorded kFreq ticks, nanos < 2 ^ 34) :
    (∀ k, 1 ≤ k → k ≤ (recordAll kFreq ticks).totalCount →
      ranked (recorded kFreq ticks) k ≤ (recordAll kFreq ticks).scan k ∧
      64 * ((recordAll kFreq ticks).scan k - ranked (recorded kFreq ticks) k) ≤ ranked (recorded kFreq ticks) k ∧
      (ranked (recorded kFreq ticks) k < 128 → (recordAll kFreq ticks).scan k = ranked (recorded kFreq ticks) k)) ∧
    (∀ j k, 1 ≤ j → j ≤ k → k ≤ (recordAll kFreq ticks).totalCount →
      (recordAll kFreq ticks).scan j ≤ (recordAll kFreq ticks).scan k) ∧
    (∀ v < 2 ^ 64, bucketIndex v < kNumBuckets) ∧
    (∀ v w, v ≤ w → w < 2 ^ 64 → bucketIndex v ≤ bucketIndex w) ∧
    ∀ v < 2 ^ 34, IsGreatest {w | w < 2 ^ 34 ∧ bucketIndex w = bucketIndex v} (bucketUpperBound (bucketIndex v)) := by
  have count : (recordAll kFreq ticks).totalCount = (recorded kFreq ticks).length := by
    rw [totalCount_recordAll, Nat.mod_eq_of_lt few, recorded, List.length_map]
  rw [count]
  have scanned {k : Nat} (positive : 1 ≤ k) (within : k ≤ (recorded kFreq ticks).length) :
      (recordAll kFreq ticks).scan k = largest kSubBucketBits (bucket kSubBucketBits (ranked (recorded kFreq ticks) k)) := by
    rw [scan_eq few below positive within, bucketUpperBound_bucketIndex (below _ (ranked_mem positive within))]
  refine ⟨fun k positive within => ?_, fun j k positive ordered within => ?_, fun _ => bucketIndex_lt,
    fun _ _ => bucketIndex_mono, fun _ => bucketUpperBound_isGreatest⟩
  · rw [scanned positive within]
    exact ⟨le_largest _ _, largest_close kSubBucketBits _, fun small => largest_exact small⟩
  · rw [scanned positive (ordered.trans within), scanned (positive.trans ordered) within]
    exact largest_mono (bucket_mono (ranked_mono positive ordered within))

theorem percentiles_accurate_three :
    recorded 1000000000 [300, 5, 1000] = [300, 5, 1000] ∧ ranked [300, 5, 1000] 2 = 300 ∧
      300 ≤ (recordAll 1000000000 [300, 5, 1000]).scan 2 ∧ 64 * ((recordAll 1000000000 [300, 5, 1000]).scan 2 - 300) ≤ 300 := by
  have values : recorded 1000000000 [300, 5, 1000] = [300, 5, 1000] := by decide
  have second : ranked [300, 5, 1000] 2 = 300 := by decide +kernel
  have accurate := (percentiles_accurate 1000000000 [300, 5, 1000] (by decide) (by rw [values]; decide)).1 2 (by decide) (by decide)
  rw [values, second] at accurate
  exact ⟨values, second, accurate.1, accurate.2.1⟩

/-- After `2 ^ 64` values of 0 and one of 1 the counter of the zeros is 0 again, and
the scan for the smallest value gives 1. -/
theorem wrapped_counter_misleads :
    (recordAll 1000000000 (List.replicate (2 ^ 64) 0 ++ [1])).totalCount = 1 ∧
      ranked (recorded 1000000000 (List.replicate (2 ^ 64) 0 ++ [1])) 1 = 0 ∧
      (recordAll 1000000000 (List.replicate (2 ^ 64) 0 ++ [1])).scan 1 = 1 := by
  have values : recorded 1000000000 (List.replicate (2 ^ 64) 0 ++ [1]) = List.replicate (2 ^ 64) 0 ++ [1] := by
    rw [recorded, List.map_append, List.map_replicate]
    rfl
  have zeros (index : Fin kNumBuckets) : (recordAll 1000000000 (List.replicate (2 ^ 64) 0 ++ [1])).counts index =
      if 1 = index.val then 1 else 0 := by
    have zero : bucketIndex 0 = 0 := rfl
    have one : bucketIndex 1 = 1 := rfl
    rw [counts_recordAll, values, List.countP_append, List.countP_replicate, List.countP_singleton, zero, one]
    simp only [decide_eq_true_eq]
    split_ifs <;> simp
  refine ⟨?_, ?_, ?_⟩
  · rw [totalCount_recordAll, List.length_append, List.length_replicate, List.length_singleton]
    norm_num
  · rw [values, ← Nat.le_zero, ranked_le_iff le_rfl (by rw [List.length_append, List.length_singleton]; omega),
      List.countP_append, List.countP_replicate, if_pos (by decide)]
    omega
  · have first : (0 : Nat) < kNumBuckets := by decide
    have second : 0 + 1 < kNumBuckets := by decide
    rw [scan, scanFrom, dif_pos first, zeros]
    dsimp only
    have notYet : ¬ 1 ≤ sizeAdd 0 0 := by decide
    rw [if_neg Nat.one_ne_zero, if_neg notYet, scanFrom, dif_pos second, zeros]
    rfl


end LatencyHistogram

end TradingEngine
