import TradingEngine.Risk.Risk

/-! The position a list of fills leaves, in exact arithmetic: what it has earned is
determined by the fills whatever their order, and the average entry price stays among
the prices the position was entered at. -/

set_option autoImplicit false

namespace TradingEngine

/-- A fill of some size; any side but `buy` sells. -/
structure Fill where
  side : Text
  px : ℚ
  sz : ℚ
  sized : 0 < sz

def Fill.signedQty (fill : Fill) : ℚ := if fill.side = kBuy then fill.sz else -fill.sz

theorem Fill.abs_signedQty (fill : Fill) : |fill.signedQty| = fill.sz := by
  unfold signedQty
  split
  · exact abs_of_pos fill.sized
  · rw [abs_neg, abs_of_pos fill.sized]

theorem Fill.signedQty_ne_zero (fill : Fill) : fill.signedQty ≠ 0 := by
  rw [← abs_pos, fill.abs_signedQty]
  exact fill.sized

namespace Position

variable {position : Position ℚ} {fill : Fill}

def apply (position : Position ℚ) (fill : Fill) : Position ℚ := position.applyFill fill.side fill.px fill.sz

def ofFills (fills : List Fill) : Position ℚ := fills.foldl apply initial

theorem ofFills_append (fills : List Fill) (fill : Fill) : ofFills (fills ++ [fill]) = (ofFills fills).apply fill := by
  simp only [ofFills, List.foldl_append, List.foldl_cons, List.foldl_nil]

/-!
## The two branches
-/

theorem positive_iff {value : ℚ} : positive value = true ↔ 0 < value := decide_eq_true_iff

theorem isZero_iff {value : ℚ} : isZero value = true ↔ value = 0 := decide_eq_true_iff

theorem min_eq (left right : ℚ) : Position.min left right = Min.min left right := by
  simp only [Position.min, DoubleArith.lt, decide_eq_true_eq]
  split
  · rename_i less
    rw [min_eq_right less.le]
  · rename_i notLess
    rw [min_eq_left (not_lt.mp notLess)]

/-- The test of the branch that adds to the position. -/
theorem adds_iff : (isZero position.netQty || positive position.netQty == positive fill.signedQty) = true ↔
    0 ≤ position.netQty * fill.signedQty := by
  have sized := fill.signedQty_ne_zero
  rw [Bool.or_eq_true, isZero_iff, beq_iff_eq, Bool.eq_iff_iff, positive_iff, positive_iff]
  rcases lt_trichotomy position.netQty 0 with short | flat | long
  · rcases lt_or_gt_of_ne sized with sells | buys
    · simp [short.ne, short.not_gt, sells.not_gt, (mul_pos_of_neg_of_neg short sells).le]
    · simp [short, short.ne, short.not_gt, buys]
  · simp [flat]
  · rcases lt_or_gt_of_ne sized with sells | buys
    · simp [long.ne', long, sells, sells.not_gt]
    · simp [long, buys, (mul_pos long buys).le]

/-- A fill on the side of the position, or into none. -/
theorem of_adds (adds : 0 ≤ position.netQty * fill.signedQty) :
    (0 ≤ position.netQty ∧ 0 < fill.signedQty ∧ fill.sz = fill.signedQty) ∨
      (position.netQty ≤ 0 ∧ fill.signedQty < 0 ∧ fill.sz = -fill.signedQty) := by
  have size := fill.abs_signedQty
  rcases lt_or_gt_of_ne fill.signedQty_ne_zero with sells | buys
  · exact .inr ⟨nonpos_of_mul_nonneg_left adds sells, sells, by rw [← size, abs_of_neg sells]⟩
  · exact .inl ⟨nonneg_of_mul_nonneg_left adds buys, buys, by rw [← size, abs_of_pos buys]⟩

/-- A fill against the position. -/
theorem of_against (against : position.netQty * fill.signedQty < 0) :
    (0 < position.netQty ∧ fill.signedQty < 0 ∧ fill.sz = -fill.signedQty) ∨
      (position.netQty < 0 ∧ 0 < fill.signedQty ∧ fill.sz = fill.signedQty) := by
  have size := fill.abs_signedQty
  rcases mul_neg_iff.mp against with ⟨long, sells⟩ | ⟨short, buys⟩
  · exact .inl ⟨long, sells, by rw [← size, abs_of_neg sells]⟩
  · exact .inr ⟨short, buys, by rw [← size, abs_of_pos buys]⟩

theorem abs_of_adds (adds : 0 ≤ position.netQty * fill.signedQty) :
    |position.netQty + fill.signedQty| = |position.netQty| + fill.sz := by
  rw [← fill.abs_signedQty]
  exact (abs_add_eq_add_abs_iff _ _).mpr (mul_nonneg_iff.mp adds)

theorem ne_zero_of_adds (adds : 0 ≤ position.netQty * fill.signedQty) : position.netQty + fill.signedQty ≠ 0 := by
  rw [← abs_pos, abs_of_adds adds]
  exact add_pos_of_nonneg_of_pos (abs_nonneg _) fill.sized

theorem apply_of_adds (adds : 0 ≤ position.netQty * fill.signedQty) : position.apply fill =
    { position with
      avgEntryPx := (|position.netQty| * position.avgEntryPx + fill.sz * fill.px) / (|position.netQty| + fill.sz)
      netQty := position.netQty + fill.signedQty } := by
  rw [← abs_of_adds adds]
  exact if_pos (adds_iff.mpr adds)

/-- The test for a fill that leaves a position on the other side. -/
theorem flips_iff {old new : ℚ} (held : old ≠ 0) (left : new ≠ 0) :
    (positive new != positive old) = true ↔ old * new < 0 := by
  rw [bne_iff_ne, ne_eq, Bool.eq_iff_iff, positive_iff, positive_iff, mul_neg_iff]
  rcases lt_or_gt_of_ne held with short | long <;> rcases lt_or_gt_of_ne left with shortAfter | longAfter
  · simp [short.not_gt, shortAfter.not_gt]
  · simp [short, short.not_gt, longAfter]
  · simp [long, shortAfter, shortAfter.not_gt]
  · simp [long, longAfter, long.not_gt, longAfter.not_gt]

theorem apply_of_against (against : position.netQty * fill.signedQty < 0) : position.apply fill =
    { realizedPnl := position.realizedPnl + (if 0 < position.netQty then fill.px - position.avgEntryPx
        else position.avgEntryPx - fill.px) * Min.min fill.sz |position.netQty|
      avgEntryPx := if position.netQty + fill.signedQty = 0 then 0
        else if position.netQty * (position.netQty + fill.signedQty) < 0 then fill.px else position.avgEntryPx
      netQty := position.netQty + fill.signedQty } := by
  have notAdds : ¬ (isZero position.netQty || positive position.netQty == positive fill.signedQty) = true := by
    rw [adds_iff]
    exact not_le.mpr against
  have held : position.netQty ≠ 0 := left_ne_zero_of_mul against.ne
  have average : (if isZero (position.netQty + fill.signedQty) = true then 0
        else if (positive (position.netQty + fill.signedQty) != positive position.netQty) = true then fill.px
        else position.avgEntryPx) =
      if position.netQty + fill.signedQty = 0 then 0
        else if position.netQty * (position.netQty + fill.signedQty) < 0 then fill.px else position.avgEntryPx := by
    simp only [isZero_iff]
    split
    · rfl
    · rename_i left
      simp only [flips_iff held left]
  rw [← average, ← min_eq]
  simp only [← positive_iff]
  exact if_neg notAdds

/-- The four ways of a fill. -/
inductive Applied (position : Position ℚ) (fill : Fill) : Position ℚ → Prop where
  | adds : 0 ≤ position.netQty * fill.signedQty →
      Applied position fill
        { position with
          avgEntryPx := (|position.netQty| * position.avgEntryPx + fill.sz * fill.px) / (|position.netQty| + fill.sz)
          netQty := position.netQty + fill.signedQty }
  | reduces : position.netQty * fill.signedQty < 0 → 0 < position.netQty * (position.netQty + fill.signedQty) →
      Applied position fill
        { position with
          realizedPnl := position.realizedPnl + fill.signedQty * (position.avgEntryPx - fill.px)
          netQty := position.netQty + fill.signedQty }
  | closes : position.netQty + fill.signedQty = 0 →
      Applied position fill
        { realizedPnl := position.realizedPnl + fill.signedQty * (position.avgEntryPx - fill.px)
          avgEntryPx := 0
          netQty := position.netQty + fill.signedQty }
  | flips : position.netQty * (position.netQty + fill.signedQty) < 0 →
      Applied position fill
        { realizedPnl := position.realizedPnl + position.netQty * (fill.px - position.avgEntryPx)
          avgEntryPx := fill.px
          netQty := position.netQty + fill.signedQty }

/-- What is realised by a fill that is no larger than the position. -/
theorem realized_of_covered (against : position.netQty * fill.signedQty < 0)
    (covered : 0 ≤ position.netQty * (position.netQty + fill.signedQty)) :
    (if 0 < position.netQty then fill.px - position.avgEntryPx else position.avgEntryPx - fill.px) *
        Min.min fill.sz |position.netQty| =
      fill.signedQty * (position.avgEntryPx - fill.px) := by
  rcases of_against against with ⟨long, sells, size⟩ | ⟨short, buys, size⟩
  · have left := nonneg_of_mul_nonneg_right covered long
    rw [if_pos long, abs_of_pos long, size, min_eq_left (by linarith)]
    ring
  · have left := nonpos_of_mul_nonneg_right covered short
    rw [if_neg short.not_gt, abs_of_neg short, size, min_eq_left (by linarith)]
    ring

/-- What is realised by a fill that is larger. -/
theorem realized_of_flips (against : position.netQty * fill.signedQty < 0)
    (flips : position.netQty * (position.netQty + fill.signedQty) < 0) :
    (if 0 < position.netQty then fill.px - position.avgEntryPx else position.avgEntryPx - fill.px) *
        Min.min fill.sz |position.netQty| =
      position.netQty * (fill.px - position.avgEntryPx) := by
  rcases of_against against with ⟨long, sells, size⟩ | ⟨short, buys, size⟩
  · have left := neg_of_mul_neg_right flips long.le
    rw [if_pos long, abs_of_pos long, size, min_eq_right (by linarith)]
    ring
  · have left := pos_of_mul_neg_right flips short.le
    rw [if_neg short.not_gt, abs_of_neg short, size, min_eq_right (by linarith)]
    ring

theorem applied (position : Position ℚ) (fill : Fill) : Applied position fill (position.apply fill) := by
  rcases le_or_gt 0 (position.netQty * fill.signedQty) with adds | against
  · rw [apply_of_adds adds]
    exact .adds adds
  · rw [apply_of_against against]
    have held : position.netQty ≠ 0 := left_ne_zero_of_mul against.ne
    by_cases flat : position.netQty + fill.signedQty = 0
    · rw [if_pos flat, realized_of_covered against (by rw [flat, mul_zero])]
      exact .closes flat
    · rw [if_neg flat]
      rcases lt_or_gt_of_ne (mul_ne_zero held flat) with flips | reduces
      · rw [if_pos flips, realized_of_flips against flips]
        exact .flips flips
      · rw [if_neg reduces.not_gt, realized_of_covered against reduces.le]
        exact .reduces against reduces

theorem Applied.netQty {next : Position ℚ} (applied : Applied position fill next) :
    next.netQty = position.netQty + fill.signedQty := by
  cases applied <;> rfl

/-!
## Profit and loss
-/

/-- The cost of a position, after a fill that adds to it. -/
theorem cost_of_adds (adds : 0 ≤ position.netQty * fill.signedQty) :
    (position.netQty + fill.signedQty) *
        ((|position.netQty| * position.avgEntryPx + fill.sz * fill.px) / (|position.netQty| + fill.sz)) =
      position.netQty * position.avgEntryPx + fill.signedQty * fill.px := by
  have left := ne_zero_of_adds adds
  rcases of_adds adds with ⟨long, -, size⟩ | ⟨short, -, size⟩
  · rw [abs_of_nonneg long, size, mul_div_cancel₀ _ left]
  · have negated : -position.netQty + -fill.signedQty = -(position.netQty + fill.signedQty) := by ring
    rw [abs_of_nonpos short, size, negated, div_neg, mul_neg, mul_div_cancel₀ _ left]
    ring

def totalPnl (position : Position ℚ) (markPx : ℚ) : ℚ := position.realizedPnl + position.unrealizedPnl markPx

theorem totalPnl_eq (position : Position ℚ) (markPx : ℚ) :
    position.totalPnl markPx = position.realizedPnl + position.netQty * (markPx - position.avgEntryPx) := rfl

/-- A fill adds what it earns at the mark price. -/
theorem Applied.totalPnl {next : Position ℚ} (applied : Applied position fill next) (markPx : ℚ) :
    next.totalPnl markPx = position.totalPnl markPx + fill.signedQty * (markPx - fill.px) := by
  rw [totalPnl_eq, totalPnl_eq]
  cases applied with
  | adds adds => linear_combination -cost_of_adds adds
  | reduces => ring
  | closes flat => linear_combination position.avgEntryPx * flat
  | flips => ring

theorem totals_ofFills (fills : List Fill) (markPx : ℚ) :
    (ofFills fills).totalPnl markPx = (fills.map fun fill => fill.signedQty * (markPx - fill.px)).sum ∧
      (ofFills fills).netQty = (fills.map Fill.signedQty).sum := by
  induction fills using List.reverseRecOn with
  | nil => exact ⟨by simp [ofFills, totalPnl_eq, initial, DoubleArith.lit], rfl⟩
  | append_singleton fills fill ih =>
      have step := (ofFills fills).applied fill
      rw [ofFills_append, step.totalPnl, step.netQty, ih.1, ih.2]
      simp

theorem pnl_conserved (fills : List Fill) (markPx : ℚ) :
    (ofFills fills).realizedPnl + (ofFills fills).unrealizedPnl markPx =
        (fills.map fun fill => fill.signedQty * (markPx - fill.px)).sum ∧
      (ofFills fills).netQty = (fills.map Fill.signedQty).sum ∧
      ∀ reordered, reordered.Perm fills → (ofFills reordered).realizedPnl + (ofFills reordered).unrealizedPnl markPx =
        (ofFills fills).realizedPnl + (ofFills fills).unrealizedPnl markPx := by
  obtain ⟨total, net⟩ := totals_ofFills fills markPx
  refine ⟨total, net, fun reordered same => ?_⟩
  obtain ⟨reorderedTotal, -⟩ := totals_ofFills reordered markPx
  exact reorderedTotal.trans ((same.map _).sum_eq.trans total.symm)

/-!
## The average entry price
-/

/-- Some price is no higher, and some no lower. -/
def Among (prices : List ℚ) (px : ℚ) : Prop := ∃ low ∈ prices, ∃ high ∈ prices, low ≤ px ∧ px ≤ high

theorem Among.bounds {prices : List ℚ} {px : ℚ} (among : Among prices px) :
    ∃ low high, prices.min? = some low ∧ prices.max? = some high ∧ low ≤ px ∧ px ≤ high := by
  obtain ⟨low, lowIn, high, highIn, above, below⟩ := among
  obtain ⟨least, isLeast⟩ := Option.isSome_iff_exists.mp (List.isSome_min?_of_mem lowIn)
  obtain ⟨greatest, isGreatest⟩ := Option.isSome_iff_exists.mp (List.isSome_max?_of_mem highIn)
  refine ⟨least, greatest, isLeast, isGreatest, ?_, ?_⟩
  · exact ((List.min?_eq_some_iff.mp isLeast).2 low lowIn).trans above
  · exact below.trans ((List.max?_eq_some_iff.mp isGreatest).2 high highIn)

theorem among_singleton (px : ℚ) : Among [px] px := ⟨px, by simp, px, by simp, le_rfl, le_rfl⟩

/-- A weighted mean is among what it is a mean of. -/
theorem Among.mean {prices : List ℚ} {average px held size : ℚ} (among : Among prices average) (some : 0 ≤ held)
    (sized : 0 < size) : Among (prices ++ [px]) ((held * average + size * px) / (held + size)) := by
  obtain ⟨low, lowIn, high, highIn, above, below⟩ := among
  have total : 0 < held + size := add_pos_of_nonneg_of_pos some sized
  refine ⟨Min.min low px, ?_, Max.max high px, ?_, ?_, ?_⟩
  · rcases min_choice low px with same | same <;> simp [same, lowIn]
  · rcases max_choice high px with same | same <;> simp [same, highIn]
  · rw [le_div_iff₀ total]
    have first := mul_le_mul_of_nonneg_left ((min_le_left low px).trans above) some
    have second := mul_le_mul_of_nonneg_left (min_le_right low px) sized.le
    linarith
  · rw [div_le_iff₀ total]
    have first := mul_le_mul_of_nonneg_left (below.trans (le_max_left high px)) some
    have second := mul_le_mul_of_nonneg_left (le_max_right high px) sized.le
    linarith

end Position

/-- The quantity held, and the fills since it was last zero or last changed sign. -/
structure Episode where
  net : ℚ
  fills : List Fill

namespace Episode

def note (episode : Episode) (fill : Fill) : Episode :=
  let net := episode.net + fill.signedQty
  { net := net
    fills := if net = 0 then [] else if episode.net * net < 0 then [fill] else episode.fills ++ [fill] }

def ofFills (fills : List Fill) : Episode := fills.foldl note ⟨0, []⟩

/-- The prices of the fills on the side of the position. -/
def ownPrices (episode : Episode) : List ℚ :=
  (episode.fills.filter fun fill => 0 < episode.net * fill.signedQty).map Fill.px

theorem ofFills_append (fills : List Fill) (fill : Fill) : ofFills (fills ++ [fill]) = (ofFills fills).note fill := by
  simp only [ofFills, List.foldl_append, List.foldl_cons, List.foldl_nil]

/-- The fills on the side of the position are the same, while it stays on its side. -/
theorem filter_of_same_side {net next : ℚ} (same : 0 < net * next) (fills : List Fill) :
    fills.filter (fun fill => 0 < next * fill.signedQty) = fills.filter fun fill => 0 < net * fill.signedQty := by
  refine List.filter_congr fun fill _ => ?_
  rw [decide_eq_decide]
  rcases mul_pos_iff.mp same with ⟨long, longAfter⟩ | ⟨short, shortAfter⟩
  · rw [mul_pos_iff_of_pos_left long, mul_pos_iff_of_pos_left longAfter]
  · simp only [mul_pos_iff, short, shortAfter, short.not_gt, shortAfter.not_gt, true_and, false_and, false_or]

variable {episode : Episode} {fill : Fill}

theorem ownPrices_of_opens (opens : episode.fills = [] ∨ episode.net * (episode.net + fill.signedQty) < 0)
    (own : 0 < (episode.net + fill.signedQty) * fill.signedQty) : (episode.note fill).ownPrices = [fill.px] := by
  have held : episode.net + fill.signedQty ≠ 0 := left_ne_zero_of_mul own.ne'
  have fills : (episode.note fill).fills = [fill] := by
    simp only [note, if_neg held]
    rcases opens with fresh | flips
    · simp [fresh]
    · rw [if_pos flips]
  simp only [ownPrices, fills]
  rw [List.filter_cons_of_pos (by exact decide_eq_true own)]
  rfl

theorem ownPrices_of_same_side (same : 0 < episode.net * (episode.net + fill.signedQty)) :
    (episode.note fill).ownPrices =
      if 0 < episode.net * fill.signedQty then episode.ownPrices ++ [fill.px] else episode.ownPrices := by
  have held : episode.net + fill.signedQty ≠ 0 := right_ne_zero_of_mul same.ne'
  have fills : (episode.note fill).fills = episode.fills ++ [fill] := by
    simp only [note, if_neg held, if_neg same.not_gt]
  simp only [ownPrices, fills]
  rw [show (episode.note fill).net = episode.net + fill.signedQty from rfl, filter_of_same_side same]
  split
  · rename_i own
    simp [List.filter_append, own]
  · rename_i other
    simp [List.filter_append, other]

end Episode

namespace Position

/-- The average entry price of a position against its fills. -/
structure Averages (position : Position ℚ) (episode : Episode) : Prop where
  net : position.netQty = episode.net
  flat : position.netQty = 0 → position.avgEntryPx = 0 ∧ episode.fills = []
  priced : ∀ fill ∈ episode.fills, 0 < fill.px
  among : position.netQty ≠ 0 → Among episode.ownPrices position.avgEntryPx

theorem Averages.pos {position : Position ℚ} {episode : Episode} (averages : Averages position episode)
    (held : position.netQty ≠ 0) : 0 < position.avgEntryPx := by
  obtain ⟨low, lowIn, -, -, above, -⟩ := averages.among held
  obtain ⟨fill, fillIn, rfl⟩ := List.mem_map.mp lowIn
  exact (averages.priced fill (List.mem_filter.mp fillIn).1).trans_le above

theorem priced_note {episode : Episode} {fill : Fill} (priced : ∀ fill ∈ episode.fills, 0 < fill.px)
    (positive : 0 < fill.px) : ∀ later ∈ (episode.note fill).fills, 0 < later.px := by
  intro later member
  simp only [Episode.note] at member
  split at member
  · cases member
  · split at member
    · obtain rfl := List.mem_singleton.mp member
      exact positive
    · rcases List.mem_append.mp member with old | new
      · exact priced later old
      · obtain rfl := List.mem_singleton.mp new
        exact positive

theorem Averages.apply {position next : Position ℚ} {episode : Episode} {fill : Fill}
    (averages : Averages position episode) (positive : 0 < fill.px) (applied : Applied position fill next) :
    Averages next (episode.note fill) := by
  have net : next.netQty = (episode.note fill).net := by
    rw [applied.netQty, averages.net]
    rfl
  have priced := priced_note averages.priced positive
  cases applied with
  | adds adds =>
      refine ⟨net, fun flat => absurd flat (ne_zero_of_adds adds), priced, fun held => ?_⟩
      by_cases flat : position.netQty = 0
      · obtain ⟨average, fresh⟩ := averages.flat flat
        have own : 0 < (episode.net + fill.signedQty) * fill.signedQty := by
          rw [← averages.net, flat, zero_add]
          exact mul_self_pos.mpr fill.signedQty_ne_zero
        rw [Episode.ownPrices_of_opens (.inl fresh) own]
        simp only [flat, abs_zero, zero_mul, zero_add]
        rw [mul_div_cancel_left₀ _ fill.sized.ne']
        exact among_singleton fill.px
      · have own : 0 < episode.net * fill.signedQty := by
          rw [← averages.net]
          exact lt_of_le_of_ne adds (mul_ne_zero flat fill.signedQty_ne_zero).symm
        have same : 0 < episode.net * (episode.net + fill.signedQty) := by
          rw [mul_add]
          exact add_pos_of_nonneg_of_pos (mul_self_nonneg _) own
        rw [Episode.ownPrices_of_same_side same, if_pos own]
        exact (averages.among flat).mean (abs_nonneg _) fill.sized
  | reduces against same =>
      refine ⟨net, fun flat => absurd flat (right_ne_zero_of_mul same.ne'), priced, fun _ => ?_⟩
      rw [averages.net] at against same
      rw [Episode.ownPrices_of_same_side same, if_neg against.not_gt]
      exact averages.among (by rw [averages.net]; exact left_ne_zero_of_mul same.ne')
  | closes flat =>
      refine ⟨net, fun _ => ⟨rfl, ?_⟩, priced, fun held => absurd flat held⟩
      rw [averages.net] at flat
      simp only [Episode.note, if_pos flat]
  | flips flips =>
      refine ⟨net, fun flat => absurd flat (right_ne_zero_of_mul flips.ne), priced, fun _ => ?_⟩
      rw [averages.net] at flips
      have own : 0 < (episode.net + fill.signedQty) * fill.signedQty := by
        nlinarith [mul_self_nonneg (episode.net + fill.signedQty)]
      rw [Episode.ownPrices_of_opens (.inr flips) own]
      exact among_singleton fill.px

theorem averages_ofFills {fills : List Fill} (positive : ∀ fill ∈ fills, 0 < fill.px) :
    Averages (ofFills fills) (Episode.ofFills fills) := by
  induction fills using List.reverseRecOn with
  | nil => exact ⟨rfl, fun _ => ⟨rfl, rfl⟩, by simp [Episode.ofFills], fun held => absurd rfl held⟩
  | append_singleton fills fill ih =>
      rw [ofFills_append, Episode.ofFills_append]
      exact (ih fun earlier member => positive earlier (by simp [member])).apply (positive fill (by simp))
        ((ofFills fills).applied fill)

/-!
## Divisions
-/

/-- Exact arithmetic where a division by zero has no result, nor has anything made from it. -/
instance : DoubleArith (Option ℚ) where
  lit value := some value
  ofInt value := some value
  add := Option.map₂ (· + ·)
  sub := Option.map₂ (· - ·)
  mul := Option.map₂ (· * ·)
  div left right := if right = some 0 then none else Option.map₂ (· / ·) left right
  neg := Option.map fun value => -value
  abs := Option.map fun value => |value|
  round := Option.map Exact.round
  lt left right := (Option.map₂ (fun left right => decide (left < right)) left right).getD false
  le left right := (Option.map₂ (fun left right => decide (left ≤ right)) left right).getD false
  eq left right := (Option.map₂ (fun left right => decide (left = right)) left right).getD false
  strtod text := (Exact.strtod text).map some
  toCharsFixed value precision := (value.map fun value => Exact.toCharsFixed value precision).getD []
  format value := (value.map Exact.format).getD []

/-- A position all of whose numbers have a value. -/
def defined (position : Position ℚ) : Position (Option ℚ) :=
  ⟨some position.netQty, some position.avgEntryPx, some position.realizedPnl⟩

def applyDefined (position : Position (Option ℚ)) (fill : Fill) : Position (Option ℚ) :=
  position.applyFill fill.side (some fill.px) (some fill.sz)

theorem div_some {value divisor : ℚ} (nonzero : divisor ≠ 0) :
    DoubleArith.div (some value) (some divisor) = some (value / divisor) := by
  simp [DoubleArith.div, nonzero]

/-- The code computes the same with this arithmetic: it divides by no zero. -/
theorem applyDefined_eq (position : Position ℚ) (fill : Fill) :
    position.defined.applyDefined fill = (position.apply fill).defined := by
  have quantity : (if fill.side = kBuy then some fill.sz else DoubleArith.neg (some fill.sz)) = some fill.signedQty := by
    unfold Fill.signedQty
    split <;> rfl
  unfold applyDefined applyFill
  simp only [quantity]
  rcases le_or_gt 0 (position.netQty * fill.signedQty) with adds | against
  · have divides : DoubleArith.div (some (|position.netQty| * position.avgEntryPx + fill.sz * fill.px))
        (some |position.netQty + fill.signedQty|) = some _ := div_some (abs_ne_zero.mpr (ne_zero_of_adds adds))
    rw [apply_of_adds adds, ← abs_of_adds adds]
    refine (if_pos (adds_iff.mpr adds)).trans ?_
    exact congrArg (fun average => (⟨some (position.netQty + fill.signedQty), average, some position.realizedPnl⟩ :
      Position (Option ℚ))) divides
  · have notAdds : ¬ (isZero position.netQty || positive position.netQty == positive fill.signedQty) = true := by
      rw [adds_iff]
      exact not_le.mpr against
    unfold apply applyFill
    refine (if_neg notAdds).trans ?_
    refine .trans ?_ (congrArg defined (if_neg notAdds)).symm
    have least : Position.min (some fill.sz) (some |position.netQty|) = some (Position.min fill.sz |position.netQty|) :=
      (apply_ite some _ _ _).symm
    have unit : (if positive position.netQty = true then DoubleArith.sub (some fill.px) (some position.avgEntryPx)
          else DoubleArith.sub (some position.avgEntryPx) (some fill.px)) =
        some (if positive position.netQty = true then fill.px - position.avgEntryPx
          else position.avgEntryPx - fill.px) := (apply_ite some _ _ _).symm
    have average : (if isZero (position.netQty + fill.signedQty) = true then some 0
          else if (positive (position.netQty + fill.signedQty) != positive position.netQty) = true then some fill.px
          else some position.avgEntryPx) =
        some (if isZero (position.netQty + fill.signedQty) = true then 0
          else if (positive (position.netQty + fill.signedQty) != positive position.netQty) = true then fill.px
          else position.avgEntryPx) := by
      rw [apply_ite some, apply_ite some]
    refine (Position.mk.injEq ..).mpr ⟨rfl, average, ?_⟩
    exact congrArg₂ (fun unit closing => DoubleArith.add (some position.realizedPnl) (DoubleArith.mul unit closing))
      unit least

theorem foldl_applyDefined (fills : List Fill) : fills.foldl applyDefined initial = (ofFills fills).defined := by
  induction fills using List.reverseRecOn with
  | nil => rfl
  | append_singleton fills fill ih =>
      rw [ofFills_append, ← applyDefined_eq, ← ih]
      simp only [List.foldl_append, List.foldl_cons, List.foldl_nil]

theorem average_meaningful (fills : List Fill) (positive : ∀ fill ∈ fills, 0 < fill.px) :
    fills.foldl applyDefined initial = (ofFills fills).defined ∧
      ((ofFills fills).avgEntryPx = 0 ↔ (ofFills fills).netQty = 0) ∧
      ((ofFills fills).netQty ≠ 0 → ∃ low high,
        (Episode.ofFills fills).ownPrices.min? = some low ∧ (Episode.ofFills fills).ownPrices.max? = some high ∧
          low ≤ (ofFills fills).avgEntryPx ∧ (ofFills fills).avgEntryPx ≤ high) := by
  have averages := averages_ofFills positive
  refine ⟨foldl_applyDefined fills, ⟨fun zero => ?_, fun flat => (averages.flat flat).1⟩, fun held =>
    (averages.among held).bounds⟩
  by_contra held
  exact (averages.pos held).ne' zero

/-- Sold short, bought back and more, then bought again. -/
def turned : List Fill :=
  [⟨kSell, 10, 2, by norm_num⟩, ⟨kBuy, 8, 5, by norm_num⟩, ⟨kBuy, 11, 3, by norm_num⟩, ⟨kSell, 20, 1, by norm_num⟩]

theorem average_meaningful_turned : (ofFills turned).netQty = 5 ∧ (Episode.ofFills turned).ownPrices = [8, 11] ∧
    ∃ low high, (Episode.ofFills turned).ownPrices.min? = some low ∧ (Episode.ofFills turned).ownPrices.max? = some high ∧
      low ≤ (ofFills turned).avgEntryPx ∧ (ofFills turned).avgEntryPx ≤ high := by
  refine ⟨by decide +kernel, by decide +kernel, ?_⟩
  exact (average_meaningful turned (by decide +kernel)).2.2 (by decide +kernel)

end Position

end TradingEngine
