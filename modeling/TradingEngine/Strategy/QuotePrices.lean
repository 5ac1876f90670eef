import TradingEngine.Common.DecimalText
import TradingEngine.Engine.Engine

/-! The two prices the quoter sends around a mid price, in exact arithmetic. They are a
millionth of the mid away from it and are then rounded to ticks, so that both can be
rounded to the same tick. -/

set_option autoImplicit false

namespace TradingEngine

/-!
## Rounding to ticks
-/

theorem round_of_nonneg {value : ℚ} (nonneg : 0 ≤ value) : Exact.round value = (⌊value + 1 / 2⌋ : ℤ) :=
  if_neg (not_lt.mpr nonneg)

theorem round_of_nonpos {value : ℚ} (nonpos : value ≤ 0) : Exact.round value = -(⌊-value + 1 / 2⌋ : ℤ) := by
  rcases nonpos.lt_or_eq with negative | rfl
  · exact if_pos negative
  · norm_num [Exact.round]

/-- Two numbers are rounded apart where a half-way point separates them. -/
theorem round_lt_round_iff {left right : ℚ} (leftNonneg : 0 ≤ left) (rightNonneg : 0 ≤ right) :
    Exact.round left < Exact.round right ↔ ∃ tick : ℤ, left + 1 / 2 < tick ∧ (tick : ℚ) ≤ right + 1 / 2 := by
  rw [round_of_nonneg leftNonneg, round_of_nonneg rightNonneg, Int.cast_lt]
  constructor
  · intro less
    exact ⟨⌊right + 1 / 2⌋, Int.floor_lt.mp less, Int.floor_le _⟩
  · rintro ⟨tick, above, below⟩
    exact (Int.floor_lt.mpr above).trans_le (Int.le_floor.mpr below)

/-- Quotes around this many half ticks are apart: the mid is above zero, and it lies
between two ticks or is as large as 500000 of them. -/
def Apart (halfTicks : ℤ) : Prop := 0 < halfTicks ∧ (halfTicks % 2 = 1 ∨ 1000000 ≤ halfTicks)

theorem separated_iff {halfTicks : ℤ} (positive : 0 < halfTicks) :
    (∃ tick : ℤ, (halfTicks : ℚ) / 2 * (1 - 1 / 1000000) + 1 / 2 < tick ∧
        (tick : ℚ) ≤ (halfTicks : ℚ) / 2 * (1 + 1 / 1000000) + 1 / 2) ↔
      halfTicks % 2 = 1 ∨ 1000000 ≤ halfTicks := by
  -- Counted in two-millionths of a tick, both bounds are integers.
  have bounds (tick : ℤ) : ((halfTicks : ℚ) / 2 * (1 - 1 / 1000000) + 1 / 2 < tick ∧
        (tick : ℚ) ≤ (halfTicks : ℚ) / 2 * (1 + 1 / 1000000) + 1 / 2) ↔
      halfTicks * 999999 + 1000000 < 2000000 * tick ∧ 2000000 * tick ≤ halfTicks * 1000001 + 1000000 := by
    rw [← @Int.cast_lt ℚ, ← @Int.cast_le ℚ]
    push_cast
    constructor
    · rintro ⟨above, below⟩
      constructor <;> linarith
    · rintro ⟨above, below⟩
      constructor <;> linarith
  simp only [bounds]
  constructor
  · rintro ⟨tick, above, below⟩
    rcases le_or_gt tick (halfTicks / 2) with low | high <;> omega
  · intro apart
    exact ⟨halfTicks / 2 + 1, by omega, by omega⟩

theorem round_apart_iff (halfTicks : ℤ) :
    Exact.round ((halfTicks : ℚ) / 2 * (1 - 1 / 1000000)) < Exact.round ((halfTicks : ℚ) / 2 * (1 + 1 / 1000000)) ↔
      Apart halfTicks := by
  rcases lt_or_ge 0 halfTicks with positive | nonpos
  · have value : (0 : ℚ) < halfTicks := Int.cast_pos.mpr positive
    rw [round_lt_round_iff (by linarith) (by linarith), separated_iff positive, Apart]
    exact (and_iff_right positive).symm
  · have value : (halfTicks : ℚ) ≤ 0 := Int.cast_nonpos.mpr nonpos
    refine iff_of_false ?_ fun apart => absurd apart.1 (not_lt.mpr nonpos)
    rw [round_of_nonpos (by linarith), round_of_nonpos (by linarith), not_lt, neg_le_neg_iff, Int.cast_le]
    exact Int.floor_le_floor (by linarith)

/-!
## The prices sent
-/

namespace NaiveQuoter

/-- The number that `FormatPrice` prints. -/
def roundedPrice (quoter : NaiveQuoter ℚ) (px : ℚ) : ℚ := Exact.round (px / quoter.tickSz) * quoter.tickSz

/-- The mid price of two prices given in ticks. -/
def midOf (quoter : NaiveQuoter ℚ) (bid ask : ℤ) : ℚ := (bid * quoter.tickSz + ask * quoter.tickSz) / 2

/-- The number that the price sent for a side spells. -/
def sentPrice (quoter : NaiveQuoter ℚ) (mid : ℚ) (side : QuoteSide) : Option ℚ :=
  Exact.strtod (quoter.formatPrice (quoter.quotePrice mid side))

def Uncrossed (quoter : NaiveQuoter ℚ) (mid : ℚ) : Prop :=
  ∃ bidPx askPx, quoter.sentPrice mid .bid = some bidPx ∧ quoter.sentPrice mid .ask = some askPx ∧ bidPx < askPx

variable {quoter : NaiveQuoter ℚ}

theorem quotePrice_ticks (bps : quoter.quoteBps = kQuoterBps) (tick : quoter.tickSz ≠ 0) (bid ask : ℤ) :
    quoter.quotePrice (quoter.midOf bid ask) .bid / quoter.tickSz = ((bid + ask : ℤ) : ℚ) / 2 * (1 - 1 / 1000000) ∧
      quoter.quotePrice (quoter.midOf bid ask) .ask / quoter.tickSz = ((bid + ask : ℤ) : ℚ) / 2 * (1 + 1 / 1000000) := by
  simp only [quotePrice, bps, kQuoterBps, kBpsPerUnit, DoubleArith.lit, DoubleArith.mul, DoubleArith.div,
    DoubleArith.sub, DoubleArith.add, midOf]
  push_cast
  constructor <;> field_simp <;> ring

theorem rounded_apart_iff (bps : quoter.quoteBps = kQuoterBps) (tick : 0 < quoter.tickSz) (bid ask : ℤ) :
    quoter.roundedPrice (quoter.quotePrice (quoter.midOf bid ask) .bid) <
        quoter.roundedPrice (quoter.quotePrice (quoter.midOf bid ask) .ask) ↔ Apart (bid + ask) := by
  obtain ⟨bidTicks, askTicks⟩ := quotePrice_ticks bps tick.ne' bid ask
  rw [roundedPrice, roundedPrice, bidTicks, askTicks, mul_lt_mul_iff_left₀ tick]
  exact round_apart_iff (bid + ask)

/-- The tick has no more decimals than a price is printed with. -/
def SpellsTick (quoter : NaiveQuoter ℚ) : Prop := ∃ units : ℤ, quoter.tickSz * 10 ^ quoter.tickDecimalPlaces = units

theorem round_isInt (value : ℚ) : ∃ ticks : ℤ, Exact.round value = ticks := by
  unfold Exact.round
  split
  · exact ⟨-⌊-value + 1 / 2⌋, by rw [Int.cast_neg]⟩
  · exact ⟨_, rfl⟩

theorem strtod_formatPrice (spells : quoter.SpellsTick) (px : ℚ) :
    Exact.strtod (quoter.formatPrice px) = some (quoter.roundedPrice px) := by
  obtain ⟨units, exact⟩ := spells
  obtain ⟨ticks, rounded⟩ := round_isInt (px / quoter.tickSz)
  have whole : quoter.roundedPrice px * 10 ^ quoter.tickDecimalPlaces = ((ticks * units : ℤ) : ℚ) := by
    rw [roundedPrice, rounded, mul_assoc, exact, Int.cast_mul]
  exact Exact.strtod_toCharsFixed whole

end NaiveQuoter

/-- A tick size as the exchange writes it. -/
structure TickSize where
  whole : Text
  fraction : Text
  digits : Exact.Digits whole
  decimals : Exact.Digits fraction
  nonempty : whole ≠ []
  positive : 0 < Nat.ofDigitChars 10 (whole ++ fraction) 0

namespace TickSize

def text (tick : TickSize) : Text := Exact.unsignedText tick.whole tick.fraction

def value (tick : TickSize) : ℚ := Exact.magnitude tick.whole tick.fraction

theorem findText_point {digits : Text} (all : Exact.Digits digits) (rest : Text) :
    Json.findText ['.'] (digits ++ rest) = (Json.findText ['.'] rest).map (· + digits.length) := by
  induction digits with
  | nil => simp
  | cons first others ih =>
      have notPoint := (Exact.digit_not_special (all first (by simp))).2.2.2
      have passed : List.isPrefixOf ['.'] (first :: (others ++ rest)) = false := by
        simp [List.isPrefixOf, notPoint.symm]
      rw [List.cons_append, Json.findText, passed, ih fun c member => all c (by simp [member])]
      simp [Function.comp_def, Nat.add_assoc]

theorem decimalPlaces_text (tick : TickSize) : decimalPlaces tick.text = tick.fraction.length := by
  unfold decimalPlaces Json.findFrom
  rw [if_pos (Nat.zero_le _), List.drop_zero, text, Exact.unsignedText, findText_point tick.digits]
  by_cases none : tick.fraction = []
  · rw [if_pos none, none]
    rfl
  · rw [if_neg none]
    simp [Json.findText]

theorem create_ok (tick : TickSize) (instId : Text) (instIdCode : Int) (sz : Text) (quoteBps threshold : ℚ) :
    NaiveQuoter.create instId instIdCode sz tick.text quoteBps threshold = .ok
      { instId := instId
        instIdCode := instIdCode
        sz := sz
        tickSz := tick.value
        tickDecimalPlaces := tick.fraction.length
        quoteBps := quoteBps
        requoteThresholdBps := threshold
        lastQuotedMid := none
        bidClOrdId := none
        askClOrdId := none } := by
  have parsed : (Json.parseDouble tick.text : Except Exn ℚ) = .ok tick.value := by
    have read := Exact.strtod_spell false tick.digits tick.nonempty tick.decimals
    simp only [Exact.spell, Bool.false_eq_true, ↓reduceIte, List.nil_append] at read
    simp only [Json.parseDouble, DoubleArith.strtod, text, read]
    rfl
  simp only [NaiveQuoter.create, parsed, decimalPlaces_text]
  rfl

theorem value_pos (tick : TickSize) : 0 < tick.value :=
  div_pos (Nat.cast_pos.mpr tick.positive) (by positivity)

theorem spellsTick {tick : TickSize} {instId : Text} {instIdCode : Int} {sz : Text} {quoteBps threshold : ℚ}
    {quoter : NaiveQuoter ℚ}
    (created : NaiveQuoter.create instId instIdCode sz tick.text quoteBps threshold = .ok quoter) :
    quoter.SpellsTick ∧ 0 < quoter.tickSz ∧ quoter.quoteBps = quoteBps := by
  rw [create_ok] at created
  cases created
  refine ⟨⟨Nat.ofDigitChars 10 (tick.whole ++ tick.fraction) 0, ?_⟩, tick.value_pos, rfl⟩
  simp only [value, Exact.magnitude]
  rw [div_mul_cancel₀ _ (by positivity)]
  rfl

end TickSize

/-- Before they are printed for any tick, and as the texts sent for a tick the exchange writes. -/
theorem quotes_uncrossed_iff (bid ask : ℤ) :
    (∀ quoter : NaiveQuoter ℚ, quoter.quoteBps = kQuoterBps → 0 < quoter.tickSz →
      (quoter.roundedPrice (quoter.quotePrice (quoter.midOf bid ask) .bid) <
        quoter.roundedPrice (quoter.quotePrice (quoter.midOf bid ask) .ask) ↔ Apart (bid + ask))) ∧
    ∀ (tick : TickSize) (instId : Text) (instIdCode : Int) (sz : Text) (threshold : ℚ) (quoter : NaiveQuoter ℚ),
      NaiveQuoter.create instId instIdCode sz tick.text kQuoterBps threshold = .ok quoter →
        (quoter.Uncrossed (quoter.midOf bid ask) ↔ Apart (bid + ask)) := by
  refine ⟨fun quoter bps tick => quoter.rounded_apart_iff bps tick bid ask, ?_⟩
  intro tick instId instIdCode sz threshold quoter created
  obtain ⟨spells, positive, bps⟩ := TickSize.spellsTick created
  rw [← quoter.rounded_apart_iff bps positive bid ask]
  simp only [NaiveQuoter.Uncrossed, NaiveQuoter.sentPrice, NaiveQuoter.strtod_formatPrice spells, Option.some.injEq]
  constructor
  · rintro ⟨_, _, rfl, rfl, less⟩
    exact less
  · intro less
    exact ⟨_, _, rfl, rfl, less⟩

def tenth : TickSize := ⟨['0'], ['1'], by decide, by decide, by decide, by decide⟩

/-- With a best bid of 25000.0 and a best ask of 25000.1. -/
theorem quotes_uncrossed_iff_between : Apart (250000 + 250001) ∧ ∃ quoter : NaiveQuoter ℚ,
    NaiveQuoter.create kEthUsdt 1 kQuoterSz tenth.text kQuoterBps kRequoteThresholdBps = .ok quoter ∧
      quoter.Uncrossed (quoter.midOf 250000 250001) := by
  have apart : Apart (250000 + 250001) := ⟨by decide, .inl (by decide)⟩
  have created := tenth.create_ok kEthUsdt 1 kQuoterSz kQuoterBps kRequoteThresholdBps
  exact ⟨apart, _, created, ((quotes_uncrossed_iff 250000 250001).2 tenth _ _ _ _ _ created).mpr apart⟩

/-- With a best bid of 25000.0 and a best ask of 25000.2 both sides are sent at one price. -/
theorem quotes_meet : ∃ quoter : NaiveQuoter ℚ,
    NaiveQuoter.create kEthUsdt 1 kQuoterSz "0.1".toList kQuoterBps kRequoteThresholdBps = .ok quoter ∧
      quoter.formatPrice (quoter.quotePrice ((25000 + 250002 / 10) / 2) .bid) = "25000.1".toList ∧
      quoter.formatPrice (quoter.quotePrice ((25000 + 250002 / 10) / 2) .ask) = "25000.1".toList := by
  refine ⟨_, tenth.create_ok kEthUsdt 1 kQuoterSz kQuoterBps kRequoteThresholdBps, ?_, ?_⟩ <;> decide +kernel

end TradingEngine
