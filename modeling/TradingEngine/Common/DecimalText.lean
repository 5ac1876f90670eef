import TradingEngine.Common.Basic

/-! Decimal numbers as text. A text of a sign, digits and a fraction is read as the number
it spells, and a number that has no more decimals than are printed is spelled exactly. -/

set_option autoImplicit false

namespace TradingEngine.Exact

/-- Digits, and behind a point the digits of the fraction, if it has any. -/
def unsignedText (whole fraction : Text) : Text := whole ++ (if fraction = [] then [] else '.' :: fraction)

def spell (negative : Bool) (whole fraction : Text) : Text :=
  (if negative then ['-'] else []) ++ unsignedText whole fraction

def Digits (text : Text) : Prop := ∀ c ∈ text, c.isDigit = true

instance (text : Text) : Decidable (Digits text) :=
  decidable_of_iff (text.all Char.isDigit = true) List.all_eq_true

/-- The number that digits with a fraction spell. -/
def magnitude (whole fraction : Text) : ℚ :=
  (Nat.ofDigitChars 10 (whole ++ fraction) 0 : ℚ) / 10 ^ fraction.length

theorem digit_not_special {c : Char} (digit : c.isDigit = true) :
    isSpace c = false ∧ c ≠ '-' ∧ c ≠ '+' ∧ c ≠ '.' := by
  refine ⟨?_, ?_, ?_, ?_⟩
  · cases space : isSpace c with
    | false => rfl
    | true =>
        simp only [isSpace, Bool.or_eq_true, decide_eq_true_eq] at space
        rcases space with ((((rfl | rfl) | rfl) | rfl) | rfl) | rfl <;> cases digit
  all_goals
    rintro rfl
    cases digit

theorem takeWhile_digits {digits : Text} (all : Digits digits) {rest : Text} (ends : ∀ c ∈ rest.head?, c.isDigit = false) :
    (digits ++ rest).takeWhile Char.isDigit = digits ∧ (digits ++ rest).dropWhile Char.isDigit = rest := by
  rw [List.takeWhile_append_of_pos all, List.dropWhile_append_of_pos all]
  cases rest with
  | nil => simp
  | cons c rest => simp [ends c rfl]

/-- The sign of a text whose number begins with a digit. -/
theorem readSign_spell (negative : Bool) {whole fraction : Text} (digits : Digits whole) (some : whole ≠ []) :
    readSign ((spell negative whole fraction).dropWhile isSpace) = (negative, unsignedText whole fraction) := by
  cases whole with
  | nil => exact absurd rfl some
  | cons first others =>
      obtain ⟨solid, notMinus, notPlus, -⟩ := digit_not_special (digits first (by simp))
      cases negative with
      | true => rfl
      | false =>
          have kept : (spell false (first :: others) fraction).dropWhile isSpace =
              unsignedText (first :: others) fraction := List.dropWhile_cons_of_neg (by simp [solid])
          rw [kept]
          unfold readSign
          split
          · rename_i same
            exact absurd (List.cons.inj same).1 notMinus
          · rename_i same
            exact absurd (List.cons.inj same).1 notPlus
          · rfl

theorem strtod_spell (negative : Bool) {whole fraction : Text} (digits : Digits whole) (some : whole ≠ [])
    (decimals : Digits fraction) :
    strtod (spell negative whole fraction) =
      .some (if negative then -magnitude whole fraction else magnitude whole fraction) := by
  have point : ∀ c ∈ (if fraction = [] then [] else '.' :: fraction : Text).head?, c.isDigit = false := by
    split
    · simp
    · intro c first
      cases first
      rfl
  obtain ⟨wholeRead, behind⟩ := takeWhile_digits digits point
  have exponent : scale (Nat.ofDigitChars 10 (whole ++ fraction) 0 : ℚ) (readExponent [] - fraction.length) =
      magnitude whole fraction := by
    simp only [readExponent, scale, magnitude, zero_sub, Int.natAbs_neg, Int.natAbs_natCast]
    by_cases none : fraction = []
    · simp [none]
    · rw [if_pos (by have := List.length_pos_iff.mpr none; omega)]
  simp only [strtod, readSign_spell negative digits some, unsignedText, wholeRead, behind]
  by_cases none : fraction = []
  · subst none
    simp only [↓reduceIte, some, false_and, exponent]
  · have ends : ∀ c ∈ ([] : Text).head?, c.isDigit = false := by simp
    obtain ⟨taken, dropped⟩ := takeWhile_digits decimals ends
    rw [List.append_nil] at taken dropped
    simp only [if_neg none, taken, dropped, some, false_and, ↓reduceIte, exponent]

theorem roundHalfEven_intCast (value : ℤ) : roundHalfEven value = value := by
  simp [roundHalfEven]

theorem digits_toDecimal (value : Nat) : Digits (toDecimal value) := fun _ member =>
  Nat.isDigit_of_mem_toDigits (by decide) (by decide) member

theorem ofDigitChars_zeros (count : Nat) (digits : Text) :
    Nat.ofDigitChars 10 (List.replicate count '0' ++ digits) 0 = Nat.ofDigitChars 10 digits 0 := by
  induction count with
  | zero => rfl
  | succ count ih =>
      rw [List.replicate_succ, List.cons_append, Nat.ofDigitChars_cons]
      exact ih

/-- A number with no more decimals than are printed is spelled exactly. -/
theorem strtod_toCharsFixed {value : ℚ} {precision : Nat} {units : ℤ} (whole : value * 10 ^ precision = units) :
    strtod (toCharsFixed value precision) = some value := by
  have positive : (0 : ℚ) < 10 ^ precision := by positivity
  have unitsOf : |value| * 10 ^ precision = ((|units| : ℤ) : ℚ) := by
    rw [Int.cast_abs, ← whole, abs_mul, abs_of_pos positive]
  have size : (units.natAbs : ℚ) / 10 ^ precision = |value| := by
    rw [Nat.cast_natAbs, ← unitsOf, mul_div_cancel_right₀ _ positive.ne']
  have scaled : (roundHalfEven (|value| * 10 ^ precision)).natAbs = units.natAbs := by
    rw [unitsOf, roundHalfEven_intCast, Int.natAbs_abs]
  let padded := List.replicate (precision + 1 - (toDecimal units.natAbs).length) '0' ++ toDecimal units.natAbs
  have digits : Digits padded := by
    intro c member
    rcases List.mem_append.mp member with zero | digit
    · rw [(List.mem_replicate.mp zero).2]
      rfl
    · exact digits_toDecimal _ c digit
  have long : precision + 1 ≤ padded.length := by
    simp only [padded, List.length_append, List.length_replicate]
    omega
  have places : (padded.drop (padded.length - precision)).length = precision := by
    rw [List.length_drop]
    omega
  have pointed : (if precision = 0 then [] else '.' :: padded.drop (padded.length - precision)) =
      if padded.drop (padded.length - precision) = [] then [] else '.' :: padded.drop (padded.length - precision) := by
    simp only [← List.length_eq_zero_iff, places]
  have spelled : toCharsFixed value precision = spell (decide (value < 0)) (padded.take (padded.length - precision))
      (padded.drop (padded.length - precision)) := by
    simp only [toCharsFixed, scaled, spell, unsignedText, ← pointed, decide_eq_true_eq, List.append_assoc, padded]
  rw [spelled, strtod_spell _ (fun c member => digits c (List.mem_of_mem_take member)) ?_
    fun c member => digits c (List.mem_of_mem_drop member)]
  · rw [magnitude, List.take_append_drop, places, ofDigitChars_zeros, toDecimal, Nat.ofDigitChars_ten_toDigits, size]
    simp only [decide_eq_true_eq]
    split
    · rename_i negative
      rw [abs_of_neg negative, neg_neg]
    · rename_i nonnegative
      rw [abs_of_nonneg (not_lt.mp nonnegative)]
  · rw [ne_eq, ← List.length_eq_zero_iff, List.length_take]
    omega

end TradingEngine.Exact
