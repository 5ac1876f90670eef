import Mathlib

/-! Values every part of the engine shares: byte strings, thrown exceptions,
clocks, and the `double` arithmetic the code uses. -/

set_option autoImplicit false

namespace TradingEngine

/-- A `std::string` or `std::string_view`; a `Char` stands for one C++ `char`.
The lexicographic order on lists is the order of `std::string`. -/
abbrev Text := List Char

instance : LawfulBEq Text := inferInstance

/-- What leaves a function other than by returning. `outOfFuel` is no exception
of the program: it marks a loop that has not returned within its fuel. -/
inductive Exn where
  | runtimeError (what : Text)
  | invalidArgument (what : Text)
  | outOfFuel
  deriving DecidableEq, Repr

/-- How code with checked accesses fails. -/
inductive Fault where
  | outOfRange
  | thrown (exception : Exn)

/-- Octets, as they are sent and received. -/
abbrev Bytes := List UInt8

def Bytes.toText (bytes : Bytes) : Text := bytes.map fun byte => Char.ofNat byte.toNat

def toBytes (text : Text) : Bytes := text.map fun c => UInt8.ofNat c.toNat

/-- Sum and difference of `std::size_t` values. -/
def sizeAdd (left right : Nat) : Nat := (left + right) % 2 ^ 64

def sizeSub (left right : Nat) : Nat := (left + 2 ^ 64 - right) % 2 ^ 64

theorem sizeAdd_eq {left right : Nat} (small : left + right < 2 ^ 64) : sizeAdd left right = left + right :=
  Nat.mod_eq_of_lt small

theorem sizeSub_eq {left right : Nat} (ordered : right ≤ left) (small : left < 2 ^ 64) :
    sizeSub left right = left - right := by
  unfold sizeSub
  omega

/-- A clock as its successive readings. Nothing is assumed of them here. -/
structure Clock where
  reading : Nat → Int
  reads : Nat

def Clock.now (clock : Clock) : Int := clock.reading clock.reads

def Clock.tick (clock : Clock) : Clock := { clock with reads := clock.reads + 1 }

/-- `std::to_string` of a non-negative integer. -/
def toDecimal (value : Nat) : Text := Nat.toDigits 10 value

theorem toDecimal_injective : Function.Injective toDecimal := by
  intro left right same
  have value := congrArg (fun digits => Nat.ofDigitChars 10 digits 0) same
  simpa only [toDecimal, Nat.ofDigitChars_ten_toDigits] using value

/-- `std::to_string` of a signed integer. -/
def toDecimalInt (value : Int) : Text :=
  if value < 0 then '-' :: toDecimal value.natAbs else toDecimal value.natAbs

/-!
## Double arithmetic
-/

/-- The operations on `double` that the code performs. Results that do not
depend on rounding hold for every instance; `ℚ` is the exact one. -/
class DoubleArith (D : Type) where
  /-- A literal of the source. -/
  lit : ℚ → D
  /-- `static_cast<double>` of an integer. -/
  ofInt : Int → D
  add : D → D → D
  sub : D → D → D
  mul : D → D → D
  div : D → D → D
  neg : D → D
  abs : D → D
  /-- `std::round`: to the nearest integer, halves away from zero. -/
  round : D → D
  lt : D → D → Bool
  le : D → D → Bool
  eq : D → D → Bool
  /-- `std::strtod`; `none` when no conversion can be made. -/
  strtod : Text → Option D
  /-- `std::to_chars` with `chars_format::fixed` and a precision. -/
  toCharsFixed : D → Nat → Text
  /-- `std::format` with an empty replacement field. -/
  format : D → Text

/-- A `double` arithmetic whose comparisons are a total order, as they are
among values that are no NaN. Nothing is said of rounding. -/
class TotalDouble (D : Type) [DoubleArith D] : Prop where
  eq_iff (left right : D) : DoubleArith.eq left right = true ↔ left = right
  lt_irrefl (value : D) : DoubleArith.lt value value = false
  lt_trans (low middle high : D) : DoubleArith.lt low middle = true →
    DoubleArith.lt middle high = true → DoubleArith.lt low high = true
  lt_total (left right : D) : DoubleArith.lt left right = false →
    DoubleArith.lt right left = false → left = right

namespace Exact

def isSpace (c : Char) : Bool :=
  c = ' ' || c = '\t' || c = '\n' || c = '\r' || c = '\x0b' || c = '\x0c'

def scale (value : ℚ) (exponent : Int) : ℚ :=
  if exponent < 0 then value / 10 ^ exponent.natAbs else value * 10 ^ exponent.natAbs

/-- A sign, if any, and what follows it. -/
def readSign : Text → Bool × Text
  | '-' :: rest => (true, rest)
  | '+' :: rest => (false, rest)
  | rest => (false, rest)

/-- The exponent after `e` or `E`, zero where no digits follow it. -/
def readExponent : Text → Int
  | [] => 0
  | marker :: tail =>
      if marker = 'e' || marker = 'E' then
        let (negative, rest) := readSign tail
        let magnitude : Int := Nat.ofDigitChars 10 (rest.takeWhile Char.isDigit) 0
        if negative then -magnitude else magnitude
      else 0

/-- The decimal forms `strtod` reads. Infinities, NaNs and hexadecimal forms
are not exact decimals and are not read. -/
def strtod (text : Text) : Option ℚ :=
  let (negative, unsigned) := readSign (text.dropWhile isSpace)
  let whole := unsigned.takeWhile Char.isDigit
  let afterWhole := unsigned.dropWhile Char.isDigit
  let (fraction, afterFraction) := match afterWhole with
    | '.' :: tail => (tail.takeWhile Char.isDigit, tail.dropWhile Char.isDigit)
    | rest => ([], rest)
  if whole = [] ∧ fraction = [] then none
  else
    let digits : ℚ := Nat.ofDigitChars 10 (whole ++ fraction) 0
    let magnitude := scale digits (readExponent afterFraction - fraction.length)
    some (if negative then -magnitude else magnitude)

def round (value : ℚ) : ℚ :=
  if value < 0 then -(⌊-value + 1 / 2⌋ : ℤ) else (⌊value + 1 / 2⌋ : ℤ)

/-- Nearest integer, halves to the even one. -/
def roundHalfEven (value : ℚ) : Int :=
  let below := ⌊value⌋
  let excess := value - below
  if excess < 1 / 2 then below
  else if 1 / 2 < excess then below + 1
  else if below % 2 = 0 then below else below + 1

def toCharsFixed (value : ℚ) (precision : Nat) : Text :=
  let scaled := (roundHalfEven (|value| * 10 ^ precision)).natAbs
  let digits := toDecimal scaled
  let padded := List.replicate (precision + 1 - digits.length) '0' ++ digits
  let whole := padded.take (padded.length - precision)
  let fraction := padded.drop (padded.length - precision)
  (if value < 0 then ['-'] else []) ++ whole ++ (if precision = 0 then [] else '.' :: fraction)

/-- The fewest decimals, up to `bound`, that spell the value exactly. -/
def decimalsNeeded (value : ℚ) : Nat → Nat → Nat
  | decimals, 0 => decimals
  | decimals, bound + 1 =>
      if (value * 10 ^ decimals).den = 1 then decimals else decimalsNeeded value (decimals + 1) bound

def format (value : ℚ) : Text := toCharsFixed value (decimalsNeeded value 0 30)

end Exact

instance : DoubleArith ℚ where
  lit value := value
  ofInt value := value
  add := (· + ·)
  sub := (· - ·)
  mul := (· * ·)
  div := (· / ·)
  neg value := -value
  abs value := |value|
  round := Exact.round
  lt left right := decide (left < right)
  le left right := decide (left ≤ right)
  eq left right := decide (left = right)
  strtod := Exact.strtod
  toCharsFixed := Exact.toCharsFixed
  format := Exact.format

instance : TotalDouble ℚ where
  eq_iff _ _ := decide_eq_true_iff
  lt_irrefl value := decide_eq_false (lt_irrefl value)
  lt_trans _ _ _ first second := decide_eq_true (lt_trans (of_decide_eq_true first) (of_decide_eq_true second))
  lt_total _ _ notLess notGreater :=
    le_antisymm (not_lt.mp (of_decide_eq_false notGreater)) (not_lt.mp (of_decide_eq_false notLess))

example : Exact.strtod "-12.50e1x".toList = some (-125) := by decide +kernel

example : Exact.toCharsFixed (2500249 / 100) 2 = "25002.49".toList := by decide +kernel

end TradingEngine
