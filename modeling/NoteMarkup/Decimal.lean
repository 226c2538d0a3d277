import NoteMarkup.Text.Letter

/-!
This module contains decimal numbers as style sheets and data formats write them, and the nearest whole
number of a value that is held with 53 significant bits. All arithmetic is exact: a value is a fraction of
natural numbers, and the only inexact steps are the roundings that are named here.
-/

namespace NoteMarkup

inductive Decimal where
  | nan
  | infinite (negative : Bool)
  | finite (negative : Bool) (digits : Nat) (exponent : Int)
  deriving DecidableEq, Repr

namespace Decimal

def signOf : List Char → Bool × List Char
  | '-' :: cs => (true, cs)
  | '+' :: cs => (false, cs)
  | cs => (false, cs)

def exponent? : List Char → Option Int
  | [] => some 0
  | c :: cs =>
    let (negative, digits) := signOf cs
    if (c == 'e' || c == 'E') && !digits.isEmpty && digits.all Char.isDigit then
      let n : Int := Text.decimalValue digits
      some (if negative then -n else n)
    else
      none

/-- Reads a sign, digits with at most one point and at least one digit, and an exponent; or one of the
words `inf`, `infinity` and `nan` in any case. -/
def parse? (cs : List Char) : Option Decimal :=
  let (negative, body) := signOf cs
  let word := body.map Char.toLower
  if word == "inf".toList || word == "infinity".toList then some (.infinite negative)
  else if word == "nan".toList then some .nan
  else
    let whole := body.takeWhile Char.isDigit
    let afterWhole := body.dropWhile Char.isDigit
    let (fraction, rest) :=
      match afterWhole with
      | '.' :: cs => (cs.takeWhile Char.isDigit, cs.dropWhile Char.isDigit)
      | cs => ([], cs)
    if whole.isEmpty && fraction.isEmpty then none
    else
      (exponent? rest).map fun e =>
        .finite negative (Text.decimalValue (whole ++ fraction)) (e - (fraction.length : Int))

end Decimal

/-- A fraction that is not negative. The denominators used here are never zero. -/
structure Fraction where
  numerator : Nat
  denominator : Nat
  deriving DecidableEq, Repr

namespace Fraction

def ofNat (n : Nat) : Fraction :=
  ⟨n, 1⟩

def mul (x y : Fraction) : Fraction :=
  ⟨x.numerator * y.numerator, x.denominator * y.denominator⟩

def le (x y : Fraction) : Bool :=
  x.numerator * y.denominator ≤ y.numerator * x.denominator

def min (x y : Fraction) : Fraction :=
  if x.le y then x else y

/-- The nearest whole number; a half goes up. -/
def round (x : Fraction) : Nat :=
  (2 * x.numerator + x.denominator) / (2 * x.denominator)

def roundToEven (x : Fraction) : Nat :=
  let below := x.numerator / x.denominator
  let twice := 2 * (x.numerator % x.denominator)
  if twice < x.denominator then below
  else if x.denominator < twice then below + 1
  else below + below % 2

def precision : Nat := 53

/-- The nearest value with `precision` significant bits; a half goes to the even neighbour. The fraction
is first scaled so that its whole part has more bits than that, and then loses the excess. -/
def toPrecision (x : Fraction) : Fraction :=
  if x.numerator = 0 then ⟨0, 1⟩
  else
    let up := precision + x.denominator.log2 + 1 - x.numerator.log2
    let scaled := x.numerator * Nat.pow 2 up
    let excess := (scaled / x.denominator).log2 + 1 - precision
    let kept := roundToEven ⟨scaled, x.denominator * Nat.pow 2 excess⟩
    ⟨kept * Nat.pow 2 excess, Nat.pow 2 up⟩

end Fraction

namespace Decimal

/-- The value of a number between zero and `top`, held with `Fraction.precision` bits: what is below zero
or no number counts as zero, what is above `top` as `top`. A power of ten that puts the value beyond the
bounds for sure is not computed. -/
def clamped (top : Nat) : Decimal → Fraction
  | .nan => ⟨0, 1⟩
  | .infinite negative => ⟨if negative then 0 else top, 1⟩
  | .finite negative digits exponent =>
    if negative || digits = 0 then ⟨0, 1⟩
    else if exponent > top then ⟨top, 1⟩
    else if exponent ≥ 0 then
      (Fraction.ofNat (digits * Nat.pow 10 exponent.toNat)).toPrecision.min (.ofNat top)
    else if -exponent > digits.log2 + 100 then ⟨0, 1⟩
    else (Fraction.toPrecision ⟨digits, Nat.pow 10 (-exponent).toNat⟩).min (.ofNat top)

end Decimal

end NoteMarkup
