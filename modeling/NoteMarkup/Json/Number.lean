import NoteMarkup.Decimal

/-!
This module contains the numbers of JSON, and which of them are in the range of double precision. A number is
held in 64 bits of digits and a power of ten, and its value is the product of the two, each of them rounded
to `Fraction.precision` bits first.
-/

namespace NoteMarkup.Json

structure Number where
  negative : Bool
  /-- The digits as one number, the last ones left out if they do not fit. -/
  digits : Nat
  exponent : Int
  isWhole : Bool
  deriving DecidableEq, Repr

namespace Number

def greatestDigits : Nat := 0xFFFFFFFFFFFFFFFF

def appendDigits (n : Nat) : List Char → Nat × Nat
  | [] => (n, 0)
  | c :: cs =>
    let longer := 10 * n + Text.decimalValue [c]
    if longer ≤ greatestDigits then
      let (result, count) := appendDigits longer cs
      (result, count + 1)
    else
      (n, 0)

def isWholePart (digits : List Char) : Bool :=
  !digits.isEmpty && (digits.length == 1 || digits.head? != some '0')

def fraction? : List Char → Option (List Char × List Char)
  | '.' :: cs =>
    let digits := cs.takeWhile Char.isDigit
    if digits.isEmpty then none else some (digits, cs.dropWhile Char.isDigit)
  | cs => some ([], cs)

/-- Reads a number. Digits in front of the point that do not fit still count as places, those behind it do
not matter. -/
def parse? (cs : List Char) : Option Number := do
  let (negative, unsigned) :=
    match cs with
    | '-' :: cs => (true, cs)
    | cs => (false, cs)
  let whole := unsigned.takeWhile Char.isDigit
  let (fraction, rest) ← fraction? (unsigned.dropWhile Char.isDigit)
  let written ← Decimal.exponent? rest
  let (leading, taken) := appendDigits 0 whole
  let (digits, places) := appendDigits leading fraction
  if isWholePart whole then
    return {
      negative := negative
      digits := digits
      exponent := written + ((whole.length - taken : Nat) : Int) - (places : Int)
      isWhole := fraction.isEmpty && rest.isEmpty }
  else none

def greatestExponent : Nat := 308

def greatestValue : Fraction :=
  .ofNat (Nat.pow 2 1024 - 1)

def isInRange (n : Number) : Bool :=
  n.digits = 0 || n.exponent < 0 ||
    (n.exponent ≤ greatestExponent &&
      let digits := (Fraction.ofNat n.digits).toPrecision
      let power := (Fraction.ofNat (Nat.pow 10 n.exponent.toNat)).toPrecision
      (digits.mul power).toPrecision.le greatestValue)

def natural? (n : Number) : Option Nat :=
  if n.isWhole && !n.negative && n.exponent = 0 then some n.digits else none

end Number

end NoteMarkup.Json
