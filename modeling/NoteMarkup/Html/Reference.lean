import NoteMarkup.Html.ReferenceTable

/-!
This module contains the character references of HTML, by number and by name, and text with its references
replaced.
-/

namespace NoteMarkup.Html

/-- What the numbers from 0x80 on stand for, which would be control characters. -/
def c1Replacements : List Nat :=
  [0x20AC, 0x81, 0x201A, 0x192, 0x201E, 0x2026, 0x2020, 0x2021, 0x2C6, 0x2030, 0x160, 0x2039, 0x152,
    0x8D, 0x17D, 0x8F, 0x90, 0x2018, 0x2019, 0x201C, 0x201D, 0x2022, 0x2013, 0x2014, 0x2DC, 0x2122,
    0x161, 0x203A, 0x153, 0x9D, 0x17E, 0x178]

def replacementChar : Char := '\ufffd'

def visibleChar (c : Char) : Char :=
  if c = '\x00' then replacementChar else c

def numberedChar (n : Nat) : Char :=
  if n = 0 || !n.isValidChar then replacementChar
  else
    match c1Replacements[n - 0x80]? with
    | some m => if 0x80 ≤ n then Char.ofNat m else Char.ofNat n
    | none => Char.ofNat n

structure Reference where
  chars : List Char
  length : Nat
  isClosed : Bool
  deriving DecidableEq, Repr

def numberedIn? (lead : Nat) (isDigit : Char → Bool) (value : List Char → Nat) (cs : List Char) :
    Option Reference :=
  let digits := cs.takeWhile isDigit
  if digits.isEmpty then none
  else
    let isClosed := (cs.dropWhile isDigit).head? == some ';'
    some {
      chars := [numberedChar (value digits)]
      length := 1 + lead + digits.length + (if isClosed then 1 else 0)
      isClosed := isClosed }

def numbered? : List Char → Option Reference
  | 'x' :: cs => numberedIn? 1 Text.isHexDigit Text.hexadecimalValue cs
  | 'X' :: cs => numberedIn? 1 Text.isHexDigit Text.hexadecimalValue cs
  | cs => numberedIn? 0 Char.isDigit Text.decimalValue cs

/-- Whether a name without a semicolon may end in front of that text. Inside an attribute it may not where
it could be a part of an address. -/
def mayEnd (inAttribute : Bool) : List Char → Bool
  | c :: _ => !(inAttribute && (c == '=' || c.isAlphanum))
  | [] => true

/-- A reference by name. The longest name that fits decides, also if it may not end there. -/
def named? (inAttribute : Bool) (cs : List Char) : Option Reference :=
  match namedReferences.find? fun r => r.name.isPrefixOf cs with
  | none => none
  | some r =>
    let isClosed := r.name.getLast? == some ';'
    let length := r.name.length
    if isClosed || mayEnd inAttribute (cs.drop length) then some ⟨r.chars, length, isClosed⟩ else none

def reference? (inAttribute : Bool) : List Char → Option Reference
  | '#' :: cs => numbered? cs
  | cs => named? inAttribute cs

def decodeFrom (inAttribute : Bool) (skipped : Nat) : List Char → List Char
  | [] => []
  | c :: cs =>
    match skipped with
    | n + 1 => decodeFrom inAttribute n cs
    | 0 =>
      if c = '&' then
        match reference? inAttribute cs with
        | some r => r.chars ++ decodeFrom inAttribute r.length cs
        | none => '&' :: decodeFrom inAttribute 0 cs
      else
        c :: decodeFrom inAttribute 0 cs

def decodeValue (cs : List Char) : List Char :=
  decodeFrom true 0 cs

end NoteMarkup.Html
