/-!
This module contains the letter case, the digits and the character classes that markup names, colours
and references are read with. Letter case and digits are those of ASCII; all other characters are left as
they are.
-/

namespace NoteMarkup.Text

def lowercase (s : String) : String :=
  String.ofList (s.toList.map Char.toLower)

def sameLetters (s t : String) : Bool :=
  lowercase s == lowercase t

/-- Control characters, the general category `Cc`. -/
def isControl (c : Char) : Bool :=
  c.toNat < 0x20 || (0x7F ≤ c.toNat && c.toNat ≤ 0x9F)

def hexValue? (c : Char) : Option Nat :=
  if '0' ≤ c && c ≤ '9' then some (c.toNat - '0'.toNat)
  else if 'a' ≤ c && c ≤ 'f' then some (c.toNat - 'a'.toNat + 10)
  else if 'A' ≤ c && c ≤ 'F' then some (c.toNat - 'A'.toNat + 10)
  else none

def isHexDigit (c : Char) : Bool :=
  (hexValue? c).isSome

def hexDigit (n : Nat) : Char :=
  if n < 10 then Char.ofNat ('0'.toNat + n) else Char.ofNat ('a'.toNat + (n - 10))

theorem hexValue?_hexDigit : ∀ n < 16, hexValue? (hexDigit n) = some n := by
  decide

def hexDigits (n : Nat) : List Char :=
  if n < 16 then [hexDigit n] else hexDigits (n / 16) ++ [hexDigit (n % 16)]

def decimalValue (digits : List Char) : Nat :=
  digits.foldl (fun n c => 10 * n + (c.toNat - '0'.toNat)) 0

def hexadecimalValue (digits : List Char) : Nat :=
  digits.foldl (fun n c => 16 * n + (hexValue? c).getD 0) 0

def dropStart? (start : List Char) (s : List Char) : Option (List Char) :=
  match start, s with
  | [], s => some s
  | _ :: _, [] => none
  | a :: start, c :: s => if a == c then dropStart? start s else none

def dropLast? (c : Char) (s : List Char) : Option (List Char) :=
  if s.getLast? = some c then some s.dropLast else none

end NoteMarkup.Text
