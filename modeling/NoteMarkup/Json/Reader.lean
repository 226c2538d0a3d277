import NoteMarkup.Json.Value
import NoteMarkup.Text.Letter

/-!
This module contains the reading of JSON. It is strict: no comments, no commas behind the last item, no
control characters in strings, and nothing but white space around the value.
-/

namespace NoteMarkup.Json

def isSpace (c : Char) : Bool :=
  c == ' ' || c == '\t' || c == '\n' || c == '\r'

def skipSpace (cs : List Char) : List Char :=
  cs.dropWhile isSpace

def unit? (a b c d : Char) : Option Nat := do
  return ((16 * (← Text.hexValue? a) + (← Text.hexValue? b)) * 16 + (← Text.hexValue? c)) * 16 +
    (← Text.hexValue? d)

def isHighHalf (n : Nat) : Bool :=
  0xD800 ≤ n && n < 0xDC00

def isLowHalf (n : Nat) : Bool :=
  0xDC00 ≤ n && n < 0xE000

def escapedChar? (c : Char) : Option Char :=
  if c = '"' || c = '\\' || c = '/' then some c
  else if c = 'b' then some '\x08'
  else if c = 'f' then some '\x0c'
  else if c = 'n' then some '\n'
  else if c = 'r' then some '\r'
  else if c = 't' then some '\t'
  else none

def pairChar (high low : Nat) : Char :=
  Char.ofNat (0x10000 + (high - 0xD800) * 0x400 + (low - 0xDC00))

/-- The rest of a string behind its opening quote, and what follows the string. There is no text if half of
a surrogate pair stands alone in it. -/
def stringBody? : List Char → Option (Option (List Char) × List Char)
  | [] => none
  | '"' :: rest => some (some [], rest)
  | '\\' :: 'u' :: a :: b :: c :: d :: cs => do
    let unit ← unit? a b c d
    if isHighHalf unit then
      match cs with
      | '\\' :: 'u' :: a :: b :: c :: d :: cs => do
        let low ← unit? a b c d
        let (body, rest) ← stringBody? cs
        return (if isLowHalf low then body.map (pairChar unit low :: ·) else none, rest)
      | cs =>
        let (_, rest) ← stringBody? cs
        return (none, rest)
    else
      let (body, rest) ← stringBody? cs
      return (if isLowHalf unit then none else body.map (Char.ofNat unit :: ·), rest)
  | '\\' :: c :: cs => do
    let char ← escapedChar? c
    let (body, rest) ← stringBody? cs
    return (body.map (char :: ·), rest)
  | c :: cs =>
    if c.toNat < 0x20 || c = '\\' then none
    else do
      let (body, rest) ← stringBody? cs
      return (body.map (c :: ·), rest)

def isNumberChar (c : Char) : Bool :=
  c.isDigit || c == '-' || c == '+' || c == '.' || c == 'e' || c == 'E'

def number? (cs : List Char) : Option (Json × List Char) := do
  let digits := cs.takeWhile isNumberChar
  let n ← Number.parse? digits
  return (.number n, cs.dropWhile isNumberChar)

mutual

def value? : Nat → List Char → Option (Json × List Char)
  | 0, _ => none
  | fuel + 1, cs =>
    match skipSpace cs with
    | '"' :: cs =>
      (stringBody? cs).map fun (body, rest) =>
        (body.elim .unpaired fun body => .string (String.ofList body), rest)
    | '[' :: cs =>
      match skipSpace cs with
      | ']' :: rest => some (.array [], rest)
      | cs => (itemsFrom? fuel cs).map fun (vs, rest) => (.array vs, rest)
    | '\x7b' :: cs =>
      match skipSpace cs with
      | '\x7d' :: rest => some (.object [], rest)
      | cs => (membersFrom? fuel cs).map fun (ms, rest) => (ms.elim .unpaired .object, rest)
    | 'n' :: 'u' :: 'l' :: 'l' :: rest => some (.null, rest)
    | 't' :: 'r' :: 'u' :: 'e' :: rest => some (.bool true, rest)
    | 'f' :: 'a' :: 'l' :: 's' :: 'e' :: rest => some (.bool false, rest)
    | cs => number? cs

def itemsFrom? : Nat → List Char → Option (List Json × List Char)
  | 0, _ => none
  | fuel + 1, cs => do
    let (v, rest) ← value? fuel cs
    match skipSpace rest with
    | ',' :: rest =>
      let (vs, rest) ← itemsFrom? fuel rest
      return (v :: vs, rest)
    | ']' :: rest => return ([v], rest)
    | _ => none

def membersFrom? : Nat → List Char → Option (Option (List (String × Json)) × List Char)
  | 0, _ => none
  | fuel + 1, cs => do
    let ('"' :: cs) := skipSpace cs | none
    let (name, rest) ← stringBody? cs
    let (':' :: rest) := skipSpace rest | none
    let (v, rest) ← value? fuel rest
    let first := name.map fun name => (String.ofList name, v)
    match skipSpace rest with
    | ',' :: rest =>
      let (ms, rest) ← membersFrom? fuel rest
      return (do return (← first) :: (← ms), rest)
    | '\x7d' :: rest => return (first.map ([·]), rest)
    | _ => none

end

/-- Reads a text that holds one value. Two steps a character are enough: the readers take a character at
least every second time they come back to each other. -/
def parse? (text : String) : Option Json := do
  let cs := text.toList
  let (v, rest) ← value? (2 * cs.length + 2) cs
  if (skipSpace rest).isEmpty then some v else none

end NoteMarkup.Json
