/-!
This module contains white space in text: which characters are white space, trimming a string at both
ends and cutting it into pieces at the characters of a class.
-/

namespace NoteMarkup.Text

/-- White space as the Unicode property `White_Space` has it. -/
def isBlank (c : Char) : Bool :=
  let v := c.toNat
  (0x09 ≤ v && v ≤ 0x0D) || v == 0x20 || v == 0x85 || v == 0xA0 || v == 0x1680 ||
    (0x2000 ≤ v && v ≤ 0x200A) || v == 0x2028 || v == 0x2029 || v == 0x202F || v == 0x205F || v == 0x3000

def isAsciiBlank (c : Char) : Bool :=
  c == ' ' || c == '\t' || c == '\n' || c == '\x0c' || c == '\r'

def trimChars (cs : List Char) : List Char :=
  ((cs.dropWhile isBlank).reverse.dropWhile isBlank).reverse

def trim (s : String) : String :=
  String.ofList (trimChars s.toList)

def isBlankText (s : String) : Bool :=
  s.toList.all isBlank

def pieces (p : Char → Bool) : List Char → List (List Char)
  | [] => [[]]
  | c :: cs =>
    if p c then
      [] :: pieces p cs
    else
      match pieces p cs with
      | [] => [[c]]
      | piece :: rest => (c :: piece) :: rest

def words (s : String) : List String :=
  ((pieces isBlank s.toList).filter (fun w => !w.isEmpty)).map String.ofList

def splitOnce? (c : Char) (s : List Char) : Option (List Char × List Char) :=
  match s.dropWhile (· != c) with
  | [] => none
  | _ :: rest => some (s.takeWhile (· != c), rest)

end NoteMarkup.Text
