import NoteMarkup.Text.Letter

/-!
This module contains the ways text is written inside markup: attribute values between double quotes, with
or without respect for references that are already there, and text inside CDATA sections.
-/

namespace NoteMarkup.Text

def attributeChar (c : Char) : List Char :=
  if c = '&' then "&amp;".toList
  else if c = '<' then "&lt;".toList
  else if c = '>' then "&gt;".toList
  else if c = '"' then "&quot;".toList
  else [c]

def encodeAttributeChars (cs : List Char) : List Char :=
  cs.flatMap attributeChar

def encodeAttribute (value : String) : String :=
  String.ofList (encodeAttributeChars value.toList)

/-- Text for a CDATA section. A terminator inside the text is cut in two, with the end of one section
and the start of another between the halves. -/
def encodeCDataChars : List Char → List Char
  | ']' :: ']' :: '>' :: cs => "]]]]><![CDATA[>".toList ++ encodeCDataChars cs
  | c :: cs => c :: encodeCDataChars cs
  | [] => []

def encodeCData (text : String) : String :=
  String.ofList (encodeCDataChars text.toList)

def isReferenceBody : List Char → Bool
  | '#' :: 'x' :: digits => !digits.isEmpty && digits.all isHexDigit
  | '#' :: 'X' :: digits => !digits.isEmpty && digits.all isHexDigit
  | '#' :: digits => !digits.isEmpty && digits.all Char.isDigit
  | [] => false
  | c :: cs => c.isAlpha && cs.all Char.isAlphanum

def referenceBody? (cs : List Char) : Option (List Char) :=
  let body := cs.takeWhile (· != ';')
  if body.length < cs.length && isReferenceBody body then some body else none

/-- An attribute value in which references are kept and every other `&` is written as one. A kept
reference holds nothing that needs escaping, so the two parts are treated alike. -/
def encodeKeepingReferencesChars : List Char → List Char
  | [] => []
  | c :: cs =>
    if c = '&' then
      if (referenceBody? cs).isSome then '&' :: encodeKeepingReferencesChars cs
      else "&amp;".toList ++ encodeKeepingReferencesChars cs
    else
      attributeChar c ++ encodeKeepingReferencesChars cs

def encodeKeepingReferences (value : String) : String :=
  String.ofList (encodeKeepingReferencesChars value.toList)

end NoteMarkup.Text
