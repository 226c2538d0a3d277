import NoteMarkup.Html.Doctype
import NoteMarkup.Node.Attribute

/-!
This module contains the tokens of HTML: tags, runs of text, comments and declarations, and how a tag is read.
-/

namespace NoteMarkup.Html

structure Tag where
  name : String
  attributes : List Attribute := []
  isSelfClosing : Bool := false
  deriving DecidableEq, Repr

inductive Token where
  | startTag (tag : Tag)
  | endTag (name : String)
  /-- Text that is either all blank or not blank anywhere. -/
  | text (isBlank : Bool) (content : String)
  /-- The character with number zero, which no text can hold. -/
  | null
  | comment
  | doctype (d : Doctype)
  | mistake
  | finish
  deriving DecidableEq, Repr

inductive RawKind where
  | escapable
  | literal
  | script
  deriving DecidableEq, Repr

def textTokens (cs : List Char) : List Token :=
  (cs.splitBy fun c d => Text.isAsciiBlank c == Text.isAsciiBlank d).map fun run =>
    .text (run.all Text.isAsciiBlank) (String.ofList run)

def endsTagName (c : Char) : Bool :=
  Text.isAsciiBlank c || c == '/' || c == '>'

def endsAttributeName (c : Char) : Bool :=
  endsTagName c || c == '='

def markupName (cs : List Char) : String :=
  String.ofList (cs.map fun c => visibleChar c.toLower)

def attributeValue (cs : List Char) : List Char × List Char :=
  match cs.dropWhile Text.isAsciiBlank with
  | '"' :: cs => (cs.takeWhile (· != '"'), (cs.dropWhile (· != '"')).drop 1)
  | '\x27' :: cs => (cs.takeWhile (· != '\x27'), (cs.dropWhile (· != '\x27')).drop 1)
  | cs =>
    let inValue := fun c => !(Text.isAsciiBlank c || c == '>')
    (cs.takeWhile inValue, cs.dropWhile inValue)

def readAttribute (first : Char) (cs : List Char) : Attribute × List Char :=
  let name := markupName (first :: cs.takeWhile (!endsAttributeName ·))
  match (cs.dropWhile (!endsAttributeName ·)).dropWhile Text.isAsciiBlank with
  | '=' :: cs =>
    let (value, rest) := attributeValue cs
    (⟨name, String.ofList ((decodeValue value).map visibleChar)⟩, rest)
  | cs => (⟨name, ""⟩, cs)

def firstOfEachName : List Attribute → List Attribute
  | [] => []
  | a :: as => a :: (firstOfEachName as).filter (·.name != a.name)

def tagRest? : Nat → List Char → Option (Tag × List Char)
  | 0, _ => none
  | _, [] => none
  | _, '>' :: cs => some ({ name := "" }, cs)
  | _, '/' :: '>' :: cs => some ({ name := "", isSelfClosing := true }, cs)
  | fuel + 1, c :: cs =>
    if Text.isAsciiBlank c || c == '/' then tagRest? fuel cs
    else
      let (a, rest) := readAttribute c cs
      (tagRest? fuel rest).map fun (tag, behind) => ({ tag with attributes := a :: tag.attributes }, behind)

def tag? (fuel : Nat) (cs : List Char) : Option (Tag × List Char) :=
  (tagRest? fuel (cs.dropWhile (!endsTagName ·))).map fun (tag, rest) =>
    ({ tag with
        name := markupName (cs.takeWhile (!endsTagName ·))
        attributes := firstOfEachName tag.attributes }, rest)

end NoteMarkup.Html
