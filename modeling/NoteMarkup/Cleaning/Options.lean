import NoteMarkup.Text.Blank

/-!
This module contains the choices that cleaning leaves open, and how they act on a run of text.
-/

namespace NoteMarkup

structure CleaningOptions where
  /-- An inline element of a kind that is already open is passed through. -/
  dedupeInline : Bool := false
  skipBlankText : Bool := true
  normalizeLineBreaks : Bool := true
  deriving DecidableEq, Repr, Inhabited

def joinLines : List Char → List Char
  | '\r' :: '\n' :: cs => ' ' :: joinLines cs
  | '\r' :: cs => ' ' :: joinLines cs
  | '\n' :: cs => ' ' :: joinLines cs
  | c :: cs => c :: joinLines cs
  | [] => []

namespace CleaningOptions

def admitText? (o : CleaningOptions) (content : String) : Option String :=
  let content := if o.normalizeLineBreaks then String.ofList (joinLines content.toList) else content
  if content.isEmpty || (o.skipBlankText && Text.isBlankText content) then none else some content

end CleaningOptions

end NoteMarkup
