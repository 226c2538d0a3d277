import NoteMarkup.Document.Walk

/-!
This module contains the log of a walk: the list of everything that is reported to a visitor.
-/

namespace NoteMarkup

inductive Report where
  | blockStart (block : Block)
  | blockEnd (block : Block)
  | inlineStart (element : Inline)
  | inlineEnd (element : Inline)
  | text (content : String)
  deriving DecidableEq, Repr

def Visitor.logging (skipBlock : BlockKind → Bool) (skipInline : InlineKind → Bool) :
    Visitor (Array Report) where
  blockStart block log := (if skipBlock block.kind then .skip else .enter, log.push (.blockStart block))
  blockEnd block log := log.push (.blockEnd block)
  inlineStart element log :=
    (if skipInline element.kind then .skip else .enter, log.push (.inlineStart element))
  inlineEnd element log := log.push (.inlineEnd element)
  text content log := log.push (.text content)

end NoteMarkup
