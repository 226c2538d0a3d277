import NoteMarkup.ElementKind
import NoteMarkup.Node.Attribute

/-!
This module contains the events a cleaned document consists of. Every start tag is closed by an end tag of
its kind; a standalone tag is an element without content.
-/

namespace NoteMarkup

inductive Event where
  | startTag (kind : ElementKind) (attributes : List Attribute)
  | endTag (kind : ElementKind)
  | standaloneTag (kind : ElementKind) (attributes : List Attribute)
  | text (content : String)
  deriving DecidableEq, Repr, Inhabited

namespace Event

def opens (kind : ElementKind) : Event → Bool
  | .startTag k _ => k == kind
  | _ => false

end Event

end NoteMarkup
