import NoteMarkup.Text.Letter

/-!
This module contains attributes, pairs of a name and a value in the order of their source, and the lookup
of an attribute by name.
-/

namespace NoteMarkup

structure Attribute where
  name : String
  value : String
  deriving DecidableEq, Repr, Inhabited

def Attribute.lookup? (attributes : List Attribute) (name : String) : Option String :=
  (attributes.find? fun a => Text.sameLetters a.name name).map (·.value)

def Attribute.isPresent (attributes : List Attribute) (name : String) : Bool :=
  (Attribute.lookup? attributes name).isSome

end NoteMarkup
