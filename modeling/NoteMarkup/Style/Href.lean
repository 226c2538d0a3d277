import NoteMarkup.Text.Blank
import NoteMarkup.Text.Letter

/-!
This module contains the test that link targets have to pass: a target whose scheme would run a script is
no target at all.
-/

namespace NoteMarkup.Href

def refusedSchemes : List String :=
  ["javascript:", "vbscript:", "data:"]

/-- How far into the text the scheme is looked for. Every refused scheme is shorter. -/
def schemeWindow : Nat := 16

/-- The beginning of a target as its scheme is recognised: white space and control characters, which
readers of links pass over, are left out, and letters are in lower case. -/
def schemeStart (target : String) : List Char :=
  ((target.toList.filter fun c => !(Text.isAsciiBlank c || Text.isControl c)).take schemeWindow).map
    Char.toLower

def hasRefusedScheme (target : String) : Bool :=
  refusedSchemes.any fun scheme => scheme.toList.isPrefixOf (schemeStart target)

def usable? (value : String) : Option String :=
  let target := Text.trim value
  if target.isEmpty || hasRefusedScheme target then none else some target

end NoteMarkup.Href
