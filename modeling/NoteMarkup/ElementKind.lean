import NoteMarkup.Text.Letter

/-!
This module contains the element kinds that a content grammar can speak of, and the names of source
elements: each is a known kind or unknown.
-/

namespace NoteMarkup

inductive ElementKind where
  | p | text | h1 | h2 | h3 | h4 | h5 | h6 | blockquote | quote | hr
  | ul | ol | li | dl | dt | dd
  | table | tr | td | th
  | a | b | strong | i | em | sub | sup | u | s | strike | code | cite
  | styleHighlight
  | styleFont
  | highlight | font
  | acronym | ins | small | span | st1 | var | wbr
  | div | pre | br
  deriving DecidableEq, Repr, Inhabited

namespace ElementKind

def all : List ElementKind :=
  [p, text, h1, h2, h3, h4, h5, h6, blockquote, quote, hr, ul, ol, li, dl, dt, dd, table, tr, td, th,
    a, b, strong, i, em, sub, sup, u, s, strike, code, cite, styleHighlight, styleFont, highlight, font,
    acronym, ins, small, span, st1, var, wbr, div, pre, br]

def name : ElementKind → String
  | p => "p"
  | text => "text"
  | h1 => "h1"
  | h2 => "h2"
  | h3 => "h3"
  | h4 => "h4"
  | h5 => "h5"
  | h6 => "h6"
  | blockquote => "blockquote"
  | quote => "quote"
  | hr => "hr"
  | ul => "ul"
  | ol => "ol"
  | li => "li"
  | dl => "dl"
  | dt => "dt"
  | dd => "dd"
  | table => "table"
  | tr => "tr"
  | td => "td"
  | th => "th"
  | a => "a"
  | b => "b"
  | strong => "strong"
  | i => "i"
  | em => "em"
  | sub => "sub"
  | sup => "sup"
  | u => "u"
  | s => "s"
  | strike => "strike"
  | code => "code"
  | cite => "cite"
  | styleHighlight => "_highlight"
  | styleFont => "_font"
  | highlight => "highlight"
  | font => "font"
  | acronym => "acronym"
  | ins => "ins"
  | small => "small"
  | span => "span"
  | st1 => "st1"
  | var => "var"
  | wbr => "wbr"
  | div => "div"
  | pre => "pre"
  | br => "br"

def ofName? (name : String) : Option ElementKind :=
  all.find? fun k => k.name == name

theorem mem_all (k : ElementKind) : k ∈ all := by
  cases k <;> decide

theorem ofName?_name (k : ElementKind) : ofName? k.name = some k := by
  cases k <;> decide

end ElementKind

/-- The name of a source element, in lower case where it is not one of the known kinds. -/
inductive TagName where
  | known (kind : ElementKind)
  | unknown (name : String)
  deriving DecidableEq, Repr

namespace TagName

def ofName (name : String) : TagName :=
  let lower := Text.lowercase name
  match ElementKind.ofName? lower with
  | some kind => .known kind
  | none => .unknown lower

def kind? : TagName → Option ElementKind
  | .known kind => some kind
  | .unknown _ => none

def name : TagName → String
  | .known kind => kind.name
  | .unknown name => name

theorem lowercase_of_ofName {name : String} {k : ElementKind} (h : TagName.ofName name = .known k) :
    Text.lowercase name = k.name := by
  unfold TagName.ofName at h
  dsimp only at h
  split at h
  . next kind hkind =>
    cases h
    have := List.find?_some hkind
    simp only [beq_iff_eq] at this
    exact this.symm
  . cases h

end TagName

end NoteMarkup
