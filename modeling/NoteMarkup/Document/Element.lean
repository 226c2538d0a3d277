import NoteMarkup.Node.Basic

/-!
This module contains the kinds of blocks and inline elements a canonical document is made of, and how the
elements of a tree are recognised as such.
-/

namespace NoteMarkup

inductive BlockKind where
  | paragraph | h1 | h2 | h3 | quote | table | row | cell | headerCell | rule
  deriving DecidableEq, Repr

inductive InlineKind where
  | link | strong | emphasis | subscript | superscript | underline | strike | code | cite | highlight | font
  deriving DecidableEq, Repr

namespace BlockKind

def ofName? : String → Option BlockKind
  | "text" => some paragraph
  | "h1" => some h1
  | "h2" => some h2
  | "h3" => some h3
  | "quote" => some quote
  | "table" => some table
  | "tr" => some row
  | "td" => some cell
  | "th" => some headerCell
  | "hr" => some rule
  | _ => none

def exportName : BlockKind → String
  | paragraph => "paragraph"
  | h1 => "h1"
  | h2 => "h2"
  | h3 => "h3"
  | quote => "quote"
  | table => "table"
  | row => "tr"
  | cell => "td"
  | headerCell => "th"
  | rule => "hr"

def label : BlockKind → String
  | paragraph => "paragraph"
  | h1 => "h1"
  | h2 => "h2"
  | h3 => "h3"
  | quote => "quote"
  | table => "table"
  | row => "row"
  | cell => "cell"
  | headerCell => "headercell"
  | rule => "rule"

end BlockKind

namespace InlineKind

def ofName? : String → Option InlineKind
  | "a" => some link
  | "strong" => some strong
  | "em" => some emphasis
  | "sub" => some subscript
  | "sup" => some superscript
  | "u" => some underline
  | "strike" => some strike
  | "code" => some code
  | "cite" => some cite
  | "highlight" => some highlight
  | "font" => some font
  | _ => none

def name : InlineKind → String
  | link => "a"
  | strong => "strong"
  | emphasis => "em"
  | subscript => "sub"
  | superscript => "sup"
  | underline => "u"
  | strike => "strike"
  | code => "code"
  | cite => "cite"
  | highlight => "highlight"
  | font => "font"

def label : InlineKind → String
  | link => "link"
  | strong => "strong"
  | emphasis => "emphasis"
  | subscript => "subscript"
  | superscript => "superscript"
  | underline => "underline"
  | strike => "strike"
  | code => "code"
  | cite => "cite"
  | highlight => "highlight"
  | font => "font"

end InlineKind

structure Block where
  kind : BlockKind
  attributes : List Attribute
  deriving DecidableEq, Repr

def Block.list? (b : Block) : Option String :=
  Attribute.lookup? b.attributes "list"

structure Inline where
  kind : InlineKind
  attributes : List Attribute
  deriving DecidableEq, Repr

def Inline.attribute? (i : Inline) (name : String) : Option String :=
  Attribute.lookup? i.attributes name

def Node.blockKind? (n : Node) : Option BlockKind :=
  n.name?.bind BlockKind.ofName?

def Node.isNoBlock (n : Node) : Bool :=
  n.blockKind?.isNone

end NoteMarkup
