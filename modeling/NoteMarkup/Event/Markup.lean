import NoteMarkup.Grammar.Basic
import NoteMarkup.Text.Encoding

/-!
This module contains the markup that a list of events is written as. Text stands in CDATA sections; a
section goes on over the tags of kinds without an output name, which are not written.
-/

namespace NoteMarkup

structure MarkupBuilder where
  written : String := ""
  inText : Bool := false

namespace MarkupBuilder

def put (s : String) (b : MarkupBuilder) : MarkupBuilder :=
  { b with written := b.written ++ s }

def endText (b : MarkupBuilder) : MarkupBuilder :=
  if b.inText then { written := b.written ++ "]]>", inText := false } else b

def attributeText (a : Attribute) : String :=
  " " ++ a.name ++ "=\"" ++ Text.encodeKeepingReferences a.value ++ "\""

def tag (name : String) (attributes : List Attribute) (ending : String) (b : MarkupBuilder) :
    MarkupBuilder :=
  b.endText.put ("<" ++ name ++ String.join (attributes.map attributeText) ++ ending)

def add (g : Grammar) (b : MarkupBuilder) : Event → MarkupBuilder
  | .startTag kind attributes =>
    match g.writtenName? kind with
    | some name => b.tag name attributes ">"
    | none => b
  | .endTag kind =>
    match g.writtenName? kind with
    | some name => b.endText.put ("</" ++ name ++ ">")
    | none => b
  | .standaloneTag kind attributes =>
    match g.writtenName? kind with
    | some name => b.tag name attributes "/>"
    | none => b
  | .text content =>
    let b := if b.inText then b else { written := b.written ++ "<![CDATA[", inText := true }
    b.put (Text.encodeCData content)

end MarkupBuilder

namespace Event

def markupOf (g : Grammar) (events : List Event) : String :=
  (events.foldl (MarkupBuilder.add g) {}).endText.written

end Event

end NoteMarkup
