import NoteMarkup.Document.Walk
import NoteMarkup.Text.Encoding

/-!
This module contains the XML a document is exported as: blocks, inline elements and text in CDATA sections
inside one `root` element, on one line or with every block on a line of its own.
-/

namespace NoteMarkup

structure XmlBuilder where
  written : String
  /-- For each open block and the root, innermost first, whether there is a block in it. -/
  nested : List Bool

namespace XmlBuilder

def declaration : String :=
  "<?xml version=\"1.0\" encoding=\"utf-8\"?>"

def start (pretty : Bool) : XmlBuilder where
  written := declaration ++ (if pretty then "\n" else "") ++ "<root>"
  nested := [false]

def lineStart (pretty : Bool) (depth : Nat) : String :=
  if pretty then "\n" ++ String.join (List.replicate depth "  ") else ""

def startTag (name : String) (attributes : List Attribute) : String :=
  let written := attributes.map fun a => " " ++ a.name ++ "=\"" ++ Text.encodeAttribute a.value ++ "\""
  "<" ++ name ++ String.join written ++ ">"

def endTag (name : String) : String :=
  "</" ++ name ++ ">"

def visitor (pretty : Bool) : Visitor XmlBuilder where
  blockStart block b :=
    let list := block.list?.toList.map fun value => ⟨"list", value⟩
    let tag := lineStart pretty b.nested.length ++ startTag block.kind.exportName list
    let outer := match b.nested with
      | [] => []
      | _ :: outer => true :: outer
    (.enter, { written := b.written ++ tag, nested := false :: outer })
  blockEnd block b :=
    let outer := b.nested.tail
    let layout := if b.nested.head?.getD false then lineStart pretty outer.length else ""
    { written := b.written ++ layout ++ endTag block.kind.exportName, nested := outer }
  inlineStart element b :=
    (.enter, { b with written := b.written ++ startTag element.kind.name element.attributes })
  inlineEnd element b := { b with written := b.written ++ endTag element.kind.name }
  text content b := { b with written := b.written ++ "<![CDATA[" ++ Text.encodeCData content ++ "]]>" }

def finish (pretty : Bool) (b : XmlBuilder) : String :=
  let layout := if b.nested.head?.getD false then lineStart pretty 0 else ""
  b.written ++ layout ++ "</root>" ++ (if pretty then "\n" else "")

end XmlBuilder

def Node.toXml (root : Node) (pretty : Bool) : Except NodeError String :=
  ((XmlBuilder.visitor pretty).visitDocument root (.start pretty)).map (·.finish pretty)

end NoteMarkup
