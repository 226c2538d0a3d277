import NoteMarkup.Cleaning.Options
import NoteMarkup.Event.Basic
import NoteMarkup.Json.Printer
import NoteMarkup.Json.Reader
import NoteMarkup.Node.Basic

/-!
This module contains the JSON forms of trees, events and cleaning options.
-/

namespace NoteMarkup

namespace Attribute

def toJson (a : Attribute) : Json :=
  .object [("name", .string a.name), ("value", .string a.value)]

def ofJson? (v : Json) : Option Attribute := do
  match ← v.fields? ["name", "value"] with
  | [some name, some value] => return ⟨← name.string?, ← value.string?⟩
  | _ => none

def listToJson (attributes : List Attribute) : Json :=
  .array (attributes.map toJson)

def listOfJson? (v : Json) : Option (List Attribute) := do
  (← v.items?).mapM ofJson?

end Attribute

mutual

def Node.toJson : Node → Json
  | .text content => .object [("type", .string "Text"), ("content", .string content)]
  | .element name attributes children =>
    let attributesMember :=
      if attributes.isEmpty then [] else [("attributes", Attribute.listToJson attributes)]
    let childrenMember :=
      match children with
      | [] => []
      | child :: rest => [("children", Json.array (child.toJson :: Node.listToJson rest))]
    .object (("type", .string "Element") :: ("name", .string name) :: (attributesMember ++ childrenMember))

def Node.listToJson : List Node → List Json
  | [] => []
  | n :: ns => n.toJson :: Node.listToJson ns

end

namespace Node

/-- The type that a value names. Below another node, a type may also be given by its number. -/
def typeName? (nested : Bool) : Json → Option String
  | .string name => some name
  | .number n =>
    match n.natural? with
    | some 0 => if nested then some "Element" else none
    | some 1 => if nested then some "Text" else none
    | _ => none
  | _ => none

def taggedForm? (nested : Bool) : Json → Option (String × Json)
  | .object members =>
    match Json.valuesOf "type" members with
    | [type] => (typeName? nested type).map fun name => (name, .object members)
    | _ => none
  | .array (type :: items) => (typeName? nested type).map fun name => (name, .array items)
  | _ => none

def ofJson? (nested : Bool) : Nat → Json → Option Node
  | 0, _ => none
  | depth + 1, v => do
    match ← taggedForm? nested v with
    | ("Element", form) =>
      match ← form.fields? ["name", "attributes", "children"] with
      | [some name, attributes, children] =>
        return .element (← name.string?) (← Json.orDefault [] Attribute.listOfJson? attributes)
          (← Json.orDefault [] (fun v => do (← v.items?).mapM (ofJson? true depth)) children)
      | _ => none
    | ("Text", form) =>
      match ← form.fields? ["content"] with
      | [some content] => return .text (← content.string?)
      | _ => none
    | _ => none

def greatestDepth : Nat := 127

/-- Reads a node. The text may not nest deeper than `greatestDepth`, and everything in it has to be
representable, also where no node has a use for it. -/
def parseJson? (text : String) : Option Node := do
  let v ← Json.parse? text
  if v.depth ≤ greatestDepth && v.isRepresentable then ofJson? false greatestDepth v else none

end Node

namespace Event

def toJson : Event → Json
  | .startTag kind attributes =>
    .object [("event", .string "startTag"), ("name", .string kind.name),
      ("attributes", Attribute.listToJson attributes)]
  | .endTag kind => .object [("event", .string "endTag"), ("name", .string kind.name)]
  | .standaloneTag kind attributes =>
    .object [("event", .string "standaloneTag"), ("name", .string kind.name),
      ("attributes", Attribute.listToJson attributes)]
  | .text content => .object [("event", .string "text"), ("content", .string content)]

def listToJson (events : List Event) : Json :=
  .array (events.map toJson)

end Event

namespace CleaningOptions

def toJson (o : CleaningOptions) : Json :=
  .object [("dedupeInline", .bool o.dedupeInline), ("skipBlankText", .bool o.skipBlankText),
    ("normalizeLineBreaks", .bool o.normalizeLineBreaks)]

def ofJson? (v : Json) : Option CleaningOptions := do
  match ← v.fields? ["dedupeInline", "skipBlankText", "normalizeLineBreaks"] with
  | [dedupe, skipBlank, normalize] =>
    let defaults : CleaningOptions := {}
    return {
      dedupeInline := ← Json.orDefault defaults.dedupeInline Json.bool? dedupe
      skipBlankText := ← Json.orDefault defaults.skipBlankText Json.bool? skipBlank
      normalizeLineBreaks := ← Json.orDefault defaults.normalizeLineBreaks Json.bool? normalize }
  | _ => none

def parseJson? (text : String) : Option CleaningOptions := do
  ofJson? (← Json.parse? text)

end CleaningOptions

end NoteMarkup
