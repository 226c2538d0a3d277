import NoteMarkup.Html.Page
import NoteMarkup.Html.Token

/-!
This module contains the state in which the tree of an HTML text is built: the part of the document that is
being read and the elements whose end has not come yet. The operations on it open and close elements and put
nodes where they belong.
-/

namespace NoteMarkup.Html

inductive Place where
  | beforeDoctype
  | beforeRoot
  | beforeHead
  | inHead
  | afterHead
  | inBody
  | inRawText
  | inTable
  | inTableText
  | inCaption
  | inColumns
  | inRowGroup
  | inRow
  | inCell
  | inSelect
  | inTableSelect
  | inTemplate
  | afterBody
  | afterDocument
  | inFrameset
  | afterFrameset
  | afterFramesetDocument
  deriving DecidableEq, Repr

structure OpenElement where
  id : NodeId
  name : ElementName
  isBoundary : Bool
  isStructural : Bool
  deriving DecidableEq, Repr

def OpenElement.of (id : NodeId) (name : ElementName) : OpenElement :=
  ⟨id, name, name.isBoundary, name.isStructural⟩

inductive Format where
  /-- Formats in front of it are off for what is behind it. -/
  | marker
  | element (id : NodeId) (tag : Tag)
  deriving DecidableEq, Repr

structure Builder where
  page : Page := {}
  place : Place := .beforeDoctype
  returnPlace : Place := .beforeDoctype
  templatePlaces : List Place := []
  /-- Text in a table that is not put anywhere yet, the last first; blank text is marked. -/
  tableText : List (Bool × String) := []
  /-- Whether the document is read by the rules for old ones, in which a table does not end a paragraph. -/
  isOld : Bool := false
  opened : List OpenElement := []
  /-- The formats that are on, the last first. -/
  formats : List Format := []
  head : Option NodeId := none
  form : Option NodeId := none
  mayTakeFrames : Bool := true
  /-- Whether a line feed right here is no part of the text. -/
  dropsLineFeed : Bool := false
  /-- Whether what has no place in a table goes in front of it. -/
  fosters : Bool := false

inductive Outcome where
  | done
  | again
  | raw (kind : RawKind)
  | plain
  | script
  deriving DecidableEq, Repr

abbrev Step := Builder × Outcome

namespace Builder

def done (b : Builder) : Step :=
  (b, .done)

def goTo (b : Builder) (place : Place) : Builder :=
  { b with place }

def againAt (b : Builder) (place : Place) : Step :=
  (b.goTo place, .again)

def currentIs (b : Builder) (tag : String) : Bool :=
  b.opened.head?.any (·.name.isTag tag)

def currentIsAmong (b : Builder) (tags : List String) : Bool :=
  b.opened.head?.any (·.name.isAmong tags)

def hasOpen (b : Builder) (tag : String) : Bool :=
  b.opened.any (·.name.isTag tag)

/-- Whether an open element satisfies `p` and is not hidden by an element inside it that satisfies `hides`. -/
def isReached (p hides : OpenElement → Bool) : List OpenElement → Bool
  | [] => false
  | e :: rest => p e || (!hides e && isReached p hides rest)

def inScope (b : Builder) (tag : String) : Bool :=
  isReached (·.name.isTag tag) (·.isBoundary) b.opened

def inItemScope (b : Builder) (tag : String) : Bool :=
  isReached (·.name.isTag tag) (fun e => e.isBoundary || e.name.isAmong ["ol", "ul"]) b.opened

def inButtonScope (b : Builder) (tag : String) : Bool :=
  isReached (·.name.isTag tag) (fun e => e.isBoundary || e.name.isTag "button") b.opened

def inTableScope (b : Builder) (tags : List String) : Bool :=
  isReached (·.name.isAmong tags) (·.name.isAmong tableBoundaries) b.opened

def inSelectScope (b : Builder) (tag : String) : Bool :=
  isReached (·.name.isTag tag) (fun e => !e.name.isAmong ["optgroup", "option"]) b.opened

def pop (b : Builder) : Builder :=
  { b with opened := b.opened.tail }

def popWhile (b : Builder) (p : OpenElement → Bool) : Builder :=
  { b with opened := b.opened.dropWhile p }

def popThrough (b : Builder) (tags : List String) : Builder :=
  (b.popWhile fun e => !e.name.isAmong tags).pop

def popInside (b : Builder) (tags : List String) : Builder :=
  b.popWhile fun e => !e.name.isAmong tags

def popImplied (b : Builder) (except : String) : Builder :=
  b.popWhile fun e => e.name.isAmong impliedEnds && !e.name.isTag except

def forget (b : Builder) (id : NodeId) : Builder :=
  { b with opened := b.opened.filter (·.id != id) }

def closeTag (b : Builder) (tag : String) : Builder :=
  (b.popImplied tag).popThrough [tag]

def closeParagraph (b : Builder) : Builder :=
  if b.inButtonScope "p" then b.closeTag "p" else b

def clearFormats (b : Builder) : Builder :=
  { b with formats := (b.formats.dropWhile (· != .marker)).tail }

def addMarker (b : Builder) : Builder :=
  { b with formats := .marker :: b.formats }

/-- The place in front of the innermost table; inside a template, or without a table, the end of what is
around. -/
def fosterSpot (p : Page) : List OpenElement → Spot
  | [] => .lastIn Page.rootId
  | e :: around =>
    if e.name.isTag "template" then .lastIn (p.holder e.id)
    else if e.name.isTag "table" then
      if (p.parent? e.id).isSome then .before e.id else .lastIn ((around.head?.map (·.id)).getD Page.rootId)
    else if around.isEmpty then .lastIn e.id
    else fosterSpot p around

def spotIn (b : Builder) (e : OpenElement) : Spot :=
  if b.fosters && e.name.isAmong tableFrames then fosterSpot b.page b.opened else .lastIn (b.page.holder e.id)

def spot (b : Builder) : Spot :=
  (b.opened.head?.map b.spotIn).getD (.lastIn Page.rootId)

def insertText (b : Builder) (content : String) : Builder :=
  let spot := b.spot
  { b with page := b.page.insertText spot content }

/-- Puts a comment into a node. It shows by keeping the texts at its two sides apart. -/
def insertCommentAt (b : Builder) (spot : Spot) : Builder :=
  let id := b.page.nextId
  { b with page := (b.page.add .comment).insert spot id }

def insertComment (b : Builder) : Builder :=
  b.insertCommentAt b.spot

def insertEmpty (b : Builder) (name : ElementName) (attributes : List Attribute) : Builder :=
  let spot := b.spot
  let id := b.page.nextId
  { b with page := (b.page.addElement name attributes).insert spot id }

def insertElement (b : Builder) (name : ElementName) (attributes : List Attribute) : Builder :=
  let e := OpenElement.of b.page.nextId name
  let b := b.insertEmpty name attributes
  { b with opened := e :: b.opened }

def insertTag (b : Builder) (tag : Tag) : Builder :=
  b.insertElement (.html tag.name) tag.attributes

def insertVoid (b : Builder) (tag : Tag) : Builder :=
  b.insertEmpty (.html tag.name) tag.attributes

def supply (b : Builder) (tag : String) : Builder :=
  b.insertElement (.html tag) []

def insertRoot (b : Builder) (attributes : List Attribute) : Builder :=
  let id := b.page.nextId
  { b with
    page := (b.page.addElement (.html "html") attributes).insert (.lastIn Page.rootId) id
    opened := [.of id (.html "html")] }

def beginRaw (b : Builder) (tag : Tag) (kind : RawKind) : Step :=
  let b := b.insertTag tag
  ({ b with returnPlace := b.place, place := .inRawText }, .raw kind)

def body? (b : Builder) : Option NodeId :=
  match b.opened.reverse with
  | _ :: e :: _ => if e.name.isTag "body" then some e.id else none
  | _ => none

def addToRoot (b : Builder) (tag : Tag) : Builder :=
  match b.opened.getLast? with
  | some root =>
    if b.hasOpen "template" then b else { b with page := b.page.addMissing root.id tag.attributes }
  | none => b

def selectPlace : List OpenElement → Place
  | [] => .inSelect
  | e :: around =>
    if e.name.isTag "template" then .inSelect
    else if e.name.isTag "table" then .inTableSelect
    else selectPlace around

def placeInside? (b : Builder) (tag : String) (around : List OpenElement) : Option Place :=
  match tag with
  | "select" => some (selectPlace around)
  | "td" => some .inCell
  | "th" => some .inCell
  | "tr" => some .inRow
  | "tbody" => some .inRowGroup
  | "thead" => some .inRowGroup
  | "tfoot" => some .inRowGroup
  | "caption" => some .inCaption
  | "colgroup" => some .inColumns
  | "table" => some .inTable
  | "template" => b.templatePlaces.head?
  | "head" => some .inHead
  | "body" => some .inBody
  | "frameset" => some .inFrameset
  | "html" => some (if b.head.isNone then .beforeHead else .afterHead)
  | _ => none

def placeWithin (b : Builder) : List OpenElement → Place
  | [] => .inBody
  | e :: around =>
    match if e.name.isForeign then none else b.placeInside? e.name.tag around with
    | some place => place
    | none => placeWithin b around

def resetPlace (b : Builder) : Builder :=
  b.goTo (b.placeWithin b.opened)

def leaveTemplate (b : Builder) : Builder :=
  let b := (b.popThrough ["template"]).clearFormats
  resetPlace { b with templatePlaces := b.templatePlaces.tail }

end Builder

end NoteMarkup.Html
