import NoteMarkup.Html.Builder

/-!
This module contains inline formats that cross the borders of other elements. A format that is still on when
the element around it ends is opened again behind it, and a format whose end tag stands inside a block that
began after it is divided: one part ends in front of the block, and one stands inside it.
-/

namespace NoteMarkup.Html

namespace Format

def hasId (id : NodeId) : Format → Bool
  | .marker => false
  | .element i _ => i == id

def tag? : Format → Option Tag
  | .marker => none
  | .element _ tag => some tag

def tagOf? (formats : List Format) (id : NodeId) : Option Tag :=
  (formats.find? (·.hasId id)).bind (·.tag?)

def replace (formats : List Format) (id : NodeId) (f : Format) : List Format :=
  formats.map fun g => if g.hasId id then f else g

def remove (formats : List Format) (id : NodeId) : List Format :=
  formats.filter fun f => !f.hasId id

def insertBehind (formats : List Format) (id : NodeId) (f : Format) : List Format :=
  formats.flatMap fun g => if g.hasId id then [f, g] else [g]

def behindMarker (formats : List Format) : List Format :=
  formats.takeWhile (· != .marker)

end Format

def Tag.isLike (s t : Tag) : Bool :=
  s.name == t.name && s.attributes.length == t.attributes.length && s.attributes.all t.attributes.contains

namespace Builder

/-- Whether a format needs no opening: a marker, or a format whose element is open. -/
def isOn (b : Builder) : Format → Bool
  | .marker => true
  | .element id _ => b.opened.any (·.id == id)

def reopen (b : Builder) : Format → Builder
  | .marker => b
  | .element _ tag =>
    let id := b.page.nextId
    let b := b.insertTag tag
    { b with formats := .element id tag :: b.formats }

def reopenFormats (b : Builder) : Builder :=
  match b.formats with
  | [] => b
  | last :: _ =>
    if b.isOn last then b
    else
      let closed := b.formats.takeWhile (!b.isOn ·)
      let kept := b.formats.dropWhile (!b.isOn ·)
      closed.reverse.foldl reopen { b with formats := kept }

def greatestRepetition : Nat := 3

/-- Opens an element that puts a format on. The first of its equals goes off if there are too many. -/
def insertFormat (b : Builder) (tag : Tag) : Builder :=
  let alike := (Format.behindMarker b.formats).filter fun f => f.tag?.any tag.isLike
  let formats :=
    match alike.drop (greatestRepetition - 1), alike.getLast? with
    | _ :: _, some (.element first _) => Format.remove b.formats first
    | _, _ => b.formats
  let id := b.page.nextId
  let b := { b with formats }.insertTag tag
  { b with formats := .element id tag :: b.formats }

/-- A way from a block out to the format around it that is being divided. -/
structure Division where
  builder : Builder
  moved : NodeId
  copies : List OpenElement := []
  innermost : Option NodeId := none
  passed : Nat := 0

def greatestWay : Nat := 3

/-- Passes an element on the way. It is copied if it is a format, and left out otherwise. Beyond a certain
number of them, formats are left out and go off. -/
def Division.pass (d : Division) (e : OpenElement) : Division :=
  let d := { d with passed := d.passed + 1 }
  let b := d.builder
  if greatestWay < d.passed then { d with builder := { b with formats := Format.remove b.formats e.id } }
  else
    match Format.tagOf? b.formats e.id with
    | none => d
    | some tag =>
      let id := b.page.nextId
      let name := ElementName.html tag.name
      let page := ((b.page.addElement name tag.attributes).detach d.moved).append id d.moved
      { d with
        builder := { b with page, formats := Format.replace b.formats e.id (.element id tag) }
        moved := id
        copies := d.copies ++ [.of id name]
        innermost := d.innermost.or (some id) }

/-- Divides a format at a block inside it. The open elements are, the innermost first, those in the block, the
block, those on the way to the element of the format, that one, and those around it. -/
def divide (b : Builder) (format : NodeId) (tag : Tag) (inner : List OpenElement) (block : OpenElement)
    (way : List OpenElement) (element : OpenElement) (outer : List OpenElement) : Builder :=
  let d := way.foldl Division.pass { builder := b, moved := block.id }
  let opened := inner ++ block :: (d.copies ++ element :: outer)
  let b := { d.builder with opened }
  let b := { b with page := b.page.detach d.moved }
  let spot := ((outer.head?).map b.spotIn).getD (.lastIn Page.rootId)
  let b := { b with page := b.page.insert spot d.moved }
  let id := b.page.nextId
  let page := b.page.addElement (.html tag.name) tag.attributes
  let page := (page.moveChildren block.id id).append block.id id
  let formats :=
    match d.innermost with
    | none => Format.replace b.formats format (.element id tag)
    | some copy => Format.remove (Format.insertBehind b.formats copy (.element id tag)) format
  { b with
    page, formats
    opened := inner ++ .of id (.html tag.name) :: block :: (d.copies ++ outer) }

/-- Ends the innermost element of that name with everything in it, unless an element with a structure of its
own is in between. -/
def endOrdinary (b : Builder) (name : String) : Builder :=
  if isReached (·.name.isTag name) (·.isStructural) b.opened then b.popThrough [name] else b

inductive FormatEnd where
  | finished (b : Builder)
  | divided (b : Builder)

def endFormatOnce (b : Builder) (name : String) : FormatEnd :=
  match (Format.behindMarker b.formats).find? fun f => f.tag?.any (·.name == name) with
  | some (.element id tag) =>
    let inside := b.opened.takeWhile (·.id != id)
    match b.opened.dropWhile (·.id != id) with
    | [] => .finished { b with formats := Format.remove b.formats id }
    | element :: outer =>
      if inside.any (·.isBoundary) then .finished b
      else
        match inside.reverse.dropWhile (!·.isStructural) with
        | [] => .finished { b with opened := outer, formats := Format.remove b.formats id }
        | block :: inner =>
          let way := (inside.reverse.takeWhile (!·.isStructural)).reverse
          .divided (b.divide id tag inner.reverse block way element outer)
  | _ => .finished (b.endOrdinary name)

def endFormatUpTo : Nat → Builder → String → Builder
  | 0, b, _ => b
  | n + 1, b, name =>
    match b.endFormatOnce name with
    | .finished b => b
    | .divided b => endFormatUpTo n b name

def greatestDivision : Nat := 8

def endFormat (b : Builder) (name : String) : Builder :=
  match b.opened with
  | e :: _ =>
    if e.name.isTag name && (Format.tagOf? b.formats e.id).isNone then b.pop
    else endFormatUpTo greatestDivision b name
  | [] => b

def endLink (b : Builder) : Builder :=
  match (Format.behindMarker b.formats).find? fun f => f.tag?.any (·.name == "a") with
  | some (.element id _) =>
    let b := (b.endFormat "a").forget id
    { b with formats := Format.remove b.formats id }
  | _ => b

end Builder

end NoteMarkup.Html
