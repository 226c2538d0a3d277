import NoteMarkup.Html.Builder

/-!
This module contains the rules for the beginning of a document: its declaration, its outermost element and its
head. What is left out there is supplied. The rules for a place also say what templates, wherever they are,
and raw text do.
-/

namespace NoteMarkup.Html

namespace Builder

/-- End tags that supply what is missing in front of them. -/
def suppliers : List String :=
  ["head", "body", "html", "br"]

def supplyRoot (b : Builder) : Step :=
  (b.insertRoot []).againAt .beforeHead

def supplyHead (b : Builder) : Step :=
  let id := b.page.nextId
  Builder.againAt { b.supply "head" with head := some id } .inHead

def endHead (b : Builder) : Step :=
  b.pop.againAt .afterHead

def supplyBody (b : Builder) : Step :=
  (b.supply "body").againAt .inBody

/-- In front of the declaration. Anything but blank text and comments shows that there is none, and the
document is an old one then. -/
def beforeDoctype (b : Builder) : Token → Step
  | .text true _ => b.done
  | .comment => (b.insertCommentAt (.lastIn Page.rootId)).done
  | _ => Builder.againAt { b with isOld := true } .beforeRoot

def beforeRoot (b : Builder) : Token → Step
  | .text true _ => b.done
  | .comment => (b.insertCommentAt (.lastIn Page.rootId)).done
  | .startTag tag =>
    if tag.name == "html" then ((b.insertRoot tag.attributes).goTo .beforeHead).done else b.supplyRoot
  | .endTag name => if suppliers.contains name then b.supplyRoot else b.done
  | _ => b.supplyRoot

def beforeHead (b : Builder) : Token → Step
  | .text true _ => b.done
  | .comment => b.insertComment.done
  | .startTag tag =>
    if tag.name == "html" then (b.addToRoot tag).done
    else if tag.name == "head" then
      let id := b.page.nextId
      (Builder.goTo { b.insertTag tag with head := some id } .inHead).done
    else b.supplyHead
  | .endTag name => if suppliers.contains name then b.supplyHead else b.done
  | _ => b.supplyHead

def enterTemplate (b : Builder) (tag : Tag) : Builder :=
  let b := b.addMarker
  Builder.insertTag
    { b with
      mayTakeFrames := false
      place := .inTemplate
      templatePlaces := .inTemplate :: b.templatePlaces } tag

def endTemplate (b : Builder) : Builder :=
  if b.hasOpen "template" then b.leaveTemplate else b

def literalHeadElements : List String :=
  ["noframes", "noscript", "style"]

def startInHead? (b : Builder) (tag : Tag) : Option Step :=
  if emptyHeadElements.contains tag.name then some (b.insertVoid tag).done
  else if tag.name == "title" then some (b.beginRaw tag .escapable)
  else if literalHeadElements.contains tag.name then some (b.beginRaw tag .literal)
  else if tag.name == "script" then some (b.beginRaw tag .script)
  else if tag.name == "template" then some (b.enterTemplate tag).done
  else none

def inHead (b : Builder) : Token → Step
  | .text true content => (b.insertText content).done
  | .comment => b.insertComment.done
  | .startTag tag =>
    if tag.name == "html" then (b.addToRoot tag).done
    else if tag.name == "head" then b.done
    else (b.startInHead? tag).getD b.endHead
  | .endTag name =>
    if name == "head" then (b.pop.goTo .afterHead).done
    else if name == "template" then b.endTemplate.done
    else if suppliers.contains name then b.endHead
    else b.done
  | _ => b.endHead

/-- Elements of the head that go there also behind it. -/
def lateHeadElements : List String :=
  emptyHeadElements ++ ["noframes", "script", "style", "template", "title"]

def lateInHead (b : Builder) (head : NodeId) (tag : Tag) : Step :=
  let opened := { b with opened := .of head (.html "head") :: b.opened }
  let (b, outcome) := (opened.startInHead? tag).getD b.done
  (b.forget head, outcome)

def afterHead (b : Builder) : Token → Step
  | .text true content => (b.insertText content).done
  | .comment => b.insertComment.done
  | .startTag tag =>
    if tag.name == "html" then (b.addToRoot tag).done
    else if tag.name == "head" then b.done
    else if tag.name == "body" then
      (Builder.goTo { b.insertTag tag with mayTakeFrames := false } .inBody).done
    else if tag.name == "frameset" then ((b.insertTag tag).goTo .inFrameset).done
    else
      match b.head with
      | some head => if lateHeadElements.contains tag.name then b.lateInHead head tag else b.supplyBody
      | none => b.supplyBody
  | .endTag name =>
    if name == "template" then b.endTemplate.done
    else if name == "head" then b.done
    else if suppliers.contains name then b.supplyBody
    else b.done
  | _ => b.supplyBody

def inRawText (b : Builder) : Token → Step
  | .text _ content => (b.insertText content).done
  | .endTag name => (b.pop.goTo b.returnPlace, if name == "script" then .script else .done)
  | .finish => b.pop.againAt b.returnPlace
  | _ => b.done

end Builder

end NoteMarkup.Html
