import NoteMarkup.Html.Foreign
import NoteMarkup.Html.Formatting
import NoteMarkup.Html.Rules.Head

/-!
This module contains the rules for the body of a document. What a tag does there depends on what sort of
element it is for.
-/

namespace NoteMarkup.Html

inductive BodyStart where
  | root
  | headPart
  | body
  | frameset
  | block
  | heading
  | preformatted
  | form
  | item
  | plaintext
  | button
  | link
  | format
  | unbroken
  | embedded
  | table
  | void
  | field
  | silentVoid
  | rule
  | image
  | textArea
  | example
  | frame
  | literal
  | select
  | option
  | rubyBase
  | rubyText
  | foreign (v : Vocabulary)
  | misplaced
  | ordinary
  deriving DecidableEq, Repr

def bodyStarts : List (BodyStart × List String) :=
  [(.format, ["b", "big", "code", "em", "font", "i", "s", "small", "strike", "strong", "tt", "u"]),
    (.block, ["address", "article", "aside", "blockquote", "center", "details", "dialog", "dir", "div", "dl",
      "fieldset", "figcaption", "figure", "footer", "header", "hgroup", "main", "menu", "nav", "ol", "p",
      "search", "section", "summary", "ul"]),
    (.item, ["li", "dd", "dt"]),
    (.link, ["a"]),
    (.void, ["area", "br", "embed", "img", "keygen", "wbr"]),
    (.heading, headings),
    (.table, ["table"]),
    (.misplaced, ["caption", "col", "colgroup", "frame", "head", "tbody", "td", "tfoot", "th", "thead",
      "tr"]),
    (.preformatted, ["pre", "listing"]),
    (.headPart, Builder.lateHeadElements),
    (.root, ["html"]),
    (.body, ["body"]),
    (.frameset, ["frameset"]),
    (.form, ["form"]),
    (.plaintext, ["plaintext"]),
    (.button, ["button"]),
    (.unbroken, ["nobr"]),
    (.embedded, ["applet", "marquee", "object"]),
    (.field, ["input"]),
    (.silentVoid, ["param", "source", "track"]),
    (.rule, ["hr"]),
    (.image, ["image"]),
    (.textArea, ["textarea"]),
    (.example, ["xmp"]),
    (.frame, ["iframe"]),
    (.literal, ["noembed", "noscript"]),
    (.select, ["select"]),
    (.option, ["optgroup", "option"]),
    (.rubyBase, ["rb", "rtc"]),
    (.rubyText, ["rp", "rt"]),
    (.foreign .math, ["math"]),
    (.foreign .svg, ["svg"])]

def BodyStart.of (name : String) : BodyStart :=
  ((bodyStarts.find? (·.2.contains name)).map (·.1)).getD .ordinary

inductive BodyEnd where
  | template
  | body
  | root
  | block
  | form
  | paragraph
  | item
  | heading
  | format
  | embedded
  | lineBreak
  | ordinary
  deriving DecidableEq, Repr

def bodyEnds : List (BodyEnd × List String) :=
  [(.paragraph, ["p"]),
    (.format, ["a", "b", "big", "code", "em", "font", "i", "nobr", "s", "small", "strike", "strong", "tt",
      "u"]),
    (.block, ["address", "article", "aside", "blockquote", "button", "center", "details", "dialog", "dir",
      "div", "dl", "fieldset", "figcaption", "figure", "footer", "header", "hgroup", "listing", "main",
      "menu", "nav", "ol", "pre", "search", "section", "summary", "ul"]),
    (.item, ["li", "dd", "dt"]),
    (.heading, headings),
    (.embedded, ["applet", "marquee", "object"]),
    (.lineBreak, ["br"]),
    (.form, ["form"]),
    (.template, ["template"]),
    (.body, ["body"]),
    (.root, ["html"])]

def BodyEnd.of (name : String) : BodyEnd :=
  ((bodyEnds.find? (·.2.contains name)).map (·.1)).getD .ordinary

def Tag.isHiddenField (tag : Tag) : Bool :=
  tag.attributes.any fun a => a.name == "type" && Text.sameLetters a.value "hidden"

namespace Builder

def keepBody (b : Builder) : Builder :=
  { b with mayTakeFrames := false }

def addToBody (b : Builder) (tag : Tag) : Builder :=
  match b.body? with
  | some body =>
    if b.hasOpen "template" then b
    else { b.keepBody with page := b.page.addMissing body tag.attributes }
  | none => b

def takeFrames (b : Builder) (tag : Tag) : Builder :=
  match b.body? with
  | some body =>
    if b.mayTakeFrames then
      (Builder.insertTag { b with page := b.page.detach body, opened := b.opened.drop (b.opened.length - 1) }
        tag).goTo .inFrameset
    else b
  | none => b

def closeItem (b : Builder) (name : String) : Builder :=
  let siblings := if name == "li" then ["li"] else ["dd", "dt"]
  let hides := fun e : OpenElement => e.isStructural && !e.name.isAmong ["address", "div", "p"]
  match b.opened.find? fun e => e.name.isAmong siblings || hides e with
  | some e => if e.name.isAmong siblings then b.closeTag e.name.tag else b
  | none => b

def startForm (b : Builder) (tag : Tag) : Builder :=
  let inTemplate := b.hasOpen "template"
  if b.form.isSome && !inTemplate then b
  else
    let b := b.closeParagraph
    let id := b.page.nextId
    let b := b.insertTag tag
    if inTemplate then b else { b with form := some id }

def startInBody (b : Builder) (tag : Tag) : Step :=
  match BodyStart.of tag.name with
  | .root => (b.addToRoot tag).done
  | .headPart => (b.startInHead? tag).getD b.done
  | .body => (b.addToBody tag).done
  | .frameset => (b.takeFrames tag).done
  | .block => (b.closeParagraph.insertTag tag).done
  | .heading =>
    let b := b.closeParagraph
    let b := if b.currentIsAmong headings then b.pop else b
    (b.insertTag tag).done
  | .preformatted => Builder.done { (b.closeParagraph.insertTag tag).keepBody with dropsLineFeed := true }
  | .form => (b.startForm tag).done
  | .item => ((b.keepBody.closeItem tag.name).closeParagraph.insertTag tag).done
  | .plaintext => (b.closeParagraph.insertTag tag, .plain)
  | .button =>
    let b := if b.inScope "button" then (b.popImplied "").popThrough ["button"] else b
    (b.reopenFormats.insertTag tag).keepBody.done
  | .link => (b.endLink.reopenFormats.insertFormat tag).done
  | .format => (b.reopenFormats.insertFormat tag).done
  | .unbroken =>
    let b := b.reopenFormats
    let b := if b.inScope "nobr" then (b.endFormat "nobr").reopenFormats else b
    (b.insertFormat tag).done
  | .embedded => ((b.reopenFormats.insertTag tag).addMarker).keepBody.done
  | .table =>
    let b := if b.isOld then b else b.closeParagraph
    ((b.insertTag tag).keepBody.goTo .inTable).done
  | .void => (b.reopenFormats.insertVoid tag).keepBody.done
  | .field =>
    let b := b.reopenFormats.insertVoid tag
    (if tag.isHiddenField then b else b.keepBody).done
  | .silentVoid => (b.insertVoid tag).done
  | .rule => (b.closeParagraph.insertVoid tag).keepBody.done
  | .image => (b.reopenFormats.insertVoid { tag with name := "img" }).keepBody.done
  | .textArea => Builder.beginRaw { b.keepBody with dropsLineFeed := true } tag .escapable
  | .example => b.closeParagraph.reopenFormats.keepBody.beginRaw tag .literal
  | .frame => b.keepBody.beginRaw tag .literal
  | .literal => b.beginRaw tag .literal
  | .select =>
    let inTable := [Place.inTable, .inCaption, .inRowGroup, .inRow, .inCell].contains b.place
    ((b.reopenFormats.insertTag tag).keepBody.goTo (if inTable then .inTableSelect else .inSelect)).done
  | .option =>
    let b := if b.currentIs "option" then b.pop else b
    (b.reopenFormats.insertTag tag).done
  | .rubyBase =>
    let b := if b.inScope "ruby" then b.popImplied "" else b
    (b.insertTag tag).done
  | .rubyText =>
    let b := if b.inScope "ruby" then b.popImplied "rtc" else b
    (b.insertTag tag).done
  | .foreign v => (b.insertForeign v tag.name tag).done
  | .misplaced => b.done
  | .ordinary => (b.reopenFormats.insertTag tag).done

/-- The end tag of a form. It closes the form that fields belong to, also where that is not the innermost
element. -/
def endForm (b : Builder) : Builder :=
  if b.hasOpen "template" then
    if b.inScope "form" then (b.popImplied "").popThrough ["form"] else b
  else
    match b.form with
    | none => b
    | some id =>
      let b := { b with form := none }
      if isReached (·.id == id) (·.isBoundary) b.opened then (b.popImplied "").forget id else b

def endInBody (b : Builder) (name : String) : Step :=
  match BodyEnd.of name with
  | .template => b.endTemplate.done
  | .body => (if b.inScope "body" then b.goTo .afterBody else b).done
  | .root => if b.inScope "body" then b.againAt .afterBody else b.done
  | .block => (if b.inScope name then (b.popImplied "").popThrough [name] else b).done
  | .form => b.endForm.done
  | .paragraph =>
    let b := if b.inButtonScope "p" then b else b.supply "p"
    (b.closeTag "p").done
  | .item =>
    let reached := if name == "li" then b.inItemScope name else b.inScope name
    (if reached then b.closeTag name else b).done
  | .heading =>
    let reached := isReached (·.name.isAmong headings) (·.isBoundary) b.opened
    (if reached then (b.popImplied "").popThrough headings else b).done
  | .format => (b.endFormat name).done
  | .embedded => (if b.inScope name then ((b.popImplied "").popThrough [name]).clearFormats else b).done
  | .lineBreak => (b.reopenFormats.insertVoid { name := "br" }).keepBody.done
  | .ordinary => (b.endOrdinary name).done

def finishTemplates (b : Builder) : Step :=
  if b.hasOpen "template" then (b.leaveTemplate, .again) else b.done

def inBody (b : Builder) : Token → Step
  | .startTag tag => b.startInBody tag
  | .endTag name => b.endInBody name
  | .text isBlank content =>
    let b := b.reopenFormats
    ((if isBlank then b else b.keepBody).insertText content).done
  | .comment => b.insertComment.done
  | .finish => if b.templatePlaces.isEmpty then b.done else b.finishTemplates
  | _ => b.done

def inBodyBefore (b : Builder) (t : Token) : Step :=
  let (b, outcome) := Builder.inBody { b with fosters := true } t
  ({ b with fosters := false }, outcome)

def afterBody (b : Builder) : Token → Step
  | .text true content => b.inBody (.text true content)
  | .comment =>
    match b.opened.getLast? with
    | some root => (b.insertCommentAt (.lastIn root.id)).done
    | none => b.done
  | .startTag tag => if tag.name == "html" then (b.addToRoot tag).done else b.againAt .inBody
  | .endTag name => if name == "html" then (b.goTo .afterDocument).done else b.againAt .inBody
  | .finish => b.done
  | _ => b.againAt .inBody

def afterDocument (b : Builder) : Token → Step
  | .text true content => b.inBody (.text true content)
  | .comment => (b.insertCommentAt (.lastIn Page.rootId)).done
  | .startTag tag => if tag.name == "html" then (b.addToRoot tag).done else b.againAt .inBody
  | .finish => b.done
  | _ => b.againAt .inBody

end Builder

end NoteMarkup.Html
