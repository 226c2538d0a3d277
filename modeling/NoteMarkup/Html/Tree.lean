import NoteMarkup.Html.Cut
import NoteMarkup.Html.Rules.Frameset
import NoteMarkup.Html.Rules.Select
import NoteMarkup.Html.Rules.Template

/-!
This module contains the tree of an HTML text. Parts that HTML lets an author leave out, such as the `body`
of a document, the rows' group of a table and the ends of paragraphs and list items, are supplied, and tags
that have no place are left out.
-/

namespace NoteMarkup.Html

namespace Builder

def atPlace (b : Builder) (t : Token) : Step :=
  match b.place with
  | .beforeDoctype => b.beforeDoctype t
  | .beforeRoot => b.beforeRoot t
  | .beforeHead => b.beforeHead t
  | .inHead => b.inHead t
  | .afterHead => b.afterHead t
  | .inBody => b.inBody t
  | .inRawText => b.inRawText t
  | .inTable => b.inTable t
  | .inTableText => b.inTableText t
  | .inCaption => b.inCaption t
  | .inColumns => b.inColumns t
  | .inRowGroup => b.inRowGroup t
  | .inRow => b.inRow t
  | .inCell => b.inCell t
  | .inSelect => b.inSelect t
  | .inTableSelect => b.inTableSelect t
  | .inTemplate => b.inTemplate t
  | .afterBody => b.afterBody t
  | .afterDocument => b.afterDocument t
  | .inFrameset => b.inFrameset t
  | .afterFrameset => b.afterFrameset t
  | .afterFramesetDocument => b.afterFramesetDocument t

def inForeign (b : Builder) (t : Token) : Step :=
  match t with
  | .null => (b.insertText (String.singleton replacementChar)).done
  | .text isBlank content => ((if isBlank then b else b.keepBody).insertText content).done
  | .comment => b.insertComment.done
  | .startTag tag =>
    if tag.endsForeign then b.leaveForeign.atPlace t
    else
      let v := (b.opened.head?.map (·.name.vocabulary)).getD .html
      (b.insertForeign v (spelledTag v tag.name) tag).done
  | .endTag name =>
    if name == "br" || name == "p" then b.leaveForeign.atPlace t
    else
      match foreignEnd name true b.opened with
      | .nothing => b.done
      | .through opened => Builder.done { b with opened }
      | .html => b.atPlace t
  | t => b.atPlace t

def step (b : Builder) (t : Token) : Step :=
  if b.readsAsForeign t then b.inForeign t else b.atPlace t

/-- Takes up a token until it is dealt with. Each time it is taken up again an element has been closed, or a
place has been reached that is nearer to its own; `fuel` bounds how often that is. -/
def settle : Nat → Builder → Token → Step
  | 0, b, _ => b.done
  | fuel + 1, b, t =>
    match b.step t with
    | (b, .again) => settle fuel b t
    | result => result

def dropLineFeed (content : String) : String :=
  match content.toList with
  | '\n' :: rest => String.ofList rest
  | _ => content

def take (fuel : Nat) (b : Builder) (t : Token) : Step :=
  let drops := b.dropsLineFeed
  let b := { b with dropsLineFeed := false }
  match t with
  | .mistake => b.done
  | .doctype d =>
    if b.place = .beforeDoctype then (Builder.goTo { b with isOld := d.isOld } .beforeRoot).done else b.done
  | .text isBlank content =>
    let content := if drops then dropLineFeed content else content
    if content.isEmpty then b.done else settle fuel b (.text isBlank content)
  | t => settle fuel b t

end Builder

structure Reader where
  builder : Builder := {}
  reading : Reading := .markup
  rest : List Char

namespace Reader

def readingBehind (t : Token) (outcome : Outcome) (reading : Reading) : Reading :=
  match t, outcome with
  | .startTag tag, .raw kind => .raw kind tag.name
  | .startTag _, .plain => .plain
  | .endTag _, _ => .markup
  | _, _ => reading

/-- Takes a token. A byte order mark right behind a script is not part of the text. -/
def take (fuel : Nat) (r : Reader) (t : Token) : Reader :=
  let (builder, outcome) := r.builder.take fuel t
  { builder
    reading := readingBehind t outcome r.reading
    rest := if outcome = .script then dropByteOrderMark r.rest else r.rest }

def readAll (fuel : Nat) : Nat → Reader → Reader
  | 0, r => r
  | steps + 1, r =>
    if r.rest.isEmpty then r.take fuel .finish
    else
      let (tokens, rest) := cut fuel r.reading r.builder.isInForeign r.rest
      readAll fuel steps (tokens.foldl (Reader.take fuel) { r with rest })

end Reader

/-- The page of an HTML text. Four times its length is more than there are elements to open and close. -/
def readPage (html : String) : Page :=
  let cs := normalizeNewlines html.toList
  let fuel := 4 * cs.length + 64
  (Reader.readAll fuel fuel { rest := dropByteOrderMark cs }).builder.page

/-- Reads an HTML text. The result is a fragment of what is in the body; a document that has frames in
place of a body is kept whole. -/
def parse (html : String) : Node :=
  .fragment (readPage html).shown

end NoteMarkup.Html
