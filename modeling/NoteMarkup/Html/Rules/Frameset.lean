import NoteMarkup.Html.Rules.Body

/-!
This module contains the rules for documents that have frames in place of a body.
-/

namespace NoteMarkup.Html

namespace Builder

def inFrameset (b : Builder) : Token → Step
  | .text true content => (b.insertText content).done
  | .comment => b.insertComment.done
  | .startTag tag =>
    if tag.name == "html" then (b.addToRoot tag).done
    else if tag.name == "frameset" then (b.insertTag tag).done
    else if tag.name == "frame" then (b.insertVoid tag).done
    else if tag.name == "noframes" then b.beginRaw tag .literal
    else b.done
  | .endTag name =>
    if name == "frameset" && 1 < b.opened.length then
      let b := b.pop
      (if b.currentIs "frameset" then b else b.goTo .afterFrameset).done
    else b.done
  | _ => b.done

def afterFrameset (b : Builder) : Token → Step
  | .text true content => (b.insertText content).done
  | .comment => b.insertComment.done
  | .startTag tag =>
    if tag.name == "html" then (b.addToRoot tag).done
    else if tag.name == "noframes" then b.beginRaw tag .literal
    else b.done
  | .endTag name => (if name == "html" then b.goTo .afterFramesetDocument else b).done
  | _ => b.done

def afterFramesetDocument (b : Builder) : Token → Step
  | .text true content => b.inBody (.text true content)
  | .comment => (b.insertCommentAt (.lastIn Page.rootId)).done
  | .startTag tag =>
    if tag.name == "html" then (b.addToRoot tag).done
    else if tag.name == "noframes" then b.beginRaw tag .literal
    else b.done
  | _ => b.done

end Builder

end NoteMarkup.Html
