import NoteMarkup.Html.Rules.Body
import NoteMarkup.Html.Rules.Head

/-!
This module contains the rules for templates. The first tag in a template decides what the template is read as
a part of, and what it holds is never shown.
-/

namespace NoteMarkup.Html

namespace Builder

def turnTemplate (b : Builder) (place : Place) : Step :=
  Builder.againAt { b with templatePlaces := place :: b.templatePlaces.tail } place

def inTemplate (b : Builder) (t : Token) : Step :=
  match t with
  | .text _ _ => b.inBody t
  | .comment => b.inBody t
  | .startTag tag =>
    if lateHeadElements.contains tag.name then (b.startInHead? tag).getD b.done
    else if ["caption", "colgroup", "tbody", "tfoot", "thead"].contains tag.name then b.turnTemplate .inTable
    else if tag.name == "col" then b.turnTemplate .inColumns
    else if tag.name == "tr" then b.turnTemplate .inRowGroup
    else if cells.contains tag.name then b.turnTemplate .inRow
    else b.turnTemplate .inBody
  | .endTag name => (if name == "template" then b.endTemplate else b).done
  | .finish => b.finishTemplates
  | _ => b.done

end Builder

end NoteMarkup.Html
