import NoteMarkup.Html.Rules.Table

/-!
This module contains the rules for lists of choices. They hold choices, groups of choices and text, and not
much else.
-/

namespace NoteMarkup.Html

namespace Builder

def popIf (b : Builder) (tag : String) : Builder :=
  if b.currentIs tag then b.pop else b

def endSelect (b : Builder) : Builder :=
  (b.popThrough ["select"]).resetPlace

def endChoiceGroup (b : Builder) : Builder :=
  match b.opened with
  | choice :: group :: _ =>
    (if choice.name.isTag "option" && group.name.isTag "optgroup" then b.pop else b).popIf "optgroup"
  | _ => b.popIf "optgroup"

def startInSelect (b : Builder) (tag : Tag) : Step :=
  if tag.name == "html" then (b.addToRoot tag).done
  else if tag.name == "option" then ((b.popIf "option").insertTag tag).done
  else if tag.name == "optgroup" then (((b.popIf "option").popIf "optgroup").insertTag tag).done
  else if tag.name == "hr" then (((b.popIf "option").popIf "optgroup").insertVoid tag).done
  else if tag.name == "select" then (if b.inSelectScope "select" then b.endSelect else b).done
  else if ["input", "keygen", "textarea"].contains tag.name then
    if b.inSelectScope "select" then (b.endSelect, .again) else b.done
  else if ["script", "template"].contains tag.name then (b.startInHead? tag).getD b.done
  else b.done

def endInSelect (b : Builder) (name : String) : Builder :=
  if name == "optgroup" then b.endChoiceGroup
  else if name == "option" then b.popIf "option"
  else if name == "select" then if b.inSelectScope "select" then b.endSelect else b
  else if name == "template" then b.endTemplate
  else b

def inSelect (b : Builder) : Token → Step
  | .text _ content => (b.insertText content).done
  | .comment => b.insertComment.done
  | .startTag tag => b.startInSelect tag
  | .endTag name => (b.endInSelect name).done
  | .finish => b.inBody .finish
  | _ => b.done

def selectEnders : List String :=
  ["caption", "table", "tbody", "tfoot", "thead", "tr", "td", "th"]

def inTableSelect (b : Builder) (t : Token) : Step :=
  match t with
  | .startTag tag => if selectEnders.contains tag.name then (b.endSelect, .again) else b.inSelect t
  | .endTag name =>
    if selectEnders.contains name then if b.inTableScope [name] then (b.endSelect, .again) else b.done
    else b.inSelect t
  | t => b.inSelect t

end Builder

end NoteMarkup.Html
