import NoteMarkup.Html.Rules.Body

/-!
This module contains the rules for tables. The groups and rows that cells stand in are supplied, tags of other
parts of a table end those that they cannot stand in, and what has no place in a table goes in front of it.
-/

namespace NoteMarkup.Html

namespace Builder

def groupContext : List String :=
  rowGroups ++ ["template", "html"]

def rowContext : List String :=
  ["tr", "template", "html"]

def tableSections : List String :=
  ["caption", "col", "colgroup", "tbody", "tfoot", "thead"]

def tableParts : List String :=
  tableSections ++ cells ++ ["tr"]

def startInTablePart (b : Builder) (tag : Tag) (place : Place) : Step :=
  (((b.popInside tableBoundaries).insertTag tag).goTo place).done

def supplyInTable (b : Builder) (context : List String) (tag : String) (place : Place) : Step :=
  ((b.popInside context).supply tag).againAt place

def endTable (b : Builder) : Builder :=
  if b.inTableScope ["table"] then (b.popThrough ["table"]).resetPlace else b

def startTableText (b : Builder) (t : Token) : Step :=
  if b.currentIsAmong tableFrames then Builder.againAt { b with returnPlace := b.place } .inTableText
  else b.inBodyBefore t

def startInTable (b : Builder) (tag : Tag) : Step :=
  if tag.name == "caption" then b.popInside tableBoundaries |>.addMarker |>.startInTablePart tag .inCaption
  else if tag.name == "colgroup" then b.startInTablePart tag .inColumns
  else if tag.name == "col" then b.supplyInTable tableBoundaries "colgroup" .inColumns
  else if rowGroups.contains tag.name then b.startInTablePart tag .inRowGroup
  else if tag.name == "tr" || cells.contains tag.name then
    b.supplyInTable tableBoundaries "tbody" .inRowGroup
  else if tag.name == "table" then
    if b.inTableScope ["table"] then (b.endTable, .again) else b.done
  else if ["style", "script", "template"].contains tag.name then (b.startInHead? tag).getD b.done
  else if tag.name == "input" && tag.isHiddenField then (b.insertVoid tag).done
  else if tag.name == "form" then
    if b.hasOpen "template" || b.form.isSome then b.done
    else
      let id := b.page.nextId
      Builder.done { b.insertVoid tag with form := some id }
  else b.inBodyBefore (.startTag tag)

def endInTable (b : Builder) (name : String) : Step :=
  if name == "table" then b.endTable.done
  else if name == "body" || name == "html" || tableParts.contains name then b.done
  else if name == "template" then b.endTemplate.done
  else b.inBodyBefore (.endTag name)

def inTable (b : Builder) : Token → Step
  | .startTag tag => b.startInTable tag
  | .endTag name => b.endInTable name
  | .text isBlank content => b.startTableText (.text isBlank content)
  | .null => b.startTableText .null
  | .comment => b.insertComment.done
  | .finish => b.inBody .finish
  | t => b.inBodyBefore t

/-- Puts the text that has been collected where it belongs: into the table if it is all blank, and in front of
it otherwise. -/
def endTableText (b : Builder) : Builder :=
  let collected := b.tableText.reverse
  let b := { b with tableText := [] }
  if collected.all (·.1) then collected.foldl (fun b text => b.insertText text.2) b
  else collected.foldl (fun b text => (b.inBodyBefore (.text text.1 text.2)).1) b

def inTableText (b : Builder) : Token → Step
  | .text isBlank content => Builder.done { b with tableText := (isBlank, content) :: b.tableText }
  | .null => b.done
  | _ => b.endTableText.againAt b.returnPlace

def endCaption (b : Builder) : Builder :=
  (((b.popImplied "").popThrough ["caption"]).clearFormats).goTo .inTable

def inCaption (b : Builder) (t : Token) : Step :=
  match t with
  | .startTag tag =>
    if tableParts.contains tag.name then
      if b.inTableScope ["caption"] then (b.endCaption, .again) else b.done
    else b.inBody t
  | .endTag name =>
    if name == "caption" then (if b.inTableScope ["caption"] then b.endCaption else b).done
    else if name == "table" then if b.inTableScope ["caption"] then (b.endCaption, .again) else b.done
    else if name == "body" || name == "html" || tableParts.contains name then b.done
    else b.inBody t
  | t => b.inBody t

def endColumns (b : Builder) : Step :=
  if b.currentIs "colgroup" then b.pop.againAt .inTable else b.done

def inColumns (b : Builder) : Token → Step
  | .text true content => (b.insertText content).done
  | .comment => b.insertComment.done
  | .startTag tag =>
    if tag.name == "html" then (b.addToRoot tag).done
    else if tag.name == "col" then (b.insertVoid tag).done
    else if tag.name == "template" then (b.enterTemplate tag).done
    else b.endColumns
  | .endTag name =>
    if name == "colgroup" then (if b.currentIs "colgroup" then b.pop.goTo .inTable else b).done
    else if name == "col" then b.done
    else if name == "template" then b.endTemplate.done
    else b.endColumns
  | .finish => b.inBody .finish
  | _ => b.endColumns

def endGroup (b : Builder) : Builder :=
  ((b.popInside groupContext).pop).goTo .inTable

def endGroupFor (b : Builder) : Step :=
  if b.inTableScope ["table", "tbody", "tfoot"] then (b.endGroup, .again) else b.done

def inRowGroup (b : Builder) (t : Token) : Step :=
  match t with
  | .startTag tag =>
    if tag.name == "tr" then (((b.popInside groupContext).insertTag tag).goTo .inRow).done
    else if cells.contains tag.name then b.supplyInTable groupContext "tr" .inRow
    else if tableSections.contains tag.name then b.endGroupFor
    else b.inTable t
  | .endTag name =>
    if rowGroups.contains name then (if b.inTableScope [name] then b.endGroup else b).done
    else if name == "table" then b.endGroupFor
    else if ["body", "caption", "col", "colgroup", "html", "td", "th", "tr"].contains name then b.done
    else b.inTable t
  | t => b.inTable t

def endRow (b : Builder) : Builder :=
  ((b.popInside rowContext).pop).goTo .inRowGroup

def endRowFor (b : Builder) : Step :=
  if b.inTableScope ["tr"] then (b.endRow, .again) else b.done

def inRow (b : Builder) (t : Token) : Step :=
  match t with
  | .startTag tag =>
    if cells.contains tag.name then ((((b.popInside rowContext).insertTag tag).goTo .inCell).addMarker).done
    else if tag.name == "tr" || tableSections.contains tag.name then b.endRowFor
    else b.inTable t
  | .endTag name =>
    if name == "tr" then (if b.inTableScope ["tr"] then b.endRow else b).done
    else if name == "table" then b.endRowFor
    else if rowGroups.contains name then if b.inTableScope [name] then b.endRowFor else b.done
    else if ["body", "caption", "col", "colgroup", "html", "td", "th"].contains name then b.done
    else b.inTable t
  | t => b.inTable t

def endCell (b : Builder) : Builder :=
  (((b.popImplied "").popThrough cells).clearFormats).goTo .inRow

def inCell (b : Builder) (t : Token) : Step :=
  match t with
  | .startTag tag =>
    if tableParts.contains tag.name then
      if b.inTableScope cells then (b.endCell, .again) else b.done
    else b.inBody t
  | .endTag name =>
    if cells.contains name then
      (if b.inTableScope [name] then (((b.popImplied "").popThrough [name]).clearFormats).goTo .inRow
        else b).done
    else if ["body", "caption", "col", "colgroup", "html"].contains name then b.done
    else if tableFrames.contains name then
      if b.inTableScope [name] then (b.endCell, .again) else b.done
    else b.inBody t
  | t => b.inBody t

end Builder

end NoteMarkup.Html
