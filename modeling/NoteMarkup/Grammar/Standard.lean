import NoteMarkup.Grammar.Basic

/-!
This module contains the standard grammar: paragraphs, headings and quotes, lists that are written as
paragraphs with a marker, tables, and the inline elements of notes.
-/

namespace NoteMarkup.Grammar

def inlineContent : List KindGroup :=
  [.category .inline, .text]

def itemsAndLists : List KindGroup :=
  [.category .listItem, .kind .ul, .kind .ol]

def blockDeclaration (kind : ElementKind) (children : List KindGroup) : EntryDeclaration where
  kind := kind
  category := some .block
  children := children

def inlineDeclaration (kind : ElementKind) : EntryDeclaration where
  kind := kind
  category := some .inline
  children := inlineContent

def writtenInline (kind : ElementKind) (output : String) : EntryDeclaration :=
  { inlineDeclaration kind with output := some output }

def aliasDeclaration (kind target : ElementKind) : EntryDeclaration where
  kind := kind
  aliasOf := some target

def cellDeclaration (kind : ElementKind) : EntryDeclaration where
  kind := kind
  category := some .tableContent
  output := some kind.name
  parents := [.category .tableRow]
  children := [.flow]
  collapses := true
  childFilter := some .leadingParagraph

def blockDeclarations : List EntryDeclaration :=
  [{ blockDeclaration .p inlineContent with output := some "text", collapses := true },
    { blockDeclaration .text [.flow] with
      output := some "text", attributes := [("list", .listStyle)], collapses := true },
    { blockDeclaration .h1 inlineContent with output := some "h1" },
    { blockDeclaration .h2 inlineContent with output := some "h2" },
    { blockDeclaration .h3 inlineContent with output := some "h3" },
    aliasDeclaration .h4 .h3,
    aliasDeclaration .h5 .h3,
    aliasDeclaration .h6 .h3,
    { blockDeclaration .blockquote [.flow] with output := some "quote" },
    { blockDeclaration .quote [.flow] with output := some "quote" },
    { blockDeclaration .hr [] with output := some "hr", standalone := true }]

def listDeclarations : List EntryDeclaration :=
  [blockDeclaration .ul itemsAndLists,
    blockDeclaration .ol itemsAndLists,
    { kind := .li
      category := some .listItem
      output := some "text"
      parents := [.kind .ul, .kind .ol]
      children := [.flow]
      supplied := [.listStyle]
      requirements := [.listMarker]
      childFilter := some .leadingParagraph },
    { blockDeclaration .dl [.category .definitionItem] with output := some "text" },
    { kind := .dt
      category := some .definitionItem
      output := some "strong"
      parents := [.kind .dl]
      children := inlineContent },
    { kind := .dd
      category := some .definitionItem
      parents := [.kind .dl]
      children := [.flow]
      childFilter := some .leadingParagraph }]

def tableDeclarations : List EntryDeclaration :=
  [{ blockDeclaration .table [.kind .tr] with output := some "table" },
    { kind := .tr
      category := some .tableRow
      output := some "tr"
      parents := [.kind .table]
      children := [.category .tableContent] },
    cellDeclaration .td,
    cellDeclaration .th]

def inlineDeclarations : List EntryDeclaration :=
  [{ writtenInline .a "a" with attributes := [("href", .href)], requirements := [.usableHref] },
    writtenInline .b "strong",
    writtenInline .strong "strong",
    writtenInline .i "em",
    writtenInline .em "em",
    writtenInline .sub "sub",
    writtenInline .sup "sup",
    writtenInline .u "u",
    writtenInline .s "strike",
    writtenInline .strike "strike",
    writtenInline .code "code",
    writtenInline .cite "cite",
    { writtenInline .styleHighlight "highlight" with attributes := [("color", .color)] },
    { writtenInline .styleFont "font" with attributes := [("color", .color)] },
    { inlineDeclaration .highlight with styleAttributes := [("color", .background)] },
    { inlineDeclaration .font with styleAttributes := [("color", .color)] },
    inlineDeclaration .acronym,
    inlineDeclaration .ins,
    inlineDeclaration .small,
    inlineDeclaration .span,
    inlineDeclaration .st1,
    inlineDeclaration .var,
    inlineDeclaration .wbr]

def standardDeclarations : List EntryDeclaration :=
  blockDeclarations ++ listDeclarations ++ tableDeclarations ++ inlineDeclarations ++
    [aliasDeclaration .div .p, aliasDeclaration .pre .p, { kind := .br, endsLine := true }]

def standard : Grammar :=
  assemble standardDeclarations

end NoteMarkup.Grammar
