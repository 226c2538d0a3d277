import NoteMarkup.Cleaning.Draft

/-!
This module contains the opening of an element: what stands in its way is closed, what it needs around
itself is supplied, and what its style stands for is opened inside it. Supplying and opening inside come
back to the opening of an element, to a depth that is bounded by an argument; running out of it has an
outcome of its own, `none`, upon which a greater depth is tried.
-/

namespace NoteMarkup

namespace Cleaner

/-- The element that a line break acts on: the innermost emitted one that is not inline, with its entry
and the number of elements open inside it. -/
def lineHolder? (c : Cleaner) : List OpenElement → Option (Nat × Entry)
  | [] => none
  | o :: opened =>
    match o.start, c.entryOf? o.name with
    | some _, some e => if e.isInline then (lineHolder? c opened).map (deeper ·) else some (0, e)
    | _, _ => (lineHolder? c opened).map (deeper ·)
where
  deeper : Nat × Entry → Nat × Entry
    | (inside, e) => (inside + 1, e)

def beginLine (c : Cleaner) (openPlain : Draft → Option Draft) (inside : Nat) (d : Draft) :
    Option Draft := do
  let line := d.line inside
  let d ← openPlain (d.close c inside)
  return d.putUp c line

/-- Ends the current line. The innermost emitted element that is not inline is split in two, and what is
open inside it goes on in the second half. A table cell, or an element that is not written and may hold a
plain block, begins a plain block inside itself instead; a table row ignores the break. Where there is no
such element, the line is an empty plain block. -/
def endLine (c : Cleaner) (openPlain : Draft → Option Draft) (d : Draft) : Option Draft :=
  match c.lineHolder? d.opened with
  | none => (openPlain d).map (Draft.closeUntil c d.opened.length)
  | some (inside, e) =>
    if e.category = some .tableRow then some d
    else if e.category = some .tableContent || (e.output.isNone && e.allows plainBlock) then
      c.beginLine openPlain inside d
    else
      let line := d.line (inside + 1)
      some ((d.close c (inside + 1)).putUp c line)

def supplyParent (c : Cleaner) (openBare : ElementKind → Draft → Option Draft) (e : Entry) (d : Draft) :
    Option Draft :=
  match e.parentKinds with
  | [] => some d
  | first :: _ =>
    if (c.nearest? d.opened).any fun parent => e.parentKinds.contains parent.kind then some d
    else openBare first d

def supplyBlock (openPlain : Draft → Option Draft) (e : Entry) (d : Draft) : Option Draft :=
  if e.isInline && d.blocks.isEmpty then openPlain d else some d

def openCounterpart (c : Cleaner) (openStyled : Style.Counterpart → Draft → Option Draft) (d : Draft)
    (s : Style.Counterpart) : Option Draft :=
  if (c.nearest? d.opened).any (·.allows s.kind) then openStyled s d else some d

def openHere (c : Cleaner) (openStyled : Style.Counterpart → Draft → Option Draft) (kind : ElementKind)
    (e : Entry) (source : List Attribute) (d : Draft) : Option Draft :=
  let attributes := e.keptAttributes source ((c.nearest? d.opened).map (·.kind))
  if e.standalone then some (d.emit (.standaloneTag kind attributes))
  else if c.options.dedupeInline && e.isInline && d.hasOpen kind then some (d.openSilently (.known kind))
  else (e.counterparts source).foldlM (c.openCounterpart openStyled) (d.openWritten kind e attributes)

def openElement? (c : Cleaner) : Nat → TagName → List Attribute → Draft → Option Draft
  | 0, _, _, _ => none
  | depth + 1, name, source, d =>
    let openBare kind := openElement? c depth (.known kind) []
    let openStyled (s : Style.Counterpart) := openElement? c depth (.known s.kind) s.attributes
    match c.grammar.canonicalName name with
    | .unknown name => some (d.openSilently (.unknown name))
    | .known kind =>
      match c.grammar.entry? kind with
      | none => some (d.openSilently (.known kind))
      | some e =>
        if !e.keeps source then some d
        else if e.endsLine then c.endLine (openBare plainBlock) d
        else if (c.nearest? d.opened).any fun parent => parent.drops d.output.back? kind then some d
        else do
          let d ← c.supplyParent openBare e (d.close c (c.obstacles kind d.opened))
          let d ← supplyBlock (openBare plainBlock) e d
          c.openHere openStyled kind e source d

/-- The depth that is tried first. Going deeper without closing an element passes through each kind at most
once as a required parent and once as a style, before and after the plain block; more is needed only if
what has been opened on the way is closed again. -/
def openingDepth (d : Draft) : Nat :=
  (4 * ElementKind.all.length + 8) * (d.opened.length + 1)

/-- Opens an element to that depth or else to a greater one that suffices. Where none does, what has to be
opened never ends, and there is no outcome. -/
def openDeeply? (c : Cleaner) (depth : Nat) (name : TagName) (source : List Attribute) (d : Draft) :
    Option Draft :=
  match c.openElement? depth name source d with
  | some opened => some opened
  | none => (openDeeply? c (d := d)) (2 * depth + 1) name source
partial_fixpoint

end Cleaner

namespace Draft

def enter? (c : Cleaner) (name : TagName) (source : List Attribute) (d : Draft) : Option Draft :=
  c.openDeeply? (Cleaner.openingDepth d) name source d

/-- Emits text. Text that the nearest element does not allow is dropped, and text outside of any block
gets a plain block. -/
def text? (c : Cleaner) (content : String) (d : Draft) : Option Draft :=
  match c.nearest? d.opened with
  | some parent =>
    if !parent.holdsText then some d
    else if d.blocks.isEmpty then openThenEmit
    else some (d.emit (.text content))
  | none => openThenEmit
where
  openThenEmit : Option Draft :=
    (d.enter? c (.known plainBlock) []).map (Draft.emit (.text content))

end Draft

end NoteMarkup
