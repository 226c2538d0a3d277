import NoteMarkup.Grammar.Basic
import NoteMarkup.Cleaning.Options

/-!
This module contains documents that are being cleaned, and the steps on them that open no source element:
looking for open elements, emitting events, closing elements, and taking a line of open elements down and
putting it up again.
-/

namespace NoteMarkup

structure OpenElement where
  name : TagName
  /-- Where its start tag stands in the output, if one was emitted. -/
  start : Option Nat
  deriving DecidableEq, Repr

structure Draft where
  output : Array Event := #[]
  opened : List OpenElement := []
  /-- For each emitted block that is open, innermost first, the number of elements open around it. -/
  blocks : List Nat := []
  deriving DecidableEq, Repr, Inhabited

structure Cleaner where
  grammar : Grammar
  options : CleaningOptions := {}
  deriving Repr, Inhabited

namespace Cleaner

def entryOf? (c : Cleaner) (name : TagName) : Option Entry :=
  name.kind?.bind c.grammar.entry?

def nearest? (c : Cleaner) (opened : List OpenElement) : Option Entry :=
  opened.findSome? fun o => c.entryOf? o.name

/-- How many of the open elements have to be closed until the nearest one with an entry allows `kind`, or
none is left. -/
def obstacles (c : Cleaner) (kind : ElementKind) : List OpenElement → Nat
  | [] => 0
  | o :: opened =>
    match c.entryOf? o.name with
    | some e => if e.allows kind then 0 else obstacles c kind opened + 1
    | none =>
      -- an element without an entry goes only together with one further out
      let further := obstacles c kind opened
      if further = 0 then 0 else further + 1

end Cleaner

namespace Draft

def emit (event : Event) (d : Draft) : Draft :=
  { d with output := d.output.push event }

def hasOpen (d : Draft) (kind : ElementKind) : Bool :=
  d.opened.any fun o => o.name == .known kind

/-- Ends an element that is no longer among the open ones. If it holds nothing it is taken back, or becomes
a standalone tag if its entry says so. -/
def settle (c : Cleaner) (o : OpenElement) (d : Draft) : Draft :=
  match o.start, c.entryOf? o.name with
  | some start, some e =>
    let d := if e.isBlock then { d with blocks := d.blocks.tail } else d
    if start + 1 = d.output.size then
      match d.output.back? with
      | some (.startTag kind attributes) =>
        if e.collapses then
          { d with output := d.output.pop.push (.standaloneTag kind attributes) }
        else
          { d with output := d.output.pop }
      | _ => { d with output := d.output.pop }
    else
      d.emit (.endTag e.kind)
  | _, _ => d

def closeInnermost (c : Cleaner) (d : Draft) : Draft :=
  match d.opened with
  | [] => d
  | o :: opened => settle c o { d with opened := opened }

def close (c : Cleaner) : Nat → Draft → Draft
  | 0, d => d
  | n + 1, d => close c n (d.closeInnermost c)

def closeUntil (c : Cleaner) (n : Nat) (d : Draft) : Draft :=
  d.close c (d.opened.length - n)

/-- The `n` innermost open elements from the outside in, each with the start tag it has in the output. -/
def line (n : Nat) (d : Draft) : List (OpenElement × Option Event) :=
  (d.opened.take n).reverse.map fun o => (o, o.start.bind (d.output[·]?))

def putUpOne (c : Cleaner) (d : Draft) : OpenElement × Option Event → Draft
  | (o, none) => { d with opened := { o with start := none } :: d.opened }
  | (o, some tag) =>
    let isBlock := (c.entryOf? o.name).any (·.isBlock)
    let start := d.output.size
    { output := d.output.push tag
      opened := { o with start := some start } :: d.opened
      blocks := if isBlock then d.opened.length :: d.blocks else d.blocks }

def putUp (c : Cleaner) (line : List (OpenElement × Option Event)) (d : Draft) : Draft :=
  line.foldl (putUpOne c) d

def openWritten (kind : ElementKind) (e : Entry) (attributes : List Attribute) (d : Draft) : Draft :=
  let start := d.output.size
  { output := d.output.push (.startTag kind attributes)
    opened := ⟨.known kind, some start⟩ :: d.opened
    blocks := if e.isBlock then d.opened.length :: d.blocks else d.blocks }

def openSilently (name : TagName) (d : Draft) : Draft :=
  { d with opened := ⟨name, none⟩ :: d.opened }

def leave (c : Cleaner) (name : TagName) (d : Draft) : Draft :=
  let name := c.grammar.canonicalName name
  match d.opened.findIdx? (·.name == name) with
  | some i => d.close c (i + 1)
  | none => d

def closeAll (c : Cleaner) (d : Draft) : Draft :=
  d.close c d.opened.length

end Draft

end NoteMarkup
