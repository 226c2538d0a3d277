import NoteMarkup.Cleaning.Tree

/-!
This module contains cleaning with the access to what a draft stores as a parameter. Everything else about it is as it
is, and with plain access nothing changes at all.
-/

namespace NoteMarkup.Cleaner

/-- How the innermost open elements are read, each with its start tag, and how they are closed. Either may be
refused. -/
structure Access where
  line? : Nat → Draft → Option (List (OpenElement × Option Event))
  close? : Nat → Draft → Option Draft

namespace Access

def plain (c : Cleaner) : Access where
  line? n d := some (d.line n)
  close? n d := some (d.close c n)

variable (c : Cleaner) (a : Access)

def beginLine (openPlain : Draft → Option Draft) (inside : Nat) (d : Draft) : Option Draft := do
  let line ← a.line? inside d
  let d ← openPlain (← a.close? inside d)
  return d.putUp c line

def endLine (openPlain : Draft → Option Draft) (d : Draft) : Option Draft :=
  match c.lineHolder? d.opened with
  | none => do
    let opened ← openPlain d
    a.close? (opened.opened.length - d.opened.length) opened
  | some (inside, e) =>
    if e.category = some .tableRow then some d
    else if e.category = some .tableContent || (e.output.isNone && e.allows plainBlock) then
      a.beginLine c openPlain inside d
    else do
      let line ← a.line? (inside + 1) d
      return (← a.close? (inside + 1) d).putUp c line

def openElement? : Nat → TagName → List Attribute → Draft → Option Draft
  | 0, _, _, _ => none
  | depth + 1, name, source, d =>
    let openBare kind := openElement? depth (.known kind) []
    let openStyled (s : Style.Counterpart) := openElement? depth (.known s.kind) s.attributes
    match c.grammar.canonicalName name with
    | .unknown name => some (d.openSilently (.unknown name))
    | .known kind =>
      match c.grammar.entry? kind with
      | none => some (d.openSilently (.known kind))
      | some e =>
        if !e.keeps source then some d
        else if e.endsLine then a.endLine c (openBare plainBlock) d
        else if (c.nearest? d.opened).any fun parent => parent.drops d.output.back? kind then some d
        else do
          let d ← a.close? (c.obstacles kind d.opened) d
          let d ← c.supplyParent openBare e d
          let d ← supplyBlock (openBare plainBlock) e d
          c.openHere openStyled kind e source d

def leave? (name : TagName) (d : Draft) : Option Draft :=
  match d.opened.findIdx? (·.name == c.grammar.canonicalName name) with
  | some i => a.close? (i + 1) d
  | none => some d

def text? (depth : Nat) (content : String) (d : Draft) : Option Draft :=
  match c.nearest? d.opened with
  | some parent =>
    if !parent.holdsText then some d
    else if d.blocks.isEmpty then openThenEmit
    else some (d.emit (.text content))
  | none => openThenEmit
where
  openThenEmit : Option Draft :=
    (a.openElement? c depth (.known plainBlock) [] d).map (Draft.emit (.text content))

def step? (depth : Nat) (d : Draft) : SourceEvent → Option Draft
  | .enter name attributes => a.openElement? c depth (.ofName name) attributes d
  | .leave name => a.leave? c (.ofName name) d
  | .text content =>
    match c.options.admitText? content with
    | some content => a.text? c depth content d
    | none => some d

def run? (depth : Nat) (d : Draft) (events : List SourceEvent) : Option Draft :=
  events.foldlM (a.step? c depth) d

theorem plain_endLine (openPlain : Draft → Option Draft) (d : Draft) :
    (plain c).endLine c openPlain d = c.endLine openPlain d := by
  unfold endLine Cleaner.endLine
  cases c.lineHolder? d.opened with
  | none => cases openPlain d <;> rfl
  | some holder => rfl

theorem plain_openElement? (depth : Nat) : (plain c).openElement? c depth = c.openElement? depth := by
  induction depth with
  | zero => rfl
  | succ depth ih =>
    funext name source d
    simp only [openElement?, Cleaner.openElement?, ih, plain_endLine]
    rfl

end Access

end NoteMarkup.Cleaner
