import NoteMarkup.Cleaning.Tree
import NoteMarkup.Grammar.Standard

/-!
This module contains the standard grammar as a table: the entry of each kind, and for the kinds of content
that an entry can allow the kinds of elements in it.
-/

namespace NoteMarkup

theorem Grammar.isSome_entry?_standard (k : ElementKind) : (Grammar.standard.entry? k).isSome := by
  cases k <;> rfl

namespace ElementKind

def entry (k : ElementKind) : Entry :=
  (Grammar.standard.entry? k).get (Grammar.isSome_entry?_standard k)

end ElementKind

@[simp]
theorem Grammar.entry?_standard (k : ElementKind) : Grammar.standard.entry? k = some k.entry := by
  simp [ElementKind.entry]

inductive ContentModel where
  | phrasing
  | flow
  | items
  | terms
  | rows
  | cells
  | nothing
  deriving DecidableEq, Repr

namespace ElementKind

def isInline : ElementKind → Bool
  | a | b | strong | i | em | sub | sup | u | s | strike | code | cite | styleHighlight | styleFont
  | highlight | font | acronym | ins | small | span | st1 | var | wbr => true
  | _ => false

def isBlock : ElementKind → Bool
  | p | text | h1 | h2 | h3 | blockquote | quote | hr | ul | ol | dl | table => true
  | _ => false

def model : ElementKind → ContentModel
  | p | h1 | h2 | h3 | dt => .phrasing
  | text | blockquote | quote | li | dd | td | th => .flow
  | ul | ol => .items
  | dl => .terms
  | table => .rows
  | tr => .cells
  | h4 | h5 | h6 | hr | div | pre | br => .nothing
  | k => if k.isInline then .phrasing else .nothing

def parents : ElementKind → List ElementKind
  | li => [ul, ol]
  | dt | dd => [dl]
  | tr => [table]
  | td | th => [tr]
  | _ => []

end ElementKind

namespace ContentModel

def admits : ContentModel → ElementKind → Bool
  | phrasing, k => k.isInline
  | flow, k => k.isInline || k.isBlock
  | items, k => k = .li || k = .ul || k = .ol
  | terms, k => k = .dt || k = .dd
  | rows, k => k = .tr
  | cells, k => k = .td || k = .th
  | nothing, _ => false

def holdsText : ContentModel → Bool
  | phrasing | flow => true
  | _ => false

end ContentModel

namespace ElementKind

@[simp]
theorem entry_kind (k : ElementKind) : k.entry.kind = k := by
  cases k <;> rfl

@[simp]
theorem entry_isInline (k : ElementKind) : k.entry.isInline = k.isInline := by
  cases k <;> rfl

@[simp]
theorem entry_isBlock (k : ElementKind) : k.entry.isBlock = k.isBlock := by
  cases k <;> rfl

@[simp]
theorem entry_holdsText (k : ElementKind) : k.entry.holdsText = k.model.holdsText := by
  cases k <;> rfl

@[simp]
theorem entry_parentKinds (k : ElementKind) : k.entry.parentKinds = k.parents := by
  cases k <;> rfl

end ElementKind

namespace ContentModel

def kinds : ContentModel → List ElementKind
  | phrasing => kindsIn Grammar.standardDeclarations .inline
  | flow => kindsIn Grammar.standardDeclarations .block ++ kindsIn Grammar.standardDeclarations .inline
  | items => [.li, .ul, .ol]
  | terms => [.dt, .dd]
  | rows => [.tr]
  | cells => [.td, .th]
  | nothing => []

theorem contains_kinds (m : ContentModel) (k : ElementKind) : m.kinds.contains k = m.admits k := by
  cases m <;> cases k <;> rfl

end ContentModel

namespace ElementKind

theorem entry_childKinds (k : ElementKind) : k.entry.childKinds = k.model.kinds := by
  cases k <;> rfl

@[simp]
theorem entry_allows (parent k : ElementKind) : parent.entry.allows k = parent.model.admits k := by
  unfold Entry.allows
  rw [entry_childKinds, ContentModel.contains_kinds]

@[simp]
theorem entry_standalone (k : ElementKind) : k.entry.standalone = (k == .hr) := by
  cases k <;> rfl

@[simp]
theorem entry_endsLine (k : ElementKind) : k.entry.endsLine = (k == .br) := by
  cases k <;> rfl

@[simp]
theorem entry_collapses (k : ElementKind) :
    k.entry.collapses = (k == .p || k == .text || k == .td || k == .th) := by
  cases k <;> rfl

theorem entry_drops (k : ElementKind) (last : Option Event) (candidate : ElementKind) :
    k.entry.drops last candidate
      =
    ((k == .li || k == .dd || k == .td || k == .th) && (candidate == .p && last.any (·.opens k))) := by
  cases k <;> rfl

theorem entry_isRow (k : ElementKind) : (k.entry.category = some .tableRow) ↔ k = .tr := by
  cases k <;> decide

def beginsLines (k : ElementKind) : Bool :=
  k == .td || k == .th || k == .dd

theorem entry_beginsLines (k : ElementKind) :
    (k.entry.category = some .tableContent || (k.entry.output.isNone && k.entry.allows plainBlock))
      =
    k.beginsLines := by
  cases k <;> rfl

def recognised : ElementKind → List (String × ValueRule)
  | a => [("href", .href)]
  | text => [("list", .listStyle)]
  | styleHighlight | styleFont => [("color", .color)]
  | _ => []

def requirements : ElementKind → List Requirement
  | a => [.usableHref]
  | li => [.listMarker]
  | _ => []

@[simp]
theorem entry_attributes (k : ElementKind) : k.entry.attributes = k.recognised := by
  cases k <;> rfl

@[simp]
theorem entry_supplied (k : ElementKind) : k.entry.supplied = if k = .li then [.listStyle] else [] := by
  cases k <;> rfl

@[simp]
theorem entry_requirements (k : ElementKind) : k.entry.requirements = k.requirements := by
  cases k <;> rfl

theorem entry_keeps {k : ElementKind} (ha : k ≠ .a) (hli : k ≠ .li) (source : List Attribute) :
    k.entry.keeps source := by
  unfold Entry.keeps
  rw [entry_requirements]
  cases k <;> first | rfl | contradiction

@[simp]
theorem entry_counterparts_nil (k : ElementKind) : k.entry.counterparts [] = [] := by
  cases k <;> rfl

def isConcrete (k : ElementKind) : Bool :=
  k.isInline || k.isBlock || k == .br || !k.parents.isEmpty

theorem isConcrete_canonical (k : ElementKind) : (Grammar.standard.canonical k).isConcrete := by
  cases k <;> rfl

theorem canonical_of_isConcrete {k : ElementKind} (h : k.isConcrete) : Grammar.standard.canonical k = k := by
  cases k <;> first | rfl | cases h

theorem ne_of_isInline {k l : ElementKind} (hk : k.isInline) (hl : l.isInline = false) : k ≠ l := by
  rintro rfl
  simp [hl] at hk

theorem parents_of_isInline {k : ElementKind} (h : k.isInline) : k.parents = [] := by
  cases k <;> first | rfl | cases h

theorem parents_of_isBlock {k : ElementKind} (h : k.isBlock) : k.parents = [] := by
  cases k <;> first | rfl | cases h

theorem mem_parents {k frame : ElementKind} (h : frame.model.admits k) (hk : k.parents ≠ []) :
    frame ∈ k.parents := by
  cases k <;> first | contradiction | (cases frame <;> first | decide | cases h)

end ElementKind

end NoteMarkup
