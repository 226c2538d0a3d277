import NoteMarkup.ElementKind
import NoteMarkup.Style.Property

/-!
This module contains the declarations a content grammar is made from: for each kind of element its
category, what it is written as, what it may hold and where it may stand, and what becomes of its source
attributes.
-/

namespace NoteMarkup

inductive Category where
  | block
  | inline
  | listItem
  | definitionItem
  | tableRow
  | tableContent
  deriving DecidableEq, Repr

inductive KindGroup where
  | kind (kind : ElementKind)
  | category (category : Category)
  | text
  | flow
  deriving DecidableEq, Repr

inductive ValueRule where
  | href
  | color
  | listStyle
  deriving DecidableEq, Repr

inductive PositionAttribute where
  | listStyle
  deriving DecidableEq, Repr

inductive ChildFilter where
  /-- A plain block that opens as the very first child; its content lands in the parent. -/
  | leadingParagraph
  deriving DecidableEq, Repr

inductive Requirement where
  | usableHref
  /-- Whoever has `data-type` has `data-list` too. -/
  | listMarker
  deriving DecidableEq, Repr

structure ElementRules where
  kind : ElementKind
  category : Option Category := none
  /-- The name it is written with; an element without one is dropped and its content kept. -/
  output : Option String := none
  aliasOf : Option ElementKind := none
  attributes : List (String × ValueRule) := []
  supplied : List PositionAttribute := []
  styleAttributes : List (String × Style.Property) := []
  childFilter : Option ChildFilter := none
  requirements : List Requirement := []
  standalone : Bool := false
  /-- Whether it is written as a single tag, and not dropped, if it turns out empty. -/
  collapses : Bool := false
  /-- Whether it ends the line it stands in, and is nothing else. -/
  endsLine : Bool := false
  deriving DecidableEq, Repr

structure EntryDeclaration extends ElementRules where
  children : List KindGroup := []
  /-- Where it may stand; anywhere if the list is empty. -/
  parents : List KindGroup := []
  deriving DecidableEq, Repr

def kindsIn (declarations : List EntryDeclaration) (category : Category) : List ElementKind :=
  (declarations.filter fun d => d.category == some category).map (·.kind)

namespace KindGroup

def members (declarations : List EntryDeclaration) : KindGroup → List ElementKind
  | .kind k => [k]
  | .category c => kindsIn declarations c
  | .text => []
  | .flow => kindsIn declarations .block ++ kindsIn declarations .inline

def includesText : KindGroup → Bool
  | .text => true
  | .flow => true
  | _ => false

end KindGroup

namespace EntryDeclaration

def childKinds (declarations : List EntryDeclaration) (d : EntryDeclaration) : List ElementKind :=
  d.children.flatMap (KindGroup.members declarations)

def parentKinds (declarations : List EntryDeclaration) (d : EntryDeclaration) : List ElementKind :=
  (d.parents.flatMap (KindGroup.members declarations)).eraseDups

end EntryDeclaration

end NoteMarkup
