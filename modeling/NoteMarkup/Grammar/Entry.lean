import NoteMarkup.Event.Basic
import NoteMarkup.Grammar.Declaration
import NoteMarkup.Style.Href

/-!
This module contains the entries of a content grammar, declarations in which every reference to a group of
kinds has been replaced by the kinds, and what an entry decides about a source element.
-/

namespace NoteMarkup

/-- The kind of block that stray inline content and text are put into. -/
def plainBlock : ElementKind := .p

structure Entry extends ElementRules where
  childKinds : List ElementKind
  holdsText : Bool
  /-- Where the element may stand, the first being supplied if it stands elsewhere; anywhere if there are
  none. -/
  parentKinds : List ElementKind
  deriving DecidableEq, Repr

def EntryDeclaration.toEntry (declarations : List EntryDeclaration) (d : EntryDeclaration) : Entry where
  toElementRules := d.toElementRules
  childKinds := d.childKinds declarations
  holdsText := d.children.any KindGroup.includesText
  parentKinds := d.parentKinds declarations

namespace ValueRule

def keptValue? : ValueRule → String → Option String
  | .href, value => Href.usable? value
  | .color, value => (Color.parsePalette? value).map (·.hex)
  | .listStyle, value =>
    match Text.lowercase (Text.trim value) with
    | "disc" => some "disc"
    | "number" => some "number"
    | _ => none

end ValueRule

namespace PositionAttribute

def supplied (parent : Option ElementKind) : PositionAttribute → Attribute
  | .listStyle => ⟨"list", if parent = some .ol then "number" else "disc"⟩

end PositionAttribute

namespace ChildFilter

def drops (parent : ElementKind) (last : Option Event) (candidate : ElementKind) : ChildFilter → Bool
  | .leadingParagraph => candidate == plainBlock && last.any (·.opens parent)

end ChildFilter

namespace Requirement

def isMet (source : List Attribute) : Requirement → Bool
  | .usableHref => ((Attribute.lookup? source "href").bind Href.usable?).isSome
  | .listMarker => !Attribute.isPresent source "data-type" || Attribute.isPresent source "data-list"

end Requirement

namespace Entry

def allows (e : Entry) (kind : ElementKind) : Bool :=
  e.childKinds.contains kind

def isBlock (e : Entry) : Bool :=
  e.category == some .block

def isInline (e : Entry) : Bool :=
  e.category == some .inline

def keeps (e : Entry) (source : List Attribute) : Bool :=
  e.requirements.all (·.isMet source)

def drops (e : Entry) (last : Option Event) (candidate : ElementKind) : Bool :=
  e.childFilter.any (·.drops e.kind last candidate)

def keptAttributes (e : Entry) (source : List Attribute) (parent : Option ElementKind) :
    List Attribute :=
  e.attributes.filterMap (fun (name, rule) =>
      ((Attribute.lookup? source name).bind rule.keptValue?).map fun value => ⟨name, value⟩)
    ++ e.supplied.map (·.supplied parent)

def counterparts (e : Entry) (source : List Attribute) : List Style.Counterpart :=
  e.styleAttributes.filterMap (fun (name, property) =>
      (Attribute.lookup? source name).bind property.counterpart?)
    ++ ((Attribute.lookup? source "style").map Style.counterparts).getD []

end Entry

end NoteMarkup
