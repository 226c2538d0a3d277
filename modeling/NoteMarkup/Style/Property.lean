import NoteMarkup.ElementKind
import NoteMarkup.Node.Attribute
import NoteMarkup.Style.Color

/-!
This module contains the style properties that have an element as their counterpart, and the elements that
the declarations of a `style` attribute stand for.
-/

namespace NoteMarkup.Style

inductive Property where
  | fontWeight
  | fontStyle
  | textDecoration
  | background
  | color
  deriving DecidableEq, Repr

structure Counterpart where
  kind : ElementKind
  attr : Option Attribute := none
  deriving DecidableEq, Repr

def Counterpart.attributes (m : Counterpart) : List Attribute :=
  m.attr.toList

namespace Property

def ofName? (name : String) : Option Property :=
  match Text.lowercase (Text.trim name) with
  | "font-weight" => some .fontWeight
  | "font-style" => some .fontStyle
  | "text-decoration" => some .textDecoration
  | "text-decoration-line" => some .textDecoration
  | "background" => some .background
  | "background-color" => some .background
  | "color" => some .color
  | _ => none

def kinds : Property → List ElementKind
  | .fontWeight => [.strong]
  | .fontStyle => [.em]
  | .textDecoration => [.u, .strike]
  | .background => [.styleHighlight]
  | .color => [.styleFont]

def boldWeight : Nat := 600

def greatestWeight : Nat := 65535

def isBold (value : String) : Bool :=
  value == "bold" || value == "bolder" ||
    let digits := (Text.dropStart? ['+'] value.toList).getD value.toList
    let weight := Text.decimalValue digits
    !digits.isEmpty && digits.all Char.isDigit && boldWeight ≤ weight && weight ≤ greatestWeight

/-- The colour of a value that is one, or else of the first word in it that is one: in a shorthand the
colour is one word of several. Only colours of the palette count. -/
def shownColor? (value : String) : Option Color :=
  (Color.parsePalette? value).orElse fun _ => (Text.words value).findSome? Color.parsePalette?

def colored (kind : ElementKind) (color : Color) : Counterpart :=
  ⟨kind, some ⟨"color", color.hex⟩⟩

def counterpart? (property : Property) (value : String) : Option Counterpart :=
  let value := Text.lowercase (Text.trim value)
  match property with
  | .fontWeight => if isBold value then some ⟨.strong, none⟩ else none
  | .fontStyle => if value == "italic" || value == "oblique" then some ⟨.em, none⟩ else none
  | .textDecoration =>
    (Text.words value).findSome? fun
      | "underline" => some ⟨.u, none⟩
      | "line-through" => some ⟨.strike, none⟩
      | _ => none
  | .background => (shownColor? value).map (colored .styleHighlight)
  | .color => (shownColor? value).map (colored .styleFont)

end Property

def declarations (style : String) : List (String × String) :=
  (Text.pieces (· == ';') style.toList).filterMap fun part => do
    let (name, value) ← Text.splitOnce? ':' part
    let name := Text.trimChars name
    let value := Text.trimChars value
    if name.isEmpty || value.isEmpty then none else some (String.ofList name, String.ofList value)

def counterpart? (property value : String) : Option Counterpart := do
  (← Property.ofName? property).counterpart? value

def counterparts (style : String) : List Counterpart :=
  (declarations style).filterMap fun (property, value) => counterpart? property value

end NoteMarkup.Style
