import NoteMarkup.Decimal
import NoteMarkup.Text.Blank

/-!
This module contains colours: the notations of style sheets they are read from, the one notation they are
written in, and the palette of colours that a document may show.
-/

namespace NoteMarkup

structure Color where
  red : Fin 256
  green : Fin 256
  blue : Fin 256
  deriving DecidableEq, Repr, Inhabited

namespace Color

def hexPair (n : Fin 256) : List Char :=
  [Text.hexDigit (n.val / 16), Text.hexDigit (n.val % 16)]

def hex (c : Color) : String :=
  String.ofList ('#' :: (hexPair c.red ++ hexPair c.green ++ hexPair c.blue))

def ofFraction (x : Fraction) : Fin 256 :=
  Fin.ofNat 256 (Nat.min x.round 255)

def channelPercent : Fraction :=
  Fraction.toPrecision ⟨255, 100⟩

/-- A channel of the functional notation: a number from 0 to 255 or a percentage. Values beyond the ends
of the scale count as the ends. -/
def channel? (part : List Char) : Option (Fin 256) :=
  match Text.dropLast? '%' part with
  | some percent =>
    (Decimal.parse? (Text.trimChars percent)).map fun d =>
      ofFraction ((d.clamped 100).mul channelPercent).toPrecision
  | none => (Decimal.parse? part).map fun d => ofFraction (d.clamped 255)

def ofArguments? (arguments : List Char) : Option Color :=
  match (Text.pieces (· == ',') arguments).map Text.trimChars with
  | r :: g :: b :: opacity =>
    if opacity.length ≤ 1 then do
      return ⟨← channel? r, ← channel? g, ← channel? b⟩
    else
      none
  | _ => none

def ofHexPair? (a b : Char) : Option (Fin 256) := do
  return Fin.ofNat 256 (16 * (← Text.hexValue? a) + (← Text.hexValue? b))

def ofHexDigits? : List Char → Option Color
  | [r, g, b] => do return ⟨← ofHexPair? r r, ← ofHexPair? g g, ← ofHexPair? b b⟩
  | [r, r', g, g', b, b'] => do return ⟨← ofHexPair? r r', ← ofHexPair? g g', ← ofHexPair? b b'⟩
  | _ => none

def named : List (String × Color) :=
  [("black", ⟨0x00, 0x00, 0x00⟩), ("white", ⟨0xff, 0xff, 0xff⟩), ("red", ⟨0xff, 0x00, 0x00⟩),
    ("lime", ⟨0x00, 0xff, 0x00⟩), ("green", ⟨0x00, 0x80, 0x00⟩), ("blue", ⟨0x00, 0x00, 0xff⟩),
    ("yellow", ⟨0xff, 0xff, 0x00⟩), ("fuchsia", ⟨0xff, 0x00, 0xff⟩), ("magenta", ⟨0xff, 0x00, 0xff⟩),
    ("aqua", ⟨0x00, 0xff, 0xff⟩), ("cyan", ⟨0x00, 0xff, 0xff⟩), ("silver", ⟨0xc0, 0xc0, 0xc0⟩),
    ("gray", ⟨0x80, 0x80, 0x80⟩), ("grey", ⟨0x80, 0x80, 0x80⟩), ("maroon", ⟨0x80, 0x00, 0x00⟩),
    ("olive", ⟨0x80, 0x80, 0x00⟩), ("navy", ⟨0x00, 0x00, 0x80⟩), ("purple", ⟨0x80, 0x00, 0x80⟩),
    ("teal", ⟨0x00, 0x80, 0x80⟩), ("orange", ⟨0xff, 0xa5, 0x00⟩)]

def ofName? (name : String) : Option Color :=
  (named.find? fun (n, _) => n == name).map (·.2)

def parse? (value : String) : Option Color :=
  let chars := Text.trimChars value.toList |>.map Char.toLower
  match chars with
  | '#' :: digits => ofHexDigits? digits
  | _ =>
    match (Text.dropStart? "rgba(".toList chars).orElse fun _ => Text.dropStart? "rgb(".toList chars with
    | some arguments => (Text.dropLast? ')' arguments).bind ofArguments?
    | none => ofName? (String.ofList chars)

/-- The colours a document may show. Black, the colour of text without a style, is not among them. -/
def palette : List Color :=
  [⟨0xff, 0x00, 0x00⟩, ⟨0x00, 0xff, 0x00⟩, ⟨0x00, 0x00, 0xff⟩, ⟨0xff, 0xff, 0x00⟩, ⟨0xff, 0x00, 0xff⟩,
    ⟨0x00, 0xff, 0xff⟩, ⟨0xff, 0xff, 0xff⟩]

def parsePalette? (value : String) : Option Color :=
  (parse? value).filter (palette.contains ·)

end Color

end NoteMarkup
