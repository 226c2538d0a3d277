import NoteMarkup.Proofs.MarkupReader
import NoteMarkup.Text.Blank

/-!
This module contains a reader of XML documents: start tags with attributes between double quotes, end tags, and text
in CDATA sections, all of it inside a `root` element. White space between them is skipped. It knows nothing of how
documents are exported.
-/

namespace NoteMarkup

namespace XmlReader

open Text MarkupReader

def decodeNamed : List Char → List Char
  | '&' :: 'a' :: 'm' :: 'p' :: ';' :: cs => '&' :: decodeNamed cs
  | '&' :: 'l' :: 't' :: ';' :: cs => '<' :: decodeNamed cs
  | '&' :: 'g' :: 't' :: ';' :: cs => '>' :: decodeNamed cs
  | '&' :: 'q' :: 'u' :: 'o' :: 't' :: ';' :: cs => '"' :: decodeNamed cs
  | c :: cs => c :: decodeNamed cs
  | [] => []

def isNameChar (c : Char) : Bool :=
  c.isAlphanum || c == '-' || c == '_'

def readValue? (cs : List Char) : Option (String × List Char) :=
  (dropStart? ['"'] (cs.dropWhile (· != '"'))).map fun rest =>
    (String.ofList (decodeNamed (cs.takeWhile (· != '"'))), rest)

def readAttribute? (cs : List Char) : Option (Attribute × List Char) := do
  let behindSign ← dropStart? ['=', '"'] (cs.dropWhile isNameChar)
  let (value, rest) ← readValue? behindSign
  return (⟨String.ofList (cs.takeWhile isNameChar), value⟩, rest)

theorem length_of_readAttribute? {cs rest : List Char} {a : Attribute} (h : readAttribute? cs = some (a, rest)) :
    rest.length < cs.length := by
  simp only [readAttribute?, readValue?, Option.bind_eq_bind, Option.pure_def, Option.bind_eq_some_iff,
    Option.map_eq_some_iff, Prod.exists, Option.some.injEq, Prod.mk.injEq] at h
  rcases h with ⟨behindSign, hsign, value, behindValue, ⟨behindQuote, hquote, -, rfl⟩, -, rfl⟩
  have hname := length_dropWhile_le isNameChar cs
  have hvalue := length_dropWhile_le (· != '"') behindSign
  rw [eq_of_dropStart? hsign] at hname
  rw [eq_of_dropStart? hquote] at hvalue
  simp only [List.length_append, List.length_cons] at hname hvalue
  omega

def readAttributes? (cs : List Char) : Option (List Attribute × List Char) :=
  match cs with
  | [] => none
  | c :: cs =>
    if c = '>' then some ([], cs)
    else if isAsciiBlank c then
      match h : readAttribute? cs with
      | some (a, rest) =>
        have : rest.length < cs.length := length_of_readAttribute? h
        (readAttributes? rest).map fun (attributes, rest) => (a :: attributes, rest)
      | none => none
    else none
termination_by cs.length

def readTag? (cs : List Char) : Option (Token × List Char) :=
  if ['/'] <+: cs then MarkupReader.readTag? cs
  else do
    let (name, cs) ← readName? cs
    let (attributes, cs) ← readAttributes? cs
    return (.start name attributes, cs)

def read? (cs : List Char) : Option (Token × List Char) :=
  if sectionStart <+: cs then MarkupReader.read? cs else (dropStart? ['<'] cs).bind readTag?

theorem length_of_readAttributes? {cs rest : List Char} {attributes : List Attribute}
    (h : readAttributes? cs = some (attributes, rest)) : rest.length < cs.length := by
  fun_induction readAttributes? cs generalizing attributes with
  | case1 => cases h
  | case2 cs =>
    cases h
    simp
  | case3 c cs hgt hblank a rest' hattribute hlength ih =>
    rw [Option.map_eq_some_iff] at h
    rcases h with ⟨⟨more, rest''⟩, hmore, heq⟩
    cases heq
    have := ih hmore
    simp only [List.length_cons]
    omega
  | case4 c cs hgt hblank hattribute => cases h
  | case5 => cases h

theorem length_of_readTag? {cs rest : List Char} {t : Token} (h : readTag? cs = some (t, rest)) :
    rest.length < cs.length := by
  unfold readTag? at h
  split at h
  . exact MarkupReader.length_of_readTag? h
  . simp only [Option.bind_eq_bind, Option.pure_def, Option.bind_eq_some_iff, Prod.exists,
      Option.some.injEq, Prod.mk.injEq] at h
    rcases h with ⟨name, behindName, hname, attributes, behindTag, hattributes, -, rfl⟩
    have hname := length_of_readName? hname
    have hattributes := length_of_readAttributes? hattributes
    omega

theorem length_of_read? {cs rest : List Char} {t : Token} (h : read? cs = some (t, rest)) :
    rest.length < cs.length := by
  unfold read? at h
  split at h
  . exact MarkupReader.length_of_read? h
  . rw [Option.bind_eq_some_iff] at h
    rcases h with ⟨behindBracket, hbracket, htag⟩
    have htag := length_of_readTag? htag
    rw [eq_of_dropStart? hbracket]
    simp only [List.length_append]
    omega

def readAll? (cs : List Char) : Option (List Token) :=
  match cs with
  | [] => some []
  | c :: cs =>
    if isAsciiBlank c then readAll? cs
    else
      match h : read? (c :: cs) with
      | some (t, rest) =>
        have : rest.length < (c :: cs).length := length_of_read? h
        (readAll? rest).map (t :: ·)
      | none => none
termination_by cs.length
decreasing_by
  . simp
  . exact this

def skipDeclaration? (cs : List Char) : Option (List Char) :=
  (dropStart? "<?xml".toList cs).bind fun cs => dropStart? ['>'] (cs.dropWhile (· != '>'))

def inRoot? : List Token → Option (List Token)
  | .start "root" [] :: ts => if ts.getLast? = some (.ending "root") then some ts.dropLast else none
  | _ => none

def readDocument? (xml : String) : Option (List Token) := do
  let cs ← skipDeclaration? xml.toList
  let ts ← readAll? cs
  inRoot? ts

end XmlReader

end NoteMarkup
