import NoteMarkup.Event.Tree
import NoteMarkup.Proofs.References
import NoteMarkup.Proofs.Sections

/-!
This module contains a reader of markup: tags with attributes between double quotes, text in CDATA sections,
and nothing else. It knows nothing of how markup is written.
-/

namespace NoteMarkup

namespace Text

theorem dropStart?_append (start rest : List Char) : dropStart? start (start ++ rest) = some rest := by
  induction start with
  | nil => simp [dropStart?]
  | cons c start ih => simpa [dropStart?] using ih

theorem eq_of_dropStart? {start cs rest : List Char} (h : dropStart? start cs = some rest) :
    cs = start ++ rest := by
  induction start generalizing cs with
  | nil => simpa [dropStart?] using h
  | cons c start ih =>
    cases cs with
    | nil => simp [dropStart?] at h
    | cons d cs =>
      simp only [dropStart?, beq_iff_eq, Option.ite_none_right_eq_some] at h
      rw [h.1, ih h.2]
      rfl

theorem dropStart?_eq_none {start cs : List Char} (h : ¬ start <+: cs) : dropStart? start cs = none := by
  cases hrest : dropStart? start cs with
  | none => rfl
  | some rest => exact absurd ⟨rest, (eq_of_dropStart? hrest).symm⟩ h

theorem length_dropWhile_le (p : Char → Bool) (cs : List Char) : (cs.dropWhile p).length ≤ cs.length :=
  (List.dropWhile_suffix p).length_le

end Text

inductive Token where
  | start (name : String) (attributes : List Attribute)
  | single (name : String) (attributes : List Attribute)
  | ending (name : String)
  | text (content : String)
  deriving DecidableEq, Repr

def Token.isText : Token → Bool
  | text _ => true
  | _ => false

namespace MarkupReader

open Text

def readName? (cs : List Char) : Option (String × List Char) :=
  let name := cs.takeWhile Char.isAlphanum
  if name.isEmpty then none else some (String.ofList name, cs.dropWhile Char.isAlphanum)

def readValue? (cs : List Char) : Option (String × List Char) :=
  (dropStart? ['"'] (cs.dropWhile (· != '"'))).map fun rest =>
    (decodeReferences (String.ofList (cs.takeWhile (· != '"'))), rest)

def readAttribute? (cs : List Char) : Option (Attribute × List Char) := do
  let (name, cs) ← readName? cs
  let cs ← dropStart? ['=', '"'] cs
  let (value, cs) ← readValue? cs
  return (⟨name, value⟩, cs)

theorem length_of_readName? {cs rest : List Char} {name : String} (h : readName? cs = some (name, rest)) :
    rest.length ≤ cs.length := by
  unfold readName? at h
  dsimp only at h
  rw [Option.ite_none_left_eq_some, Option.some.injEq] at h
  cases h.2
  apply length_dropWhile_le

theorem length_of_readValue? {cs rest : List Char} {value : String} (h : readValue? cs = some (value, rest)) :
    rest.length ≤ cs.length := by
  unfold readValue? at h
  rw [Option.map_eq_some_iff] at h
  rcases h with ⟨rest', hrest, heq⟩
  cases heq
  have := length_dropWhile_le (· != '"') cs
  rw [eq_of_dropStart? hrest] at this
  simp only [List.length_append] at this
  omega

theorem length_of_readAttribute? {cs rest : List Char} {a : Attribute} (h : readAttribute? cs = some (a, rest)) :
    rest.length < cs.length := by
  simp only [readAttribute?, Option.bind_eq_bind, Option.pure_def, Option.bind_eq_some_iff, Prod.exists,
    Option.some.injEq, Prod.mk.injEq] at h
  rcases h with ⟨name, behindName, hname, behindSign, hsign, value, behindValue, hvalue, -, rfl⟩
  have hname := length_of_readName? hname
  have hvalue := length_of_readValue? hvalue
  rw [eq_of_dropStart? hsign] at hname
  simp only [List.length_append, List.length_cons] at hname
  omega

def readAttributes? (cs : List Char) : Option (List Attribute × Bool × List Char) :=
  match cs with
  | [] => none
  | c :: cs =>
    if c = '>' then some ([], false, cs)
    else if c = '/' then (dropStart? ['>'] cs).map fun rest => ([], true, rest)
    else if c = ' ' then
      match h : readAttribute? cs with
      | some (a, rest) =>
        have : rest.length < cs.length := length_of_readAttribute? h
        (readAttributes? rest).map fun (attributes, single, rest) => (a :: attributes, single, rest)
      | none => none
    else none
termination_by cs.length

def readTag? (cs : List Char) : Option (Token × List Char) :=
  match dropStart? ['/'] cs with
  | some cs => do
    let (name, cs) ← readName? cs
    let cs ← dropStart? ['>'] cs
    return (.ending name, cs)
  | none => do
    let (name, cs) ← readName? cs
    let (attributes, single, cs) ← readAttributes? cs
    return (if single then .single name attributes else .start name attributes, cs)

def read? (cs : List Char) : Option (Token × List Char) :=
  match dropStart? sectionStart cs with
  | some cs => (readText? cs).map fun (text, rest) => (.text (String.ofList text), rest)
  | none => (dropStart? ['<'] cs).bind readTag?

theorem length_of_readAttributes? {cs rest : List Char} {attributes : List Attribute} {single : Bool}
    (h : readAttributes? cs = some (attributes, single, rest)) : rest.length < cs.length := by
  fun_induction readAttributes? cs generalizing attributes with
  | case1 => cases h
  | case2 cs =>
    cases h
    simp
  | case3 cs hgt =>
    rw [Option.map_eq_some_iff] at h
    rcases h with ⟨rest', hrest, heq⟩
    cases heq
    rw [eq_of_dropStart? hrest]
    simp only [List.length_cons, List.length_append]
    omega
  | case4 cs hgt hslash a rest' hattribute hlength ih =>
    rw [Option.map_eq_some_iff] at h
    rcases h with ⟨⟨more, single', rest''⟩, hmore, heq⟩
    cases heq
    have := ih hmore
    simp only [List.length_cons]
    omega
  | case5 cs hgt hslash hattribute => cases h
  | case6 => cases h

theorem length_of_readTag? {cs rest : List Char} {t : Token} (h : readTag? cs = some (t, rest)) :
    rest.length < cs.length := by
  unfold readTag? at h
  split at h
  . next behindSlash hslash =>
    simp only [Option.bind_eq_bind, Option.pure_def, Option.bind_eq_some_iff, Prod.exists,
      Option.some.injEq, Prod.mk.injEq] at h
    rcases h with ⟨name, behindName, hname, behindTag, htag, -, rfl⟩
    have hname := length_of_readName? hname
    rw [eq_of_dropStart? htag] at hname
    rw [eq_of_dropStart? hslash]
    simp only [List.length_append, List.length_cons] at hname ⊢
    omega
  . simp only [Option.bind_eq_bind, Option.pure_def, Option.bind_eq_some_iff, Prod.exists,
      Option.some.injEq, Prod.mk.injEq] at h
    rcases h with ⟨name, behindName, hname, attributes, single, behindTag, hattributes, -, rfl⟩
    have hname := length_of_readName? hname
    have hattributes := length_of_readAttributes? hattributes
    omega

theorem isText_of_readTag? {cs rest : List Char} {t : Token} (h : readTag? cs = some (t, rest)) :
    t.isText = false := by
  unfold readTag? at h
  split at h
  . simp only [Option.bind_eq_bind, Option.pure_def, Option.bind_eq_some_iff, Prod.exists,
      Option.some.injEq, Prod.mk.injEq] at h
    rcases h with ⟨name, behindName, hname, behindTag, htag, rfl, -⟩
    rfl
  . simp only [Option.bind_eq_bind, Option.pure_def, Option.bind_eq_some_iff, Prod.exists,
      Option.some.injEq, Prod.mk.injEq] at h
    rcases h with ⟨name, behindName, hname, attributes, single, behindTag, hattributes, rfl, -⟩
    cases single <;> rfl

theorem length_of_read? {cs rest : List Char} {t : Token} (h : read? cs = some (t, rest)) :
    rest.length < cs.length := by
  unfold read? at h
  split at h
  . next behindStart hstart =>
    rw [Option.map_eq_some_iff] at h
    rcases h with ⟨⟨text, rest'⟩, htext, heq⟩
    cases heq
    have htext := (length_of_readText? htext).1
    rw [eq_of_dropStart? hstart]
    simp only [List.length_append]
    omega
  . rw [Option.bind_eq_some_iff] at h
    rcases h with ⟨behindBracket, hbracket, htag⟩
    have htag := length_of_readTag? htag
    rw [eq_of_dropStart? hbracket]
    simp only [List.length_append]
    omega

def readAll? (cs : List Char) : Option (List Token) :=
  if cs = [] then some []
  else
    match h : read? cs with
    | some (t, rest) =>
      have : rest.length < cs.length := length_of_read? h
      (readAll? rest).map (t :: ·)
    | none => none
termination_by cs.length

end MarkupReader

namespace TreeBuilder

def read? (b : TreeBuilder) : Token → Option TreeBuilder
  | .start name attributes => some ⟨.element name attributes [], b.current :: b.around⟩
  | .single name attributes => some { b with current := b.current.addChild (.element name attributes []) }
  | .ending name => if b.current.name? = some name ∧ b.around ≠ [] then some b.close else none
  | .text content => some { b with current := b.current.addText content }

end TreeBuilder

def Node.ofMarkup? (markup : String) : Option Node := do
  let tokens ← MarkupReader.readAll? markup.toList
  let b ← tokens.foldlM TreeBuilder.read? .empty
  if b.around.isEmpty then some b.current else none

end NoteMarkup
