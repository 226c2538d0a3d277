import NoteMarkup.Event.Markup
import NoteMarkup.Proofs.MarkupReader

/-!
This module contains events as stretches of markup: the tags that are written, and between them runs of text,
each of which is written piece by piece into one section. Markup is the stretches one after the other, and the
tree is what their tokens build.
-/

namespace NoteMarkup

def Attribute.decoded (a : Attribute) : Attribute :=
  ⟨a.name, Text.decodeReferences a.value⟩

mutual

def Node.decoded : Node → Node
  | .element name attributes children => .element name (attributes.map Attribute.decoded) (Node.decodedAll children)
  | .text content => .text content

def Node.decodedAll : List Node → List Node
  | [] => []
  | n :: ns => n.decoded :: Node.decodedAll ns

end

inductive Stretch where
  | start (name : String) (attributes : List Attribute)
  | single (name : String) (attributes : List Attribute)
  | ending (name : String)
  | run (pieces : List (List Char))

namespace Stretch

def behind (content : List Char) : List Stretch → List Stretch
  | .run pieces :: rest => .run (content :: pieces) :: rest
  | rest => .run [content] :: rest

def token : Stretch → Token
  | start name attributes => .start name (attributes.map Attribute.decoded)
  | single name attributes => .single name (attributes.map Attribute.decoded)
  | ending name => .ending name
  | run pieces => .text (String.ofList pieces.flatten)

def attributeChars (a : Attribute) : List Char :=
  ' ' :: (a.name.toList ++ '=' :: '"' :: (Text.encodeKeepingReferencesChars a.value.toList ++ ['"']))

def chars : Stretch → List Char
  | start name attributes => '<' :: (name.toList ++ (attributes.flatMap attributeChars ++ ['>']))
  | single name attributes => '<' :: (name.toList ++ (attributes.flatMap attributeChars ++ ['/', '>']))
  | ending name => '<' :: '/' :: (name.toList ++ ['>'])
  | run pieces => Text.sectionStart ++ ((pieces.map Text.encodeCDataChars).flatten ++ Text.sectionEnd)

def charsInText : List Stretch → List Char
  | .run pieces :: rest => (pieces.map Text.encodeCDataChars).flatten ++ (Text.sectionEnd ++ rest.flatMap chars)
  | rest => Text.sectionEnd ++ rest.flatMap chars

end Stretch

namespace Event

def stretches (g : Grammar) : List Event → List Stretch
  | [] => []
  | .startTag kind attributes :: events =>
    match g.writtenName? kind with
    | some name => .start name attributes :: stretches g events
    | none => stretches g events
  | .standaloneTag kind attributes :: events =>
    match g.writtenName? kind with
    | some name => .single name attributes :: stretches g events
    | none => stretches g events
  | .endTag kind :: events =>
    match g.writtenName? kind with
    | some name => .ending name :: stretches g events
    | none => stretches g events
  | .text content :: events => Stretch.behind content.toList (stretches g events)

def tagStretch? (g : Grammar) : Event → Option Stretch
  | .startTag kind attributes => (g.writtenName? kind).map (.start · attributes)
  | .standaloneTag kind attributes => (g.writtenName? kind).map (.single · attributes)
  | .endTag kind => (g.writtenName? kind).map .ending
  | .text _ => none

theorem stretches_cons_cases (g : Grammar) (event : Event) (events : List Event) :
    (∃ content : String, stretches g (event :: events) = Stretch.behind content.toList (stretches g events))
      ∨
    stretches g (event :: events) = (event.tagStretch? g).toList ++ stretches g events := by
  cases event with
  | text content => exact .inl ⟨content, rfl⟩
  | startTag kind attributes | standaloneTag kind attributes | endTag kind =>
    right
    simp only [stretches, tagStretch?]
    cases g.writtenName? kind <;> rfl

end Event

namespace MarkupBuilder

def charsBefore (b : MarkupBuilder) (ss : List Stretch) : List Char :=
  b.written.toList ++ if b.inText then Stretch.charsInText ss else ss.flatMap Stretch.chars

variable {g : Grammar}

theorem attributeText_toList (a : Attribute) : (attributeText a).toList = Stretch.attributeChars a := by
  simp [attributeText, Stretch.attributeChars, Text.encodeKeepingReferences]

theorem flatMap_attributeText (attributes : List Attribute) :
    (attributes.map attributeText).flatMap String.toList = attributes.flatMap Stretch.attributeChars := by
  simp [List.flatMap_map, attributeText_toList]

theorem endText_toList (b : MarkupBuilder) :
    b.endText.written.toList = b.written.toList ++ if b.inText then Text.sectionEnd else [] := by
  unfold endText
  split
  . simp [Text.sectionEnd]
  . simp

theorem charsBefore_tag (b : MarkupBuilder) (s : Stretch) (ss : List Stretch) (h : ∀ pieces, s ≠ .run pieces) :
    b.charsBefore (s :: ss) = b.endText.written.toList ++ (s.chars ++ ss.flatMap Stretch.chars) := by
  rw [endText_toList]
  unfold charsBefore
  cases s with
  | run pieces => exact absurd rfl (h pieces)
  | start name attributes => split <;> simp [Stretch.charsInText]
  | single name attributes => split <;> simp [Stretch.charsInText]
  | ending name => split <;> simp [Stretch.charsInText]

theorem endText_inText (b : MarkupBuilder) : b.endText.inText = false := by
  unfold endText
  split
  . rfl
  . next h => simpa using h

theorem charsInText_behind (content : List Char) (ss : List Stretch) :
    Stretch.charsInText (Stretch.behind content ss) = Text.encodeCDataChars content ++ Stretch.charsInText ss := by
  rcases ss with _ | ⟨_ | _ | _ | _, ss⟩ <;> simp [Stretch.behind, Stretch.charsInText]

theorem chars_behind (content : List Char) (ss : List Stretch) :
    (Stretch.behind content ss).flatMap Stretch.chars
      =
    Text.sectionStart ++ Stretch.charsInText (Stretch.behind content ss) := by
  rcases ss with _ | ⟨_ | _ | _ | _, ss⟩ <;> simp [Stretch.behind, Stretch.charsInText, Stretch.chars]

theorem add_charsBefore (b : MarkupBuilder) (event : Event) (events : List Event) :
    (b.add g event).charsBefore (Event.stretches g events) = b.charsBefore (Event.stretches g (event :: events)) := by
  cases event with
  | startTag kind attributes =>
    simp only [add, Event.stretches]
    cases g.writtenName? kind with
    | none => rfl
    | some name =>
      dsimp only
      rw [charsBefore_tag b _ _ (by simp)]
      simp [charsBefore, tag, put, endText_inText, flatMap_attributeText, Stretch.chars]
  | standaloneTag kind attributes =>
    simp only [add, Event.stretches]
    cases g.writtenName? kind with
    | none => rfl
    | some name =>
      dsimp only
      rw [charsBefore_tag b _ _ (by simp)]
      simp [charsBefore, tag, put, endText_inText, flatMap_attributeText, Stretch.chars]
  | endTag kind =>
    simp only [add, Event.stretches]
    cases g.writtenName? kind with
    | none => rfl
    | some name =>
      dsimp only
      rw [charsBefore_tag b _ _ (by simp)]
      simp [charsBefore, put, endText_inText, Stretch.chars]
  | text content =>
    simp only [add, Event.stretches, charsBefore, put]
    rw [chars_behind, charsInText_behind]
    by_cases h : b.inText
    . simp [h, Text.encodeCData]
    . have hstart : "<![CDATA[".toList = Text.sectionStart := rfl
      simp only [h, Bool.false_eq_true, ↓reduceIte, Text.encodeCData, String.toList_append, String.toList_ofList,
        List.append_assoc, hstart]

theorem markupOf_toList (events : List Event) :
    (Event.markupOf g events).toList = (Event.stretches g events).flatMap Stretch.chars := by
  have hall (b : MarkupBuilder) :
      (events.foldl (add g) b).endText.written.toList = b.charsBefore (Event.stretches g events) := by
    induction events generalizing b with
    | nil =>
      rw [List.foldl_nil, endText_toList]
      unfold charsBefore
      simp [Event.stretches, Stretch.charsInText]
    | cons event events ih =>
      rw [List.foldl_cons, ih, add_charsBefore]
  unfold Event.markupOf
  rw [hall]
  simp [charsBefore]

end MarkupBuilder

namespace Text

def IsName (s : String) : Prop :=
  s.toList ≠ [] ∧ s.toList.all Char.isAlphanum

instance (s : String) : Decidable (IsName s) :=
  inferInstanceAs (Decidable (_ ∧ _))

end Text

def Stretch.Named : Stretch → Prop
  | .start name attributes | .single name attributes =>
    Text.IsName name ∧ ∀ a ∈ attributes, Text.IsName a.name
  | .ending name => Text.IsName name
  | .run _ => True

namespace MarkupReader

open Text

theorem takeWhile_append_of_head {p : Char → Bool} {cs : List Char} (h : ∀ c ∈ cs, p c) (rest : List Char)
    (hrest : ∀ c ∈ rest.head?, p c = false) :
    (cs ++ rest).takeWhile p = cs ∧ (cs ++ rest).dropWhile p = rest := by
  rw [List.takeWhile_append_of_pos h, List.dropWhile_append_of_pos h]
  cases rest with
  | nil => simp
  | cons c rest => simp [hrest c rfl]

theorem readName?_append {name : String} (h : IsName name) {rest : List Char}
    (hrest : ∀ c ∈ rest.head?, c.isAlphanum = false) : readName? (name.toList ++ rest) = some (name, rest) := by
  have hsplit := takeWhile_append_of_head (List.all_eq_true.mp h.2) rest hrest
  unfold readName?
  dsimp only
  rw [hsplit.1, hsplit.2, if_neg (by simpa using h.1), String.ofList_toList]

theorem readValue?_append (value : String) (rest : List Char) :
    readValue? (encodeKeepingReferencesChars value.toList ++ '"' :: rest) = some (decodeReferences value, rest) := by
  have hplain : ∀ c ∈ encodeKeepingReferencesChars value.toList, (c != '"') = true := by
    intro c hc
    simpa using quote_not_mem_encodeKeepingReferencesChars value.toList c hc
  have hsplit := takeWhile_append_of_head hplain ('"' :: rest) (by simp)
  unfold readValue?
  rw [hsplit.1, hsplit.2, show '"' :: rest = ['"'] ++ rest from rfl, dropStart?_append, Option.map_some,
    show String.ofList (encodeKeepingReferencesChars value.toList) = encodeKeepingReferences value from rfl,
    decodeReferences_encodeKeepingReferences]

theorem readAttribute?_append {a : Attribute} (h : IsName a.name) (rest : List Char) :
    readAttribute? ((Stretch.attributeChars a).tail ++ rest) = some (a.decoded, rest) := by
  have hchars : (Stretch.attributeChars a).tail ++ rest
      = a.name.toList ++ (['=', '"'] ++ (encodeKeepingReferencesChars a.value.toList ++ '"' :: rest)) := by
    simp [Stretch.attributeChars]
  unfold readAttribute?
  rw [hchars, readName?_append h (by simp)]
  simp only [Option.bind_eq_bind, Option.bind_some]
  rw [dropStart?_append, Option.bind_some, readValue?_append]
  rfl

theorem readAttributes?_append {attributes : List Attribute} (h : ∀ a ∈ attributes, IsName a.name)
    (single : Bool) (rest : List Char) :
    readAttributes? (attributes.flatMap Stretch.attributeChars ++ ((if single then ['/', '>'] else ['>']) ++ rest))
      =
    some (attributes.map Attribute.decoded, single, rest) := by
  induction attributes with
  | nil =>
    cases single with
    | false => simp [readAttributes?]
    | true => simp [readAttributes?, dropStart?]
  | cons a attributes ih =>
    specialize ih fun a' hmem => h a' (by simp [hmem])
    have hchars : Stretch.attributeChars a = ' ' :: (Stretch.attributeChars a).tail := rfl
    rw [List.flatMap_cons, List.append_assoc, hchars, List.cons_append, readAttributes?]
    rw [if_neg (by decide), if_neg (by decide), if_pos rfl]
    split
    . next a' rest' hattribute =>
      rw [readAttribute?_append (h a (by simp))] at hattribute
      cases hattribute
      rw [ih]
      rfl
    . next hnone =>
      rw [readAttribute?_append (h a (by simp))] at hnone
      cases hnone

theorem not_prefix_name {name : String} (hname : IsName name) {c : Char} (hc : c.isAlphanum = false)
    (start rest : List Char) : ¬ (c :: start) <+: name.toList ++ rest := by
  rcases hname with ⟨hne, hall⟩
  cases hcs : name.toList with
  | nil => exact absurd hcs hne
  | cons d cs =>
    rw [List.cons_append, List.cons_prefix_cons]
    rintro ⟨rfl, -⟩
    have := List.all_eq_true.mp hall c (by simp [hcs])
    simp [hc] at this

theorem not_isAlphanum_head {attributes : List Attribute} (single : Bool) (rest : List Char) :
    ∀ c ∈ (attributes.flatMap Stretch.attributeChars ++ ((if single then ['/', '>'] else ['>']) ++ rest)).head?,
      c.isAlphanum = false := by
  cases attributes with
  | nil => cases single <;> simp
  | cons a attributes => simp [Stretch.attributeChars]

theorem readTag?_append {name : String} (hname : IsName name) {attributes : List Attribute}
    (hattributes : ∀ a ∈ attributes, IsName a.name) (single : Bool) (rest : List Char) :
    readTag? (name.toList ++ (attributes.flatMap Stretch.attributeChars
        ++ ((if single then ['/', '>'] else ['>']) ++ rest)))
      =
    some (if single then .single name (attributes.map Attribute.decoded)
      else .start name (attributes.map Attribute.decoded), rest) := by
  unfold readTag?
  rw [dropStart?_eq_none (not_prefix_name hname (by decide) [] _),
    readName?_append hname (not_isAlphanum_head single rest)]
  simp only [Option.bind_eq_bind, Option.bind_some]
  rw [readAttributes?_append hattributes]
  rfl

theorem readTag?_ending {name : String} (hname : IsName name) (rest : List Char) :
    readTag? (['/'] ++ (name.toList ++ (['>'] ++ rest))) = some (.ending name, rest) := by
  unfold readTag?
  rw [dropStart?_append]
  dsimp only
  rw [readName?_append hname (by simp)]
  simp only [Option.bind_eq_bind, Option.bind_some]
  rw [dropStart?_append]
  rfl

variable {s : Stretch}

theorem not_sectionStart_chars (h : s.Named) (hs : ∀ pieces, s ≠ .run pieces) (rest : List Char) :
    ¬ sectionStart <+: s.chars ++ rest := by
  rw [sectionStart_eq]
  cases s with
  | run pieces => exact absurd rfl (hs pieces)
  | ending name => simp [Stretch.chars]
  | start name attributes =>
    simp only [Stretch.chars, List.cons_append, List.append_assoc, List.cons_prefix_cons, true_and]
    exact not_prefix_name h.1 (by decide) _ _
  | single name attributes =>
    simp only [Stretch.chars, List.cons_append, List.append_assoc, List.cons_prefix_cons, true_and]
    exact not_prefix_name h.1 (by decide) _ _

theorem read?_chars (h : s.Named) (hs : ∀ pieces, s ≠ .run pieces) (rest : List Char) :
    read? (s.chars ++ rest) = some (s.token, rest) := by
  unfold read?
  rw [dropStart?_eq_none (not_sectionStart_chars h hs rest)]
  cases s with
  | run pieces => exact absurd rfl (hs pieces)
  | ending name =>
    have htag := readTag?_ending h rest
    have hchars : (Stretch.ending name).chars ++ rest = ['<'] ++ (['/'] ++ (name.toList ++ (['>'] ++ rest))) := by
      simp [Stretch.chars]
    rw [hchars, dropStart?_append]
    exact htag
  | start name attributes =>
    have htag := readTag?_append h.1 h.2 false rest
    have hchars : (Stretch.start name attributes).chars ++ rest
        = ['<'] ++ (name.toList ++ (attributes.flatMap Stretch.attributeChars ++ (['>'] ++ rest))) := by
      simp [Stretch.chars]
    rw [hchars, dropStart?_append]
    exact htag
  | single name attributes =>
    have htag := readTag?_append h.1 h.2 true rest
    have hchars : (Stretch.single name attributes).chars ++ rest
        = ['<'] ++ (name.toList ++ (attributes.flatMap Stretch.attributeChars ++ (['/', '>'] ++ rest))) := by
      simp [Stretch.chars]
    rw [hchars, dropStart?_append]
    exact htag

theorem read?_run (pieces : List (List Char)) (rest : List Char) :
    read? ((Stretch.run pieces).chars ++ rest)
      =
    (readText? ((pieces.map encodeCDataChars).flatten ++ (sectionEnd ++ rest))).map fun (text, rest) =>
      (.text (String.ofList text), rest) := by
  have hchars : (Stretch.run pieces).chars ++ rest
      = sectionStart ++ ((pieces.map encodeCDataChars).flatten ++ (sectionEnd ++ rest)) := by
    simp [Stretch.chars]
  unfold read?
  rw [hchars, dropStart?_append]

theorem readAll?_of_read? {cs rest : List Char} {t : Token} (h : read? cs = some (t, rest)) :
    readAll? cs = (readAll? rest).map (t :: ·) := by
  have hne : cs ≠ [] := by
    rintro rfl
    exact absurd (length_of_read? h) (by simp)
  rw [readAll?, if_neg hne]
  split
  . next t' rest' h' =>
    rw [h] at h'
    cases h'
    rfl
  . next h' =>
    rw [h] at h'
    cases h'

theorem readAll?_of_read?_eq_none {cs : List Char} (hne : cs ≠ []) (h : read? cs = none) : readAll? cs = none := by
  rw [readAll?, if_neg hne]
  split
  . next t' rest' h' =>
    rw [h] at h'
    cases h'
  . rfl

end MarkupReader

end NoteMarkup
