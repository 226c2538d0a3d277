import NoteMarkup.Document.Xml
import NoteMarkup.Proofs.Skipping
import NoteMarkup.Proofs.Stretches
import NoteMarkup.Proofs.XmlReader

/-!
This module contains what a reader gets out of the XML of a document: the reports of a walk over it, one token each,
with neighbouring texts joined. The layout does not matter, since there is white space only in front of tags.
-/

namespace NoteMarkup

def Token.before : Token → List Token → List Token
  | .text content, .text more :: ts => .text (content ++ more) :: ts
  | t, ts => t :: ts

def Token.joined (ts : List Token) : List Token :=
  ts.foldr Token.before []

namespace Token

theorem before_of_not_isText {t : Token} (h : t.isText = false) (ts : List Token) : t.before ts = t :: ts := by
  cases t with
  | text content => cases h
  | _ => rfl

theorem before_snoc {last : Token} (hlast : last.isText = false) (t : Token) (ts : List Token) :
    t.before (ts ++ [last]) = t.before ts ++ [last] := by
  cases ts with
  | nil =>
    cases t <;> cases last <;> first | rfl | cases hlast
  | cons first ts => cases t <;> cases first <;> rfl

theorem joined_snoc {last : Token} (hlast : last.isText = false) (ts : List Token) :
    joined (ts ++ [last]) = joined ts ++ [last] := by
  induction ts with
  | nil => exact before_of_not_isText hlast []
  | cons t ts ih =>
    unfold joined at ih ⊢
    rw [List.cons_append, List.foldr_cons, ih, before_snoc hlast, List.foldr_cons]

end Token

namespace Report

def token : Report → Token
  | .blockStart block => .start block.kind.exportName (block.list?.toList.map fun value => ⟨"list", value⟩)
  | .blockEnd block => .ending block.kind.exportName
  | .inlineStart element => .start element.kind.name element.attributes
  | .inlineEnd element => .ending element.kind.name
  | .text content => .text content

def written : Report → String
  | .blockStart block =>
    XmlBuilder.startTag block.kind.exportName (block.list?.toList.map fun value => ⟨"list", value⟩)
  | .blockEnd block => XmlBuilder.endTag block.kind.exportName
  | .inlineStart element => XmlBuilder.startTag element.kind.name element.attributes
  | .inlineEnd element => XmlBuilder.endTag element.kind.name
  | .text content => "<![CDATA[" ++ Text.encodeCData content ++ "]]>"

end Report

namespace XmlReader

open Text
open MarkupReader (readName?_append takeWhile_append_of_head not_prefix_name)

theorem decodeNamed_cons {c : Char} (h : c ≠ '&') (cs : List Char) : decodeNamed (c :: cs) = c :: decodeNamed cs := by
  simp [decodeNamed, h]

theorem decodeNamed_attributeChar (c : Char) (cs : List Char) :
    decodeNamed (attributeChar c ++ cs) = c :: decodeNamed cs := by
  by_cases hamp : c = '&'
  . subst hamp
    rfl
  . unfold attributeChar
    rw [if_neg hamp]
    repeat' split
    all_goals first | exact decodeNamed_cons hamp cs | (subst_vars; rfl)

theorem decodeNamed_encodeAttributeChars (cs : List Char) : decodeNamed (encodeAttributeChars cs) = cs := by
  induction cs with
  | nil => rfl
  | cons c cs ih =>
    unfold encodeAttributeChars at ih ⊢
    rw [List.flatMap_cons, decodeNamed_attributeChar, ih]

theorem not_mem_attributeChar {d : Char} (hd : d ∈ ['<', '>', '"']) (c : Char) : d ∉ attributeChar c := by
  simp only [List.mem_cons, List.not_mem_nil, or_false] at hd
  unfold attributeChar
  repeat' split
  all_goals rcases hd with rfl | rfl | rfl <;> simp_all [eq_comm]

theorem not_mem_encodeAttributeChars {d : Char} (hd : d ∈ ['<', '>', '"']) (cs : List Char) :
    d ∉ encodeAttributeChars cs := by
  unfold encodeAttributeChars
  rw [List.mem_flatMap]
  rintro ⟨c, -, hc⟩
  exact not_mem_attributeChar hd c hc

theorem quote_not_mem_encodeAttributeChars (cs : List Char) : ∀ c ∈ encodeAttributeChars cs, (c != '"') = true :=
  bne_of_not_mem (not_mem_encodeAttributeChars (by decide) cs)

def IsAttributeName (name : String) : Prop :=
  name.toList.all isNameChar

instance (name : String) : Decidable (IsAttributeName name) :=
  inferInstanceAs (Decidable (_ = _))

theorem isAttributeName_of_isName {name : String} (h : IsName name) : IsAttributeName name := by
  apply List.all_eq_true.mpr
  intro c hc
  simp [isNameChar, List.all_eq_true.mp h.2 c hc]

def attributeChars (a : Attribute) : List Char :=
  ' ' :: (a.name.toList ++ ('=' :: '"' :: (encodeAttributeChars a.value.toList ++ ['"'])))

theorem readAttribute?_append {a : Attribute} (h : IsAttributeName a.name) (rest : List Char) :
    readAttribute? ((attributeChars a).tail ++ rest) = some (a, rest) := by
  have hchars : (attributeChars a).tail ++ rest
      = a.name.toList ++ (['=', '"'] ++ (encodeAttributeChars a.value.toList ++ '"' :: rest)) := by
    simp [attributeChars]
  have hname := takeWhile_append_of_head (List.all_eq_true.mp h)
    (['=', '"'] ++ (encodeAttributeChars a.value.toList ++ '"' :: rest)) (by simp; decide)
  have hvalue := takeWhile_append_of_head (quote_not_mem_encodeAttributeChars a.value.toList) ('"' :: rest) (by simp)
  unfold readAttribute? readValue?
  rw [hchars, hname.1, hname.2, dropStart?_append]
  simp only [Option.bind_eq_bind, Option.bind_some]
  rw [hvalue.1, hvalue.2, show '"' :: rest = ['"'] ++ rest from rfl, dropStart?_append,
    decodeNamed_encodeAttributeChars]
  simp

theorem readAttributes?_append {attributes : List Attribute} (h : ∀ a ∈ attributes, IsAttributeName a.name)
    (rest : List Char) :
    readAttributes? (attributes.flatMap attributeChars ++ '>' :: rest) = some (attributes, rest) := by
  induction attributes with
  | nil => simp [readAttributes?]
  | cons a attributes ih =>
    rw [List.forall_mem_cons] at h
    have hchars : attributeChars a = ' ' :: (attributeChars a).tail := rfl
    rw [List.flatMap_cons, List.append_assoc, hchars, List.cons_append, readAttributes?]
    rw [if_neg (by decide), if_pos (by decide)]
    split
    . next a' rest' hattribute =>
      rw [readAttribute?_append h.1] at hattribute
      cases hattribute
      rw [ih h.2]
      rfl
    . next hnone =>
      rw [readAttribute?_append h.1] at hnone
      cases hnone

theorem startTag_toList (name : String) (attributes : List Attribute) (rest : List Char) :
    (XmlBuilder.startTag name attributes).toList ++ rest
      =
    ['<'] ++ (name.toList ++ (attributes.flatMap attributeChars ++ '>' :: rest)) := by
  have hattribute (a : Attribute) :
      (" " ++ a.name ++ "=\"" ++ encodeAttribute a.value ++ "\"").toList = attributeChars a := by
    simp [attributeChars, encodeAttribute]
  simp [XmlBuilder.startTag, List.flatMap_map, hattribute]

theorem endTag_toList (name : String) (rest : List Char) :
    (XmlBuilder.endTag name).toList ++ rest = ['<'] ++ (['/'] ++ (name.toList ++ (['>'] ++ rest))) := by
  simp [XmlBuilder.endTag]

theorem read?_startTag {name : String} (hname : IsName name) {attributes : List Attribute}
    (h : ∀ a ∈ attributes, IsAttributeName a.name) (rest : List Char) :
    read? ((XmlBuilder.startTag name attributes).toList ++ rest) = some (.start name attributes, rest) := by
  have hhead : ∀ c ∈ (attributes.flatMap attributeChars ++ '>' :: rest).head?, c.isAlphanum = false := by
    cases attributes <;> simp [attributeChars]
  have hsection : ¬ sectionStart <+:
      ['<'] ++ (name.toList ++ (attributes.flatMap attributeChars ++ '>' :: rest)) := by
    rw [sectionStart_eq, List.singleton_append, List.cons_prefix_cons]
    exact fun hstart => not_prefix_name hname (by decide) _ _ hstart.2
  rw [startTag_toList, read?, if_neg hsection, dropStart?_append, Option.bind_some, readTag?,
    if_neg (not_prefix_name hname (by decide) [] _), readName?_append hname hhead]
  simp only [Option.bind_eq_bind, Option.bind_some]
  rw [readAttributes?_append h]
  rfl

theorem read?_endTag {name : String} (hname : IsName name) (rest : List Char) :
    read? ((XmlBuilder.endTag name).toList ++ rest) = some (.ending name, rest) := by
  rw [endTag_toList, read?, if_neg (by simp [sectionStart_eq]), dropStart?_append, Option.bind_some, readTag?,
    if_pos (List.prefix_append _ _)]
  exact MarkupReader.readTag?_ending hname rest

theorem read?_section (cs : List Char) :
    read? (sectionStart ++ cs) = (readText? cs).map fun (text, rest) => (.text (String.ofList text), rest) := by
  rw [read?, if_pos (List.prefix_append _ _), MarkupReader.read?, dropStart?_append]

theorem bracket_of_read? {cs rest : List Char} {t : Token} (h : read? cs = some (t, rest)) :
    ∃ tail, cs = '<' :: tail := by
  by_cases hstart : sectionStart <+: cs
  . rcases hstart with ⟨inner, rfl⟩
    exact ⟨_, by rw [sectionStart_eq]; rfl⟩
  . rw [read?, if_neg hstart, Option.bind_eq_some_iff] at h
    rcases h with ⟨behindBracket, hbracket, -⟩
    exact ⟨_, eq_of_dropStart? hbracket⟩

theorem isText_of_read? {cs rest : List Char} {t : Token} (h : read? cs = some (t, rest)) :
    t.isText ↔ sectionStart <+: cs := by
  by_cases hstart : sectionStart <+: cs
  . rcases hstart with ⟨inner, rfl⟩
    rw [read?_section, Option.map_eq_some_iff] at h
    rcases h with ⟨⟨text, rest'⟩, -, heq⟩
    cases heq
    simp [Token.isText]
  . rw [read?, if_neg hstart, Option.bind_eq_some_iff] at h
    rcases h with ⟨behindBracket, -, htag⟩
    have htext : t.isText = false := by
      unfold readTag? at htag
      split at htag
      . exact MarkupReader.isText_of_readTag? htag
      . simp only [Option.bind_eq_bind, Option.pure_def, Option.bind_eq_some_iff, Prod.exists, Option.some.injEq,
          Prod.mk.injEq] at htag
        rcases htag with ⟨name, behindName, hname, attributes, behindTag, hattributes, rfl, -⟩
        rfl
    simp [hstart, htext]

theorem readAll?_blanks {blanks : List Char} (h : ∀ c ∈ blanks, isAsciiBlank c) (cs : List Char) :
    readAll? (blanks ++ cs) = readAll? cs := by
  induction blanks with
  | nil => rfl
  | cons c blanks ih =>
    rw [List.forall_mem_cons] at h
    rw [List.cons_append, readAll?, if_pos h.1, ih h.2]

theorem readAll?_bracket (tail : List Char) :
    readAll? ('<' :: tail) = (read? ('<' :: tail)).bind fun (t, rest) => (readAll? rest).map (t :: ·) := by
  rw [readAll?, if_neg (by decide)]
  split
  . next t rest hread => simp [hread]
  . next hread => simp [hread]

theorem readAll?_of_read? {cs rest : List Char} {t : Token} (h : read? cs = some (t, rest)) :
    readAll? cs = (readAll? rest).map (t :: ·) := by
  rcases bracket_of_read? h with ⟨tail, rfl⟩
  rw [readAll?_bracket, h]
  rfl

theorem readAll?_section (cs : List Char) :
    readAll? (sectionStart ++ cs)
      =
    (readText? cs).bind fun (text, rest) => (readAll? rest).map (.text (String.ofList text) :: ·) := by
  have hbracket : sectionStart ++ cs = '<' :: (sectionStart.tail ++ cs) := by
    simp [sectionStart_eq]
  rw [hbracket, readAll?_bracket, ← hbracket, read?_section, Option.bind_map]
  rfl

/-- Whether the tokens are those of the characters, and begin with a text exactly if the characters begin with a
section, so that a section in front of them is read together with it. -/
structure Reads (cs : List Char) (ts : List Token) : Prop where
  read : readAll? cs = some ts
  begins : sectionStart <+: cs ↔ ∃ t ∈ ts.head?, t.isText

theorem reads_blanks {blanks : List Char} (h : ∀ c ∈ blanks, isAsciiBlank c) : Reads blanks [] where
  read := by
    have := readAll?_blanks h []
    rwa [List.append_nil, readAll?] at this
  begins := by
    constructor
    . intro hstart
      have := h '<' (hstart.subset (by decide))
      exact absurd this (by decide)
    . rintro ⟨t, ht, -⟩
      cases ht

theorem Reads.tag {rest : List Char} {ts : List Token} (h : Reads rest ts) {blanks : List Char}
    (hblanks : ∀ c ∈ blanks, isAsciiBlank c) {cs : List Char} {t : Token} (hread : read? cs = some (t, rest))
    (ht : t.isText = false) : Reads (blanks ++ cs) (t.before ts) where
  read := by
    rw [readAll?_blanks hblanks, readAll?_of_read? hread, h.read, Token.before_of_not_isText ht]
    rfl
  begins := by
    rw [Token.before_of_not_isText ht]
    constructor
    . intro hstart
      exfalso
      cases blanks with
      | nil =>
        have := (isText_of_read? hread).mpr hstart
        rw [ht] at this
        cases this
      | cons c blanks =>
        rw [sectionStart_eq, List.cons_append, List.cons_prefix_cons] at hstart
        have := hblanks c (by simp)
        rw [← hstart.1] at this
        exact absurd this (by decide)
    . rintro ⟨t', ht', htext⟩
      cases ht'
      rw [ht] at htext
      cases htext

theorem Reads.text {rest : List Char} {ts : List Token} (h : Reads rest ts) (content : String) :
    Reads (sectionStart ++ (encodeCDataChars content.toList ++ (sectionEnd ++ rest)))
      (Token.before (.text content) ts) where
  read := by
    by_cases hstart : sectionStart <+: rest
    . -- The reader goes on in the next section, and what it reads there belongs to the same text.
      rcases h.begins.mp hstart with ⟨first, hfirst, htext⟩
      rcases hstart with ⟨inner, rfl⟩
      have hread := h.read
      rw [readAll?_section, Option.bind_eq_some_iff] at hread
      rcases hread with ⟨⟨more, behind⟩, hmore, hbehind⟩
      rw [Option.map_eq_some_iff] at hbehind
      rcases hbehind with ⟨ts, hts, rfl⟩
      rw [readAll?_section, readText?_append, readText?_between, hmore]
      simp [hts, Token.before]
    . rw [readAll?_section, readText?_encodeCDataChars hstart, Option.bind_some]
      dsimp only
      rw [h.read, Option.map_some, String.ofList_toList]
      rcases ts with _ | ⟨t, ts⟩
      . rfl
      . have ht : ¬ t.isText := fun htext => hstart (h.begins.mpr ⟨t, rfl, htext⟩)
        cases t with
        | text more => exact absurd rfl ht
        | _ => rfl
  begins := by
    refine ⟨fun _ => ?_, fun _ => List.prefix_append _ _⟩
    rcases ts with _ | ⟨t, ts⟩
    . exact ⟨_, rfl, rfl⟩
    . cases t <;> exact ⟨_, rfl, rfl⟩

theorem text_toList (content : String) (rest : List Char) :
    (Report.text content).written.toList ++ rest
      =
    sectionStart ++ (encodeCDataChars content.toList ++ (sectionEnd ++ rest)) := by
  unfold Report.written encodeCData sectionStart sectionEnd
  simp only [String.toList_append, String.toList_ofList, List.append_assoc]

theorem isName_exportName (k : BlockKind) : IsName k.exportName := by
  cases k <;> decide

theorem isName_name (k : InlineKind) : IsName k.name := by
  cases k <;> decide

theorem read?_written {r : Report} (ht : r.token.isText = false)
    (h : ∀ element, r = .inlineStart element → ∀ a ∈ element.attributes, IsAttributeName a.name)
    (rest : List Char) : read? (r.written.toList ++ rest) = some (r.token, rest) := by
  cases r with
  | blockStart block =>
    apply read?_startTag (isName_exportName block.kind)
    intro a ha
    rw [List.mem_map] at ha
    rcases ha with ⟨value, -, rfl⟩
    exact (by decide : IsAttributeName "list")
  | blockEnd block => exact read?_endTag (isName_exportName block.kind) rest
  | inlineStart element => exact read?_startTag (isName_name element.kind) (h element rfl) rest
  | inlineEnd element => exact read?_endTag (isName_name element.kind) rest
  | text content => cases ht

theorem isAsciiBlank_of_mem_lineStart {pretty : Bool} {depth : Nat} {c : Char}
    (h : c ∈ (XmlBuilder.lineStart pretty depth).toList) : isAsciiBlank c := by
  unfold XmlBuilder.lineStart at h
  split at h
  . simp only [String.toList_append, List.mem_append, String.toList_join, List.mem_flatMap, List.mem_replicate] at h
    rcases h with h | ⟨_, ⟨-, rfl⟩, h⟩
    . exact List.all_eq_true.mp (by decide : "\n".toList.all isAsciiBlank) c h
    . exact List.all_eq_true.mp (by decide : "  ".toList.all isAsciiBlank) c h
  . cases h

theorem isAsciiBlank_lineEnd (pretty : Bool) : ∀ c ∈ (if pretty then "\n" else "").toList, isAsciiBlank c := by
  rw [← List.all_eq_true]
  cases pretty <;> decide

theorem exists_layout (pretty : Bool) (b : XmlBuilder) (r : Report) :
    ∃ layout : String,
      (∀ c ∈ layout.toList, isAsciiBlank c)
        ∧ (r.token.isText → layout = "")
        ∧ ((XmlBuilder.visitor pretty).tell b r).written = b.written ++ (layout ++ r.written) := by
  have hnone : ∀ c ∈ "".toList, isAsciiBlank c := by simp
  cases r with
  | blockStart block =>
    refine ⟨XmlBuilder.lineStart pretty b.nested.length, fun _ hc => isAsciiBlank_of_mem_lineStart hc, ?_, rfl⟩
    rintro ⟨⟩
  | blockEnd block =>
    simp only [Visitor.tell, XmlBuilder.visitor, Report.written]
    split
    . refine ⟨_, fun _ hc => isAsciiBlank_of_mem_lineStart hc, ?_, by rw [String.append_assoc]⟩
      rintro ⟨⟩
    . refine ⟨"", hnone, fun _ => rfl, by rw [String.append_assoc]⟩
  | inlineStart element => exact ⟨"", hnone, fun _ => rfl, by simp [Visitor.tell, XmlBuilder.visitor, Report.written]⟩
  | inlineEnd element => exact ⟨"", hnone, fun _ => rfl, by simp [Visitor.tell, XmlBuilder.visitor, Report.written]⟩
  | text content =>
    exact ⟨"", hnone, fun _ => rfl, by simp [Visitor.tell, XmlBuilder.visitor, Report.written, String.append_assoc]⟩

theorem exists_reads (pretty : Bool) (b : XmlBuilder) {reports : List Report}
    (h : ∀ element, .inlineStart element ∈ reports → ∀ a ∈ element.attributes, IsAttributeName a.name) :
    ∃ cs, ((reports.foldl (XmlBuilder.visitor pretty).tell b).finish pretty).toList = b.written.toList ++ cs
      ∧ Reads cs (Token.joined (reports.map Report.token ++ [.ending "root"])) := by
  induction reports generalizing b with
  | nil =>
    let layout := if b.nested.head?.getD false then XmlBuilder.lineStart pretty 0 else ""
    have hlayout : ∀ c ∈ layout.toList, isAsciiBlank c := by
      dsimp only [layout]
      split
      . exact fun _ hc => isAsciiBlank_of_mem_lineStart hc
      . simp
    refine ⟨layout.toList ++ ((XmlBuilder.endTag "root").toList ++ (if pretty then "\n" else "").toList), ?_, ?_⟩
    . have hroot : XmlBuilder.endTag "root" = "</root>" := by decide
      rw [hroot, List.foldl_nil]
      unfold XmlBuilder.finish
      simp only [String.toList_append, List.append_assoc, layout]
    . exact (reads_blanks (isAsciiBlank_lineEnd pretty)).tag hlayout (read?_endTag (by decide) _) rfl
  | cons r reports ih =>
    rcases ih ((XmlBuilder.visitor pretty).tell b r) (fun element hmem => h element (by simp [hmem])) with
      ⟨cs, hcs, hreads⟩
    rcases exists_layout pretty b r with ⟨layout, hblank, htext, hwritten⟩
    refine ⟨layout.toList ++ (r.written.toList ++ cs), ?_, ?_⟩
    . rw [List.foldl_cons, hcs, hwritten]
      simp
    . show Reads _ (r.token.before (Token.joined (reports.map Report.token ++ [.ending "root"])))
      cases ht : r.token.isText with
      | false =>
        apply hreads.tag hblank ?_ ht
        apply read?_written ht
        rintro element rfl
        exact h element (by simp)
      | true =>
        rw [htext ht]
        cases r with
        | text content =>
          rw [text_toList]
          exact hreads.text content
        | _ => cases ht

theorem skipDeclaration?_declaration (cs : List Char) :
    skipDeclaration? (XmlBuilder.declaration.toList ++ cs) = some cs := by
  have hchars : XmlBuilder.declaration.toList
      = "<?xml".toList ++ (" version=\"1.0\" encoding=\"utf-8\"?".toList ++ ['>']) := by decide
  have hplain : (" version=\"1.0\" encoding=\"utf-8\"?".toList).all (· != '>') := by decide
  unfold skipDeclaration?
  rw [hchars, List.append_assoc, dropStart?_append, List.append_assoc]
  dsimp only [Option.bind_some]
  rw [(takeWhile_append_of_head (List.all_eq_true.mp hplain) _ (by simp)).2, dropStart?_append]

theorem inRoot?_of_joined (ts : List Token) :
    inRoot? (.start "root" [] :: Token.joined (ts ++ [.ending "root"])) = some (Token.joined ts) := by
  rw [Token.joined_snoc rfl]
  simp [inRoot?]

end XmlReader

namespace Node

open XmlReader

theorem toXml_eq (pretty : Bool) (name : String) (attributes : List Attribute) (children : List Node) :
    toXml (.element name attributes children) pretty
      =
    .ok (((reportsOfBlocks children).foldl (XmlBuilder.visitor pretty).tell (.start pretty)).finish pretty) := by
  have henters : (XmlBuilder.visitor pretty).Enters := by
    constructor <;> intros <;> rfl
  unfold toXml
  rw [Visitor.visitDocument_eq henters]
  rfl

theorem exists_toXml (pretty : Bool) (name : String) (attributes : List Attribute) {children : List Node}
    (h : ∀ element ∈ inlinesAll children, ∀ a ∈ element.attributes, IsAttributeName a.name) :
    ∃ xml, toXml (.element name attributes children) pretty = .ok xml
      ∧ readDocument? xml = some (Token.joined ((reportsOfBlocks children).map Report.token)) := by
  have hnames : ∀ element, .inlineStart element ∈ reportsOfBlocks children →
      ∀ a ∈ element.attributes, IsAttributeName a.name :=
    fun element hmem => h element (mem_inlinesAll_of_reportsOfBlocks children hmem)
  rcases exists_reads pretty (.start pretty) hnames with ⟨cs, hcs, hreads⟩
  refine ⟨_, toXml_eq pretty name attributes children, ?_⟩
  have htag : read? ((XmlBuilder.startTag "root" []).toList ++ cs) = some (.start "root" [], cs) :=
    read?_startTag (by decide) (by simp) cs
  have hall := (hreads.tag (isAsciiBlank_lineEnd pretty) htag rfl).read
  have hroot : XmlBuilder.startTag "root" [] = "<root>" := by decide
  have hstart : (XmlBuilder.start pretty).written.toList ++ cs
      = XmlBuilder.declaration.toList
        ++ ((if pretty then "\n" else "").toList ++ ((XmlBuilder.startTag "root" []).toList ++ cs)) := by
    rw [hroot]
    unfold XmlBuilder.start
    simp only [String.toList_append, List.append_assoc]
  unfold readDocument?
  rw [hcs, hstart, skipDeclaration?_declaration]
  simp only [Option.bind_eq_bind, Option.bind_some]
  rw [hall, Option.bind_some, Token.before_of_not_isText rfl, inRoot?_of_joined]

theorem xml_read_back (pretty : Bool) (name : String) (attributes : List Attribute) {children : List Node}
    (h : ∀ element ∈ inlinesAll children, ∀ a ∈ element.attributes, IsAttributeName a.name) :
    ∃ xml log,
      toXml (.element name attributes children) pretty = .ok xml
        ∧ (Visitor.logging (fun _ => false) (fun _ => false)).visitDocument (.element name attributes children) #[]
          = .ok log
        ∧ readDocument? xml = some (Token.joined (log.toList.map Report.token)) := by
  rcases exists_toXml pretty name attributes h with ⟨xml, hxml, hread⟩
  exact ⟨xml, _, hxml, Visitor.log_eq name attributes children, hread⟩

def troublesome : List Node :=
  [.element "text" [⟨"list", "disc"⟩]
    [.text "a]]>b<", .text "]]", .element "span" [] [.text ">"],
      .element "a" [⟨"href", "/?x=\"1\"&amp;y<"⟩, ⟨"data-x_1", ""⟩] [.text "</a>&lt;"],
      .element "quote" [] [.text " "], .text "behind"]]

theorem troublesome_xml_read_back :
    (∀ element ∈ inlinesAll troublesome, ∀ a ∈ element.attributes, IsAttributeName a.name)
      ∧ ∃ xml log,
          toXml (.element "notes" [] troublesome) true = .ok xml
            ∧ (Visitor.logging (fun _ => false) (fun _ => false)).visitDocument (.element "notes" [] troublesome) #[]
              = .ok log
            ∧ readDocument? xml = some (Token.joined (log.toList.map Report.token)) := by
  have h : ∀ element ∈ inlinesAll troublesome, ∀ a ∈ element.attributes, IsAttributeName a.name := by
    decide
  exact ⟨h, xml_read_back true "notes" [] h⟩

end Node

end NoteMarkup
