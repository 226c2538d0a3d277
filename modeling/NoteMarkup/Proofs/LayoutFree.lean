import NoteMarkup.Proofs.XmlRoundTrip

/-!
This module contains XML without its layout, the newlines and spaces outside of tags and sections. Tags and sections
stay as they are, whatever is in them.
-/

namespace NoteMarkup

namespace XmlLayout

open Text XmlReader
open MarkupReader (not_prefix_name)

mutual

def outside : List Char → List Char
  | [] => []
  | c :: cs =>
    if sectionStart <+: c :: cs then c :: inSection cs
    else if c = '<' then c :: inTag cs
    else if c = '\n' ∨ c = ' ' then outside cs
    else c :: outside cs

def inTag : List Char → List Char
  | [] => []
  | c :: cs => if c = '>' then c :: outside cs else c :: inTag cs

def inSection : List Char → List Char
  | [] => []
  | ']' :: ']' :: '>' :: cs => ']' :: ']' :: '>' :: outside cs
  | c :: cs => c :: inSection cs

end

def withoutLayout (xml : String) : String :=
  String.ofList (outside xml.toList)

/-- Whether nothing of the characters is layout, whatever is behind them. -/
def Kept (cs : List Char) : Prop :=
  ∀ rest, outside (cs ++ rest) = cs ++ outside rest

def IsLayout (cs : List Char) : Prop :=
  ∀ c ∈ cs, c = '\n' ∨ c = ' '

theorem outside_layout {cs : List Char} (h : IsLayout cs) (rest : List Char) : outside (cs ++ rest) = outside rest := by
  induction cs with
  | nil => rfl
  | cons c cs ih =>
    have hc := h c (by simp)
    have hsection : ¬ sectionStart <+: c :: (cs ++ rest) := by
      rw [sectionStart_eq, List.cons_prefix_cons]
      rintro ⟨rfl, -⟩
      simp at hc
    have htag : c ≠ '<' := by
      rintro rfl
      simp at hc
    rw [List.cons_append, outside, if_neg hsection, if_neg htag, if_pos hc, ih fun d hd => h d (by simp [hd])]

theorem inTag_append {cs : List Char} (h : '>' ∉ cs) (rest : List Char) :
    inTag (cs ++ '>' :: rest) = cs ++ '>' :: outside rest := by
  induction cs with
  | nil => simp [inTag]
  | cons c cs ih =>
    rw [List.mem_cons, not_or] at h
    rw [List.cons_append, inTag, if_neg (Ne.symm h.1), ih h.2, List.cons_append]

theorem kept_tag {cs : List Char} (hclosing : '>' ∉ cs) (hname : ∀ c ∈ cs.head?, c ≠ '!') :
    Kept ('<' :: (cs ++ ['>'])) := by
  intro rest
  have hsection : ¬ sectionStart <+: '<' :: (cs ++ '>' :: rest) := by
    rw [sectionStart_eq, List.cons_prefix_cons]
    rintro ⟨-, hstart⟩
    cases cs with
    | nil =>
      rw [List.nil_append, List.cons_prefix_cons] at hstart
      exact absurd hstart.1 (by decide)
    | cons c cs =>
      rw [List.cons_append, List.cons_prefix_cons] at hstart
      exact hname c rfl hstart.1.symm
  rw [List.cons_append, List.append_assoc, List.singleton_append, outside, if_neg hsection, if_pos rfl,
    inTag_append hclosing]
  simp

theorem inSection_cons {c : Char} {cs : List Char} (h : ¬ sectionEnd <+: c :: cs) :
    inSection (c :: cs) = c :: inSection cs := by
  rw [inSection.eq_def]
  split
  . next heq => cases heq
  . next ds heq =>
    rw [heq] at h
    exact absurd ⟨ds, rfl⟩ h
  . next heq =>
    cases heq
    rfl

theorem inSection_sectionEnd (rest : List Char) : inSection (sectionEnd ++ rest) = sectionEnd ++ outside rest := by
  rw [sectionEnd_eq]
  rfl

theorem outside_sectionStart (rest : List Char) : outside (sectionStart ++ rest) = sectionStart ++ inSection rest := by
  have hpassed : inSection (sectionStart.tail ++ rest) = sectionStart.tail ++ inSection rest := by
    rw [sectionStart_eq]
    rfl
  have hstart : sectionStart ++ rest = '<' :: (sectionStart.tail ++ rest) := by
    rw [sectionStart_eq]
    rfl
  rw [hstart, outside, if_pos (by rw [← hstart]; exact List.prefix_append _ _), hpassed, sectionStart_eq]
  rfl

theorem inSection_encodeCDataChars (cs rest : List Char) :
    inSection (encodeCDataChars cs ++ (sectionEnd ++ rest)) = encodeCDataChars cs ++ (sectionEnd ++ outside rest) := by
  induction cs using sections_induction with
  | nil => exact inSection_sectionEnd rest
  | terminator cs ih =>
    specialize ih cs (Nat.le_refl _)
    rw [encodeCDataChars_sectionEnd]
    simp only [List.cons_append, List.append_assoc]
    -- The section that ends here is followed by another one, which begins with the rest of the terminator.
    rw [inSection_cons (by simp [sectionEnd_eq]), inSection_cons (by simp [sectionEnd_eq]), inSection_sectionEnd,
      outside_sectionStart, inSection_cons (by simp [sectionEnd_eq]), ih]
  | cons c cs hend ih =>
    rw [encodeCDataChars_cons hend, List.cons_append, inSection_cons (not_sectionEnd_encodeCDataChars hend rest), ih,
      List.cons_append]

theorem kept_text (content : String) : Kept (Report.text content).written.toList := by
  intro rest
  rw [text_toList, outside_sectionStart, inSection_encodeCDataChars, text_toList]

theorem closing_not_mem_of_isName {name : String} (h : IsName name) : '>' ∉ name.toList := by
  intro hmem
  have := List.all_eq_true.mp h.2 _ hmem
  exact absurd this (by decide)

theorem closing_not_mem_attributeChars {a : Attribute} (h : IsAttributeName a.name) : '>' ∉ attributeChars a := by
  have hname : '>' ∉ a.name.toList := by
    intro hmem
    have := List.all_eq_true.mp h _ hmem
    exact absurd this (by decide)
  have hvalue := not_mem_encodeAttributeChars (d := '>') (by decide) a.value.toList
  simp [attributeChars, hname, hvalue]

theorem kept_startTag {name : String} (hname : IsName name) {attributes : List Attribute}
    (h : ∀ a ∈ attributes, IsAttributeName a.name) : Kept (XmlBuilder.startTag name attributes).toList := by
  have hchars := startTag_toList name attributes []
  rw [List.append_nil, List.singleton_append, ← List.append_assoc] at hchars
  rw [hchars]
  apply kept_tag
  . rw [List.mem_append, List.mem_flatMap, not_or]
    refine ⟨closing_not_mem_of_isName hname, ?_⟩
    rintro ⟨a, ha, hmem⟩
    exact closing_not_mem_attributeChars (h a ha) hmem
  . intro c hc hmark
    subst hmark
    have := not_prefix_name hname (c := '!') (by decide) [] (attributes.flatMap attributeChars)
    apply this
    rcases List.head?_eq_some_iff.mp hc with ⟨cs, hcs⟩
    exact ⟨cs, hcs.symm⟩

theorem kept_endTag {name : String} (hname : IsName name) : Kept (XmlBuilder.endTag name).toList := by
  have hchars := endTag_toList name []
  rw [List.append_nil, List.append_nil, List.singleton_append, ← List.append_assoc] at hchars
  rw [hchars]
  apply kept_tag
  . simp [closing_not_mem_of_isName hname]
  . simp

theorem kept_written {r : Report}
    (h : ∀ element, r = .inlineStart element → ∀ a ∈ element.attributes, IsAttributeName a.name) :
    Kept r.written.toList := by
  cases r with
  | blockStart block =>
    apply kept_startTag (isName_exportName block.kind)
    intro a ha
    rw [List.mem_map] at ha
    rcases ha with ⟨value, -, rfl⟩
    exact (by decide : IsAttributeName "list")
  | blockEnd block => exact kept_endTag (isName_exportName block.kind)
  | inlineStart element => exact kept_startTag (isName_name element.kind) (h element rfl)
  | inlineEnd element => exact kept_endTag (isName_name element.kind)
  | text content => exact kept_text content

end XmlLayout

end NoteMarkup
