import NoteMarkup.Proofs.References
import NoteMarkup.Proofs.XmlRoundTrip

/-!
This module contains what an attribute value is like in which references have been kept: nothing in it needs to be
encoded any more, so that encoding it again changes nothing, and a reader who replaces the references for `&`, `<`,
`>` and `"` finds the same text in it as in the value that was encoded.
-/

namespace NoteMarkup.Text

open XmlReader

theorem decodeNamed_append {front : List Char} (h : '&' ∉ front) (cs : List Char) :
    decodeNamed (front ++ cs) = front ++ decodeNamed cs := by
  induction front with
  | nil => rfl
  | cons c front ih =>
    rw [List.mem_cons, not_or] at h
    rw [List.cons_append, decodeNamed_cons (Ne.symm h.1), ih h.2, List.cons_append]

def decodedNames : List (List Char) :=
  ["amp".toList, "lt".toList, "gt".toList, "quot".toList]

theorem isReference_of_mem_decodedNames : ∀ name ∈ decodedNames, IsReference name := by
  intro name hname
  rw [← isReferenceBody_iff]
  revert name
  decide

theorem decodeNamed_amp {cs : List Char} (h : ∀ name ∈ decodedNames, referenceBody? cs ≠ some name) :
    decodeNamed ('&' :: cs) = '&' :: decodeNamed cs := by
  have hname (name rest : List Char) (hmem : name ∈ decodedNames) : cs ≠ name ++ ';' :: rest := by
    rintro rfl
    exact h name hmem ((isReference_of_mem_decodedNames name hmem).referenceBody?_append rest)
  rw [decodeNamed.eq_def]
  split
  . next rest heq => exact absurd (List.cons.inj heq).2 (hname "amp".toList rest (by decide))
  . next rest heq => exact absurd (List.cons.inj heq).2 (hname "lt".toList rest (by decide))
  . next rest heq => exact absurd (List.cons.inj heq).2 (hname "gt".toList rest (by decide))
  . next rest heq => exact absurd (List.cons.inj heq).2 (hname "quot".toList rest (by decide))
  . next heq =>
    cases heq
    rfl
  . next heq => cases heq

theorem decodeNamed_reference {body : List Char} (h : IsReference body) :
    ∃ text, ∀ rest, decodeNamed ('&' :: (body ++ ';' :: rest)) = text ++ decodeNamed rest := by
  by_cases hname : body ∈ decodedNames
  . simp only [decodedNames, List.mem_cons, List.not_mem_nil, or_false] at hname
    rcases hname with rfl | rfl | rfl | rfl
    . exact ⟨['&'], fun _ => rfl⟩
    . exact ⟨['<'], fun _ => rfl⟩
    . exact ⟨['>'], fun _ => rfl⟩
    . exact ⟨['"'], fun _ => rfl⟩
  . refine ⟨'&' :: (body ++ [';']), fun rest => ?_⟩
    have hinside : '&' ∉ body ++ [';'] := by simpa using h.amp_not_mem
    have hleft : ∀ name ∈ decodedNames, referenceBody? (body ++ ';' :: rest) ≠ some name := by
      intro name hmem
      rw [h.referenceBody?_append, ne_eq, Option.some.injEq]
      rintro rfl
      exact hname hmem
    rw [decodeNamed_amp hleft, List.append_cons, decodeNamed_append hinside]
    rfl

theorem decodeNamed_encodeKeepingReferencesChars (cs : List Char) :
    decodeNamed (encodeKeepingReferencesChars cs) = decodeNamed cs := by
  induction cs using references_induction with
  | nil => rfl
  | reference body rest hbody ih =>
    rcases decodeNamed_reference hbody with ⟨text, htext⟩
    rw [encodeKeepingReferencesChars_reference hbody, htext, htext, ih]
  | bare cs hbody ih =>
    rw [encodeKeepingReferencesChars_bare hbody, decodeNamed_attributeChar, ih, decodeNamed_amp (by simp [hbody])]
  | other c cs hc ih =>
    rw [encodeKeepingReferencesChars_other hc, decodeNamed_attributeChar, ih, decodeNamed_cons hc]

theorem encoded_value_complete (value : String) :
    (∀ c ∈ (encodeKeepingReferences value).toList, c ≠ '<' ∧ c ≠ '>' ∧ c ≠ '"')
      ∧ (∀ before after, (encodeKeepingReferences value).toList = before ++ '&' :: after →
          ∃ body rest, after = body ++ ';' :: rest ∧ IsReference body)
      ∧ encodeKeepingReferences (encodeKeepingReferences value) = encodeKeepingReferences value
      ∧ decodeNamed (encodeKeepingReferences value).toList = decodeNamed value.toList := by
  have htoList : (encodeKeepingReferences value).toList = encodeKeepingReferencesChars value.toList :=
    String.toList_ofList
  have hencoded : Encoded (encodeKeepingReferences value).toList := by
    rw [htoList]
    exact encoded_encodeKeepingReferencesChars value.toList
  refine ⟨?_, ?_, ?_, ?_⟩
  . intro c hc
    have hplain := hencoded.isPlain c hc
    refine ⟨?_, ?_, ?_⟩ <;> (rintro rfl; cases hplain (by decide))
  . intro before after hsplit
    exact hencoded.exists_reference ⟨before, hsplit.symm⟩
  . rw [encodeKeepingReferences, hencoded.encode_eq, String.ofList_toList]
  . rw [htoList, decodeNamed_encodeKeepingReferencesChars]

theorem tangled_value_complete :
    encodeKeepingReferences "&&lt;<&x &#65;&#x;&" = "&amp;&lt;&lt;&amp;x &#65;&amp;#x;&amp;"
      ∧ encodeKeepingReferences "&amp;&lt;&lt;&amp;x &#65;&amp;#x;&amp;" = "&amp;&lt;&lt;&amp;x &#65;&amp;#x;&amp;"
      ∧ ∃ body rest, "#65;&amp;#x;&amp;".toList = body ++ ';' :: rest ∧ IsReference body := by
  have hencoded : encodeKeepingReferences "&&lt;<&x &#65;&#x;&" = "&amp;&lt;&lt;&amp;x &#65;&amp;#x;&amp;" := by
    decide +kernel
  rcases encoded_value_complete "&&lt;<&x &#65;&#x;&" with ⟨-, hreference, hagain, -⟩
  rw [hencoded] at hreference hagain
  exact ⟨hencoded, hagain, hreference "&amp;&lt;&lt;&amp;x ".toList _ (by decide +kernel)⟩

end NoteMarkup.Text
