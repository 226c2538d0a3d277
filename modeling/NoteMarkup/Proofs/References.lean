import NoteMarkup.Text.Encoding

/-!
This module contains character references as a reader of markup replaces them, and that an attribute value
stands for the same text before and after it is encoded.
-/

namespace NoteMarkup.Text

def validChar? (n : Nat) : Option Char :=
  if n ≠ 0 ∧ n.isValidChar then some (Char.ofNat n) else none

def predefined : List (List Char × Char) :=
  [("amp".toList, '&'), ("lt".toList, '<'), ("gt".toList, '>'), ("quot".toList, '"')]

def numberedChar? : List Char → Option Char
  | '#' :: 'x' :: digits => validChar? (hexadecimalValue digits)
  | '#' :: 'X' :: digits => validChar? (hexadecimalValue digits)
  | '#' :: digits => validChar? (decimalValue digits)
  | _ => none

def namedChar? (body : List Char) : Option Char :=
  match predefined.find? (·.1 == body) with
  | some (_, named) => some named
  | none => if isReferenceBody body then numberedChar? body else none

def startingChar? (cs : List Char) : Option Char :=
  let body := cs.takeWhile (· != ';')
  if body.length < cs.length then namedChar? body else none

def decodeReferencesChars : List Char → List Char
  | [] => []
  | c :: cs =>
    if c = '&' then
      match startingChar? cs with
      | some named => named :: decodeReferencesChars (cs.drop ((cs.takeWhile (· != ';')).length + 1))
      | none => c :: decodeReferencesChars cs
    else
      c :: decodeReferencesChars cs
termination_by cs => cs.length

def decodeReferences (value : String) : String :=
  String.ofList (decodeReferencesChars value.toList)

example : decodeReferences "a&amp;b&#x41;&#66;&lt;&foo;&" = "a&bAB<&foo;&" := by
  decide +kernel

theorem decodeReferencesChars_cons {c : Char} (h : c ≠ '&') (cs : List Char) :
    decodeReferencesChars (c :: cs) = c :: decodeReferencesChars cs := by
  rw [decodeReferencesChars, if_neg h]

theorem decodeReferencesChars_none {cs : List Char} (h : startingChar? cs = none) :
    decodeReferencesChars ('&' :: cs) = '&' :: decodeReferencesChars cs := by
  rw [decodeReferencesChars, if_pos rfl, h]

theorem decodeReferencesChars_append {front : List Char} (h : '&' ∉ front) (rest : List Char) :
    decodeReferencesChars (front ++ rest) = front ++ decodeReferencesChars rest := by
  induction front with
  | nil => rfl
  | cons c front ih =>
    rw [List.mem_cons, not_or] at h
    rw [List.cons_append, decodeReferencesChars_cons (Ne.symm h.1), ih h.2, List.cons_append]

theorem bne_of_not_mem {cs : List Char} {c : Char} (h : c ∉ cs) : ∀ d ∈ cs, (d != c) = true := by
  intro d hd
  rw [bne_iff_ne]
  rintro rfl
  exact h hd

theorem takeWhile_of_not_mem {cs : List Char} {c : Char} (h : c ∉ cs) : cs.takeWhile (· != c) = cs := by
  have happend : (cs ++ []).takeWhile (· != c) = cs ++ [].takeWhile (· != c) :=
    List.takeWhile_append_of_pos (bne_of_not_mem h)
  simpa using happend

theorem takeWhile_append_of_not_mem {front : List Char} {c : Char} (h : c ∉ front) (rest : List Char) :
    (front ++ c :: rest).takeWhile (· != c) = front := by
  rw [List.takeWhile_append_of_pos (bne_of_not_mem h)]
  simp

theorem not_mem_takeWhile (c : Char) (cs : List Char) : c ∉ cs.takeWhile (· != c) := by
  intro h
  have hall : (cs.takeWhile (· != c)).all (· != c) := List.all_takeWhile
  simpa using List.all_eq_true.mp hall c h

theorem exists_eq_takeWhile_append {cs : List Char} {c : Char} (h : c ∈ cs) :
    ∃ rest, cs = cs.takeWhile (· != c) ++ c :: rest := by
  induction cs with
  | nil => cases h
  | cons d cs ih =>
    by_cases hd : d = c
    . subst hd
      exact ⟨cs, by simp⟩
    . have hmem : c ∈ cs := by simpa [Ne.symm hd] using h
      rcases ih hmem with ⟨rest, hrest⟩
      refine ⟨rest, ?_⟩
      rw [List.takeWhile_cons, if_pos (by simpa using hd), List.cons_append, ← hrest]

theorem startingChar?_append {body : List Char} (h : ';' ∉ body) (rest : List Char) :
    startingChar? (body ++ ';' :: rest) = namedChar? body := by
  unfold startingChar?
  dsimp only
  rw [takeWhile_append_of_not_mem h, if_pos (by simp)]

theorem decodeReferencesChars_some {body : List Char} (h : ';' ∉ body) {named : Char}
    (hnamed : namedChar? body = some named) (rest : List Char) :
    decodeReferencesChars ('&' :: (body ++ ';' :: rest)) = named :: decodeReferencesChars rest := by
  rw [decodeReferencesChars, if_pos rfl, startingChar?_append h, hnamed]
  dsimp only
  rw [takeWhile_append_of_not_mem h]
  simp

theorem isReferenceBody_of_namedChar? {body : List Char} {named : Char} (h : namedChar? body = some named) :
    isReferenceBody body := by
  have hpredefined : ∀ p ∈ predefined, isReferenceBody p.1 := by decide
  unfold namedChar? at h
  split at h
  . next hfind =>
    have hbody := List.find?_some hfind
    rw [beq_iff_eq] at hbody
    rw [← hbody]
    exact hpredefined _ (List.mem_of_find?_eq_some hfind)
  . split at h
    . assumption
    . cases h

def isPlain (c : Char) : Bool :=
  c != '&' && c != '<' && c != '>' && c != '"'

theorem attributeChar_of_isPlain {c : Char} (h : isPlain c) : attributeChar c = [c] := by
  simp only [isPlain, Bool.and_eq_true, bne_iff_ne] at h
  rcases h with ⟨⟨⟨hamp, hlt⟩, hgt⟩, hquot⟩
  simp [attributeChar, hamp, hlt, hgt, hquot]

theorem encodeKeepingReferencesChars_plain {c : Char} (h : isPlain c) (cs : List Char) :
    encodeKeepingReferencesChars (c :: cs) = c :: encodeKeepingReferencesChars cs := by
  rw [encodeKeepingReferencesChars, attributeChar_of_isPlain h]
  simp only [isPlain, Bool.and_eq_true, bne_iff_ne] at h
  rw [if_neg h.1.1.1]
  rfl

theorem encodeKeepingReferencesChars_append {body : List Char} (h : ∀ c ∈ body, isPlain c) (rest : List Char) :
    encodeKeepingReferencesChars (body ++ rest) = body ++ encodeKeepingReferencesChars rest := by
  induction body with
  | nil => rfl
  | cons c body ih =>
    rw [List.cons_append, encodeKeepingReferencesChars_plain (h c (by simp)), ih]
    . rfl
    . intro d hd
      exact h d (by simp [hd])

theorem isPlain_of_isAlphanum {c : Char} (h : c.isAlphanum) : isPlain c := by
  simp only [isPlain, Bool.and_eq_true, bne_iff_ne]
  refine ⟨⟨⟨?_, ?_⟩, ?_⟩, ?_⟩ <;> (rintro rfl; revert h; decide)

theorem isPlain_of_isHexDigit {c : Char} (h : isHexDigit c) : isPlain c := by
  simp only [isPlain, Bool.and_eq_true, bne_iff_ne]
  refine ⟨⟨⟨?_, ?_⟩, ?_⟩, ?_⟩ <;> (rintro rfl; revert h; decide)

theorem isPlain_of_all {p : Char → Bool} (hp : ∀ c, p c → isPlain c) (lead : List Char) {cs : List Char}
    (hlead : lead.all isPlain) (h : cs.all p) : ∀ c ∈ lead ++ cs, isPlain c := by
  intro c hc
  rw [List.mem_append] at hc
  rcases hc with hc | hc
  . exact List.all_eq_true.mp hlead c hc
  . exact hp c (List.all_eq_true.mp h c hc)

theorem isPlain_of_isDigit {c : Char} (h : c.isDigit) : isPlain c :=
  isPlain_of_isAlphanum (by simp [Char.isAlphanum, h])

theorem isPlain_of_isReferenceBody {body : List Char} (h : isReferenceBody body) : ∀ c ∈ body, isPlain c := by
  unfold isReferenceBody at h
  split at h
  . rw [Bool.and_eq_true] at h
    exact isPlain_of_all (fun c => isPlain_of_isHexDigit) ['#', 'x'] (by decide) h.2
  . rw [Bool.and_eq_true] at h
    exact isPlain_of_all (fun c => isPlain_of_isHexDigit) ['#', 'X'] (by decide) h.2
  . rw [Bool.and_eq_true] at h
    exact isPlain_of_all (fun c => isPlain_of_isDigit) ['#'] (by decide) h.2
  . cases h
  . next c cs _ _ _ =>
    rw [Bool.and_eq_true] at h
    apply isPlain_of_all (fun c => isPlain_of_isAlphanum) [c] ?_ h.2
    simpa using isPlain_of_isAlphanum (c := c) (by simp [Char.isAlphanum, h.1])

theorem referenceBody?_spec {cs body : List Char} (h : referenceBody? cs = some body) :
    ';' ∉ body ∧ isReferenceBody body ∧ ∃ rest, cs = body ++ ';' :: rest := by
  unfold referenceBody? at h
  dsimp only at h
  rw [Option.ite_none_right_eq_some, Bool.and_eq_true, decide_eq_true_eq, Option.some.injEq] at h
  rcases h with ⟨⟨hlength, hbody⟩, rfl⟩
  refine ⟨not_mem_takeWhile ';' cs, hbody, ?_⟩
  apply exists_eq_takeWhile_append
  by_cases hmem : ';' ∈ cs
  . exact hmem
  . rw [takeWhile_of_not_mem hmem] at hlength
    omega

theorem startingChar?_of_referenceBody? {cs : List Char} (h : referenceBody? cs = none) : startingChar? cs = none := by
  unfold referenceBody? at h
  unfold startingChar?
  dsimp only at h ⊢
  split
  . next hlength =>
    cases hnamed : namedChar? (cs.takeWhile (· != ';')) with
    | none => rfl
    | some named =>
      have hbody := isReferenceBody_of_namedChar? hnamed
      simp [hlength, hbody] at h
  . rfl

theorem eq_of_not_isPlain {c : Char} (h : ¬ isPlain c) (hamp : c ≠ '&') : c = '<' ∨ c = '>' ∨ c = '"' := by
  simp only [isPlain, Bool.and_eq_true, bne_iff_ne] at h
  by_cases hlt : c = '<'
  . exact .inl hlt
  . by_cases hgt : c = '>'
    . exact .inr (.inl hgt)
    . by_cases hquot : c = '"'
      . exact .inr (.inr hquot)
      . exact absurd ⟨⟨⟨hamp, hlt⟩, hgt⟩, hquot⟩ h

inductive IsReference : List Char → Prop
  | name {c : Char} {cs : List Char} (hc : c.isAlpha) (hcs : cs.all Char.isAlphanum) : IsReference (c :: cs)
  | decimal {digits : List Char} (hne : digits ≠ []) (hdigits : digits.all Char.isDigit) :
    IsReference ('#' :: digits)
  | hexadecimal {x : Char} {digits : List Char} (hx : x = 'x' ∨ x = 'X') (hne : digits ≠ [])
    (hdigits : digits.all isHexDigit) : IsReference ('#' :: x :: digits)

theorem isReferenceBody_iff {body : List Char} : isReferenceBody body ↔ IsReference body := by
  constructor
  . intro h
    unfold isReferenceBody at h
    split at h
    . simp only [Bool.and_eq_true, Bool.not_eq_true', List.isEmpty_eq_false_iff] at h
      exact .hexadecimal (.inl rfl) h.1 h.2
    . simp only [Bool.and_eq_true, Bool.not_eq_true', List.isEmpty_eq_false_iff] at h
      exact .hexadecimal (.inr rfl) h.1 h.2
    . simp only [Bool.and_eq_true, Bool.not_eq_true', List.isEmpty_eq_false_iff] at h
      exact .decimal h.1 h.2
    . cases h
    . rw [Bool.and_eq_true] at h
      exact .name h.1 h.2
  . intro h
    cases h with
    | @name c cs hc hcs =>
      have hne : c ≠ '#' := by
        rintro rfl
        cases hc
      simp [isReferenceBody, hne, hc, hcs]
    | @decimal digits hne hdigits =>
      rcases digits with _ | ⟨d, digits⟩
      . exact absurd rfl hne
      . have hx : d ≠ 'x' ∧ d ≠ 'X' := by
          rw [List.all_cons, Bool.and_eq_true] at hdigits
          constructor
          . rintro rfl
            cases hdigits.1
          . rintro rfl
            cases hdigits.1
        simp [isReferenceBody, hx.1, hx.2, hdigits]
    | @hexadecimal x digits hx hne hdigits =>
      rcases hx with rfl | rfl <;> simp [isReferenceBody, hne, hdigits]

namespace IsReference

variable {body : List Char}

theorem isPlain (h : IsReference body) : ∀ c ∈ body, isPlain c :=
  isPlain_of_isReferenceBody (isReferenceBody_iff.mpr h)

theorem amp_not_mem (h : IsReference body) : '&' ∉ body := by
  intro hmem
  cases h.isPlain _ hmem

theorem semicolon_not_mem (h : IsReference body) : ';' ∉ body := by
  have hnot {p : Char → Bool} {cs : List Char} (hall : cs.all p) (hp : p ';' = false) : ';' ∉ cs := by
    intro hmem
    rw [List.all_eq_true.mp hall _ hmem] at hp
    cases hp
  cases h with
  | name hc hcs =>
    rw [List.mem_cons, not_or]
    refine ⟨?_, hnot hcs (by decide)⟩
    rintro rfl
    cases hc
  | decimal _ hdigits =>
    rw [List.mem_cons, not_or]
    exact ⟨by decide, hnot hdigits (by decide)⟩
  | hexadecimal hx _ hdigits =>
    rw [List.mem_cons, List.mem_cons, not_or, not_or]
    refine ⟨by decide, ?_, hnot hdigits (by decide)⟩
    rcases hx with rfl | rfl <;> decide

theorem referenceBody?_append (h : IsReference body) (rest : List Char) :
    referenceBody? (body ++ ';' :: rest) = some body := by
  unfold referenceBody?
  dsimp only
  rw [takeWhile_append_of_not_mem h.semicolon_not_mem, isReferenceBody_iff.mpr h]
  simp

end IsReference

theorem referenceBody?_eq_some {cs body : List Char} (h : referenceBody? cs = some body) :
    IsReference body ∧ ∃ rest, cs = body ++ ';' :: rest := by
  rcases referenceBody?_spec h with ⟨-, hbody, hrest⟩
  exact ⟨isReferenceBody_iff.mp hbody, hrest⟩

theorem references_induction {P : List Char → Prop} (nil : P [])
    (reference : ∀ body rest, IsReference body → P rest → P ('&' :: (body ++ ';' :: rest)))
    (bare : ∀ cs, referenceBody? cs = none → P cs → P ('&' :: cs))
    (other : ∀ c cs, c ≠ '&' → P cs → P (c :: cs)) (cs : List Char) : P cs := by
  induction h : cs.length using Nat.strongRecOn generalizing cs with
  | ind n ih =>
    cases cs with
    | nil => exact nil
    | cons c cs =>
      rw [List.length_cons] at h
      have htail : P cs := ih cs.length (by omega) cs rfl
      by_cases hamp : c = '&'
      . subst hamp
        cases hbody : referenceBody? cs with
        | none => exact bare cs hbody htail
        | some body =>
          rcases referenceBody?_eq_some hbody with ⟨hreference, rest, rfl⟩
          apply reference body rest hreference
          apply ih rest.length ?_ rest rfl
          simp only [List.length_append, List.length_cons] at h
          omega
      . exact other c cs hamp htail

section Encoding

theorem encodeKeepingReferencesChars_reference {body : List Char} (h : IsReference body) (rest : List Char) :
    encodeKeepingReferencesChars ('&' :: (body ++ ';' :: rest))
      =
    '&' :: (body ++ ';' :: encodeKeepingReferencesChars rest) := by
  rw [encodeKeepingReferencesChars, if_pos rfl, h.referenceBody?_append, encodeKeepingReferencesChars_append h.isPlain,
    encodeKeepingReferencesChars_plain (by decide)]
  rfl

theorem encodeKeepingReferencesChars_bare {cs : List Char} (h : referenceBody? cs = none) :
    encodeKeepingReferencesChars ('&' :: cs) = attributeChar '&' ++ encodeKeepingReferencesChars cs := by
  rw [encodeKeepingReferencesChars, if_pos rfl, h]
  rfl

theorem encodeKeepingReferencesChars_other {c : Char} (h : c ≠ '&') (cs : List Char) :
    encodeKeepingReferencesChars (c :: cs) = attributeChar c ++ encodeKeepingReferencesChars cs := by
  rw [encodeKeepingReferencesChars, if_neg h]

theorem attributeChar_cases (c : Char) :
    (isPlain c ∧ attributeChar c = [c]) ∨ ∃ body, IsReference body ∧ attributeChar c = '&' :: (body ++ [';']) := by
  have hreference {body : List Char} (h : isReferenceBody body) : IsReference body := isReferenceBody_iff.mp h
  by_cases hplain : isPlain c
  . exact .inl ⟨hplain, attributeChar_of_isPlain hplain⟩
  . right
    by_cases hamp : c = '&'
    . subst hamp
      exact ⟨"amp".toList, hreference (by decide), by decide⟩
    . rcases eq_of_not_isPlain hplain hamp with rfl | rfl | rfl
      . exact ⟨"lt".toList, hreference (by decide), by decide⟩
      . exact ⟨"gt".toList, hreference (by decide), by decide⟩
      . exact ⟨"quot".toList, hreference (by decide), by decide⟩

theorem suffix_of_suffix_append {front cs after : List Char} {c : Char} (hc : c ∉ front)
    (h : c :: after <:+ front ++ cs) : c :: after <:+ cs := by
  induction front with
  | nil => exact h
  | cons d front ih =>
    rw [List.mem_cons, not_or] at hc
    rw [List.cons_append, List.suffix_cons_iff] at h
    rcases h with heq | h
    . rw [List.cons.injEq] at heq
      exact absurd heq.1 hc.1
    . exact ih hc.2 h

inductive Encoded : List Char → Prop
  | nil : Encoded []
  | reference {body rest : List Char} (hbody : IsReference body) (hrest : Encoded rest) :
    Encoded ('&' :: (body ++ ';' :: rest))
  | plain {c : Char} {cs : List Char} (hc : isPlain c) (hcs : Encoded cs) : Encoded (c :: cs)

theorem encoded_attributeChar_append (c : Char) {cs : List Char} (h : Encoded cs) :
    Encoded (attributeChar c ++ cs) := by
  rcases attributeChar_cases c with ⟨hplain, hc⟩ | ⟨body, hbody, hc⟩
  . rw [hc]
    exact .plain hplain h
  . rw [hc, List.cons_append, List.append_assoc]
    exact .reference hbody h

theorem encoded_encodeKeepingReferencesChars (cs : List Char) : Encoded (encodeKeepingReferencesChars cs) := by
  induction cs using references_induction with
  | nil => exact .nil
  | reference body rest hbody ih =>
    rw [encodeKeepingReferencesChars_reference hbody]
    exact .reference hbody ih
  | bare cs hbody ih =>
    rw [encodeKeepingReferencesChars_bare hbody]
    exact encoded_attributeChar_append '&' ih
  | other c cs hc ih =>
    rw [encodeKeepingReferencesChars_other hc]
    exact encoded_attributeChar_append c ih

namespace Encoded

variable {cs : List Char}

theorem encode_eq (h : Encoded cs) : encodeKeepingReferencesChars cs = cs := by
  induction h with
  | nil => rfl
  | reference hbody _ ih => rw [encodeKeepingReferencesChars_reference hbody, ih]
  | plain hc _ ih => rw [encodeKeepingReferencesChars_plain hc, ih]

theorem isPlain (h : Encoded cs) : ∀ c ∈ cs, c ≠ '&' → isPlain c := by
  induction h with
  | nil => simp
  | reference hbody _ ih =>
    simp only [List.forall_mem_cons, List.forall_mem_append]
    exact ⟨fun hamp => absurd rfl hamp, fun c hc _ => hbody.isPlain c hc, fun _ => by decide, ih⟩
  | plain hc _ ih => exact List.forall_mem_cons.mpr ⟨fun _ => hc, ih⟩

theorem exists_reference {after : List Char} (h : Encoded cs) (hafter : '&' :: after <:+ cs) :
    ∃ body rest, after = body ++ ';' :: rest ∧ IsReference body := by
  induction h with
  | nil => simp at hafter
  | @reference body rest hbody _ ih =>
    rw [List.suffix_cons_iff] at hafter
    rcases hafter with heq | hafter
    . cases heq
      exact ⟨body, rest, rfl, hbody⟩
    . apply ih
      have hinside : '&' ∉ body ++ [';'] := by simpa using hbody.amp_not_mem
      rw [List.append_cons] at hafter
      exact suffix_of_suffix_append hinside hafter
  | plain hc _ ih =>
    rw [List.suffix_cons_iff] at hafter
    rcases hafter with heq | hafter
    . cases heq
      cases hc
    . exact ih hafter

end Encoded

end Encoding

section Decoding

theorem decodeReferencesChars_reference {body : List Char} (h : IsReference body) :
    ∃ text, ∀ rest, decodeReferencesChars ('&' :: (body ++ ';' :: rest)) = text ++ decodeReferencesChars rest := by
  cases hnamed : namedChar? body with
  | some named => exact ⟨[named], fun rest => decodeReferencesChars_some h.semicolon_not_mem hnamed rest⟩
  | none =>
    refine ⟨'&' :: (body ++ [';']), fun rest => ?_⟩
    have hinside : '&' ∉ body ++ [';'] := by simpa using h.amp_not_mem
    have hnone : startingChar? (body ++ ';' :: rest) = none := by
      rw [startingChar?_append h.semicolon_not_mem, hnamed]
    rw [decodeReferencesChars_none hnone, List.append_cons, decodeReferencesChars_append hinside]
    rfl

theorem decodeReferencesChars_attributeChar (c : Char) (cs : List Char) :
    decodeReferencesChars (attributeChar c ++ cs) = c :: decodeReferencesChars cs := by
  have hpredefined (body : List Char) (hbody : ';' ∉ body) (hnamed : namedChar? body = some c)
      (hc : attributeChar c = '&' :: (body ++ [';'])) :
      decodeReferencesChars (attributeChar c ++ cs) = c :: decodeReferencesChars cs := by
    rw [hc, List.cons_append, List.append_assoc, List.singleton_append, decodeReferencesChars_some hbody hnamed]
  by_cases hamp : c = '&'
  . subst hamp
    exact hpredefined "amp".toList (by decide) (by decide) (by decide)
  . by_cases hplain : isPlain c
    . rw [attributeChar_of_isPlain hplain, List.singleton_append, decodeReferencesChars_cons hamp]
    . rcases eq_of_not_isPlain hplain hamp with rfl | rfl | rfl
      . exact hpredefined "lt".toList (by decide) (by decide) (by decide)
      . exact hpredefined "gt".toList (by decide) (by decide) (by decide)
      . exact hpredefined "quot".toList (by decide) (by decide) (by decide)

theorem decode_encodeKeepingReferencesChars (cs : List Char) :
    decodeReferencesChars (encodeKeepingReferencesChars cs) = decodeReferencesChars cs := by
  induction cs using references_induction with
  | nil => rfl
  | reference body rest hbody ih =>
    rcases decodeReferencesChars_reference hbody with ⟨text, htext⟩
    rw [encodeKeepingReferencesChars_reference hbody, htext, htext, ih]
  | bare cs hbody ih =>
    rw [encodeKeepingReferencesChars_bare hbody, decodeReferencesChars_attributeChar, ih,
      decodeReferencesChars_none (startingChar?_of_referenceBody? hbody)]
  | other c cs hc ih =>
    rw [encodeKeepingReferencesChars_other hc, decodeReferencesChars_attributeChar, ih, decodeReferencesChars_cons hc]

theorem decodeReferences_encodeKeepingReferences (value : String) :
    decodeReferences (encodeKeepingReferences value) = decodeReferences value := by
  simp [decodeReferences, encodeKeepingReferences, decode_encodeKeepingReferencesChars]

end Decoding

theorem quote_not_mem_encodeKeepingReferencesChars (cs : List Char) :
    ∀ c ∈ encodeKeepingReferencesChars cs, c ≠ '"' := by
  intro c hc
  have hplain := (encoded_encodeKeepingReferencesChars cs).isPlain c hc
  rintro rfl
  cases hplain (by decide)

end NoteMarkup.Text
