import NoteMarkup.Text.Encoding

/-!
This module contains CDATA sections as they are read: a section ends at the first terminator, and neighbouring
sections are one text. Text is read back from the sections it is written in, if it is written as a whole; if
it is written in pieces, then exactly if no terminator falls to two of them.
-/

namespace NoteMarkup.Text

def sectionStart : List Char :=
  "<![CDATA[".toList

def sectionEnd : List Char :=
  "]]>".toList

def readText? : List Char → Option (List Char × List Char)
  | [] => none
  | c :: cs =>
    if sectionEnd <+: c :: cs then
      if sectionStart <+: cs.drop 2 then readText? (cs.drop 11) else some ([], cs.drop 2)
    else
      (readText? cs).map fun (text, rest) => (c :: text, rest)
termination_by cs => cs.length

def terminators : List Char → Nat
  | [] => 0
  | c :: cs => terminators cs + if sectionEnd <+: c :: cs then 1 else 0

theorem sectionEnd_eq : sectionEnd = [']', ']', '>'] := by
  decide

theorem sectionStart_eq : sectionStart = ['<', '!', '[', 'C', 'D', 'A', 'T', 'A', '['] := by
  decide

theorem sections_induction {P : List Char → Prop} (nil : P [])
    (terminator : ∀ cs, (∀ ds, ds.length ≤ cs.length → P ds) → P (sectionEnd ++ cs))
    (cons : ∀ c cs, ¬ sectionEnd <+: c :: cs → P cs → P (c :: cs)) (cs : List Char) : P cs := by
  induction h : cs.length using Nat.strongRecOn generalizing cs with
  | ind n ih =>
    cases cs with
    | nil => exact nil
    | cons c cs =>
      -- A text begins with a terminator or with a character that does not begin one.
      by_cases hend : sectionEnd <+: c :: cs
      . rcases hend with ⟨rest, hrest⟩
        rw [← hrest] at h ⊢
        apply terminator
        intro ds hds
        apply ih ds.length ?_ ds rfl
        simp only [List.length_append, sectionEnd_eq, List.length_cons, List.length_nil] at h
        omega
      . apply cons c cs hend
        apply ih cs.length ?_ cs rfl
        simp only [List.length_cons] at h
        omega

theorem terminators_cons {c : Char} {cs : List Char} (h : ¬ sectionEnd <+: c :: cs) :
    terminators (c :: cs) = terminators cs := by
  simp [terminators, h]

theorem terminators_sectionEnd (cs : List Char) : terminators (sectionEnd ++ cs) = terminators cs + 1 := by
  simp [sectionEnd_eq, terminators]

theorem encodeCDataChars_nil : encodeCDataChars [] = [] := rfl

theorem encodeCDataChars_cons {c : Char} {cs : List Char} (h : ¬ sectionEnd <+: c :: cs) :
    encodeCDataChars (c :: cs) = c :: encodeCDataChars cs := by
  rw [encodeCDataChars.eq_def]
  split
  . next ds heq =>
    rw [heq] at h
    exact absurd ⟨ds, rfl⟩ h
  . next heq =>
    cases heq
    rfl
  . next heq => cases heq

theorem encodeCDataChars_sectionEnd (cs : List Char) :
    encodeCDataChars (sectionEnd ++ cs)
      =
    ']' :: ']' :: (sectionEnd ++ (sectionStart ++ '>' :: encodeCDataChars cs)) := by
  rw [sectionEnd_eq, sectionStart_eq]
  rfl

theorem readText?_cons {c : Char} {cs : List Char} (h : ¬ sectionEnd <+: c :: cs) :
    readText? (c :: cs) = (readText? cs).map fun (text, rest) => (c :: text, rest) := by
  rw [readText?, if_neg h]

theorem readText?_sectionEnd {rest : List Char} (h : ¬ sectionStart <+: rest) :
    readText? (sectionEnd ++ rest) = some ([], rest) := by
  rw [sectionEnd_eq]
  simp only [List.cons_append, List.nil_append]
  rw [readText?, if_pos (by simp [sectionEnd_eq])]
  simp [h]

theorem readText?_between (rest : List Char) :
    readText? (sectionEnd ++ (sectionStart ++ rest)) = readText? rest := by
  rw [sectionEnd_eq]
  simp only [List.cons_append, List.nil_append]
  rw [readText?, if_pos (by simp [sectionEnd_eq])]
  simp [sectionStart_eq]

theorem length_encodeCDataChars (cs : List Char) :
    (encodeCDataChars cs).length = cs.length + 12 * terminators cs := by
  induction cs using sections_induction with
  | nil => rfl
  | terminator cs ih =>
    specialize ih cs (Nat.le_refl _)
    rw [encodeCDataChars_sectionEnd, terminators_sectionEnd]
    simp only [sectionEnd_eq, sectionStart_eq, List.length_cons, List.length_append, List.length_nil, ih]
    omega
  | cons c cs hend ih =>
    rw [encodeCDataChars_cons hend, terminators_cons hend]
    simp only [List.length_cons, ih]
    omega

theorem cut_cases {c : Char} {cs ds : List Char} (h : ¬ sectionEnd <+: c :: cs)
    (hcut : sectionEnd <+: c :: (cs ++ ds)) :
    c = ']' ∧ ((cs = [] ∧ [']', '>'] <+: ds) ∨ (cs = [']'] ∧ ['>'] <+: ds)) := by
  rcases hcut with ⟨es, hcut⟩
  rw [sectionEnd_eq] at h hcut
  rcases cs with _ | ⟨d, _ | ⟨e, cs⟩⟩
  . simp only [List.cons_append, List.nil_append, List.cons.injEq] at hcut
    rcases hcut with ⟨rfl, rfl⟩
    exact ⟨rfl, .inl ⟨rfl, es, rfl⟩⟩
  . simp only [List.cons_append, List.nil_append, List.cons.injEq] at hcut
    rcases hcut with ⟨rfl, rfl, rfl⟩
    exact ⟨rfl, .inr ⟨rfl, es, rfl⟩⟩
  . simp only [List.cons_append, List.nil_append, List.cons.injEq] at hcut
    rcases hcut with ⟨rfl, rfl, rfl, -⟩
    exact absurd ⟨cs, rfl⟩ h

theorem terminators_of_cut {cs ds : List Char} (h : (cs = [] ∧ [']', '>'] <+: ds) ∨ (cs = [']'] ∧ ['>'] <+: ds)) :
    terminators (cs ++ ds) = terminators ds ∧ terminators cs = 0 := by
  rcases h with ⟨rfl, es, rfl⟩ | ⟨rfl, es, rfl⟩
  . exact ⟨rfl, rfl⟩
  . refine ⟨?_, by decide⟩
    exact terminators_cons (by simp [sectionEnd_eq])

theorem terminators_append (cs ds : List Char) :
    terminators cs + terminators ds ≤ terminators (cs ++ ds)
      ∧
    (terminators (cs ++ ds) = terminators cs + terminators ds →
      encodeCDataChars (cs ++ ds) = encodeCDataChars cs ++ encodeCDataChars ds) := by
  induction cs using sections_induction with
  | nil => exact ⟨by simp [terminators], fun _ => rfl⟩
  | terminator cs ih =>
    specialize ih cs (Nat.le_refl _)
    rw [List.append_assoc, terminators_sectionEnd, terminators_sectionEnd, encodeCDataChars_sectionEnd,
      encodeCDataChars_sectionEnd]
    constructor
    . omega
    . intro h
      rw [ih.2 (by omega)]
      simp
  | cons c cs hend ih =>
    rw [List.cons_append, terminators_cons hend]
    -- A terminator that is cut is one more in the whole than there are in the two pieces.
    by_cases hcut : sectionEnd <+: c :: (cs ++ ds)
    . have hcases := terminators_of_cut (cut_cases hend hcut).2
      have hwhole : terminators (c :: (cs ++ ds)) = terminators (cs ++ ds) + 1 := by simp [terminators, hcut]
      constructor
      . omega
      . omega
    . rw [terminators_cons hcut, encodeCDataChars_cons hcut, encodeCDataChars_cons hend]
      refine ⟨ih.1, ?_⟩
      intro h
      rw [ih.2 h]
      rfl

theorem start_of_encodeCDataChars {cs rest : List Char} (h : ['>'] <+: encodeCDataChars cs ++ (sectionEnd ++ rest)) :
    ['>'] <+: cs := by
  cases cs using sections_induction with
  | nil =>
    rcases h with ⟨es, h⟩
    simp [sectionEnd_eq, encodeCDataChars_nil] at h
  | terminator cs =>
    rw [encodeCDataChars_sectionEnd] at h
    simp at h
  | cons c cs hend =>
    rw [encodeCDataChars_cons hend] at h
    simpa using h

theorem starts_of_encodeCDataChars {cs rest : List Char}
    (h : [']', '>'] <+: encodeCDataChars cs ++ (sectionEnd ++ rest)) : [']', '>'] <+: cs := by
  cases cs using sections_induction with
  | nil =>
    rcases h with ⟨es, h⟩
    simp [sectionEnd_eq, encodeCDataChars_nil] at h
  | terminator cs =>
    rw [encodeCDataChars_sectionEnd] at h
    simp at h
  | cons c cs hend =>
    rw [encodeCDataChars_cons hend, List.cons_append, List.cons_prefix_cons] at h
    rw [List.cons_prefix_cons]
    exact ⟨h.1, start_of_encodeCDataChars h.2⟩

theorem not_sectionEnd_encodeCDataChars {c : Char} {cs : List Char} (h : ¬ sectionEnd <+: c :: cs) (rest : List Char) :
    ¬ sectionEnd <+: c :: (encodeCDataChars cs ++ (sectionEnd ++ rest)) := by
  intro hbegins
  apply h
  rw [sectionEnd_eq, List.cons_prefix_cons] at hbegins ⊢
  exact ⟨hbegins.1, starts_of_encodeCDataChars hbegins.2⟩

theorem readText?_append (cs rest : List Char) :
    readText? (encodeCDataChars cs ++ (sectionEnd ++ rest))
      =
    (readText? (sectionEnd ++ rest)).map fun (text, behind) => (cs ++ text, behind) := by
  induction cs using sections_induction with
  | nil => simp [encodeCDataChars_nil]
  | terminator cs ih =>
    specialize ih cs (Nat.le_refl _)
    rw [encodeCDataChars_sectionEnd]
    simp only [List.cons_append, List.append_assoc]
    rw [readText?_cons (by simp [sectionEnd_eq]), readText?_cons (by simp [sectionEnd_eq]), readText?_between,
      readText?_cons (by simp [sectionEnd_eq]), ih]
    simp [sectionEnd_eq, Function.comp_def]
  | cons c cs hend ih =>
    rw [encodeCDataChars_cons hend, List.cons_append, readText?_cons (not_sectionEnd_encodeCDataChars hend rest), ih]
    simp [Function.comp_def]

theorem readText?_encodeCDataChars {rest : List Char} (h : ¬ sectionStart <+: rest) (cs : List Char) :
    readText? (encodeCDataChars cs ++ (sectionEnd ++ rest)) = some (cs, rest) := by
  rw [readText?_append, readText?_sectionEnd h]
  simp

theorem prefix_of_prefix_append {cs ds : List Char} (h : sectionStart <+: cs ++ (sectionEnd ++ ds)) :
    sectionStart <+: cs := by
  rcases List.prefix_or_prefix_of_prefix h (List.prefix_append cs _) with hstart | ⟨es, hes⟩
  . exact hstart
  . rw [← hes, List.prefix_append_right_inj] at h
    cases es with
    | nil =>
      exact ⟨[], by simp [← hes]⟩
    | cons e es =>
      rw [sectionEnd_eq, List.cons_append, List.cons_prefix_cons] at h
      have hmem : ']' ∈ sectionStart := by
        rw [← hes, h.1]
        simp
      exact absurd hmem (by decide)

theorem length_le_of_readText? {text rest behind : List Char} (h : ¬ sectionStart <+: behind) (cs : List Char)
    (hread : readText? (cs ++ (sectionEnd ++ behind)) = some (text, rest)) : behind.length ≤ rest.length := by
  induction cs using sections_induction generalizing text with
  | nil =>
    rw [List.nil_append, readText?_sectionEnd h] at hread
    cases hread
    exact Nat.le_refl _
  | terminator cs ih =>
    rw [List.append_assoc] at hread
    -- The section ends here. The reader stops, or goes on in one that begins in what is left.
    by_cases hstart : sectionStart <+: cs ++ (sectionEnd ++ behind)
    . rcases prefix_of_prefix_append hstart with ⟨ds, rfl⟩
      rw [List.append_assoc, readText?_between] at hread
      apply ih ds ?_ hread
      simp
    . rw [readText?_sectionEnd hstart] at hread
      cases hread
      simp only [List.length_append]
      omega
  | cons c cs hend ih =>
    rw [List.cons_append, readText?_cons] at hread
    . rw [Option.map_eq_some_iff] at hread
      rcases hread with ⟨⟨inner, rest'⟩, hinner, heq⟩
      cases heq
      exact ih hinner
    . intro hcut
      have hcases := (cut_cases hend hcut).2
      rw [sectionEnd_eq] at hcases
      simp at hcases

theorem length_of_readText? {cs text rest : List Char} (hread : readText? cs = some (text, rest)) :
    text.length + rest.length + 12 * terminators text + 3 ≤ cs.length
      ∧ ([']', '>'] <+: text → ¬ [']', '>'] <+: cs →
        text.length + rest.length + 12 * (terminators text + 1) + 3 ≤ cs.length)
      ∧ (['>'] <+: text → ¬ ['>'] <+: cs →
        text.length + rest.length + 12 * (terminators text + 1) + 3 ≤ cs.length) := by
  fun_induction readText? cs generalizing text with
  | case1 => cases hread
  | case2 c cs hend hstart ih =>
    have hlength : 9 ≤ (cs.drop 2).length := by
      have := List.IsPrefix.length_le hstart
      rwa [sectionStart_eq] at this
    -- Nothing is read here, and twelve characters are passed over.
    have hall := (ih hread).1
    simp only [List.length_drop, List.length_cons] at hall hlength ⊢
    refine ⟨?_, fun _ _ => ?_, fun _ _ => ?_⟩ <;> omega
  | case3 c cs hend hstart =>
    cases hread
    have := List.IsPrefix.length_le hend
    rw [sectionEnd_eq] at this
    simp only [List.length_cons, List.length_nil, List.length_drop, terminators] at this ⊢
    refine ⟨?_, ?_, ?_⟩
    . omega
    . simp
    . simp
  | case4 c cs hend ih =>
    rw [Option.map_eq_some_iff] at hread
    rcases hread with ⟨⟨inner, rest'⟩, hinner, heq⟩
    cases heq
    rcases ih hinner with ⟨hall, htwo, hone⟩
    have hcount : terminators (c :: inner) ≤ terminators inner + 1 := by
      simp only [terminators]
      split <;> omega
    simp only [List.length_cons] at hall htwo hone ⊢
    refine ⟨?_, ?_, ?_⟩
    -- A terminator is read here but does not stand here, so that its rest comes from another section.
    . by_cases hcut : sectionEnd <+: c :: inner
      . rw [sectionEnd_eq, List.cons_prefix_cons] at hcut
        rcases hcut with ⟨rfl, hcut⟩
        have := htwo hcut (by simpa [sectionEnd_eq] using hend)
        omega
      . rw [terminators_cons hcut]
        omega
    . intro hbegins hfresh
      rw [List.cons_prefix_cons] at hbegins hfresh
      have hcut : ¬ sectionEnd <+: c :: inner := by
        rintro ⟨es, hcut⟩
        rcases hbegins with ⟨-, fs, hbegins⟩
        simp [sectionEnd_eq, ← hbegins] at hcut
      rw [terminators_cons hcut]
      have := hone hbegins.2 (fun hmore => hfresh ⟨hbegins.1, hmore⟩)
      omega
    . intro hbegins hfresh
      rw [List.cons_prefix_cons] at hbegins hfresh
      exact absurd ⟨hbegins.1, List.nil_prefix⟩ hfresh

def terminatorsWithin : List (List Char) → Nat
  | [] => 0
  | piece :: pieces => terminators piece + terminatorsWithin pieces

def Uncut (pieces : List (List Char)) : Prop :=
  terminators pieces.flatten = terminatorsWithin pieces

instance (pieces : List (List Char)) : Decidable (Uncut pieces) :=
  inferInstanceAs (Decidable (_ = _))

theorem terminators_flatten (pieces : List (List Char)) :
    terminatorsWithin pieces ≤ terminators pieces.flatten
      ∧
    (Uncut pieces → encodeCDataChars pieces.flatten = (pieces.map encodeCDataChars).flatten) := by
  unfold Uncut
  induction pieces with
  | nil => exact ⟨Nat.le_refl _, fun _ => rfl⟩
  | cons cs pieces ih =>
    have happend := terminators_append cs pieces.flatten
    simp only [List.flatten_cons, List.map_cons, terminatorsWithin]
    constructor
    . omega
    . intro h
      rw [happend.2 (by omega), ih.2 (by omega)]

theorem length_flatten_encodeCDataChars (pieces : List (List Char)) :
    (pieces.map encodeCDataChars).flatten.length
      =
    pieces.flatten.length + 12 * terminatorsWithin pieces := by
  induction pieces with
  | nil => rfl
  | cons cs pieces ih =>
    simp only [List.map_cons, List.flatten_cons, List.length_append, length_encodeCDataChars, ih,
      terminatorsWithin]
    omega

theorem readText?_flatten_iff {behind : List Char} (h : ¬ sectionStart <+: behind) (pieces : List (List Char)) :
    ((∃ rest, readText? ((pieces.map encodeCDataChars).flatten ++ (sectionEnd ++ behind))
        = some (pieces.flatten, rest))
      ↔ Uncut pieces)
      ∧
    (Uncut pieces → readText? ((pieces.map encodeCDataChars).flatten ++ (sectionEnd ++ behind))
      = some (pieces.flatten, behind)) := by
  have hwhole (huncut : Uncut pieces) : readText? ((pieces.map encodeCDataChars).flatten ++ (sectionEnd ++ behind))
      = some (pieces.flatten, behind) := by
    rw [← (terminators_flatten pieces).2 huncut]
    exact readText?_encodeCDataChars h pieces.flatten
  refine ⟨⟨?_, fun huncut => ⟨behind, hwhole huncut⟩⟩, hwhole⟩
  rintro ⟨rest, hread⟩
  -- What is read takes at least as much room as the terminators in it need, and there is no more of it.
  have hrest := length_le_of_readText? h _ hread
  have hread := (length_of_readText? hread).1
  have hle := (terminators_flatten pieces).1
  rw [List.length_append, length_flatten_encodeCDataChars, List.length_append, sectionEnd_eq] at hread
  simp only [List.length_cons, List.length_nil] at hread
  unfold Uncut
  omega

end NoteMarkup.Text
