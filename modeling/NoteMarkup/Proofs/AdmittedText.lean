import NoteMarkup.Cleaning.Options

/-!
This module contains the texts that cleaning admits as they are. Whatever is admitted is admitted as such a text,
and two of them in a row are one.
-/

namespace NoteMarkup

theorem mem_joinLines {cs : List Char} {c : Char} (h : c ∈ joinLines cs) : c ≠ '\r' ∧ c ≠ '\n' := by
  fun_induction joinLines cs with
  | case1 cs ih | case2 cs hcs ih | case3 cs ih =>
    rw [List.mem_cons] at h
    rcases h with rfl | h
    . decide
    . exact ih h
  | case4 d cs hpair hreturn hfeed ih =>
    rw [List.mem_cons] at h
    rcases h with rfl | h
    . exact ⟨hreturn, hfeed⟩
    . exact ih h
  | case5 => simp at h

theorem joinLines_eq_self {cs : List Char} (h : ∀ c ∈ cs, c ≠ '\r' ∧ c ≠ '\n') : joinLines cs = cs := by
  fun_induction joinLines cs with
  | case1 cs ih | case2 cs hcs ih | case3 cs ih => simp at h
  | case4 d cs hpair hreturn hfeed ih =>
    rw [ih]
    intro c hc
    exact h c (by simp [hc])
  | case5 => rfl

namespace CleaningOptions

variable {o : CleaningOptions}

theorem admitText?_of_admitText? {content admitted : String} (h : o.admitText? content = some admitted) :
    o.admitText? admitted = some admitted := by
  unfold admitText? at h ⊢
  dsimp only at h ⊢
  rw [Option.ite_none_left_eq_some, Option.some.injEq] at h
  rcases h with ⟨hmet, rfl⟩
  by_cases hjoined : o.normalizeLineBreaks
  . simp only [hjoined, ↓reduceIte] at hmet ⊢
    simp only [String.toList_ofList]
    rw [joinLines_eq_self fun c hc => mem_joinLines hc, if_neg hmet]
  . simp only [hjoined] at hmet ⊢
    simp only [Bool.false_eq_true, ↓reduceIte] at hmet ⊢
    rw [if_neg hmet]

theorem admitText?_eq_some_iff {content : String} :
    o.admitText? content = some content
      ↔
    (o.normalizeLineBreaks → ∀ c ∈ content.toList, c ≠ '\r' ∧ c ≠ '\n')
      ∧ content ≠ "" ∧ (o.skipBlankText → Text.isBlankText content = false) := by
  have hjoined : String.ofList (joinLines content.toList) = content
      ↔ ∀ c ∈ content.toList, c ≠ '\r' ∧ c ≠ '\n' := by
    constructor
    . intro h c hc
      rw [← h, String.toList_ofList] at hc
      exact mem_joinLines hc
    . intro h
      rw [joinLines_eq_self h, String.ofList_toList]
  have hkept : ¬(content.isEmpty || (o.skipBlankText && Text.isBlankText content))
      ↔ content ≠ "" ∧ (o.skipBlankText → Text.isBlankText content = false) := by
    simp
  unfold admitText?
  dsimp only
  rw [Option.ite_none_left_eq_some, Option.some.injEq, ← hkept, ← hjoined]
  by_cases hnormalize : o.normalizeLineBreaks
  . simp only [hnormalize, ↓reduceIte, forall_const]
    constructor
    . rintro ⟨hmet, heq⟩
      rw [heq] at hmet
      exact ⟨heq, hmet⟩
    . rintro ⟨heq, hmet⟩
      rw [heq]
      exact ⟨hmet, rfl⟩
  . simp [hnormalize]

theorem admitText?_append {first second : String} (hfirst : o.admitText? first = some first)
    (hsecond : o.admitText? second = some second) :
    o.admitText? (first ++ second) = some (first ++ second) := by
  rw [admitText?_eq_some_iff] at hfirst hsecond ⊢
  -- No line break comes about where the two meet, and what is not blank stays so with more behind it.
  refine ⟨?_, ?_, ?_⟩
  . intro hnormalize c hc
    rw [String.toList_append, List.mem_append] at hc
    rcases hc with hc | hc
    . exact hfirst.1 hnormalize c hc
    . exact hsecond.1 hnormalize c hc
  . simp [hfirst.2.1]
  . intro hskip
    have hblank := hfirst.2.2 hskip
    unfold Text.isBlankText at hblank ⊢
    simp [hblank]

end CleaningOptions

end NoteMarkup
