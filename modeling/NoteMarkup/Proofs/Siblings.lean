import NoteMarkup.Node.Basic

/-!
This module contains what becomes of siblings when text is put behind them: it joins a text they end in.
-/

namespace NoteMarkup.Node

def endsInText (ns : List Node) : Bool :=
  ns.getLast?.any fun n => !n.isElement

theorem appendText_snoc (ns : List Node) (before content : String) :
    appendText content (ns ++ [.text before]) = ns ++ [.text (before ++ content)] := by
  induction ns with
  | nil => rfl
  | cons n ns ih =>
    rw [List.cons_append, appendText, ih]
    . rfl
    . intro _ _ h
      simp at h

theorem appendText_of_not_endsInText {ns : List Node} (h : endsInText ns = false) (content : String) :
    appendText content ns = ns ++ [.text content] := by
  induction ns with
  | nil => rfl
  | cons n ns ih =>
    cases ns with
    | nil =>
      cases n with
      | element name attributes children => rfl
      | text before => cases h
    | cons m ms =>
      rw [appendText, ih]
      . rfl
      . simpa [endsInText, List.getLast?_cons] using h
      . intro _ _ h
        cases h

theorem endsInText_cases (ns : List Node) :
    (∃ init before, ns = init ++ [.text before]) ∨ endsInText ns = false := by
  rcases List.eq_nil_or_concat ns with rfl | ⟨init, last, rfl⟩
  . exact .inr rfl
  . cases last with
    | element name attributes children => exact .inr (by simp [endsInText, isElement])
    | text before => exact .inl ⟨init, before, by simp⟩

theorem appendText_ne_nil (content : String) (ns : List Node) : appendText content ns ≠ [] := by
  rcases endsInText_cases ns with ⟨init, before, rfl⟩ | hends
  . simp [appendText_snoc]
  . simp [appendText_of_not_endsInText hends]

theorem appendText_append (first second : String) (ns : List Node) :
    appendText (first ++ second) ns = appendText second (appendText first ns) := by
  rcases endsInText_cases ns with ⟨init, before, rfl⟩ | hends
  . rw [appendText_snoc, appendText_snoc, appendText_snoc, String.append_assoc]
  . rw [appendText_of_not_endsInText hends, appendText_of_not_endsInText hends, appendText_snoc]

theorem addText_append (first second : String) (n : Node) :
    n.addText (first ++ second) = (n.addText first).addText second := by
  cases n with
  | text before => rfl
  | element name attributes children => simp [addText, appendText_append]

@[simp]
theorem addChild_isElement (n child : Node) : (n.addChild child).isElement = n.isElement := by
  cases n <;> rfl

@[simp]
theorem addText_isElement (n : Node) (content : String) : (n.addText content).isElement = n.isElement := by
  cases n <;> rfl

@[simp]
theorem addChild_name? (n child : Node) : (n.addChild child).name? = n.name? := by
  cases n <;> rfl

@[simp]
theorem addText_name? (n : Node) (content : String) : (n.addText content).name? = n.name? := by
  cases n <;> rfl

end NoteMarkup.Node
