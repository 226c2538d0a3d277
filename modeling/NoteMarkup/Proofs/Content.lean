import NoteMarkup.Event.Basic

/-!
This module contains the balanced lists of events as a type of their own: what an element holds is a
sequence of elements, standalone tags and texts, and each of those elements holds such a sequence again.
-/

namespace NoteMarkup

/-- A sequence of elements, standalone tags and texts. It grows at its end, as output does. -/
inductive Content where
  | nil
  | element (before : Content) (kind : ElementKind) (attributes : List Attribute) (held : Content)
  | standalone (before : Content) (kind : ElementKind) (attributes : List Attribute)
  | text (before : Content) (content : String)
  deriving DecidableEq, Repr, Inhabited

namespace Content

def events : Content → List Event
  | nil => []
  | element before kind attributes held =>
    before.events ++ .startTag kind attributes :: (held.events ++ [.endTag kind])
  | standalone before kind attributes => before.events ++ [.standaloneTag kind attributes]
  | text before content => before.events ++ [.text content]

def append (first : Content) : Content → Content
  | nil => first
  | element before kind attributes held => element (append first before) kind attributes held
  | standalone before kind attributes => standalone (append first before) kind attributes
  | text before content => text (append first before) content

instance : Append Content := ⟨append⟩

@[simp]
theorem append_nil (a : Content) : a ++ nil = a := rfl

@[simp]
theorem append_element (a before held : Content) (kind : ElementKind) (attributes : List Attribute) :
    a ++ element before kind attributes held = element (a ++ before) kind attributes held := rfl

@[simp]
theorem append_standalone (a before : Content) (kind : ElementKind) (attributes : List Attribute) :
    a ++ standalone before kind attributes = standalone (a ++ before) kind attributes := rfl

@[simp]
theorem append_text (a before : Content) (content : String) :
    a ++ text before content = text (a ++ before) content := rfl

@[simp]
theorem nil_append (a : Content) : nil ++ a = a := by
  induction a with
  | nil => rfl
  | element before kind attributes held ih => simp [ih]
  | standalone before kind attributes ih => simp [ih]
  | text before content ih => simp [ih]

theorem append_assoc (a b d : Content) : a ++ b ++ d = a ++ (b ++ d) := by
  induction d with
  | nil => rfl
  | element before kind attributes held ih => simp [ih]
  | standalone before kind attributes ih => simp [ih]
  | text before content ih => simp [ih]

@[simp]
theorem events_append (a b : Content) : (a ++ b).events = a.events ++ b.events := by
  induction b with
  | nil => simp [events]
  | element before kind attributes held ih => simp [events, ih]
  | standalone before kind attributes ih => simp [events, ih]
  | text before content ih => simp [events, ih]

@[simp]
theorem events_eq_nil_iff {a : Content} : a.events = [] ↔ a = nil := by
  cases a <;> simp [events]

end Content

end NoteMarkup
