import NoteMarkup.Proofs.Run

/-!
This module contains the attributes that are left in a cleaned document. A tag has those that its kind may have and
no others, wherever it comes from: from the source, from a style, from what an element needs around itself, or from
a line that goes on behind its end.
-/

namespace NoteMarkup

def Event.Whitelisted : Event → Prop
  | .startTag kind attributes | .standaloneTag kind attributes => kind.MayHave True attributes
  | .endTag _ | .text _ => True

theorem Content.Lawful.whitelisted {o : CleaningOptions} {content : Content} {frame : Option ElementKind}
    (h : content.Lawful o True frame) : ∀ e ∈ content.events, e.Whitelisted := by
  intro e hmem
  cases e with
  | startTag kind attributes => exact h.mayHave (.inl hmem)
  | standaloneTag kind attributes => exact h.mayHave (.inr hmem)
  | endTag kind => trivial
  | text content => trivial

namespace Cleaner

theorem whitelisted_cleaned (o : CleaningOptions) (events : List SourceEvent) :
    ∀ e ∈ (Outline.cleaned o events).events, e.Whitelisted :=
  (Outline.cleaned_lawful o events fun _ _ _ => trivial).whitelisted

theorem cleaned_tags_whitelisted (o : CleaningOptions) :
    (∀ events, ∃ cleaned,
      cleanEvents? ⟨.standard, o⟩ events = some cleaned ∧ ∀ e ∈ cleaned, e.Whitelisted)
      ∧
    (∀ name attributes children, ∃ cleaned,
      clean ⟨.standard, o⟩ (.element name attributes children) = .ok cleaned
        ∧ ∀ e ∈ cleaned, e.Whitelisted) := by
  constructor
  . intro events
    exact ⟨_, Outline.cleanEvents?_eq o events, whitelisted_cleaned o events⟩
  . intro name attributes children
    refine ⟨_, ?_, whitelisted_cleaned o (SourceEvent.ofNodes children)⟩
    exact Outline.clean_eq o name attributes children

example : Color.palette.map Color.hex
    = ["#ff0000", "#00ff00", "#0000ff", "#ffff00", "#ff00ff", "#00ffff", "#ffffff"] := by
  decide

end Cleaner

end NoteMarkup
