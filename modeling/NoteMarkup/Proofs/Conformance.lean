import NoteMarkup.Proofs.Run

/-!
This module contains what it is for a list of events to conform to a grammar, and that cleaning by the
standard grammar always ends in one that does.
-/

namespace NoteMarkup

namespace Event

def mayStand (g : Grammar) (kind : ElementKind) : List ElementKind → Bool
  | [] => (g.entry? kind).any fun e => !e.isInline && e.parentKinds.isEmpty
  | frame :: _ =>
    (g.entry? frame).any (·.allows kind)
      && (g.entry? kind).any fun e => e.parentKinds.isEmpty || e.parentKinds.contains frame

def place? (g : Grammar) (opened : List ElementKind) : Event → Option (List ElementKind)
  | .startTag kind _ => if mayStand g kind opened then some (kind :: opened) else none
  | .standaloneTag kind _ => if mayStand g kind opened then some opened else none
  | .endTag kind =>
    match opened with
    | frame :: outer => if frame = kind then some outer else none
    | [] => none
  | .text content =>
    match opened with
    | frame :: _ => if content ≠ "" ∧ (g.entry? frame).any (·.holdsText) then some opened else none
    | [] => none

def Conforms (g : Grammar) (events : List Event) : Prop :=
  events.foldlM (place? g) [] = some []

variable {opened : List ElementKind} {kind : ElementKind}

theorem mayStand_of_fits (h : kind.fits opened.head?) : mayStand .standard kind opened := by
  cases opened with
  | nil =>
    have hblock : kind.isBlock := h
    have hinline : kind.isInline = false := by
      cases hinline : kind.isInline with
      | false => rfl
      | true => simp [ElementKind.isBlock_of_isInline hinline] at hblock
    simp [mayStand, hinline, ElementKind.parents_of_isBlock hblock]
  | cons frame outer =>
    have hadmits : frame.model.admits kind := h
    have hparents : kind.parents = [] ∨ frame ∈ kind.parents := by
      by_cases hnil : kind.parents = []
      . exact .inl hnil
      . exact .inr (ElementKind.mem_parents hadmits hnil)
    simpa [mayStand, hadmits] using hparents

theorem place?_startTag {attributes : List Attribute} (h : kind.fits opened.head?) :
    place? .standard opened (.startTag kind attributes) = some (kind :: opened) := by
  simp [place?, mayStand_of_fits h]

theorem place?_standaloneTag {attributes : List Attribute} (h : kind.fits opened.head?) :
    place? .standard opened (.standaloneTag kind attributes) = some opened := by
  simp [place?, mayStand_of_fits h]

theorem place?_text {content : String} (hheld : ∃ w ∈ opened.head?, w.model.holdsText) (hcontent : content ≠ "") :
    place? .standard opened (.text content) = some opened := by
  rcases hheld with ⟨w, hw, hholds⟩
  cases opened with
  | nil => cases hw
  | cons frame outer =>
    cases hw
    simp [place?, hcontent, hholds]

end Event

theorem Content.Lawful.foldlM_place? {o : CleaningOptions} {bare : Prop} {content : Content}
    {opened : List ElementKind} (h : content.Lawful o bare opened.head?) :
    content.events.foldlM (Event.place? .standard) opened = some opened := by
  induction content generalizing opened with
  | nil => rfl
  | element before kind attributes held ihbefore ihheld =>
    rcases h with ⟨hbefore, hfits, -, -, -, hheld⟩
    have hinner : held.events.foldlM (Event.place? .standard) (kind :: opened) = some (kind :: opened) :=
      ihheld hheld
    simp only [events, List.foldlM_append, List.foldlM_cons, Option.bind_eq_bind]
    rw [ihbefore hbefore, Option.bind_some, Event.place?_startTag hfits, Option.bind_some, hinner,
      Option.bind_some]
    simp [Event.place?]
  | standalone before kind attributes ihbefore =>
    rcases h with ⟨hbefore, hfits, -, -⟩
    simp only [events, List.foldlM_append, List.foldlM_cons, Option.bind_eq_bind]
    rw [ihbefore hbefore, Option.bind_some, Event.place?_standaloneTag hfits]
    rfl
  | text before content ihbefore =>
    rcases h with ⟨hbefore, hheld, hadmitted⟩
    simp only [events, List.foldlM_append, List.foldlM_cons, Option.bind_eq_bind]
    rw [ihbefore hbefore, Option.bind_some,
      Event.place?_text hheld (CleaningOptions.admitText?_eq_some_iff.mp hadmitted).2.1]
    rfl

namespace Cleaner

theorem conforms_cleaned (o : CleaningOptions) (events : List SourceEvent) :
    Event.Conforms .standard (Outline.cleaned o events).events := by
  have hlawful : (Outline.cleaned o events).Lawful o True none :=
    Outline.cleaned_lawful o events fun _ _ _ => trivial
  unfold Event.Conforms
  apply hlawful.foldlM_place?

theorem cleaning_conforms (o : CleaningOptions) :
    (∀ events, ∃ cleaned,
      cleanEvents? ⟨.standard, o⟩ events = some cleaned ∧ Event.Conforms .standard cleaned)
      ∧
    (∀ name attributes children, ∃ cleaned,
      clean ⟨.standard, o⟩ (.element name attributes children) = .ok cleaned
        ∧ Event.Conforms .standard cleaned) := by
  constructor
  . intro events
    exact ⟨_, Outline.cleanEvents?_eq o events, conforms_cleaned o events⟩
  . intro name attributes children
    refine ⟨_, ?_, conforms_cleaned o (SourceEvent.ofNodes children)⟩
    exact Outline.clean_eq o name attributes children

end Cleaner

end NoteMarkup
