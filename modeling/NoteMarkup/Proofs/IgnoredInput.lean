import Mathlib.Data.List.Forall2
import NoteMarkup.Proofs.Invariants
import NoteMarkup.Proofs.Run
import NoteMarkup.Proofs.Walk

/-!
This module contains what cleaning does not look at in its source. An entry looks at a few attributes only, of some
at the value and of some at whether they are there, and a name is looked at as the name at the end of its alias
links. Source trees that are the same in this respect are cleaned to the same events.
-/

namespace NoteMarkup

namespace Entry

structure SeesSame (e : Entry) (source other : List Attribute) : Prop where
  keeps : e.keeps source = e.keeps other
  keptAttributes : ∀ parent, e.keptAttributes source parent = e.keptAttributes other parent
  counterparts : e.counterparts source = e.counterparts other

end Entry

namespace Cleaner

variable {c : Cleaner} {name other : TagName} {source source' : List Attribute}

structure Confuses (c : Cleaner) (name other : TagName) (source source' : List Attribute) : Prop where
  sameName : c.grammar.canonicalName name = c.grammar.canonicalName other
  sees : ∀ kind e, c.grammar.canonicalName name = .known kind → c.grammar.entry? kind = some e →
    e.SeesSame source source'

theorem openHere_congr {openStyled : Style.Counterpart → Draft → Option Draft} {e : Entry}
    (h : e.SeesSame source source') (kind : ElementKind) (d : Draft) :
    c.openHere openStyled kind e source d = c.openHere openStyled kind e source' d := by
  unfold openHere
  rw [h.keptAttributes, h.counterparts]

theorem openElement?_congr (h : c.Confuses name other source source') (depth : Nat) (d : Draft) :
    c.openElement? depth name source d = c.openElement? depth other source' d := by
  cases depth with
  | zero => rfl
  | succ depth =>
    unfold openElement?
    rw [← h.sameName]
    cases hname : c.grammar.canonicalName name with
    | unknown raw => rfl
    | known kind =>
      dsimp only
      cases hentry : c.grammar.entry? kind with
      | none => rfl
      | some e =>
        have hsees := h.sees kind e hname hentry
        simp only [hsees.keeps, openHere_congr hsees]

end Cleaner

namespace Draft

variable {c : Cleaner}

theorem enter?_congr {name other : TagName} {source source' : List Attribute}
    (h : c.Confuses name other source source') (d : Draft) : d.enter? c name source = d.enter? c other source' := by
  apply Option.ext
  intro d'
  simp only [enter?_eq_some_iff, Cleaner.openElement?_congr h]

theorem leave_congr {name other : TagName} (h : c.grammar.canonicalName name = c.grammar.canonicalName other)
    (d : Draft) : d.leave c name = d.leave c other := by
  unfold leave
  rw [h]

end Draft

namespace SourceEvent

def Confused (c : Cleaner) : SourceEvent → SourceEvent → Prop
  | enter name source, enter other source' => c.Confuses (.ofName name) (.ofName other) source source'
  | leave name, leave other => c.grammar.canonicalName (.ofName name) = c.grammar.canonicalName (.ofName other)
  | text content, text content' => content = content'
  | _, _ => False

end SourceEvent

namespace Draft

variable {c : Cleaner}

theorem step?_congr {e e' : SourceEvent} (h : e.Confused c e') (d : Draft) : d.step? c e = d.step? c e' := by
  cases e <;> cases e' <;> try exact h.elim
  case enter.enter name source other source' => exact enter?_congr h d
  case leave.leave name other => exact congrArg some (leave_congr h d)
  case text.text content content' =>
    cases h
    rfl

theorem run?_congr {events events' : List SourceEvent} (h : List.Forall₂ (SourceEvent.Confused c) events events')
    (d : Draft) : d.run? c events = d.run? c events' := by
  unfold run?
  induction h generalizing d with
  | nil => rfl
  | cons hhead _ ih =>
    rw [List.foldlM_cons, List.foldlM_cons, step?_congr hhead]
    simp only [ih]

end Draft

namespace Attribute

def valuesSeen : List String :=
  ["href", "color", "list", "style"]

def marksSeen : List String :=
  ["data-type", "data-list"]

structure Agree (source other : List Attribute) : Prop where
  values : ∀ name ∈ valuesSeen, lookup? source name = lookup? other name
  marks : ∀ name ∈ marksSeen, isPresent source name = isPresent other name

end Attribute

namespace ElementKind

variable {source other : List Attribute}

theorem isMet_of_agree (h : Attribute.Agree source other) (r : Requirement) : r.isMet source = r.isMet other := by
  cases r with
  | usableHref => simp only [Requirement.isMet, h.values "href" (by decide)]
  | listMarker => simp only [Requirement.isMet, h.marks "data-type" (by decide), h.marks "data-list" (by decide)]

theorem recognised_seen (k : ElementKind) : ∀ a ∈ k.recognised, a.1 ∈ Attribute.valuesSeen := by
  cases k <;> decide

theorem styleAttributes_seen (k : ElementKind) : ∀ a ∈ k.entry.styleAttributes, a.1 ∈ Attribute.valuesSeen := by
  cases k <;> decide

theorem seesSame_of_agree (h : Attribute.Agree source other) (k : ElementKind) : k.entry.SeesSame source other where
  keeps := by
    unfold Entry.keeps
    simp only [isMet_of_agree h]
  keptAttributes := by
    intro parent
    unfold Entry.keptAttributes
    rw [entry_attributes]
    congr 1
    apply List.filterMap_congr
    rintro ⟨name, rule⟩ hmem
    simp only [h.values name (recognised_seen k _ hmem)]
  counterparts := by
    unfold Entry.counterparts
    rw [h.values "style" (by decide)]
    congr 1
    apply List.filterMap_congr
    rintro ⟨name, property⟩ hmem
    simp only [h.values name (styleAttributes_seen k _ hmem)]

end ElementKind

mutual

/-- Whether the trees have the same shape and texts, and their elements names and attributes that are the same as far
as the standard grammar looks at them. -/
def Node.Agrees : Node → Node → Prop
  | .element name source children, .element other source' children' =>
    Grammar.standard.canonicalName (.ofName name) = Grammar.standard.canonicalName (.ofName other)
      ∧ Attribute.Agree source source' ∧ Node.AgreesAll children children'
  | .text content, .text content' => content = content'
  | _, _ => False

def Node.AgreesAll : List Node → List Node → Prop
  | [], [] => True
  | n :: ns, m :: ms => n.Agrees m ∧ Node.AgreesAll ns ms
  | _, _ => False

end

section

variable (o : CleaningOptions)

mutual

theorem Node.confused_sourceEvents : ∀ n m : Node, n.Agrees m →
    List.Forall₂ (SourceEvent.Confused ⟨.standard, o⟩) n.sourceEvents m.sourceEvents
  | .element name source children, .element other source' children', h => by
    simp only [Node.Agrees] at h
    rcases h with ⟨hname, hsource, hchildren⟩
    refine .cons ⟨hname, ?_⟩ (List.rel_append (confused_sourceEventsAll children children' hchildren) ?_)
    . intro kind e _ hentry
      rw [Grammar.entry?_standard, Option.some.injEq] at hentry
      rw [← hentry]
      exact ElementKind.seesSame_of_agree hsource kind
    . exact .cons hname .nil
  | .text _, .text _, h => .cons h .nil
  | .element .., .text _, h => h.elim
  | .text _, .element .., h => h.elim

theorem Node.confused_sourceEventsAll : ∀ ns ms : List Node, Node.AgreesAll ns ms →
    List.Forall₂ (SourceEvent.Confused ⟨.standard, o⟩) (sourceEventsAll ns) (sourceEventsAll ms)
  | [], [], _ => .nil
  | n :: ns, m :: ms, h => List.rel_append (confused_sourceEvents n m h.1) (confused_sourceEventsAll ns ms h.2)
  | [], _ :: _, h => h.elim
  | _ :: _, [], h => h.elim

end

end

namespace Cleaner

theorem agreeing_trees_cleaned_alike (o : CleaningOptions) (name other : String) (source source' : List Attribute)
    {children children' : List Node} (h : Node.AgreesAll children children') :
    ∃ cleaned, clean ⟨.standard, o⟩ (.element name source children) = .ok cleaned
      ∧ clean ⟨.standard, o⟩ (.element other source' children') = .ok cleaned := by
  have hrun : cleanEvents? ⟨.standard, o⟩ (SourceEvent.ofNodes children)
      = cleanEvents? ⟨.standard, o⟩ (SourceEvent.ofNodes children') := by
    unfold cleanEvents?
    rw [SourceEvent.ofNodes_eq, SourceEvent.ofNodes_eq,
      Draft.run?_congr (Node.confused_sourceEventsAll o children children' h)]
  rw [Outline.cleanEvents?_eq, Outline.cleanEvents?_eq, Option.some.injEq] at hrun
  refine ⟨_, Outline.clean_eq o name source children, ?_⟩
  rw [Outline.clean_eq, hrun]

theorem renamed_heading_cleaned_alike :
    let children : List Node :=
      [.element "H4" [⟨"STYLE", "color: red"⟩, ⟨"style", "color: blue"⟩, ⟨"class", "x"⟩] [.text "One"],
        .element "li" [⟨"data-type", "a"⟩, ⟨"data-list", "1"⟩]
          [.element "a" [⟨"href", "/two"⟩, ⟨"href", "/three"⟩] [.text "two"]]]
    let children' : List Node :=
      [.element "h6" [⟨"style", "color: red"⟩] [.text "One"],
        .element "LI" [⟨"data-list", ""⟩, ⟨"data-type", "b"⟩]
          [.element "A" [⟨"onclick", "x"⟩, ⟨"HREF", "/two"⟩] [.text "two"]]]
    Node.AgreesAll children children'
      ∧ ∃ cleaned, clean ⟨.standard, {}⟩ (.element "div" [] children) = .ok cleaned
        ∧ clean ⟨.standard, {}⟩ (.element "p" [] children') = .ok cleaned := by
  intro children children'
  have hheading : Attribute.Agree [⟨"STYLE", "color: red"⟩, ⟨"style", "color: blue"⟩, ⟨"class", "x"⟩]
      [⟨"style", "color: red"⟩] := ⟨by decide, by decide⟩
  have hitem : Attribute.Agree [⟨"data-type", "a"⟩, ⟨"data-list", "1"⟩] [⟨"data-list", ""⟩, ⟨"data-type", "b"⟩] :=
    ⟨by decide, by decide⟩
  have hlink : Attribute.Agree [⟨"href", "/two"⟩, ⟨"href", "/three"⟩] [⟨"onclick", "x"⟩, ⟨"HREF", "/two"⟩] :=
    ⟨by decide, by decide⟩
  have hagrees : Node.AgreesAll children children' :=
    ⟨⟨by decide, hheading, rfl, trivial⟩, ⟨by decide, hitem, ⟨by decide, hlink, rfl, trivial⟩, trivial⟩, trivial⟩
  exact ⟨hagrees, agreeing_trees_cleaned_alike {} "div" "p" [] [] hagrees⟩

end Cleaner

end NoteMarkup
