import Mathlib.Data.List.Chain
import NoteMarkup.Proofs.CanonicalTree
import NoteMarkup.Proofs.Run

/-!
This module contains the schema of written trees by the names of their elements, whatever grammar they were
written by, and that cleaning by the standard grammar ends in trees that obey it.
-/

namespace NoteMarkup

structure Schema.Rule where
  elements : List String
  holdsText : Bool
  mayBeEmpty : Bool

namespace Schema

def blockNames : List String :=
  ["text", "h1", "h2", "h3", "quote", "hr", "table"]

def inlineNames : List String :=
  ["a", "strong", "em", "sub", "sup", "u", "strike", "code", "cite", "highlight", "font"]

def flowNames : List String :=
  inlineNames ++ blockNames

def top : Rule :=
  ⟨blockNames, false, true⟩

def rules : List (String × Rule) :=
  [("text", ⟨flowNames, true, true⟩),
    ("quote", ⟨flowNames, true, false⟩),
    ("td", ⟨flowNames, true, true⟩),
    ("th", ⟨flowNames, true, true⟩),
    ("table", ⟨["tr"], false, false⟩),
    ("tr", ⟨["td", "th"], false, false⟩),
    ("hr", ⟨[], false, true⟩)] ++
  (["h1", "h2", "h3"] ++ inlineNames).map fun name => (name, ⟨inlineNames, true, false⟩)

/-- The rule of the elements of a name; the schema has no other elements than those with a rule. -/
def rule? (name : String) : Option Rule :=
  rules.lookup name

def TextsApart (ns : List Node) : Prop :=
  ns.IsChain fun n m => n.isElement ∨ m.isElement

end Schema

mutual

def Node.ObeysIn (r : Schema.Rule) : Node → Prop
  | .element name _ children =>
    name ∈ r.elements
      ∧ ∃ inner, Schema.rule? name = some inner
        ∧ (children = [] → inner.mayBeEmpty)
        ∧ Schema.TextsApart children
        ∧ Node.AllObeyIn inner children
  | .text content => r.holdsText ∧ content ≠ ""

def Node.AllObeyIn (r : Schema.Rule) : List Node → Prop
  | [] => True
  | n :: ns => n.ObeysIn r ∧ Node.AllObeyIn r ns

end

namespace Schema

theorem allObeyIn_append {r : Rule} {first second : List Node} :
    Node.AllObeyIn r (first ++ second) ↔ Node.AllObeyIn r first ∧ Node.AllObeyIn r second := by
  induction first with
  | nil => simp [Node.AllObeyIn]
  | cons n ns ih => simp [Node.AllObeyIn, ih, and_assoc]

theorem textsApart_snoc {ns : List Node} {n : Node} (h : TextsApart ns)
    (hn : n.isElement ∨ Node.endsInText ns = false) : TextsApart (ns ++ [n]) := by
  unfold TextsApart
  rw [List.isChain_append]
  refine ⟨h, List.isChain_singleton n, ?_⟩
  intro last hlast m hm
  cases hm
  rcases hn with hn | hn
  . exact .inr hn
  . unfold Node.endsInText at hn
    rw [Option.mem_def] at hlast
    rw [hlast] at hn
    left
    simpa using hn

def readKinds : List ElementKind :=
  [.text, .h1, .h2, .h3, .quote, .hr, .table, .tr, .td, .th, .a, .strong, .em, .sub, .sup, .u, .strike, .code,
    .cite, .highlight, .font]

theorem name_of_read {k : ElementKind} {name : String} (hread : TagName.ofName name = .known k)
    (hwritten : Grammar.standard.writtenName? k.writing = some name) : name = k.name ∧ k ∈ readKinds := by
  cases k <;> cases hwritten <;> first | exact ⟨rfl, by decide⟩ | exact absurd hread (by decide)

def Rule.Covers (r : Rule) (place : Option ContentModel) : Prop :=
  (∀ k ∈ readKinds, k.standsIn place → k.name ∈ r.elements) ∧ ((∃ m ∈ place, m.holdsText) → r.holdsText)

theorem top_covers : top.Covers none := by
  refine ⟨by decide, ?_⟩
  rintro ⟨m, hm, -⟩
  cases hm

theorem exists_rule_of_read {k : ElementKind} (hk : k ∈ readKinds) :
    ∃ r, rule? k.name = some r ∧ r.Covers (some k.model) ∧ (k = .hr ∨ k.entry.collapses → r.mayBeEmpty) := by
  have hrule : (rule? k.name).any fun r =>
      (readKinds.all fun inner => !inner.standsIn (some k.model) || inner.name ∈ r.elements)
        && (!k.model.holdsText || r.holdsText)
        && (!(k = .hr || k.entry.collapses) || r.mayBeEmpty) := by
    revert k
    decide +kernel
  rw [Option.any_eq_true] at hrule
  rcases hrule with ⟨r, hr, hall⟩
  simp only [Bool.and_eq_true, List.all_eq_true, Bool.or_eq_true, Bool.not_eq_true', decide_eq_true_eq] at hall
  rcases hall with ⟨⟨helements, htext⟩, hempty⟩
  refine ⟨r, hr, ⟨?_, ?_⟩, ?_⟩
  . intro inner hinner hstands
    simpa [hstands] using helements inner hinner
  . rintro ⟨m, hm, hholds⟩
    cases hm
    simpa [hholds] using htext
  . intro hk'
    rcases hempty with hnot | hempty
    . simp only [Bool.or_eq_false_iff, decide_eq_false_iff_not] at hnot
      rcases hk' with hk' | hk'
      . exact absurd hk' hnot.1
      . rw [hnot.2] at hk'
        cases hk'
    . exact hempty

theorem allObeyIn_of_canonical {o : CleaningOptions} {bare : Prop} {place : Option ContentModel} {ns : List Node}
    (h : Node.Canonical o bare place ns) :
    TextsApart ns ∧ ∀ r : Rule, r.Covers place → Node.AllObeyIn r ns := by
  induction h with
  | nil place => exact ⟨.nil, fun r _ => trivial⟩
  | text before happart hplace hcontent ih =>
    refine ⟨textsApart_snoc ih.1 (.inr happart), ?_⟩
    intro r hr
    rw [allObeyIn_append]
    have hne := (CleaningOptions.admitText?_eq_some_iff.mp hcontent).2.1
    exact ⟨ih.2 r hr, ⟨hr.2 hplace, hne⟩, trivial⟩
  | element before hread hwritten hplace hattributes hempty held ihbefore ihheld =>
    refine ⟨textsApart_snoc ihbefore.1 (.inl rfl), ?_⟩
    intro r hr
    rw [allObeyIn_append]
    rcases name_of_read hread hwritten with ⟨rfl, hk⟩
    rcases exists_rule_of_read hk with ⟨inner, hrule, hcovers, hmayBeEmpty⟩
    refine ⟨ihbefore.2 r hr, ⟨hr.1 _ hk hplace, inner, hrule, ?_, ihheld.1, ihheld.2 inner hcovers⟩, trivial⟩
    exact fun hnil => hmayBeEmpty (hempty hnil)

end Schema

namespace Cleaner

theorem written_tree_obeys_schema (o : CleaningOptions) (name : String) (attributes : List Attribute)
    (children : List Node) :
    ∃ cleaned ns,
      clean ⟨.standard, o⟩ (.element name attributes children) = .ok cleaned
        ∧ Event.treeOf .standard cleaned = Node.fragment ns
        ∧ Schema.TextsApart ns
        ∧ Node.AllObeyIn Schema.top ns := by
  have hlawful : (Outline.cleaned o (SourceEvent.ofNodes children)).Lawful o True none :=
    Outline.cleaned_lawful o _ fun _ _ _ => trivial
  have hobeys := Schema.allObeyIn_of_canonical (Node.Canonical.writtenBehind hlawful rfl (.nil none))
  exact ⟨_, _, Outline.clean_eq o name attributes children, Event.treeOf_events _ _, hobeys.1,
    hobeys.2 Schema.top Schema.top_covers⟩

end Cleaner

end NoteMarkup
