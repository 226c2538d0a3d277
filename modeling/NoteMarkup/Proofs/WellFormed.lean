import Mathlib
import NoteMarkup.Proofs.OutlinedDrafts

/-!
This module contains what it is for a list of events to be well-formed, and that cleaning by any sound grammar
that comes to an end ends in such a list. Nothing is known of the grammar, so that only the outline of a draft
can carry this: what its layers hold is balanced, and there is nothing in it that could be taken back later.
-/

namespace NoteMarkup

namespace Grammar

def encloses (g : Grammar) (kind : ElementKind) : Bool :=
  (g.entry? kind).any fun e => e.aliasOf.isNone && !e.endsLine && !e.standalone

def standsAlone (g : Grammar) (kind : ElementKind) : Bool :=
  (g.entry? kind).any fun e => e.standalone || e.collapses

theorem entry?_kind {g : Grammar} {kind : ElementKind} {e : Entry} (h : g.entry? kind = some e) :
    e.kind = kind := by
  have := List.find?_some h
  simpa using this

theorem ofDeclarations_eq_ok_iff {declarations : List EntryDeclaration} {g : Grammar} :
    ofDeclarations declarations = .ok g
      ↔
    duplicate? declarations [] = none
      ∧ missingParent? declarations = none
      ∧ (assemble declarations).hasPlainBlock
      ∧ (assemble declarations).aliasCycle? = none
      ∧ (assemble declarations).styleCycle? = none
      ∧ assemble declarations = g := by
  unfold ofDeclarations
  dsimp only
  generalize assemble declarations = assembled
  cases duplicate? declarations [] with
  | some kind => simp
  | none =>
    cases missingParent? declarations with
    | some missing => simp
    | none =>
      cases assembled.hasPlainBlock with
      | false => simp
      | true =>
        cases assembled.aliasCycle? with
        | some kind => simp
        | none => cases assembled.styleCycle? <;> simp

theorem aliasOf?_canonical {declarations : List EntryDeclaration} {g : Grammar}
    (h : ofDeclarations declarations = .ok g) (kind : ElementKind) : g.aliasOf? (g.canonical kind) = none := by
  cases hentry : g.entry? kind with
  | none =>
    have halias : g.aliasOf? kind = none := by simp [aliasOf?, hentry]
    have hcanonical : g.canonical kind = kind := by
      unfold canonical follow
      split
      . rfl
      . rw [halias]
    rw [hcanonical, halias]
  | some e =>
    rcases ofDeclarations_eq_ok_iff.mp h with ⟨-, -, -, hcycle, -, rfl⟩
    simp only [aliasCycle?, Option.map_eq_none_iff, List.find?_eq_none] at hcycle
    have hends := hcycle e (List.mem_of_find?_eq_some hentry)
    rw [entry?_kind hentry] at hends
    simpa using hends

end Grammar

namespace Event

def nest? (opened : List ElementKind) : Event → Option (List ElementKind)
  | .startTag kind _ => some (kind :: opened)
  | .endTag kind =>
    match opened with
    | innermost :: outer => if innermost = kind then some outer else none
    | [] => none
  | .standaloneTag .. | .text _ => some opened

def endsAtOnce : Event → Event → Bool
  | .startTag .., .endTag _ => true
  | _, _ => false

def hasKind (g : Grammar) : Event → Bool
  | .startTag kind _ => g.encloses kind
  | .standaloneTag kind _ => g.standsAlone kind
  | .endTag _ | .text _ => true

structure WellFormed (g : Grammar) (events : List Event) : Prop where
  nested : events.foldlM nest? [] = some []
  filled : events.IsChain fun e next => endsAtOnce e next = false
  hasKinds : ∀ e ∈ events, e.hasKind g

end Event

namespace Content

def Formed (g : Grammar) : Content → Prop
  | nil => True
  | element before kind _ held => before.Formed g ∧ g.encloses kind ∧ held ≠ .nil ∧ held.Formed g
  | standalone before kind _ => before.Formed g ∧ g.standsAlone kind
  | text before _ => before.Formed g

variable {g : Grammar}

theorem formed_append {a b : Content} : (a ++ b).Formed g ↔ a.Formed g ∧ b.Formed g := by
  induction b with
  | nil => simp [Formed]
  | element before kind attributes held ih => simp [Formed, ih, and_assoc]
  | standalone before kind attributes ih => simp [Formed, ih, and_assoc]
  | text before content ih => simp [Formed, ih]

theorem foldlM_nest? (content : Content) (opened : List ElementKind) :
    content.events.foldlM Event.nest? opened = some opened := by
  induction content generalizing opened with
  | nil => rfl
  | element before kind attributes held ihbefore ihheld =>
    simp only [events, List.foldlM_append, List.foldlM_cons, Option.bind_eq_bind, ihbefore, Option.bind_some,
      Event.nest?, ihheld]
    simp
  | standalone before kind attributes ihbefore => simp [events, ihbefore, Event.nest?]
  | text before content ihbefore => simp [events, ihbefore, Event.nest?]

theorem endsAtOnce_head {content : Content} {e : Event} (h : e ∈ content.events.head?) (before : Event) :
    before.endsAtOnce e = false := by
  induction content with
  | nil => cases h
  | element first kind attributes held ihfirst _ =>
    rw [events, List.head?_append, Option.mem_def, Option.or_eq_some_iff] at h
    rcases h with h | ⟨-, h⟩
    . exact ihfirst h
    . cases h
      cases before <;> rfl
  | standalone first kind attributes ihfirst =>
    rw [events, List.head?_append, Option.mem_def, Option.or_eq_some_iff] at h
    rcases h with h | ⟨-, h⟩
    . exact ihfirst h
    . cases h
      cases before <;> rfl
  | text first content ihfirst =>
    rw [events, List.head?_append, Option.mem_def, Option.or_eq_some_iff] at h
    rcases h with h | ⟨-, h⟩
    . exact ihfirst h
    . cases h
      cases before <;> rfl

theorem endsAtOnce_getLast {content : Content} {e : Event} (h : e ∈ content.events.getLast?) (behind : Event) :
    e.endsAtOnce behind = false := by
  cases content <;> simp only [events, List.getLast?_nil, List.getLast?_append, List.getLast?_cons,
    Option.some_or, Option.mem_def, Option.some.injEq, reduceCtorEq,
    Option.getD_some] at h
  all_goals subst h; rfl

theorem isChain_snoc {content : Content} {e : Event}
    (h : content.events.IsChain fun e next => e.endsAtOnce next = false) :
    (content.events ++ [e]).IsChain fun e next => e.endsAtOnce next = false := by
  rw [List.isChain_append]
  refine ⟨h, List.isChain_singleton e, ?_⟩
  intro last hlast next _
  exact endsAtOnce_getLast hlast next

theorem Formed.isChain {content : Content} (h : content.Formed g) :
    content.events.IsChain fun e next => e.endsAtOnce next = false := by
  induction content with
  | nil => exact .nil
  | element before kind attributes held ihbefore ihheld =>
    rcases h with ⟨hbefore, -, hne, hheld⟩
    unfold events
    rw [List.isChain_append]
    refine ⟨ihbefore hbefore, ?_, fun last hlast next _ => endsAtOnce_getLast hlast next⟩
    rw [List.isChain_cons]
    refine ⟨?_, isChain_snoc (ihheld hheld)⟩
    -- What is behind the start tag is not its end tag, since the element holds something.
    intro next hnext
    rw [List.head?_append_of_ne_nil _ (by simpa using hne)] at hnext
    exact endsAtOnce_head hnext _
  | standalone before kind attributes ihbefore => exact isChain_snoc (ihbefore h.1)
  | text before content ihbefore => exact isChain_snoc (ihbefore h)

theorem Formed.hasKind {content : Content} (h : content.Formed g) : ∀ e ∈ content.events, e.hasKind g := by
  induction content with
  | nil => simp [events]
  | element before kind attributes held ihbefore ihheld =>
    rcases h with ⟨hbefore, hencloses, -, hheld⟩
    simp only [events, List.forall_mem_append, List.forall_mem_cons]
    refine ⟨ihbefore hbefore, hencloses, ihheld hheld, rfl, ?_⟩
    simp
  | standalone before kind attributes ihbefore =>
    simp only [events, List.forall_mem_append, List.forall_mem_singleton]
    exact ⟨ihbefore h.1, h.2⟩
  | text before content ihbefore =>
    simp only [events, List.forall_mem_append, List.forall_mem_singleton]
    exact ⟨ihbefore h, rfl⟩

theorem Formed.wellFormed {content : Content} (h : content.Formed g) : Event.WellFormed g content.events where
  nested := foldlM_nest? content []
  filled := h.isChain
  hasKinds := h.hasKind

end Content

namespace Layer

variable {g : Grammar}

def Formed : Layer g → Prop
  | silent _ _ held => held.Formed g
  | written tag _ held => g.encloses tag.entry.kind ∧ held.Formed g

theorem Formed.hold {l : Layer g} (h : l.Formed) {more : Content} (hmore : more.Formed g) : (l.hold more).Formed := by
  cases l with
  | silent name since held => exact Content.formed_append.mpr ⟨h, hmore⟩
  | written tag since held => exact ⟨h.1, Content.formed_append.mpr ⟨h.2, hmore⟩⟩

theorem Formed.emptied {l : Layer g} (h : l.Formed) : l.emptied.Formed := by
  cases l with
  | silent name since held => trivial
  | written tag since held => exact ⟨h.1, trivial⟩

theorem Formed.settled {l : Layer g} (h : l.Formed) : l.settled.Formed g := by
  cases l with
  | silent name since held => exact h
  | written tag since held =>
    simp only [Layer.settled]
    split
    . split
      . next hcollapses => exact ⟨trivial, by simp [Grammar.standsAlone, tag.declared, hcollapses]⟩
      . trivial
    . next hne => exact ⟨trivial, h.1, hne, h.2⟩

end Layer

namespace Outline

variable {g : Grammar} {z : Outline g}

structure Formed (z : Outline g) : Prop where
  ground : z.ground.Formed g
  layers : ∀ l ∈ z.layers, l.Formed

theorem Formed.hold (h : z.Formed) {more : Content} (hmore : more.Formed g) : (z.hold more).Formed := by
  unfold Outline.hold
  split
  . next hnil => exact ⟨Content.formed_append.mpr ⟨h.ground, hmore⟩, h.layers⟩
  . next l ls hcons =>
    have hlayers := h.layers
    rw [hcons, List.forall_mem_cons] at hlayers
    exact ⟨h.ground, List.forall_mem_cons.mpr ⟨hlayers.1.hold hmore, hlayers.2⟩⟩

theorem Formed.closeInnermost (h : z.Formed) : z.closeInnermost.Formed := by
  unfold Outline.closeInnermost
  split
  . exact h
  . next l ls hcons =>
    have hlayers := h.layers
    rw [hcons, List.forall_mem_cons] at hlayers
    have hrest : Formed { z with layers := ls } := ⟨h.ground, hlayers.2⟩
    exact hrest.hold hlayers.1.settled

theorem Formed.close (h : z.Formed) (n : Nat) : (z.close n).Formed := by
  induction n generalizing z with
  | zero => exact h
  | succ n ih => exact ih h.closeInnermost

theorem Formed.putUp (h : z.Formed) {line : List (Layer g)} (hline : ∀ l ∈ line, l.Formed) :
    (z.putUp line).Formed := by
  refine ⟨h.ground, ?_⟩
  simp only [Outline.putUp, List.forall_mem_append, List.forall_mem_map, List.mem_reverse]
  exact ⟨fun l hl => (hline l hl).emptied, h.layers⟩

theorem Formed.line (h : z.Formed) (n : Nat) : ∀ l ∈ z.line n, l.Formed := by
  intro l hl
  exact h.layers l (List.mem_of_mem_take (List.mem_reverse.mp hl))

end Outline

def Draft.Formed (g : Grammar) (d : Draft) : Prop :=
  ∃ z : Outline g, z.Formed ∧ z.draft = d

namespace Cleaner

theorem keepsOutline_formed {declarations : List EntryDeclaration} {g : Grammar}
    (hg : Grammar.ofDeclarations declarations = .ok g) (o : CleaningOptions) :
    KeepsOutline (g := g) o Outline.Formed where
  text := by
    intro z hz content
    exact hz.hold trivial
  standalone := by
    intro z kind e hz hopens hstandalone attributes
    exact hz.hold ⟨trivial, by simp [Grammar.standsAlone, hopens.declared, hstandalone]⟩
  openSilently := by
    intro z hz name
    exact ⟨hz.ground, List.forall_mem_cons.mpr ⟨trivial, hz.layers⟩⟩
  openWritten := by
    intro z tag hz hopens hstandalone
    rcases hopens with ⟨⟨source, hcanonical⟩, hdeclared, hends⟩
    have halias : tag.entry.aliasOf = none := by
      have := Grammar.aliasOf?_canonical hg source
      rwa [hcanonical, Grammar.aliasOf?, hdeclared] at this
    have hencloses : g.encloses tag.entry.kind := by
      simp [Grammar.encloses, hdeclared, halias, hends, hstandalone]
    exact ⟨hz.ground, List.forall_mem_cons.mpr ⟨⟨hencloses, trivial⟩, hz.layers⟩⟩
  close := fun hz n => hz.close n
  putUp := fun hz hz' n => hz'.putUp (hz.line n)

theorem keeps_formed {declarations : List EntryDeclaration} {g : Grammar}
    (hg : Grammar.ofDeclarations declarations = .ok g) (o : CleaningOptions) : Keeps ⟨g, o⟩ (Draft.Formed g) :=
  (keepsOutline_formed hg o).keeps

theorem cleaned_wellFormed {declarations : List EntryDeclaration} {g : Grammar}
    (hg : Grammar.ofDeclarations declarations = .ok g) (o : CleaningOptions) {events : List SourceEvent}
    {cleaned : List Event} (hcleaned : cleanEvents? ⟨g, o⟩ events = some cleaned) :
    Event.WellFormed g cleaned := by
  rw [cleanEvents?, Option.map_eq_some_iff] at hcleaned
  rcases hcleaned with ⟨d, hrun, rfl⟩
  have hempty : Draft.Formed g {} := ⟨{}, ⟨trivial, by simp⟩, rfl⟩
  rcases Draft.run?_keeps (keeps_formed hg o) hempty hrun with ⟨z, hz, rfl⟩
  rw [Outline.settled_draft]
  exact (hz.close _).ground.wellFormed

def itemDeclarations : List EntryDeclaration :=
  [{ kind := .p, category := some .block, output := some "text", collapses := true, children := [.text] },
    { kind := .div, aliasOf := some .p },
    { kind := .ul, category := some .block, output := some "list", children := [.kind .li] },
    { kind := .li, category := some .listItem, output := some "item", children := [.flow],
      parents := [.kind .ul] },
    { kind := .b, category := some .inline, output := some "bold", children := [.text] },
    { kind := .br, endsLine := true }]

def itemEvents : List SourceEvent :=
  [.leave "ul", .enter "li" [], .enter "b" [], .text "a", .enter "BR" [], .leave "b", .enter "div" []]

def cleanedItems : List Event :=
  [.startTag .ul [], .startTag .li [], .startTag .b [], .text "a", .endTag .b, .endTag .li,
    .startTag .li [], .standaloneTag .p [], .endTag .li, .endTag .ul]

theorem cleanedItems_wellFormed :
    Grammar.ofDeclarations itemDeclarations = .ok (.assemble itemDeclarations)
      ∧ cleanEvents? ⟨.assemble itemDeclarations, {}⟩ itemEvents = some cleanedItems
      ∧ Event.WellFormed (.assemble itemDeclarations) cleanedItems := by
  have hg : Grammar.ofDeclarations itemDeclarations = .ok (.assemble itemDeclarations) := by
    rw [Grammar.ofDeclarations_eq_ok_iff]
    refine ⟨?_, ?_, ?_, ?_, ?_, rfl⟩ <;> decide +kernel
  have hcleaned : cleanEvents? ⟨.assemble itemDeclarations, {}⟩ itemEvents = some cleanedItems := by cbv
  exact ⟨hg, hcleaned, cleaned_wellFormed hg {} hcleaned⟩

end Cleaner

end NoteMarkup
