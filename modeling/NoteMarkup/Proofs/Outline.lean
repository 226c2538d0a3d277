import NoteMarkup.Cleaning.Draft
import NoteMarkup.Proofs.Content

/-!
This module contains outlines, in which every open element has what it holds at hand. A draft stores the
same flat, as one list of events and a place in it for each open element; an outline knows the draft it
stands for, and the steps on drafts that open no source element are steps on outlines.
-/

namespace NoteMarkup

structure Tag (g : Grammar) where
  entry : Entry
  attributes : List Attribute
  declared : g.entry? entry.kind = some entry

/-- An open element with what it holds so far. The number of the source event that opened it tells it from
others of its name; it keeps this number when it is taken down and put up again. -/
inductive Layer (g : Grammar) where
  | silent (name : TagName) (since : Nat) (held : Content)
  | written (tag : Tag g) (since : Nat) (held : Content)

namespace Layer

variable {g : Grammar}

def name : Layer g → TagName
  | silent name _ _ => name
  | written tag _ _ => .known tag.entry.kind

def since : Layer g → Nat
  | silent _ since _ => since
  | written _ since _ => since

def held : Layer g → Content
  | silent _ _ held => held
  | written _ _ held => held

def startTag? : Layer g → Option Event
  | silent .. => none
  | written tag _ _ => some (.startTag tag.entry.kind tag.attributes)

def isBlock : Layer g → Bool
  | silent .. => false
  | written tag _ _ => tag.entry.isBlock

def hold (more : Content) : Layer g → Layer g
  | silent name since held => silent name since (held ++ more)
  | written tag since held => written tag since (held ++ more)

def emptied : Layer g → Layer g
  | silent name since _ => silent name since .nil
  | written tag since _ => written tag since .nil

/-- What a layer leaves behind in the one around it. -/
def settled : Layer g → Content
  | silent _ _ held => held
  | written tag _ held =>
    if held = .nil then
      if tag.entry.collapses then .standalone .nil tag.entry.kind tag.attributes else .nil
    else
      .element .nil tag.entry.kind tag.attributes held

def opened (outside : Nat) : Layer g → OpenElement
  | silent name _ _ => ⟨name, none⟩
  | written tag _ _ => ⟨.known tag.entry.kind, some outside⟩

@[simp]
theorem opened_name (l : Layer g) (outside : Nat) : (l.opened outside).name = l.name := by
  cases l <;> rfl

@[simp]
theorem hold_held (l : Layer g) (more : Content) : (l.hold more).held = l.held ++ more := by
  cases l <;> rfl

@[simp]
theorem hold_startTag? (l : Layer g) (more : Content) : (l.hold more).startTag? = l.startTag? := by
  cases l <;> rfl

@[simp]
theorem hold_isBlock (l : Layer g) (more : Content) : (l.hold more).isBlock = l.isBlock := by
  cases l <;> rfl

@[simp]
theorem hold_opened (l : Layer g) (more : Content) (outside : Nat) :
    (l.hold more).opened outside = l.opened outside := by
  cases l <;> rfl

@[simp]
theorem emptied_name (l : Layer g) : l.emptied.name = l.name := by
  cases l <;> rfl

@[simp]
theorem emptied_startTag? (l : Layer g) : l.emptied.startTag? = l.startTag? := by
  cases l <;> rfl

@[simp]
theorem emptied_since (l : Layer g) : l.emptied.since = l.since := by
  cases l <;> rfl

@[simp]
theorem hold_emptied (l : Layer g) (more : Content) : (l.hold more).emptied = l.emptied := by
  cases l <;> rfl

@[simp]
theorem emptied_emptied (l : Layer g) : l.emptied.emptied = l.emptied := by
  cases l <;> rfl

end Layer

/-- The open elements of a draft as layers, innermost first, around them what no open element holds. -/
structure Outline (g : Grammar) where
  ground : Content := .nil
  layers : List (Layer g) := []

namespace Outline

variable {g : Grammar}

def eventsOf (ground : Content) : List (Layer g) → List Event
  | [] => ground.events
  | l :: ls => eventsOf ground ls ++ (l.startTag?.toList ++ l.held.events)

def openedOf (ground : Content) : List (Layer g) → List OpenElement
  | [] => []
  | l :: ls => l.opened (eventsOf ground ls).length :: openedOf ground ls

def blocksOf : List (Layer g) → List Nat
  | [] => []
  | l :: ls => if l.isBlock then ls.length :: blocksOf ls else blocksOf ls

def draft (z : Outline g) : Draft where
  output := (eventsOf z.ground z.layers).toArray
  opened := openedOf z.ground z.layers
  blocks := blocksOf z.layers

def hold (more : Content) (z : Outline g) : Outline g :=
  match z.layers with
  | [] => { z with ground := z.ground ++ more }
  | l :: ls => { z with layers := l.hold more :: ls }

def openWritten (tag : Tag g) (now : Nat) (z : Outline g) : Outline g :=
  { z with layers := .written tag now .nil :: z.layers }

def openSilently (name : TagName) (now : Nat) (z : Outline g) : Outline g :=
  { z with layers := .silent name now .nil :: z.layers }

def closeInnermost (z : Outline g) : Outline g :=
  match z.layers with
  | [] => z
  | l :: ls => { z with layers := ls }.hold l.settled

def close : Nat → Outline g → Outline g
  | 0, z => z
  | n + 1, z => close n z.closeInnermost

def line (n : Nat) (z : Outline g) : List (Layer g) :=
  (z.layers.take n).reverse

def putUp (line : List (Layer g)) (z : Outline g) : Outline g :=
  { z with layers := line.reverse.map Layer.emptied ++ z.layers }

def leave (name : TagName) (z : Outline g) : Outline g :=
  match z.layers.findIdx? (·.name == name) with
  | some i => z.close (i + 1)
  | none => z

def shells (z : Outline g) : List (Layer g) :=
  z.layers.map Layer.emptied

@[simp]
theorem shells_length (z : Outline g) : z.shells.length = z.layers.length := by
  simp [shells]

@[simp]
theorem hold_shells (more : Content) (z : Outline g) : (z.hold more).shells = z.shells := by
  unfold hold
  split
  . next h => simp [shells, h]
  . next l ls h => simp [shells, h]

@[simp]
theorem hold_nil (z : Outline g) : z.hold .nil = z := by
  rcases z with ⟨ground, _ | ⟨l, ls⟩⟩
  . rfl
  . cases l <;> rfl

theorem hold_hold (first second : Content) (z : Outline g) :
    (z.hold first).hold second = z.hold (first ++ second) := by
  rcases z with ⟨ground, _ | ⟨l, ls⟩⟩
  . simp [hold, Content.append_assoc]
  . cases l <;> simp [hold, Layer.hold, Content.append_assoc]

@[simp]
theorem openWritten_shells (tag : Tag g) (now : Nat) (z : Outline g) :
    (z.openWritten tag now).shells = .written tag now .nil :: z.shells := rfl

@[simp]
theorem openSilently_shells (name : TagName) (now : Nat) (z : Outline g) :
    (z.openSilently name now).shells = .silent name now .nil :: z.shells := rfl

@[simp]
theorem closeInnermost_shells (z : Outline g) : z.closeInnermost.shells = z.shells.tail := by
  rcases z with ⟨ground, _ | ⟨l, ls⟩⟩
  . rfl
  . simp only [closeInnermost, hold_shells]
    rfl

@[simp]
theorem close_shells (n : Nat) (z : Outline g) : (z.close n).shells = z.shells.drop n := by
  induction n generalizing z with
  | zero => rfl
  | succ n ih =>
    unfold close
    rw [ih, closeInnermost_shells, List.drop_tail]

@[simp]
theorem putUp_shells (line : List (Layer g)) (z : Outline g) :
    (z.putUp line).shells = line.reverse.map Layer.emptied ++ z.shells := by
  simp [putUp, shells]

theorem line_shells (n : Nat) (z : Outline g) :
    (z.line n).reverse.map Layer.emptied = z.shells.take n := by
  simp [line, shells, List.map_take]

@[simp]
theorem openedOf_length (ground : Content) (ls : List (Layer g)) :
    (openedOf ground ls).length = ls.length := by
  induction ls with
  | nil => rfl
  | cons l ls ih => simp [openedOf, ih]

@[simp]
theorem draft_opened_length (z : Outline g) : z.draft.opened.length = z.layers.length :=
  openedOf_length z.ground z.layers

theorem eventsOf_hold (more : Content) (z : Outline g) :
    eventsOf (z.hold more).ground (z.hold more).layers
      =
    eventsOf z.ground z.layers ++ more.events := by
  unfold hold
  split
  . next h => simp [eventsOf, h]
  . next l ls h => simp [eventsOf, h]

theorem openedOf_hold (more : Content) (z : Outline g) :
    openedOf (z.hold more).ground (z.hold more).layers = openedOf z.ground z.layers := by
  unfold hold
  split
  . next h => simp [openedOf, h]
  . next l ls h => simp [openedOf, h]

theorem blocksOf_hold (more : Content) (z : Outline g) :
    blocksOf (z.hold more).layers = blocksOf z.layers := by
  unfold hold
  split
  . next h => simp [h]
  . next l ls h => simp [blocksOf, h]

theorem hold_draft (more : Content) (z : Outline g) :
    (z.hold more).draft = { z.draft with output := z.draft.output ++ more.events.toArray } := by
  simp [draft, eventsOf_hold, openedOf_hold, blocksOf_hold]

theorem hold_text_draft (content : String) (z : Outline g) :
    (z.hold (.text .nil content)).draft = z.draft.emit (.text content) := by
  rw [hold_draft]
  simp [Content.events, Draft.emit]

theorem hold_standalone_draft (kind : ElementKind) (attributes : List Attribute) (z : Outline g) :
    (z.hold (.standalone .nil kind attributes)).draft
      =
    z.draft.emit (.standaloneTag kind attributes) := by
  rw [hold_draft]
  simp [Content.events, Draft.emit]

theorem openSilently_draft (name : TagName) (now : Nat) (z : Outline g) :
    (z.openSilently name now).draft = z.draft.openSilently name := by
  simp [openSilently, draft, eventsOf, openedOf, blocksOf, Layer.opened, Layer.startTag?, Layer.held,
    Layer.isBlock, Content.events, Draft.openSilently]

theorem openWritten_draft (tag : Tag g) (now : Nat) (z : Outline g) :
    (z.openWritten tag now).draft = z.draft.openWritten tag.entry.kind tag.entry tag.attributes := by
  by_cases hblock : tag.entry.isBlock <;>
    simp [openWritten, draft, eventsOf, openedOf, blocksOf, Layer.opened, Layer.startTag?, Layer.held,
      Layer.isBlock, Content.events, Draft.openWritten, hblock]

variable {o : CleaningOptions}

theorem entryOf?_written (tag : Tag g) : Cleaner.entryOf? ⟨g, o⟩ (.known tag.entry.kind) = some tag.entry := by
  simp [Cleaner.entryOf?, TagName.kind?, tag.declared]

theorem closeInnermost_draft (z : Outline g) :
    z.closeInnermost.draft = z.draft.closeInnermost ⟨g, o⟩ := by
  rcases z with ⟨ground, _ | ⟨l, ls⟩⟩
  . rfl
  . unfold closeInnermost Draft.closeInnermost
    rw [hold_draft]
    cases l with
    | silent name since held =>
      simp [draft, openedOf, blocksOf, eventsOf, Draft.settle, Layer.opened, Layer.settled, Layer.isBlock,
        Layer.startTag?, Layer.held]
    | written tag since held =>
      simp only [draft, openedOf, blocksOf, eventsOf, Draft.settle, Layer.opened, entryOf?_written,
        Layer.settled, Layer.isBlock, Layer.startTag?, Layer.held]
      -- The start tag of a layer that holds nothing is the last event, and is taken back or replaced.
      by_cases hempty : held = .nil
      . subst hempty
        by_cases hblock : tag.entry.isBlock <;> by_cases hcollapses : tag.entry.collapses <;>
          simp [hblock, hcollapses, Content.events]
      . have hne : held.events.length ≠ 0 := by simpa using hempty
        by_cases hblock : tag.entry.isBlock <;>
          simp [hblock, hempty, Content.events, Draft.emit]

theorem close_draft (n : Nat) (z : Outline g) : (z.close n).draft = z.draft.close ⟨g, o⟩ n := by
  induction n generalizing z with
  | zero => rfl
  | succ n ih =>
    unfold close Draft.close
    rw [ih, closeInnermost_draft]

theorem closeAll_draft (z : Outline g) :
    (z.close z.layers.length).draft = z.draft.closeAll ⟨g, o⟩ := by
  rw [close_draft (o := o)]
  simp [Draft.closeAll]

theorem putUp_cons (l : Layer g) (line : List (Layer g)) (z : Outline g) :
    z.putUp (l :: line) = putUp line { z with layers := l.emptied :: z.layers } := by
  simp [putUp]

theorem putUpOne_draft (l : Layer g) (element : OpenElement) (h : element.name = l.name) (z : Outline g) :
    Draft.putUpOne ⟨g, o⟩ z.draft (element, l.startTag?)
      =
    { z with layers := l.emptied :: z.layers : Outline g }.draft := by
  cases l with
  | silent name since held =>
    cases element
    simp_all [Draft.putUpOne, Layer.startTag?, Layer.emptied, Layer.name, draft, openedOf, blocksOf, eventsOf,
      Layer.opened, Layer.isBlock, Layer.held, Content.events]
  | written tag since held =>
    cases element
    simp only [Layer.name] at h
    by_cases hblock : tag.entry.isBlock <;>
      simp [Draft.putUpOne, Layer.startTag?, Layer.emptied, draft, openedOf, blocksOf, eventsOf, Layer.opened,
        Layer.isBlock, Layer.held, Content.events, h, entryOf?_written, hblock]

theorem putUp_draft (line : List (Layer g)) (elements : List (OpenElement × Option Event)) (z : Outline g)
    (h : elements.map (fun e => (e.1.name, e.2)) = line.map fun l => (l.name, l.startTag?)) :
    Draft.putUp ⟨g, o⟩ elements z.draft = (z.putUp line).draft := by
  induction line generalizing elements z with
  | nil =>
    simp only [List.map_nil, List.map_eq_nil_iff] at h
    subst h
    rfl
  | cons l line ih =>
    rcases elements with _ | ⟨⟨element, tag⟩, elements⟩
    . simp at h
    . simp only [List.map_cons, List.cons.injEq, Prod.mk.injEq] at h
      rcases h with ⟨⟨hname, rfl⟩, htail⟩
      unfold Draft.putUp at ih ⊢
      rw [List.foldl_cons, putUpOne_draft l element hname, putUp_cons]
      apply ih
      exact htail

theorem heads_openedOf (ground : Content) (ls : List (Layer g)) (behind : List Event) :
    (openedOf ground ls).map (fun e => (e.name, e.start.map ((eventsOf ground ls ++ behind)[·]?)))
      =
    ls.map fun l => (l.name, l.startTag?.map some) := by
  induction ls generalizing behind with
  | nil => rfl
  | cons l ls ih =>
    -- What is inside of a layer comes behind the start tags around it.
    simp only [openedOf, eventsOf, List.map_cons, List.append_assoc]
    rw [ih]
    cases l <;> simp [Layer.opened, Layer.name, Layer.startTag?]

theorem line_draft (n : Nat) (z : Outline g) :
    (z.draft.line n).map (fun e => (e.1.name, e.2)) = (z.line n).map fun l => (l.name, l.startTag?) := by
  have h := congrArg (List.map fun head => (head.1, head.2.bind id)) (heads_openedOf z.ground z.layers [])
  simp only [List.append_nil, List.map_map, Function.comp_def, Option.bind_map, id_eq, Option.bind_fun_some] at h
  unfold Draft.line line
  simp only [draft, List.map_map, List.map_reverse, List.map_take, Function.comp_def,
    List.getElem?_toArray]
  rw [h]

theorem openedOf_names (ground : Content) (ls : List (Layer g)) :
    (openedOf ground ls).map (·.name) = ls.map (·.name) := by
  induction ls with
  | nil => rfl
  | cons l ls ih => simp [openedOf, ih]

theorem leave_draft (name : TagName) (z : Outline g) :
    (z.leave (g.canonicalName name)).draft = z.draft.leave ⟨g, o⟩ name := by
  have h : z.draft.opened.findIdx? (·.name == g.canonicalName name)
      = z.layers.findIdx? (·.name == g.canonicalName name) := by
    have := congrArg (List.findIdx? (· == g.canonicalName name)) (openedOf_names z.ground z.layers)
    simpa [List.findIdx?_map, Function.comp_def, draft] using this
  unfold leave Draft.leave
  dsimp only
  rw [h]
  cases z.layers.findIdx? (·.name == g.canonicalName name) with
  | none => rfl
  | some i => exact close_draft (i + 1) z

def settled (z : Outline g) : Content :=
  (z.close z.layers.length).ground

theorem close_length_layers (z : Outline g) : (z.close z.layers.length).layers = [] := by
  have h := close_shells z.layers.length z
  rw [List.drop_of_length_le (by simp)] at h
  simpa [shells] using h

theorem settled_draft (z : Outline g) : (z.draft.closeAll ⟨g, o⟩).output.toList = z.settled.events := by
  rw [← closeAll_draft]
  unfold draft
  rw [close_length_layers]
  simp [eventsOf, settled]

end Outline

end NoteMarkup
