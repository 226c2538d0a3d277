import NoteMarkup.Proofs.OutlinedDrafts

/-!
This module contains what holds between the output of a draft, its open elements and its list of blocks, which are
kept apart: each open element that has a start tag knows its place, these are the start tags that no end tag has
matched, and the list of blocks says which of the open elements are blocks.
-/

namespace NoteMarkup

namespace Event

/-- The start tags that no end tag matches up to an event at its place, innermost first. An end tag matches the
innermost of them, and has to be of its kind. -/
def match? (opened : List (ElementKind × Nat)) : Event × Nat → Option (List (ElementKind × Nat))
  | (.startTag kind _, place) => some ((kind, place) :: opened)
  | (.endTag kind, _) =>
    match opened with
    | (innermost, _) :: outer => if innermost = kind then some outer else none
    | [] => none
  | (.standaloneTag .., _) | (.text _, _) => some opened

def unmatched? (events : List Event) : Option (List (ElementKind × Nat)) :=
  events.zipIdx.foldlM match? []

end Event

def OpenElement.tag? (o : OpenElement) : Option (ElementKind × Nat) :=
  o.name.kind?.bind fun kind => o.start.map (kind, ·)

namespace Draft

def hasTag (d : Draft) (o : OpenElement) : Bool :=
  o.start.all fun start => d.output[start]?.any fun e => o.name.kind?.any fun kind => e.opens kind

def isOpenBlock (c : Cleaner) (o : OpenElement) : Bool :=
  o.start.isSome && (c.entryOf? o.name).any (·.isBlock)

structure Consistent (c : Cleaner) (d : Draft) : Prop where
  increasing : (d.opened.reverse.filterMap (·.start)).Pairwise (· < ·)
  tags : ∀ o ∈ d.opened, d.hasTag o
  unmatched : Event.unmatched? d.output.toList = some (d.opened.filterMap (·.tag?))
  blocks : d.blocks.reverse
    = (List.range d.opened.length).filter fun i => d.opened.reverse[i]?.any (isOpenBlock c)

end Draft

theorem Content.foldlM_match? (content : Content) (opened : List (ElementKind × Nat)) (place : Nat) :
    (content.events.zipIdx place).foldlM Event.match? opened = some opened := by
  induction content generalizing opened place with
  | nil => rfl
  | element before kind attributes held ihbefore ihheld =>
    simp only [events, List.zipIdx_append, List.zipIdx_cons, List.zipIdx_nil, List.foldlM_append, List.foldlM_cons,
      List.foldlM_nil, Option.bind_eq_bind, ihbefore, Option.bind_some, Event.match?, ihheld, ↓reduceIte,
      Option.pure_def]
  | standalone before kind attributes ihbefore =>
    simp only [events, List.zipIdx_append, List.zipIdx_cons, List.zipIdx_nil, List.foldlM_append, List.foldlM_cons,
      List.foldlM_nil, Option.bind_eq_bind, ihbefore, Option.bind_some, Event.match?, Option.pure_def]
  | text before content ihbefore =>
    simp only [events, List.zipIdx_append, List.zipIdx_cons, List.zipIdx_nil, List.foldlM_append, List.foldlM_cons,
      List.foldlM_nil, Option.bind_eq_bind, ihbefore, Option.bind_some, Event.match?, Option.pure_def]

namespace Outline

variable {g : Grammar} (ground : Content) (o : CleaningOptions)

theorem exists_tag_of_mem_openedOf (ls : List (Layer g)) :
    ∀ e ∈ openedOf ground ls, ∀ start ∈ e.start,
      ∃ kind attributes, e.name = .known kind ∧ (eventsOf ground ls)[start]? = some (.startTag kind attributes) := by
  induction ls with
  | nil => intro e he; cases he
  | cons l ls ih =>
    intro e he start hstart
    rw [openedOf, List.mem_cons] at he
    rcases he with rfl | he
    . cases l with
      | silent name since held => cases hstart
      | written tag since held =>
        cases hstart
        exact ⟨tag.entry.kind, tag.attributes, rfl, by simp [eventsOf, Layer.startTag?]⟩
    . rcases ih e he start hstart with ⟨kind, attributes, hname, htag⟩
      have hlt := (List.getElem?_eq_some_iff.mp htag).1
      exact ⟨kind, attributes, hname, by rw [eventsOf, List.getElem?_append_left hlt, htag]⟩

theorem pairwise_starts (ls : List (Layer g)) :
    ((openedOf ground ls).reverse.filterMap (·.start)).Pairwise (· < ·) := by
  induction ls with
  | nil => exact .nil
  | cons l ls ih =>
    rw [openedOf, List.reverse_cons, List.filterMap_append, List.pairwise_append]
    refine ⟨ih, by cases l <;> simp [Layer.opened], ?_⟩
    intro start hstart own hown
    simp only [List.mem_filterMap, List.mem_reverse] at hstart
    rcases hstart with ⟨e, he, hstart⟩
    rcases exists_tag_of_mem_openedOf ground ls e he start hstart with ⟨_, _, -, htag⟩
    have hlt := (List.getElem?_eq_some_iff.mp htag).1
    cases l with
    | silent name since held => simp [Layer.opened] at hown
    | written tag since held =>
      simp only [Layer.opened, List.filterMap_cons, List.filterMap_nil, List.mem_singleton] at hown
      omega

theorem unmatched?_eventsOf (ls : List (Layer g)) :
    Event.unmatched? (eventsOf ground ls) = some ((openedOf ground ls).filterMap (·.tag?)) := by
  unfold Event.unmatched?
  induction ls with
  | nil => exact ground.foldlM_match? [] 0
  | cons l ls ih =>
    rw [eventsOf, openedOf, List.zipIdx_append, List.foldlM_append, ih, Option.bind_eq_bind, Option.bind_some]
    cases l with
    | silent name since held =>
      have hsilent : (Layer.silent (g := g) name since held).startTag?.toList = [] := rfl
      rw [hsilent, List.nil_append, Layer.held, Content.foldlM_match?]
      simp [Layer.opened, OpenElement.tag?]
    | written tag since held =>
      simp only [Layer.startTag?, Layer.held, Option.toList_some, List.singleton_append, List.zipIdx_cons,
        List.foldlM_cons, Event.match?, Option.bind_eq_bind, Option.bind_some, Content.foldlM_match?]
      simp [Layer.opened, OpenElement.tag?, TagName.kind?]

theorem isOpenBlock_opened (l : Layer g) (outside : Nat) : Draft.isOpenBlock ⟨g, o⟩ (l.opened outside) = l.isBlock := by
  cases l with
  | silent name since held => rfl
  | written tag since held => simp [Draft.isOpenBlock, Layer.opened, entryOf?_written, Layer.isBlock]

theorem reverse_blocksOf (ls : List (Layer g)) :
    (blocksOf ls).reverse
      =
    (List.range ls.length).filter fun i => (openedOf ground ls).reverse[i]?.any (Draft.isOpenBlock ⟨g, o⟩) := by
  induction ls with
  | nil => rfl
  | cons l ls ih =>
    have houter : ∀ i ∈ List.range ls.length,
        ((openedOf ground ls).reverse ++ [l.opened (eventsOf ground ls).length])[i]?.any (Draft.isOpenBlock ⟨g, o⟩)
          = (openedOf ground ls).reverse[i]?.any (Draft.isOpenBlock ⟨g, o⟩) := by
      intro i hi
      rw [List.getElem?_append_left (by simpa using hi)]
    rw [openedOf, List.reverse_cons, List.length_cons, List.range_succ, List.filter_append,
      List.filter_congr houter, ← ih, blocksOf]
    -- The place of the innermost layer comes last, if it is that of a block.
    have hown : ((openedOf ground ls).reverse ++ [l.opened (eventsOf ground ls).length])[ls.length]?.any
        (Draft.isOpenBlock ⟨g, o⟩) = l.isBlock := by
      rw [List.getElem?_append_right (by simp)]
      simp [isOpenBlock_opened]
    rw [List.filter_cons, List.filter_nil, hown]
    cases l.isBlock <;> simp

theorem consistent_draft (z : Outline g) : z.draft.Consistent ⟨g, o⟩ where
  increasing := pairwise_starts z.ground z.layers
  tags := by
    intro e he
    rw [Draft.hasTag, Option.all_eq_true]
    intro start hstart
    rcases exists_tag_of_mem_openedOf z.ground z.layers e he start hstart with ⟨kind, attributes, hname, htag⟩
    simp [draft, htag, hname, TagName.kind?, Event.opens]
  unmatched := by simpa [draft] using unmatched?_eventsOf z.ground z.layers
  blocks := by
    have h := reverse_blocksOf z.ground o z.layers
    rw [← openedOf_length z.ground z.layers] at h
    exact h

end Outline

end NoteMarkup
