import NoteMarkup.Event.Markup
import NoteMarkup.Proofs.LineBreaks
import NoteMarkup.Proofs.TagOrigins

/-!
This module contains the colours that the elements of a colour are written with. What a style stands for always has
its colour; only an element that comes with this name from the source, and without a colour of the palette, is written
without one.
-/

namespace NoteMarkup

def ElementKind.colored : List (ElementKind × String) :=
  [(.styleFont, "font"), (.styleHighlight, "highlight")]

/-- Whether the source has an element of just this kind, whose attribute gives no colour of the palette. -/
def SourceEvent.EntersUncolored (k : ElementKind) (events : List SourceEvent) : Prop :=
  ∃ name source, .enter name source ∈ events ∧ TagName.ofName name = .known k
    ∧ (Attribute.lookup? source "color").bind Color.parsePalette? = none

namespace ElementKind

variable {k : ElementKind} {written : String}

theorem cases_colored (hk : (k, written) ∈ colored) :
    k = .styleFont ∧ written = "font" ∨ k = .styleHighlight ∧ written = "highlight" := by
  simpa [colored] using hk

theorem of_mem_colored (hk : (k, written) ∈ colored) :
    k.recognised = [("color", .color)] ∧ k.isInline ∧ k ≠ .li ∧ k ∉ Cleaner.barelyOpened
      ∧ Grammar.standard.canonicalName (.known k) = .known k ∧ Grammar.standard.writtenName? k = some written := by
  rcases cases_colored hk with ⟨rfl, rfl⟩ | ⟨rfl, rfl⟩ <;> decide

theorem eq_of_writtenName? (hk : (k, written) ∈ colored) {w : ElementKind}
    (hw : Grammar.standard.writtenName? w = some written) : w = k := by
  rcases cases_colored hk with ⟨rfl, rfl⟩ | ⟨rfl, rfl⟩ <;> (revert hw; cases w <;> decide)

theorem ofName_of_canonicalName (hk : (k, written) ∈ colored) {name : String}
    (hname : Grammar.standard.canonicalName (.ofName name) = .known k) : TagName.ofName name = .known k := by
  cases hread : TagName.ofName name with
  | unknown raw =>
    rw [hread] at hname
    cases hname
  | known w =>
    rw [hread] at hname
    rcases cases_colored hk with ⟨rfl, rfl⟩ | ⟨rfl, rfl⟩ <;> (revert hname; cases w <;> decide)

theorem ne_fragmentTag_of_colored (hk : (k, written) ∈ colored) : written ≠ Node.fragmentTag := by
  rcases cases_colored hk with ⟨rfl, rfl⟩ | ⟨rfl, rfl⟩ <;> decide

theorem keptAttributes_of_colored (hk : (k, written) ∈ colored) (source : List Attribute)
    (parent : Option ElementKind) :
    k.entry.keptAttributes source parent
      =
    (((Attribute.lookup? source "color").bind Color.parsePalette?).map fun color => ⟨"color", color.hex⟩).toList := by
  rcases of_mem_colored hk with ⟨hrecognised, -, hli, -⟩
  have hrule : ValueRule.color.keptValue? = fun value => (Color.parsePalette? value).map (·.hex) := rfl
  rw [keptAttributes_of_recognised hrecognised hli, hrule]
  cases Attribute.lookup? source "color" <;> simp [Function.comp_def]

end ElementKind

def SourceEvent.ColoredFrom (events : List SourceEvent) (k : ElementKind) (attributes : List Attribute) : Prop :=
  (∃ color ∈ Color.palette, attributes = [⟨"color", color.hex⟩]) ∨ attributes = [] ∧ EntersUncolored k events

theorem SourceEvent.Begins.colored {events : List SourceEvent} {e : SourceEvent} (hmem : e ∈ events) {k : ElementKind}
    {written : String} (hk : (k, written) ∈ ElementKind.colored) {attributes : List Attribute}
    (h : e.Begins (k, attributes)) : ColoredFrom events k attributes := by
  rcases ElementKind.of_mem_colored hk with ⟨-, -, -, hsupplied, -⟩
  cases h with
  | supplied e hbare => exact absurd hbare hsupplied
  | @element name source _ parent hname =>
    rw [ElementKind.keptAttributes_of_colored hk]
    cases hcolor : (Attribute.lookup? source "color").bind Color.parsePalette? with
    | none => exact .inr ⟨rfl, name, source, hmem, ElementKind.ofName_of_canonicalName hk hname, hcolor⟩
    | some color =>
      rcases Option.bind_eq_some_iff.mp hcolor with ⟨value, -, hvalue⟩
      exact .inl ⟨color, Color.mem_palette_of_parsePalette? hvalue, rfl⟩
  | @style name source w s parent hname hs =>
    rw [ElementKind.keptAttributes_of_colored hk]
    cases Entry.counterparts_proper hs with
    | bare kind hbare =>
      have hother : ∀ kind ∈ [ElementKind.strong, .em, .u, .strike],
          ∀ written, (kind, written) ∉ ElementKind.colored := by
        simp [ElementKind.colored]
      exact absurd hk (hother kind hbare written)
    | colored kind _ color hcolor =>
      have hkept : (Attribute.lookup? [⟨"color", color.hex⟩] "color").bind Color.parsePalette? = some color := by
        rw [Attribute.lookup?_singleton, Option.bind_some, Color.parsePalette?_hex hcolor]
      refine .inl ⟨color, hcolor, ?_⟩
      rw [Style.Counterpart.attributes, Option.toList_some, hkept]
      rfl

namespace Outline

variable {o : CleaningOptions} {k : ElementKind} {written : String}

theorem events_settled_hold {more : Content} (hmore : more ≠ .nil) (l : Layer .standard) :
    (l.hold more).settled ≠ .nil ∧ more.events ⊆ (l.hold more).settled.events
      ∧ l.startTag?.toList ⊆ (l.hold more).settled.events := by
  have hheld (held : Content) : held ++ more ≠ .nil := by
    intro hnil
    rw [← Content.events_eq_nil_iff, Content.events_append, List.append_eq_nil_iff, Content.events_eq_nil_iff,
      Content.events_eq_nil_iff] at hnil
    exact hmore hnil.2
  cases l with
  | silent name since held =>
    refine ⟨hheld held, ?_, by simp [Layer.startTag?]⟩
    simp [Layer.hold, Layer.settled]
  | written tag since held =>
    simp only [Layer.hold, Layer.settled, if_neg (hheld held), Layer.startTag?]
    refine ⟨by simp, ?_, by simp [Content.events]⟩
    intro e he
    simp [Content.events, he]

theorem startTags_settled_hold {more : Content} (hmore : more ≠ .nil) (ground : Content) (ls : List (Layer .standard)) :
    more.events ⊆ (hold more ⟨ground, ls⟩).settled.events
      ∧ ∀ l ∈ ls, l.startTag?.toList ⊆ (hold more ⟨ground, ls⟩).settled.events := by
  induction ls generalizing more with
  | nil =>
    refine ⟨?_, by simp⟩
    have hground : (hold more ⟨ground, []⟩ : Outline .standard).settled = ground ++ more := rfl
    rw [hground, Content.events_append]
    exact List.subset_append_right _ _
  | cons l ls ih =>
    rw [settled_hold_cons, List.forall_mem_cons]
    rcases events_settled_hold hmore l with ⟨hne, hheld, hstart⟩
    rcases ih hne with ⟨hkept, hrest⟩
    exact ⟨List.Subset.trans hheld hkept, List.Subset.trans hstart hkept, hrest⟩

theorem startTag_mem_settled {z : Outline .standard} {more : Content} (hmore : more ≠ .nil) {tag : Tag .standard}
    {since : Nat} {held : Content} (h : .written tag since held ∈ z.shells) :
    .startTag tag.entry.kind tag.attributes ∈ (z.hold more).settled.events := by
  rcases List.mem_map.mp h with ⟨l, hmem, hl⟩
  apply (startTags_settled_hold hmore z.ground z.layers).2 l hmem
  cases l with
  | silent name since held => cases hl
  | written tag' since' held' =>
    cases hl
    simp [Layer.startTag?]

theorem hasOpen_paragraph (hk : (k, written) ∈ ElementKind.colored) : paragraph.hasOpen k = false := by
  rcases ElementKind.cases_colored hk with ⟨rfl, -⟩ | ⟨rfl, -⟩ <;> rfl

theorem uncolored_mem_settled (hk : (k, written) ∈ ElementKind.colored) {name : String}
    (hname : TagName.ofName name = .known k) {source : List Attribute}
    (hsource : (Attribute.lookup? source "color").bind Color.parsePalette? = none) {content : String}
    (hcontent : o.admitText? content = some content) {z : Outline .standard} (hz : Hosted .p z.shells)
    (hclosed : z.hasOpen k = false) :
    .startTag k [] ∈ (play o z (Node.element name source [.text content]).sourceEvents).settled.events := by
  rcases ElementKind.of_mem_colored hk with ⟨-, hinline, -, -, hcanonical, -⟩
  have hcanonical : Grammar.standard.canonicalName (.ofName name) = .known k := by rw [hname, hcanonical]
  have hlinks : (SourceEvent.enter name source).linksUsably := by
    have ha : k ≠ .a := by
      rintro rfl
      revert hk
      simp [ElementKind.colored]
    simp [SourceEvent.linksUsably, hcanonical, ha]
  have hhosted := hz.openHere (o := o) hinline source 0
  have htext := text_of_hosted hhosted rfl 0 content
  have hown : Layer.written (tagOf k []) 0 .nil ∈ (z.openHere o k source 0).shells := by
    have hhr : k ≠ .hr := ElementKind.ne_of_isInline hinline rfl
    have hkept : k.entry.keptAttributes source z.nearest = [] := by
      rw [ElementKind.keptAttributes_of_colored hk, hsource]
      rfl
    have hopened : z.openHere o k source 0
        = (k.entry.counterparts source).foldl (openCounterpart o 0) (z.place k [] 0) := by
      simp [openHere, hhr, hclosed, hkept]
    rcases foldl_openCounterpart_shells (o := o) 0 (k.entry.counterparts source) (z.place k [] 0) with
      ⟨styled, hshells, -⟩
    rw [hopened, hshells]
    simp [place]
  have hmore : Content.text .nil content ≠ .nil := by simp
  rw [play_element, settled_leave, enter_of_hosted hz rfl hcanonical hinline hlinks]
  simp only [Node.sourceEventsAll, Node.sourceEvents, List.append_nil, play_cons, play_nil, step, hcontent, htext]
  simpa [tagOf] using startTag_mem_settled hmore hown

end Outline

namespace Cleaner

variable {o : CleaningOptions} {k : ElementKind} {written : String}

theorem coloredFrom_of_begun (hk : (k, written) ∈ ElementKind.colored) {events : List SourceEvent}
    {attributes : List Attribute} (h : (k, attributes) ∈ Event.begun (Outline.cleaned o events).events) :
    SourceEvent.ColoredFrom events k attributes := by
  rcases Outline.exists_begins_of_mem_cleaned h with ⟨e, he, hbegins⟩
  exact hbegins.colored he hk

theorem coloredFrom_of_written (hk : (k, written) ∈ ElementKind.colored) {events : List SourceEvent}
    {attributes : List Attribute}
    (h : .enter written attributes ∈ (Event.treeOf .standard (Outline.cleaned o events).events).sourceEvents) :
    SourceEvent.ColoredFrom events k attributes := by
  rcases Event.writtenFrom_of_mem_treeOf h with hroot | ⟨w, hw, hbegun⟩
  . exact absurd hroot (ElementKind.ne_fragmentTag_of_colored hk)
  . rw [ElementKind.eq_of_writtenName? hk hw] at hbegun
    exact coloredFrom_of_begun hk hbegun

theorem uncolored_written (hk : (k, written) ∈ ElementKind.colored) {name : String}
    (hname : TagName.ofName name = .known k) {source : List Attribute}
    (hsource : (Attribute.lookup? source "color").bind Color.parsePalette? = none) :
    ∃ cleaned,
      clean ⟨.standard, o⟩ (Node.fragment [.element "p" [] [.element name source [.text "x"]]]) = .ok cleaned
        ∧ .startTag k [] ∈ cleaned := by
  have hcontent : o.admitText? "x" = some "x" := by
    rw [CleaningOptions.admitText?_eq_some_iff]
    exact ⟨fun _ => by simp, by decide, fun _ => by decide⟩
  refine ⟨_, Outline.clean_eq_play o _ _ _, ?_⟩
  rw [Outline.settled_play_paragraph, Node.sourceEventsAll, Node.sourceEventsAll, List.append_nil]
  apply Outline.uncolored_mem_settled hk hname hsource hcontent Outline.hosted_paragraph
  exact Outline.hasOpen_paragraph hk

theorem colored_unless_uncolored_in_source (o : CleaningOptions) :
    (∀ name attributes children, ∃ cleaned,
      clean ⟨.standard, o⟩ (.element name attributes children) = .ok cleaned
        ∧ ∀ k written, (k, written) ∈ ElementKind.colored →
          (∀ as, .startTag k as ∈ cleaned → SourceEvent.ColoredFrom (SourceEvent.ofNodes children) k as)
            ∧ ∀ as, .enter written as ∈ (Event.treeOf .standard cleaned).sourceEvents →
              SourceEvent.ColoredFrom (SourceEvent.ofNodes children) k as)
      ∧
    (∀ k written, (k, written) ∈ ElementKind.colored → ∀ name source, TagName.ofName name = .known k →
      (Attribute.lookup? source "color").bind Color.parsePalette? = none →
        ∃ cleaned,
          clean ⟨.standard, o⟩ (Node.fragment [.element "p" [] [.element name source [.text "x"]]]) = .ok cleaned
            ∧ .startTag k [] ∈ cleaned) := by
  constructor
  . intro name attributes children
    refine ⟨_, Outline.clean_eq o name attributes children, ?_⟩
    intro k written hk
    constructor
    . exact fun as hmem => coloredFrom_of_begun hk (Event.mem_begun_of_startTag hmem)
    . exact fun as hmem => coloredFrom_of_written hk hmem
  . exact fun k written hk name source hname hsource => uncolored_written hk hname hsource

theorem uncolored_font_written :
    let cleaned : List Event := [.startTag .p [], .startTag .styleFont [], .text "x", .endTag .styleFont, .endTag .p]
    clean ⟨.standard, {}⟩ (Node.fragment [.element "p" [] [.element "_font" [] [.text "x"]]]) = .ok cleaned
      ∧ Event.markupOf .standard cleaned = "<text><font><![CDATA[x]]></font></text>" := by
  refine ⟨?_, by decide +kernel⟩
  unfold Node.fragment
  rw [Outline.clean_eq, SourceEvent.ofNodes_eq, Except.ok.injEq]
  decide +kernel

end Cleaner

end NoteMarkup
