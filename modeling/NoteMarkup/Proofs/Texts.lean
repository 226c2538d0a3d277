import NoteMarkup.Proofs.Entering
import NoteMarkup.Proofs.Walk

/-!
This module contains what becomes of the texts of a source. Once a text has been emitted no step takes it back, so
that a cleaned document has those texts that were allowed where they came, in document order; and without lists,
definitions and tables in the source every text is allowed.
-/

namespace NoteMarkup

namespace Event

def text? : Event → Option String
  | text content => some content
  | startTag .. | endTag _ | standaloneTag .. => none

def texts (events : List Event) : List String :=
  events.filterMap text?

@[simp]
theorem texts_nil : texts [] = [] := rfl

@[simp]
theorem texts_cons (e : Event) (events : List Event) : texts (e :: events) = e.text?.toList ++ texts events := by
  cases h : e.text? <;> simp [texts, h]

@[simp]
theorem texts_append (first second : List Event) : texts (first ++ second) = texts first ++ texts second := by
  simp [texts]

theorem mem_texts {content : String} {events : List Event} : content ∈ texts events ↔ .text content ∈ events := by
  simp only [texts, List.mem_filterMap]
  constructor
  . rintro ⟨e, hmem, hcontent⟩
    cases e <;> cases hcontent
    exact hmem
  . intro hmem
    exact ⟨_, hmem, rfl⟩

end Event

namespace Outline

variable {g : Grammar}

def texts (z : Outline g) : List String :=
  Event.texts (eventsOf z.ground z.layers)

theorem texts_hold (more : Content) (z : Outline g) : (z.hold more).texts = z.texts ++ Event.texts more.events := by
  simp [texts, eventsOf_hold]

theorem texts_hold_text (content : String) (z : Outline g) :
    (z.hold (.text .nil content)).texts = z.texts ++ [content] := by
  rw [texts_hold]
  rfl

theorem texts_settled (l : Layer g) : Event.texts l.settled.events = Event.texts l.held.events := by
  cases l with
  | silent name since held => rfl
  | written tag since held =>
    simp only [Layer.settled, Layer.held]
    split
    . next hempty =>
      -- Only a start tag is taken back, or becomes a standalone tag.
      rw [hempty]
      split <;> rfl
    . simp [Content.events, Event.text?]

@[simp]
theorem texts_closeInnermost (z : Outline g) : z.closeInnermost.texts = z.texts := by
  rcases z with ⟨ground, _ | ⟨l, ls⟩⟩
  . rfl
  . unfold closeInnermost
    rw [texts_hold, texts_settled]
    cases l <;> simp [texts, eventsOf, Layer.startTag?, Layer.held, Event.text?]

@[simp]
theorem texts_close (n : Nat) (z : Outline g) : (z.close n).texts = z.texts := by
  induction n generalizing z with
  | zero => rfl
  | succ n ih =>
    unfold close
    rw [ih, texts_closeInnermost]

@[simp]
theorem texts_openSilently (name : TagName) (now : Nat) (z : Outline g) :
    (z.openSilently name now).texts = z.texts := by
  simp [texts, openSilently, eventsOf, Layer.startTag?, Layer.held, Content.events]

@[simp]
theorem texts_place (k : ElementKind) (attributes : List Attribute) (now : Nat) (z : Outline .standard) :
    (z.place k attributes now).texts = z.texts := by
  simp [texts, place, openWritten, eventsOf, Layer.startTag?, Layer.held, Content.events, Event.text?]

@[simp]
theorem texts_putUp (line : List (Layer g)) (z : Outline g) : (z.putUp line).texts = z.texts := by
  unfold putUp texts
  generalize line.reverse = above
  induction above with
  | nil => rfl
  | cons l above ih =>
    rw [← ih]
    cases l <;> simp [eventsOf, Layer.emptied, Layer.startTag?, Layer.held, Content.events, Event.text?]

theorem texts_leave (name : TagName) (z : Outline g) : (z.leave name).texts = z.texts := by
  unfold leave
  split
  . rw [texts_close]
  . rfl

theorem texts_foldl {α : Type} {f : Outline g → α → Outline g} (h : ∀ z a, (f z a).texts = z.texts) (z : Outline g)
    (as : List α) : (as.foldl f z).texts = z.texts := by
  induction as generalizing z with
  | nil => rfl
  | cons a as ih => rw [List.foldl_cons, ih, h]

variable {o : CleaningOptions} {z : Outline .standard}

theorem texts_openCounterpart (now : Nat) (z : Outline .standard) (s : Style.Counterpart) :
    (z.openCounterpart o now s).texts = z.texts := by
  unfold openCounterpart
  split
  . split
    . rw [texts_openSilently]
    . rw [texts_place]
  . rfl

theorem texts_openHere (k : ElementKind) (source : List Attribute) (now : Nat) (z : Outline .standard) :
    (z.openHere o k source now).texts = z.texts := by
  unfold openHere
  dsimp only
  split
  . rw [texts_hold]
    simp [Content.events, Event.text?]
  . split
    . rw [texts_openSilently]
    . rw [texts_foldl (texts_openCounterpart now), texts_place]

theorem texts_prepare (k : ElementKind) (now : Nat) (z : Outline .standard) : (z.prepare k now).texts = z.texts := by
  have hclear : (z.clear k).texts = z.texts := texts_close _ z
  rw [prepare_eq]
  split
  . exact hclear
  . rw [texts_foldl fun z w => texts_place w [] now z, hclear]

theorem texts_endLine (now : Nat) (z : Outline .standard) : (z.endLine now).texts = z.texts := by
  rcases endLine_eq now z with ⟨-, hends⟩ | hends | ⟨n, hends⟩ | ⟨inside, k, -, -, hends⟩
  . rw [hends, texts_hold]
    simp [Content.events, Event.text?]
  . rw [hends]
  . rw [hends, texts_putUp, texts_close]
  . rw [hends, texts_putUp, texts_place, texts_close]

theorem texts_enter (now : Nat) (name : TagName) (source : List Attribute) (z : Outline .standard) :
    (z.enter o now name source).texts = z.texts := by
  unfold enter
  split
  . rw [texts_openSilently]
  . split
    . rfl
    . split
      . rw [texts_endLine]
      . split
        . rfl
        . rw [texts_openHere, texts_prepare]

def allowsText (z : Outline .standard) : Bool :=
  z.nearest.all (·.model.holdsText)

theorem text_of_not_allowsText (now : Nat) (content : String) (h : z.allowsText = false) :
    z.text now content = z := by
  unfold allowsText at h
  unfold text
  cases hnearest : z.nearest with
  | none => simp [hnearest] at h
  | some w =>
    have hholds : w.model.holdsText = false := by simpa [hnearest] using h
    simp [hholds]

theorem texts_text_of_allowsText (now : Nat) (content : String) (h : z.allowsText) :
    (z.text now content).texts = z.texts ++ [content] := by
  unfold allowsText at h
  unfold text
  cases hnearest : z.nearest with
  | none =>
    dsimp only
    rw [texts_hold_text, texts_place]
  | some w =>
    have hholds : w.model.holdsText := by simpa [hnearest] using h
    simp [hholds, texts_hold_text]

end Outline

def SourceEvent.admitted? (o : CleaningOptions) : SourceEvent → Option String
  | text content => o.admitText? content
  | enter .. | leave _ => none

namespace Outline

variable {o : CleaningOptions} {z : Outline .standard}

def kept? (o : CleaningOptions) (z : Outline .standard) (e : SourceEvent) : Option String :=
  if z.allowsText then e.admitted? o else none

theorem texts_step (o : CleaningOptions) (now : Nat) (z : Outline .standard) (e : SourceEvent) :
    (z.step o now e).texts = z.texts ++ (z.kept? o e).toList := by
  cases e with
  | enter name source => simp [step, kept?, SourceEvent.admitted?, texts_enter]
  | leave name => simp [step, kept?, SourceEvent.admitted?, texts_leave]
  | text content =>
    simp only [step, kept?, SourceEvent.admitted?]
    cases o.admitText? content with
    | none => simp
    | some admitted =>
      dsimp only
      by_cases hallows : z.allowsText
      . simp [texts_text_of_allowsText now admitted hallows, hallows]
      . have hallows : z.allowsText = false := by simpa using hallows
        simp [text_of_not_allowsText now admitted hallows, hallows]

theorem texts_run (now : Nat) (z : Outline .standard) (events : List SourceEvent) :
    ∃ more, (z.run o now events).texts = z.texts ++ more
      ∧ more.Sublist (events.filterMap (SourceEvent.admitted? o)) := by
  induction events generalizing now z with
  | nil => exact ⟨[], by simp [run], by simp⟩
  | cons e events ih =>
    rcases ih (now + 1) (z.step o now e) with ⟨more, htexts, hsublist⟩
    refine ⟨(z.kept? o e).toList ++ more, ?_, ?_⟩
    . unfold run
      rw [htexts, texts_step, List.append_assoc]
    . have hkept : (z.kept? o e).toList.Sublist (e.admitted? o).toList := by
        unfold kept?
        cases e.admitted? o with
        | none => simp
        | some admitted => by_cases hallows : z.allowsText <;> simp [hallows]
      have hsplit : (e :: events).filterMap (SourceEvent.admitted? o)
          = (e.admitted? o).toList ++ events.filterMap (SourceEvent.admitted? o) := by
        cases hadmitted : e.admitted? o <;> simp [hadmitted]
      rw [hsplit]
      exact hkept.append hsublist

theorem texts_cleaned (o : CleaningOptions) (events : List SourceEvent) :
    Event.texts (cleaned o events).events = (run o 0 {} events).texts := by
  have hclosed := texts_close (run o 0 {} events).layers.length (run o 0 {} events)
  unfold texts at hclosed
  rw [close_length_layers] at hclosed
  exact hclosed

def HoldsText (z : Outline .standard) : Prop :=
  ∀ l ∈ z.shells, ∀ w, l.name = .known w → w.model.holdsText

theorem HoldsText.allowsText (h : z.HoldsText) : z.allowsText := by
  unfold Outline.allowsText
  cases hnearest : z.nearest with
  | none => rfl
  | some w =>
    rcases List.exists_of_findSome?_eq_some hnearest with ⟨l, hmem, hkind⟩
    have hname : l.name = .known w := by
      cases hl : l.name with
      | unknown raw => simp [hl, TagName.kind?] at hkind
      | known k => simpa [hl, TagName.kind?] using hkind
    simpa using h l hmem w hname

end Outline

def ElementKind.arranging : List ElementKind :=
  [.ul, .ol, .li, .dl, .dt, .dd, .table, .tr, .td, .th]

def SourceEvent.entersArranging : SourceEvent → Bool
  | enter name _ => ElementKind.arranging.any fun k => Grammar.standard.canonicalName (.ofName name) = .known k
  | leave _ | text _ => false

namespace Outline

variable {o : CleaningOptions} {z : Outline .standard} {now : Nat}

theorem holdsText_of_not_mem_arranging {k : ElementKind} (hconcrete : k.isConcrete)
    (hk : k ∉ ElementKind.arranging) (hhr : k ≠ .hr) (hbr : k ≠ .br) : k.model.holdsText := by
  revert hconcrete hk hhr hbr
  cases k <;> decide

theorem HoldsText.cons (h : z.HoldsText) {k : ElementKind} {l : Layer .standard} (hl : l.name = .known k)
    (hk : k.model.holdsText) {y : Outline .standard} (hy : y.shells = l :: z.shells) : y.HoldsText := by
  unfold HoldsText
  rw [hy]
  intro l' hmem w hw
  rw [List.mem_cons] at hmem
  rcases hmem with rfl | hmem
  . rw [hl, TagName.known.injEq] at hw
    rwa [← hw]
  . exact h l' hmem w hw

theorem HoldsText.text (h : z.HoldsText) (now : Nat) (content : String) : (z.text now content).HoldsText := by
  rcases text_shells now content z with hsame | hplain
  . unfold HoldsText
    rw [hsame]
    exact h
  . exact h.cons (k := .p) rfl rfl hplain

theorem HoldsText.leave (h : z.HoldsText) (name : TagName) : (z.leave name).HoldsText := by
  rcases leave_shells name z with ⟨n, hn⟩
  unfold HoldsText
  rw [hn]
  intro l hmem
  exact h l (List.mem_of_mem_drop hmem)

theorem HoldsText.enter (h : z.HoldsText) (now : Nat) {name : TagName} (source : List Attribute)
    (hname : ∀ k ∈ ElementKind.arranging, Grammar.standard.canonicalName name ≠ .known k) :
    (z.enter o now name source).HoldsText := by
  unfold HoldsText
  rcases enter_cases (o := o) now z name source with
    hsame | ⟨raw, -, hsilent⟩ | ⟨-, n, hbegun⟩ | ⟨k, hk, n, styled, own, around, hafter, -, hstyled, hown, haround, -⟩
  . rw [hsame]
    exact h
  . rw [hsilent]
    intro l hmem w hw
    rw [List.mem_cons] at hmem
    rcases hmem with rfl | hmem
    . cases hw
    . exact h l hmem w hw
  . rw [hbegun]
    intro l hmem w hw
    rw [List.mem_append, List.mem_cons] at hmem
    rcases hmem with hmem | rfl | hmem
    . exact h l (List.mem_of_mem_take hmem) w hw
    . cases hw
      rfl
    . exact h l (List.mem_of_mem_drop hmem) w hw
  -- An element that arranges nothing needs nothing around it but a plain block.
  . have harranging : k ∉ ElementKind.arranging := fun hmem => hname k hmem hk
    have hsupplied : suppliedAround k = [] := by
      revert harranging
      cases k <;> decide
    rw [hafter]
    intro l hmem w hw
    simp only [List.mem_append] at hmem
    rcases hmem with hmem | hmem | hmem | hmem
    . rcases hstyled l hmem with ⟨v, hv, hinline⟩
      cases hw.symm.trans hv
      rw [ElementKind.model_of_isInline hinline]
      rfl
    . rcases hown with rfl | ⟨l', rfl, hl', hhr, hbr⟩
      . cases hmem
      . rw [List.mem_singleton] at hmem
        subst hmem
        cases hw.symm.trans hl'
        exact holdsText_of_not_mem_arranging (isConcrete_of_canonicalName hk) harranging hhr hbr
    . rcases haround l hmem with ⟨v, hv, hmem | ⟨rfl, -⟩⟩
      . simp [hsupplied] at hmem
      . cases hw.symm.trans hv
        rfl
    . exact h l (List.mem_of_mem_drop hmem) w hw

theorem HoldsText.step (h : z.HoldsText) (now : Nat) {e : SourceEvent} (he : e.entersArranging = false) :
    (z.step o now e).HoldsText := by
  cases e with
  | enter name source =>
    apply h.enter
    intro k hk hname
    simp only [SourceEvent.entersArranging, List.any_eq_false, decide_eq_true_eq] at he
    exact he k hk hname
  | leave name => exact h.leave _
  | text content =>
    simp only [Outline.step]
    split
    . exact h.text now _
    . exact h

theorem HoldsText.texts_run (h : z.HoldsText) (now : Nat) {events : List SourceEvent}
    (hevents : ∀ e ∈ events, e.entersArranging = false) :
    (z.run o now events).texts = z.texts ++ events.filterMap (SourceEvent.admitted? o) := by
  induction events generalizing now z with
  | nil => simp [run]
  | cons e events ih =>
    have he : e.entersArranging = false := hevents e (by simp)
    unfold run
    rw [ih (h.step now he) (now + 1) fun e' hmem => hevents e' (by simp [hmem]), texts_step]
    unfold kept?
    rw [if_pos h.allowsText]
    cases hadmitted : e.admitted? o <;> simp [hadmitted]

theorem holdsText_empty : HoldsText {} := by
  simp [HoldsText, shells]

end Outline

theorem Node.filterMap_admitted?_sourceEventsAll (o : CleaningOptions) (ns : List Node) :
    (sourceEventsAll ns).filterMap (SourceEvent.admitted? o) = (textsAll ns).filterMap o.admitText? := by
  have hadmitted : SourceEvent.admitted? o = fun e => e.text?.bind o.admitText? := by
    funext e
    cases e <;> rfl
  rw [← filterMap_text?_sourceEventsAll, List.filterMap_filterMap, hadmitted]

def ElementKind.arrangingNames : List String :=
  ["ul", "ol", "li", "dl", "dt", "dd", "table", "tr", "td", "th"]

theorem ElementKind.mem_arrangingNames {name : String} {k : ElementKind} (hk : k ∈ arranging)
    (hname : Grammar.standard.canonicalName (.ofName name) = .known k) :
    ∃ arrangingName ∈ arrangingNames, Text.sameLetters name arrangingName := by
  -- None of these kinds has an alias.
  cases htag : TagName.ofName name with
  | unknown raw =>
    rw [htag] at hname
    cases hname
  | known source =>
    have hsame : source = k := by
      rw [htag] at hname
      cases hname
      revert hk
      cases source <;> decide
    subst hsame
    have hlower := TagName.lowercase_of_ofName htag
    refine ⟨source.name, ?_, ?_⟩
    . revert hk
      cases source <;> decide
    . have hown : Text.lowercase source.name = source.name := by
        cases source <;> decide
      simp [Text.sameLetters, hlower, hown]

namespace Cleaner

theorem texts_in_order (o : CleaningOptions) (name : String) (attributes : List Attribute) (children : List Node) :
    ∃ cleaned, clean ⟨.standard, o⟩ (.element name attributes children) = .ok cleaned
      ∧ (Event.texts cleaned).Sublist ((Node.textsAll children).filterMap o.admitText?)
      ∧ ((∀ below ∈ Node.elementNamesAll children, ∀ arranging ∈ ElementKind.arrangingNames,
            Text.sameLetters below arranging = false) →
          Event.texts cleaned = (Node.textsAll children).filterMap o.admitText?) := by
  refine ⟨_, Outline.clean_eq o name attributes children, ?_⟩
  rw [Outline.texts_cleaned, ← Node.filterMap_admitted?_sourceEventsAll, SourceEvent.ofNodes_eq]
  constructor
  . rcases Outline.texts_run (o := o) 0 {} (Node.sourceEventsAll children) with ⟨more, htexts, hsublist⟩
    rw [htexts]
    exact hsublist
  . intro hnames
    apply Outline.holdsText_empty.texts_run
    intro e hmem
    cases e with
    | leave name => rfl
    | text content => rfl
    | enter below source =>
      simp only [SourceEvent.entersArranging, List.any_eq_false, decide_eq_true_eq]
      intro k hk hname
      rcases ElementKind.mem_arrangingNames hk hname with ⟨arranging, harranging, hsame⟩
      have hother := hnames below (Node.mem_elementNamesAll children hmem) arranging harranging
      rw [hsame] at hother
      cases hother

theorem heading_and_broken_line_texts :
    let children : List Node :=
      [.element "h1" [] [.text "One"], .element "p" [] [.text "two", .element "br" [] [], .text "three"]]
    (∀ below ∈ Node.elementNamesAll children, ∀ arranging ∈ ElementKind.arrangingNames,
        Text.sameLetters below arranging = false)
      ∧ ∃ cleaned, clean ⟨.standard, {}⟩ (.element "#document-fragment" [] children) = .ok cleaned
        ∧ Event.texts cleaned = ["One", "two", "three"] := by
  intro children
  have hnames : ∀ below ∈ Node.elementNamesAll children, ∀ arranging ∈ ElementKind.arrangingNames,
      Text.sameLetters below arranging = false := by decide +kernel
  rcases texts_in_order {} "#document-fragment" [] children with ⟨cleaned, hclean, -, htexts⟩
  refine ⟨hnames, cleaned, hclean, ?_⟩
  rw [htexts hnames]
  decide +kernel

end Cleaner

end NoteMarkup
