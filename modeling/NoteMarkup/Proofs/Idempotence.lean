import NoteMarkup.Proofs.CanonicalTree
import NoteMarkup.Proofs.Run
import NoteMarkup.Proofs.Walk

/-!
This module contains that cleaning a cleaned tree again changes nothing. Where an element of a canonical tree is
entered nothing stands in its way and nothing has to be supplied, and its end tag closes what was opened for it.
-/

namespace NoteMarkup

namespace ElementKind

variable {k : ElementKind} {bare : Prop} {attributes : List Attribute}

theorem counterparts_of_mayHave (h : k.MayHave bare attributes) (hwriting : k.writing = k) :
    k.entry.counterparts attributes = [] := by
  -- Only `font` and `highlight` read a colour from an attribute, and there is no `style` to read.
  have hstyles : k.entry.styleAttributes = [] := by
    cases k <;> first | rfl | cases hwriting
  have hstyle : Attribute.lookup? attributes "style" = none := by
    rcases eq_singleton_of_mayHave h with rfl | ⟨name, hname, value, rfl⟩
    . rfl
    . exact Attribute.lookup?_style hname value
  simp [Entry.counterparts, hstyles, hstyle]

theorem counterparts_of_color {color : Color} (hcolor : color ∈ Color.palette) (hk : k = .font ∨ k = .highlight) :
    k.entry.counterparts [⟨"color", color.hex⟩] = [⟨k.writing, some ⟨"color", color.hex⟩⟩] := by
  have hlower : Text.lowercase (Text.trim color.hex) = color.hex := by
    revert hcolor
    unfold Color.palette
    simp only [List.mem_cons, List.not_mem_nil, or_false]
    rintro (rfl | rfl | rfl | rfl | rfl | rfl | rfl) <;> decide
  have hshown : Style.Property.shownColor? color.hex = some color := by
    simp [Style.Property.shownColor?, Color.parsePalette?_hex hcolor]
  have hstyles : font.entry.styleAttributes = [("color", .color)]
      ∧ highlight.entry.styleAttributes = [("color", .background)] := ⟨rfl, rfl⟩
  unfold Entry.counterparts
  rcases hk with rfl | rfl <;>
    simp [hstyles, Attribute.lookup?_style, Style.Property.counterpart?, hlower, hshown, writing,
      Style.Property.colored]

theorem of_writing {name : String} (hread : TagName.ofName name = .known k)
    (hwritten : Grammar.standard.writtenName? k.writing = some name) :
    k.isConcrete ∧ k ≠ .br ∧ k ≠ .p ∧ k ≠ .li := by
  cases k <;> first | cases hwritten; done | (cases hwritten; revert hread; decide)

theorem canonicalName_of_writing {name : String} (hread : TagName.ofName name = .known k)
    (hwritten : Grammar.standard.writtenName? k.writing = some name) :
    Grammar.standard.canonicalName (.ofName name) = .known k := by
  have hconcrete := (of_writing hread hwritten).1
  rw [hread]
  simp [Grammar.canonicalName, canonical_of_isConcrete hconcrete]

end ElementKind

namespace Outline

variable {o : CleaningOptions} {z : Outline .standard}

theorem prepare_of_standsIn {k : ElementKind} (now : Nat) (h : k.standsIn (z.nearest.map ElementKind.model)) :
    z.prepare k now = z := by
  rw [prepare_eq]
  cases hnearest : z.nearest with
  | some parent =>
    have hadmits : parent.model.admits k := by simpa [hnearest, ElementKind.standsIn] using h
    rw [clear_of_nearest (by simp [hnearest, hadmits])]
    simp [hnearest]
  | none =>
    have hblock : k.isBlock := by simpa [hnearest, ElementKind.standsIn] using h
    have hmissing : missingAround k = [] := by
      cases k <;> first | rfl | cases hblock
    rw [clear_of_nearest (by simp [hnearest])]
    simp [hmissing]

theorem closeInnermost_place (k : ElementKind) (attributes : List Attribute) (now : Nat) (held : Content)
    (z : Outline .standard) :
    ((z.place k attributes now).hold held).closeInnermost
      =
    z.hold (Layer.written (tagOf k attributes) now held).settled := by
  simp [place, openWritten, hold, closeInnermost, Layer.hold]

variable {k : ElementKind} {attributes : List Attribute} {name : String}

theorem enter_of_writing (now : Nat) (hread : TagName.ofName name = .known k)
    (hwritten : Grammar.standard.writtenName? k.writing = some name)
    (hplace : k.standsIn (z.nearest.map ElementKind.model)) (hattributes : k.writing.MayHave False attributes) :
    z.enter o now (.ofName name) attributes = z.openHere o k attributes now := by
  rcases ElementKind.of_writing hread hwritten with ⟨-, hbr, hp, hli⟩
  have hname := ElementKind.canonicalName_of_writing hread hwritten
  have hkeeps : k.entry.keeps attributes := by
    by_cases ha : k = .a
    . subst ha
      exact ElementKind.keeps_of_mayHave hattributes hli
    . exact ElementKind.entry_keeps ha hli attributes
  have hdrops : z.drops k = false := by
    have hnot : (k == .p) = false := by simpa using hp
    cases hnearest : z.nearest <;> simp [Outline.drops, hnearest, ElementKind.entry_drops, hnot]
  unfold enter
  simp [hname, hkeeps, hbr, hdrops, prepare_of_standsIn now hplace]

theorem openHere_of_writing_eq (hdedupe : o.dedupeInline = false) (now : Nat) (hhr : k ≠ .hr) (hli : k ≠ .li)
    (hwriting : k.writing = k) (hattributes : k.MayHave False attributes) :
    z.openHere o k attributes now = z.place k attributes now := by
  unfold openHere
  simp [hhr, hdedupe, ElementKind.keptAttributes_of_mayHave hattributes hli,
    ElementKind.counterparts_of_mayHave hattributes hwriting]

theorem openHere_of_color (hdedupe : o.dedupeInline = false) (now : Nat) (hk : k = .font ∨ k = .highlight)
    {color : Color} (hcolor : color ∈ Color.palette) :
    z.openHere o k [⟨"color", color.hex⟩] now
      =
    (z.place k [] now).place k.writing [⟨"color", color.hex⟩] now := by
  have hkept : k.entry.keptAttributes [⟨"color", color.hex⟩] z.nearest = [] := by
    rcases hk with rfl | rfl <;> rfl
  have hmayHave : k.writing.MayHave False [⟨"color", color.hex⟩] := by
    rcases hk with rfl | rfl <;> exact .inl ⟨color, hcolor, rfl⟩
  have hkinds : k ≠ .hr ∧ k.model.admits k.writing ∧ k.writing ≠ .li := by
    rcases hk with rfl | rfl <;> decide
  rcases hkinds with ⟨hhr, hadmits, hli⟩
  unfold openHere
  simp only [hhr, ↓reduceIte, hdedupe, Bool.false_and, Bool.false_eq_true, hkept,
    ElementKind.counterparts_of_color hcolor hk, List.foldl_cons, List.foldl_nil]
  unfold openCounterpart
  simp [hdedupe, hadmits, Style.Counterpart.attributes, ElementKind.keptAttributes_of_mayHave hmayHave hli]

theorem leave_place (k : ElementKind) (attributes : List Attribute) (now : Nat) (held : Content)
    (z : Outline .standard) :
    ((z.place k attributes now).hold held).leave (.known k)
      =
    z.hold (Layer.written (tagOf k attributes) now held).settled := by
  rw [← closeInnermost_place]
  simp [leave, place, openWritten, hold, Layer.name, Layer.hold, tagOf, List.findIdx?_cons, close]

theorem leave_place_place {l : ElementKind} (hne : l ≠ k) (outer inner : List Attribute) (now : Nat)
    (held : Content) (z : Outline .standard) :
    (((z.place k outer now).place l inner now).hold held).leave (.known k)
      =
    z.hold
      (Layer.written (tagOf k outer) now (Layer.written (tagOf l inner) now held).settled).settled := by
  have hname : (TagName.known l == TagName.known k) = false := by simpa using hne
  rw [← closeInnermost_place, ← closeInnermost_place]
  simp [leave, place, openWritten, hold, Layer.name, Layer.hold, tagOf, List.findIdx?_cons, close, hname]

theorem leave_of_hasOpen (h : z.hasOpen k = false) : z.leave (.known k) = z := by
  have hnone : z.layers.findIdx? (·.name == .known k) = none := by
    simpa [hasOpen, shells] using h
  unfold leave
  rw [hnone]

theorem run_element (now : Nat) (children : List Node) :
    z.run o now (Node.element name attributes children).sourceEvents
      =
    ((z.enter o now (.ofName name) attributes).run o (now + 1) (Node.sourceEventsAll children)).leave
      (Grammar.standard.canonicalName (.ofName name)) := by
  simp [Node.sourceEvents, run, run_append, step]

end Outline

namespace Node

variable {o : CleaningOptions} {place : Option ContentModel}

/-- Whether the source events of the siblings put the content behind everything else, where something of the
place is nearest. -/
def CleansTo (o : CleaningOptions) (place : Option ContentModel) (events : List SourceEvent)
    (content : Content) : Prop :=
  ∀ (now : Nat) (z : Outline .standard), z.nearest.map ElementKind.model = place → z.hasOpen .hr = false →
    z.run o now events = z.hold content

theorem CleansTo.append {first second : List SourceEvent} {a b : Content} (hfirst : CleansTo o place first a)
    (hsecond : CleansTo o place second b) : CleansTo o place (first ++ second) (a ++ b) := by
  intro now z hnearest hhr
  rw [Outline.run_append, hfirst now z hnearest hhr, ← Outline.hold_hold]
  apply hsecond
  . simpa using hnearest
  . simpa using hhr

theorem cleansTo_text {content : String} (hplace : ∃ m ∈ place, m.holdsText)
    (hcontent : o.admitText? content = some content) : CleansTo o place [.text content] (.text .nil content) := by
  intro now z hnearest _
  rcases hplace with ⟨m, hm, hholds⟩
  rw [← hnearest, Option.mem_def, Option.map_eq_some_iff] at hm
  rcases hm with ⟨w, hw, rfl⟩
  simp [Outline.run, Outline.step, hcontent, Outline.text, hw, hholds]

variable {k : ElementKind} {name : String} {attributes : List Attribute} {children : List Node} {held : Content}

theorem Canonical.eq_nil_of_nothing {bare : Prop} {ns : List Node} (h : Canonical o bare (some .nothing) ns) :
    ns = [] := by
  cases h with
  | nil => rfl
  | text _ _ hplace => simp [ContentModel.holdsText] at hplace
  | element _ _ _ hplace => cases hplace

theorem cleansTo_rule (hread : TagName.ofName name = .known .hr)
    (hwritten : Grammar.standard.writtenName? .hr = some name)
    (hplace : ElementKind.hr.standsIn place) :
    CleansTo o place (element name [] []).sourceEvents (.standalone .nil .hr []) := by
  intro now z hnearest hclosed
  have hopened : z.openHere o .hr [] now = z.hold (.standalone .nil .hr []) := rfl
  rw [Outline.run_element, Outline.enter_of_writing now hread hwritten (by rwa [hnearest]) (by rfl),
    ElementKind.canonicalName_of_writing hread hwritten, hopened]
  apply Outline.leave_of_hasOpen
  simpa [sourceEventsAll, Outline.run] using hclosed

theorem cleansTo_plain (hdedupe : o.dedupeInline = false) (hread : TagName.ofName name = .known k)
    (hwritten : Grammar.standard.writtenName? k.writing = some name) (hplace : k.standsIn place)
    (hattributes : k.MayHave False attributes) (hrule : k ≠ .hr) (hwriting : k.writing = k)
    (hheld : CleansTo o (some k.model) (sourceEventsAll children) held) :
    CleansTo o place (element name attributes children).sourceEvents
      (Layer.written (Outline.tagOf k attributes) 0 held).settled := by
  intro now z hnearest hclosed
  rcases ElementKind.of_writing hread hwritten with ⟨-, -, -, hli⟩
  rw [Outline.run_element, ElementKind.canonicalName_of_writing hread hwritten,
    Outline.enter_of_writing now hread hwritten (by rwa [hnearest]) (by rwa [hwriting]),
    Outline.openHere_of_writing_eq hdedupe now hrule hli hwriting hattributes, hheld, Outline.leave_place]
  . rfl
  . simp
  . simp [hclosed, hrule]

theorem cleansTo_colored (hdedupe : o.dedupeInline = false) (hread : TagName.ofName name = .known k)
    (hwritten : Grammar.standard.writtenName? k.writing = some name) (hplace : k.standsIn place)
    (hk : k = .font ∨ k = .highlight) {color : Color} (hcolor : color ∈ Color.palette)
    (hheld : CleansTo o (some k.model) (sourceEventsAll children) held) (hne : held ≠ .nil) :
    CleansTo o place (element name [⟨"color", color.hex⟩] children).sourceEvents
      (.element .nil k [] (.element .nil k.writing [⟨"color", color.hex⟩] held)) := by
  have hmayHave : k.writing.MayHave False [⟨"color", color.hex⟩] := by
    rcases hk with rfl | rfl <;> exact .inl ⟨color, hcolor, rfl⟩
  have hkinds : k.writing ≠ k ∧ k ≠ .hr ∧ k.writing ≠ .hr := by
    rcases hk with rfl | rfl <;> decide
  rcases hkinds with ⟨hwriting, hrule, hrule'⟩
  intro now z hnearest hclosed
  rw [Outline.run_element, ElementKind.canonicalName_of_writing hread hwritten,
    Outline.enter_of_writing now hread hwritten (by rwa [hnearest]) hmayHave,
    Outline.openHere_of_color hdedupe now hk hcolor, hheld, Outline.leave_place_place hwriting]
  . simp [Layer.settled, hne, Outline.tagOf]
  . simp
  . simp [hclosed, hrule, hrule']

theorem writtenBehind_settled (now : Nat) (ns : List Node) (hname : Grammar.standard.writtenName? k = some name)
    (hempty : held = .nil → k.entry.collapses) :
    (Layer.written (Outline.tagOf k attributes) now held).settled.writtenBehind .standard ns
      =
    ns ++ [element name attributes (held.writtenBehind .standard [])] := by
  simp only [Layer.settled]
  split
  . next hnil =>
    subst hnil
    have hcollapses : (Outline.tagOf k attributes).entry.collapses := hempty rfl
    rw [if_pos hcollapses]
    simp [Content.writtenBehind, Outline.tagOf, hname]
  . simp [Content.writtenBehind, Outline.tagOf, hname]

theorem exists_cleansTo_element (hdedupe : o.dedupeInline = false) (hread : TagName.ofName name = .known k)
    (hwritten : Grammar.standard.writtenName? k.writing = some name) (hplace : k.standsIn place)
    (hattributes : k.writing.MayHave False attributes)
    (hchildren : held.writtenBehind .standard [] = children) (hrule : k = .hr → children = [])
    (hempty : children = [] → k = .hr ∨ k.entry.collapses)
    (hheld : CleansTo o (some k.model) (sourceEventsAll children) held) :
    ∃ more : Content, (∀ ns, more.writtenBehind .standard ns = ns ++ [element name attributes children])
      ∧ CleansTo o place (element name attributes children).sourceEvents more := by
  have hnil : held = .nil → k = .hr ∨ k.entry.collapses := by
    rintro rfl
    exact hempty hchildren.symm
  by_cases hk : k = .hr
  . subst hk
    cases hattributes
    rw [hrule rfl]
    refine ⟨_, ?_, cleansTo_rule hread hwritten hplace⟩
    intro ns
    have hname : Grammar.standard.writtenName? .hr = some name := hwritten
    simp [Content.writtenBehind, hname]
  . by_cases hcolored : k = .font ∨ k = .highlight
    -- A colour comes from the source here, so that it is written by what the style stands for.
    . have hcolor : ∃ color ∈ Color.palette, attributes = [⟨"color", color.hex⟩] := by
        rcases hcolored with rfl | rfl <;> simpa [ElementKind.writing, ElementKind.MayHave] using hattributes
      rcases hcolor with ⟨color, hcolor, rfl⟩
      have hne : held ≠ .nil := by
        intro h
        have := hnil h
        revert this
        rcases hcolored with rfl | rfl <;> decide
      refine ⟨_, ?_, cleansTo_colored hdedupe hread hwritten hplace hcolored hcolor hheld hne⟩
      intro ns
      have hunwritten : Grammar.standard.writtenName? k = none := by
        rcases hcolored with rfl | rfl <;> rfl
      simp [Content.writtenBehind, hunwritten, hwritten, hchildren]
    . have hwriting : k.writing = k := by
        revert hcolored
        cases k <;> decide
      rw [hwriting] at hattributes
      refine ⟨_, ?_, cleansTo_plain hdedupe hread hwritten hplace hattributes hk hwriting hheld⟩
      intro ns
      rw [writtenBehind_settled 0 ns (by rwa [hwriting] at hwritten) (fun h => (hnil h).resolve_left hk),
        hchildren]

theorem Canonical.exists_cleansTo (hdedupe : o.dedupeInline = false) {ns : List Node}
    (h : Canonical o False place ns) :
    ∃ content : Content,
      content.writtenBehind .standard [] = ns ∧ CleansTo o place (sourceEventsAll ns) content := by
  induction h with
  | nil place => exact ⟨.nil, rfl, fun now z _ _ => (Outline.hold_nil z).symm⟩
  | @text place ns content before happart hplace hcontent ih =>
    rcases ih with ⟨c, hwritten, hcleans⟩
    refine ⟨c ++ .text .nil content, ?_, ?_⟩
    . simp [Content.writtenBehind, hwritten, appendText_of_not_endsInText happart]
    . rw [sourceEventsAll_append]
      apply hcleans.append
      exact cleansTo_text hplace hcontent
  | @element place ns children name attributes k before hread hname hplace hattributes hempty held ihbefore
      ihheld =>
    rcases ihbefore with ⟨c, hwritten, hcleans⟩
    rcases ihheld with ⟨inner, hchildren, hcleansInner⟩
    have hrule : k = .hr → children = [] := by
      rintro rfl
      exact held.eq_nil_of_nothing
    rcases exists_cleansTo_element hdedupe hread hname hplace hattributes hchildren hrule hempty hcleansInner
      with ⟨more, hmore, hcleansMore⟩
    refine ⟨c ++ more, ?_, ?_⟩
    . rw [Content.writtenBehind_append, hwritten, hmore]
    . rw [sourceEventsAll_append]
      apply hcleans.append
      simpa [sourceEventsAll] using hcleansMore

end Node

namespace Cleaner

variable {o : CleaningOptions}

theorem clean_of_canonical (hdedupe : o.dedupeInline = false) {ns : List Node}
    (h : Node.Canonical o False none ns) :
    ∃ cleaned, clean ⟨.standard, o⟩ (Node.fragment ns) = .ok cleaned
      ∧ Event.treeOf .standard cleaned = Node.fragment ns := by
  rcases h.exists_cleansTo hdedupe with ⟨content, hwritten, hcleans⟩
  have hrun : Outline.run o 0 {} (SourceEvent.ofNodes ns) = ({} : Outline .standard).hold content := by
    rw [SourceEvent.ofNodes_eq]
    exact hcleans 0 {} rfl rfl
  have hcleaned : Outline.cleaned o (SourceEvent.ofNodes ns) = content := by
    unfold Outline.cleaned
    rw [hrun]
    simp [Outline.settled, Outline.hold, Outline.close]
  refine ⟨_, Outline.clean_eq o _ _ ns, ?_⟩
  rw [hcleaned, Event.treeOf_events, hwritten]

theorem canonical_cleaned (events : List SourceEvent) (hcolored : ∀ e ∈ events, e.entersColored = false) :
    Node.Canonical o False none ((Outline.cleaned o events).writtenBehind .standard []) := by
  have hlawful : (Outline.cleaned o events).Lawful o False none := by
    apply Outline.cleaned_lawful
    intro e he hentered
    simp [hcolored e he] at hentered
  exact Node.Canonical.writtenBehind hlawful rfl (.nil none)

theorem entersColored_eq_false {events : List SourceEvent}
    (h : ∀ name source, .enter name source ∈ events →
      Text.sameLetters name "_font" = false ∧ Text.sameLetters name "_highlight" = false) :
    ∀ e ∈ events, e.entersColored = false := by
  have hlower : Text.lowercase "_font" = "_font" ∧ Text.lowercase "_highlight" = "_highlight" := by decide
  intro e he
  cases e with
  | leave name => rfl
  | text content => rfl
  | enter name source =>
    have hother := h name source he
    simp only [Text.sameLetters, hlower, beq_eq_false_iff_ne] at hother
    simp only [SourceEvent.entersColored, Bool.or_eq_false_iff, decide_eq_false_iff_not]
    constructor
    . intro hfont
      exact hother.1 (TagName.lowercase_of_ofName hfont)
    . intro hhighlight
      exact hother.2 (TagName.lowercase_of_ofName hhighlight)

theorem cleaning_again_changes_nothing (o : CleaningOptions) (hdedupe : o.dedupeInline = false) (name : String)
    (attributes : List Attribute) (children : List Node)
    (hnames : ∀ below ∈ Node.elementNamesAll children,
      Text.sameLetters below "_font" = false ∧ Text.sameLetters below "_highlight" = false) :
    ∃ cleaned again,
      clean ⟨.standard, o⟩ (.element name attributes children) = .ok cleaned
        ∧ clean ⟨.standard, o⟩ (Event.treeOf .standard cleaned) = .ok again
        ∧ Event.treeOf .standard again = Event.treeOf .standard cleaned := by
  have hcolored : ∀ e ∈ SourceEvent.ofNodes children, e.entersColored = false := by
    apply entersColored_eq_false
    intro below source hmem
    rw [SourceEvent.ofNodes_eq] at hmem
    exact hnames below (Node.mem_elementNamesAll children hmem)
  rcases clean_of_canonical hdedupe (canonical_cleaned _ hcolored) with ⟨again, hagain, htree⟩
  refine ⟨_, again, Outline.clean_eq o name attributes children, ?_, ?_⟩
  . rw [Event.treeOf_events]
    exact hagain
  . rw [Event.treeOf_events]
    exact htree

theorem colored_item_cleaned_again :
    let o : CleaningOptions := {}
    let item : Node := .element "li" [] [.element "font" [⟨"color", "RED"⟩] [.text "a"], .text "b"]
    (∀ below ∈ Node.elementNamesAll [item],
        Text.sameLetters below "_font" = false ∧ Text.sameLetters below "_highlight" = false)
      ∧ ∃ cleaned again,
        clean ⟨.standard, o⟩ (Node.fragment [item]) = .ok cleaned
          ∧ clean ⟨.standard, o⟩ (Event.treeOf .standard cleaned) = .ok again
          ∧ Event.treeOf .standard again = Event.treeOf .standard cleaned := by
  have hnames : ∀ below ∈ Node.elementNamesAll
      [.element "li" [] [.element "font" [⟨"color", "RED"⟩] [.text "a"], .text "b"]],
      Text.sameLetters below "_font" = false ∧ Text.sameLetters below "_highlight" = false := by
    decide
  exact ⟨hnames, cleaning_again_changes_nothing {} rfl Node.fragmentTag [] _ hnames⟩

end Cleaner

end NoteMarkup
