import NoteMarkup.Proofs.Atop
import NoteMarkup.Proofs.FilePaths
import NoteMarkup.Proofs.LineBreaks

/-!
This module contains that one `style` attribute with the declarations of two comes to the same tree as two elements
with one each. What inline content does where it stands does not depend on the layers around it, and a layer more
for which nothing is written in the tree changes nothing.
-/

namespace NoteMarkup

namespace Style

theorem declarations_append (first second : String) :
    declarations (first ++ ";" ++ second) = declarations first ++ declarations second := by
  have hsemicolon : (";" : String).toList = [';'] := rfl
  simp [declarations, hsemicolon, Text.pieces_append_cons]

theorem counterparts_append (first second : String) :
    counterparts (first ++ ";" ++ second) = counterparts first ++ counterparts second := by
  rw [counterparts, declarations_append, List.filterMap_append]
  rfl

end Style

namespace Content

/-- Whether both are written as the same siblings, and not one of them only holds something. -/
structure WrittenAlike (a b : Content) : Prop where
  nil_iff : a = nil ↔ b = nil
  written : ∀ ns, a.writtenBehind .standard ns = b.writtenBehind .standard ns

theorem WrittenAlike.refl (a : Content) : a.WrittenAlike a :=
  ⟨Iff.rfl, fun _ => rfl⟩

theorem WrittenAlike.append {a b c d : Content} (hab : a.WrittenAlike b) (hcd : c.WrittenAlike d) :
    (a ++ c).WrittenAlike (b ++ d) where
  nil_iff := by
    rw [append_eq_nil_iff, append_eq_nil_iff, hab.nil_iff, hcd.nil_iff]
  written := by
    intro ns
    rw [writtenBehind_append, writtenBehind_append, hab.written, hcd.written]

end Content

namespace Layer

theorem settled_writtenAlike (l : Layer .standard) {a b : Content} (h : a.WrittenAlike b) :
    (l.hold a).settled.WrittenAlike (l.hold b).settled := by
  cases l with
  | silent name since held => exact (Content.WrittenAlike.refl held).append h
  | written tag since held =>
    have hheld := (Content.WrittenAlike.refl held).append h
    simp only [hold, settled]
    by_cases hnil : held ++ a = .nil
    . rw [if_pos hnil, if_pos (hheld.nil_iff.mp hnil)]
      exact .refl _
    . rw [if_neg hnil, if_neg fun hnil' => hnil (hheld.nil_iff.mpr hnil')]
      refine ⟨by simp, ?_⟩
      intro ns
      simp only [Content.writtenBehind]
      cases Grammar.standard.writtenName? tag.entry.kind with
      | some name => simp [hheld.written]
      | none => simp [hheld.written]

theorem settled_of_unwritten {k : ElementKind} (hname : Grammar.standard.writtenName? k = none)
    (hcollapses : k.entry.collapses = false) (attributes : List Attribute) (since : Nat) (a : Content) :
    ((Layer.written (Outline.tagOf k attributes) since .nil).hold a).settled.WrittenAlike a := by
  simp only [hold, settled, Content.nil_append]
  by_cases hnil : a = .nil
  . rw [if_pos hnil, if_neg (by simpa [Outline.tagOf] using hcollapses), hnil]
    exact .refl _
  . rw [if_neg hnil]
    refine ⟨by simp [hnil], ?_⟩
    intro ns
    simp [Content.writtenBehind, Outline.tagOf, hname]

end Layer

namespace Outline

section Alike

/-- Whether the layers come to the same in writing, whatever they are opened behind and come to hold. -/
def LayersAlike (ls ms : List (Layer .standard)) : Prop :=
  ∀ ⦃before other held more : Content⦄, before.WrittenAlike other → held.WrittenAlike more →
    (hold held ⟨before, ls⟩).settled.WrittenAlike (hold more ⟨other, ms⟩).settled

variable {ls ms : List (Layer .standard)}

theorem LayersAlike.cons (h : LayersAlike ls ms) (l : Layer .standard) : LayersAlike (l :: ls) (l :: ms) := by
  intro before other held more hbefore hheld
  rw [settled_hold_cons, settled_hold_cons]
  exact h hbefore (l.settled_writtenAlike hheld)

theorem LayersAlike.append (h : LayersAlike ls ms) (inner : List (Layer .standard)) :
    LayersAlike (inner ++ ls) (inner ++ ms) := by
  induction inner with
  | nil => exact h
  | cons l inner ih => exact ih.cons l

theorem LayersAlike.refl (ls : List (Layer .standard)) : LayersAlike ls ls := by
  have hnil : LayersAlike [] [] := fun _ _ _ _ hbefore hheld => hbefore.append hheld
  have happend := hnil.append ls
  rwa [List.append_nil] at happend

theorem LayersAlike.unwritten {k : ElementKind} (hname : Grammar.standard.writtenName? k = none)
    (hcollapses : k.entry.collapses = false) (attributes : List Attribute) (since : Nat)
    (ls : List (Layer .standard)) : LayersAlike ls (.written (tagOf k attributes) since .nil :: ls) := by
  intro before other held more hbefore hheld
  rw [settled_hold_cons]
  apply LayersAlike.refl ls hbefore
  have hunwritten := Layer.settled_of_unwritten hname hcollapses attributes since more
  exact ⟨hheld.nil_iff.trans hunwritten.nil_iff.symm, fun ns => (hheld.written ns).trans (hunwritten.written ns).symm⟩

end Alike

section Lines

variable {z : Outline .standard}

def breakLine (z : Outline .standard) (line : Content) : Outline .standard :=
  z.lineAfter (z.hold line).settled

def afterLines (z : Outline .standard) (lines : List Content) : Outline .standard :=
  lines.foldl breakLine z

@[simp]
theorem afterLines_shells (z : Outline .standard) (lines : List Content) :
    (z.afterLines lines).shells = z.shells := by
  unfold afterLines
  induction lines generalizing z with
  | nil => rfl
  | cons line lines ih => rw [List.foldl_cons, ih, breakLine, lineAfter_shells]

theorem afterLines_append (z : Outline .standard) (first second : List Content) :
    z.afterLines (first ++ second) = (z.afterLines first).afterLines second :=
  List.foldl_append

theorem lineAfter_atop (z f : Outline .standard) :
    (z.atop f).lineAfter (z.atop f).settled = (z.breakLine f.settled).atop (f.lineAfter .nil) := by
  have hempty : (z.breakLine f.settled).hold (f.lineAfter .nil).ground = z.breakLine f.settled := hold_nil _
  rw [lineAfter, atop_shells, settled_atop]
  unfold atop
  rw [hempty]
  rfl

theorem afterLines_writtenAlike {z y : Outline .standard} (lines : List Content) (last : Content)
    (hground : z.ground.WrittenAlike y.ground) (hlayers : LayersAlike z.layers y.layers)
    (hz : z.shells = z.layers) (hy : y.shells = y.layers) :
    ((z.afterLines lines).hold last).settled.WrittenAlike ((y.afterLines lines).hold last).settled := by
  induction lines generalizing z y with
  | nil => exact hlayers hground (.refl last)
  | cons line lines ih =>
    refine ih (z := z.breakLine line) (y := y.breakLine line) (hlayers hground (.refl line)) ?_ ?_ ?_
    . rwa [breakLine, breakLine, lineAfter, lineAfter, hz, hy]
    . exact lineAfter_shells _ z
    . exact lineAfter_shells _ y

end Lines

section Opening

variable {o : CleaningOptions} {k w : ElementKind} {z : Outline .standard}

def stylesOf (styles : List Style.Counterpart) : List (Layer .standard) :=
  styles.reverse.map fun s => .written (tagOf s.kind (s.kind.entry.keptAttributes s.attributes none)) 0 .nil

def ownOf (w : ElementKind) (source : List Attribute) : Layer .standard :=
  .written (tagOf w (w.entry.keptAttributes source none)) 0 .nil

theorem stylesOf_emptied (styles : List Style.Counterpart) :
    (stylesOf styles).map Layer.emptied = stylesOf styles := by
  simp [stylesOf, Layer.emptied]

theorem isLight_of_mem_stylesOf {styles : List Style.Counterpart} (hstyles : ∀ s ∈ styles, s.Proper) :
    ∀ l ∈ stylesOf styles, l.name.isLight := by
  intro l hmem
  unfold stylesOf at hmem
  rw [List.mem_map] at hmem
  rcases hmem with ⟨s, hs, rfl⟩
  rw [Layer.written_tagOf_name]
  exact (hstyles s (List.mem_reverse.mp hs)).isInline

theorem foldl_openCounterpart_eq (hdedupe : o.dedupeInline = false) (hk : k.isHost) (h : Hosted k z.shells)
    {styles : List Style.Counterpart} (hstyles : ∀ s ∈ styles, s.Proper) :
    styles.foldl (openCounterpart o 0) z = { z with layers := stylesOf styles ++ z.layers } := by
  induction styles generalizing z with
  | nil => rfl
  | cons s styles ih =>
    rw [List.forall_mem_cons] at hstyles
    rcases nearest_of_hosted h hk with ⟨w, hw, -, hadmits⟩
    have hinline := hstyles.1.isInline
    have hopened : z.openCounterpart o 0 s
        = z.place s.kind (s.kind.entry.keptAttributes s.attributes none) 0 := by
      unfold openCounterpart
      rw [ElementKind.keptAttributes_of_isInline hinline s.attributes z.nearest none]
      simp [Option.mem_def.mp hw, hadmits _ hinline, hdedupe]
    rw [List.foldl_cons, hopened, ih _ hstyles.2]
    . simp [stylesOf, place, openWritten]
    . apply Hosted.inside _ h
      rwa [Layer.emptied_name, Layer.written_tagOf_name]

theorem ownOf_name (w : ElementKind) (source : List Attribute) : (ownOf w source).name = .known w :=
  Layer.written_tagOf_name ..

theorem openHere_eq (hdedupe : o.dedupeInline = false) (hk : k.isHost) (h : Hosted k z.shells) (hw : w.isInline)
    (source : List Attribute) :
    z.openHere o w source 0
      =
    { z with layers := stylesOf (w.entry.counterparts source) ++ ownOf w source :: z.layers } := by
  have hhr : w ≠ .hr := ElementKind.ne_of_isInline hw rfl
  unfold openHere
  rw [ElementKind.keptAttributes_of_isInline hw source z.nearest none]
  simp only [hhr, ↓reduceIte, hdedupe, Bool.false_and, Bool.false_eq_true]
  rw [foldl_openCounterpart_eq hdedupe hk _ fun s hs => Entry.counterparts_proper hs]
  . rfl
  . apply Hosted.inside _ h
    rwa [Layer.emptied_name, Layer.written_tagOf_name]

end Opening

/-- What the events do on top of a block that holds inline content: some lines are ended, and what was on top is
followed by what is open at the end. The block and what is open in it do not matter. -/
structure Unfolds (o : CleaningOptions) (events : List SourceEvent) (f after : Outline .standard)
    (lines : List Content) : Prop where
  shells : ∃ inner, after.shells = inner ++ f.shells ∧ ∀ l ∈ inner, l.name.isLight
  play : ∀ (k : ElementKind) (z : Outline .standard), k.isHost → Hosted k z.shells →
    play o (z.atop f) events = (z.afterLines lines).atop after

namespace Unfolds

variable {o : CleaningOptions} {first second : List SourceEvent} {f middle after : Outline .standard}
  {lines more : List Content}

theorem refl (o : CleaningOptions) (f : Outline .standard) : Unfolds o [] f f [] where
  shells := ⟨[], rfl, by simp⟩
  play := fun _ _ _ _ => rfl

theorem append (hfirst : Unfolds o first f middle lines) (hsecond : Unfolds o second middle after more) :
    Unfolds o (first ++ second) f after (lines ++ more) where
  shells := by
    rcases hfirst.shells with ⟨inner, hmiddle, hinner⟩
    rcases hsecond.shells with ⟨innermost, hafter, hinnermost⟩
    refine ⟨innermost ++ inner, by rw [hafter, hmiddle, List.append_assoc], ?_⟩
    exact List.forall_mem_append.mpr ⟨hinnermost, hinner⟩
  play := by
    intro k z hk h
    rw [play_append, hfirst.play k z hk h, hsecond.play k _ hk (by simpa using h), afterLines_append]

theorem isLight (h : Unfolds o first f after lines) (hf : ∀ l ∈ f.shells, l.name.isLight) :
    ∀ l ∈ after.shells, l.name.isLight := by
  rcases h.shells with ⟨inner, hafter, hinner⟩
  rw [hafter]
  exact List.forall_mem_append.mpr ⟨hinner, hf⟩

theorem text (content : String) (hf : ∀ l ∈ f.shells, l.name.isLight) :
    ∃ after, Unfolds o [.text content] f after [] := by
  cases hadmitted : o.admitText? content with
  | none =>
    refine ⟨f, ⟨[], rfl, by simp⟩, ?_⟩
    intro k z _ _
    simp [Outline.step, hadmitted, afterLines]
  | some admitted =>
    refine ⟨f.hold (.text .nil admitted), ⟨[], by simp, by simp⟩, ?_⟩
    intro k z hk h
    simp [Outline.step, hadmitted, text_of_hosted (h.atop hf) hk, atop_hold, afterLines]

theorem element {name : String} {source : List Attribute} (own : Layer .standard) (styled : List (Layer .standard))
    {opened : Outline .standard}
    (hown : own.name = Grammar.standard.canonicalName (.ofName name)) (hlight : own.name.isLight)
    (hstyled : ∀ l ∈ styled, l.name.isLight) (hopened : opened.shells = styled ++ own :: f.shells)
    (henter : ∀ (k : ElementKind) (z : Outline .standard), k.isHost → Hosted k z.shells →
      (z.atop f).enter o 0 (.ofName name) source = z.atop opened)
    (hheld : Unfolds o first opened after lines) :
    ∃ last, Unfolds o (.enter name source :: (first ++ [.leave name])) f last lines := by
  rcases hheld.shells with ⟨inner, hafter, hinner⟩
  have hfound : ∃ l ∈ after.layers, l.name = Grammar.standard.canonicalName (.ofName name) := by
    have hmem : own ∈ after.shells := by simp [hafter, hopened]
    rw [Outline.shells, List.mem_map] at hmem
    rcases hmem with ⟨l, hl, heq⟩
    exact ⟨l, hl, by rw [← hown, ← heq, Layer.emptied_name]⟩
  refine ⟨after.leave (Grammar.standard.canonicalName (.ofName name)), ?_, ?_⟩
  . rcases exists_around?_append hown (inner ++ styled) f.shells with ⟨rest, hrest, hsub⟩
    refine ⟨rest, ?_, ?_⟩
    . rw [leave_shells_eq, hafter, hopened, ← List.append_assoc, hrest, Option.getD_some]
    . intro l hmem
      have hmem := hsub hmem
      simp only [List.mem_append, List.mem_singleton] at hmem
      rcases hmem with (hmem | hmem) | rfl
      . exact hinner l hmem
      . exact hstyled l hmem
      . exact hlight
  . intro k z hk h
    rw [play_cons, play_append]
    simp only [Outline.step, play_cons, play_nil]
    rw [henter k z hk h, hheld.play k z hk h, atop_leave hfound]

theorem lineBreak {name : String} {source : List Attribute}
    (hname : Grammar.standard.canonicalName (.ofName name) = .known .br) (hf : ∀ l ∈ f.shells, l.name.isLight)
    (hheld : Unfolds o first (f.lineAfter .nil) after lines) :
    Unfolds o (.enter name source :: (first ++ [.leave name])) f after (f.settled :: lines) where
  shells := by
    rcases hheld.shells with ⟨inner, hafter, hinner⟩
    exact ⟨inner, by rwa [lineAfter_shells] at hafter, hinner⟩
  play := by
    intro k z hk h
    have hbroken : Hosted k (z.breakLine f.settled).shells := by rwa [breakLine, lineAfter_shells]
    rw [play_cons, play_append]
    simp only [Outline.step, play_cons, play_nil, hname]
    rw [enter_br_of_hosted (h.atop hf) hk hname, lineAfter_atop, hheld.play k _ hk hbroken, leave_br_of_hosted _ hk]
    . rfl
    . apply Hosted.atop
      . rwa [afterLines_shells]
      . apply hheld.isLight
        rwa [lineAfter_shells]

end Unfolds

section Nodes

variable {o : CleaningOptions}

mutual

theorem exists_unfolds (hdedupe : o.dedupeInline = false) :
    ∀ (n : Node) (f : Outline .standard), (∀ e ∈ n.sourceEvents, e.isPhrasing) → (∀ l ∈ f.shells, l.name.isLight) →
      ∃ after lines, Unfolds o n.sourceEvents f after lines
  | .text content, f, _, hf => by
    rcases Unfolds.text content hf with ⟨after, h⟩
    exact ⟨after, [], h⟩
  | .element name source children, f, hevents, hf => by
    simp only [Node.sourceEvents, List.forall_mem_cons, List.forall_mem_append] at hevents
    rcases hevents with ⟨henter, hchildren, -⟩
    rcases SourceEvent.isPhrasing_enter henter with ⟨raw, hraw⟩ | ⟨w, hw, hinline, hlink⟩ | hbr
    . have hopened : ∀ l ∈ (f.openSilently (.unknown raw) 0).shells, l.name.isLight := by
        rw [openSilently_shells, List.forall_mem_cons]
        exact ⟨rfl, hf⟩
      rcases existsAll_unfolds hdedupe children _ hchildren hopened with ⟨after, lines, hheld⟩
      rcases Unfolds.element (.silent (.unknown raw) 0 .nil) [] hraw.symm rfl (by simp) rfl
        (fun k z _ _ => enter_unknown_of_canonicalName hraw) hheld with ⟨last, h⟩
      exact ⟨last, lines, h⟩
    . let opened : Outline .standard :=
        { f with layers := stylesOf (w.entry.counterparts source) ++ ownOf w source :: f.layers }
      have hshells : opened.shells = stylesOf (w.entry.counterparts source) ++ ownOf w source :: f.shells := by
        simp [opened, shells, stylesOf_emptied, ownOf, Layer.emptied]
      have hstyled : ∀ l ∈ stylesOf (w.entry.counterparts source), l.name.isLight :=
        isLight_of_mem_stylesOf fun s hs => Entry.counterparts_proper hs
      have hown : (ownOf w source).name.isLight := by rwa [ownOf_name]
      have hopened : ∀ l ∈ opened.shells, l.name.isLight := by
        rw [hshells, List.forall_mem_append, List.forall_mem_cons]
        exact ⟨hstyled, hown, hf⟩
      have henter : ∀ (k : ElementKind) (z : Outline .standard), k.isHost → Hosted k z.shells →
          (z.atop f).enter o 0 (.ofName name) source = z.atop opened := by
        intro k z hk h
        have hhosted : Hosted k (z.atop f).shells := h.atop hf
        rw [enter_of_hosted hhosted hk hw hinline hlink, openHere_eq hdedupe hk hhosted hinline]
        simp [atop, opened]
      rcases existsAll_unfolds hdedupe children opened hchildren hopened with ⟨after, lines, hheld⟩
      rcases Unfolds.element (ownOf w source) _ ((ownOf_name w source).trans hw.symm) hown hstyled hshells henter
        hheld with ⟨last, h⟩
      exact ⟨last, lines, h⟩
    . rcases existsAll_unfolds hdedupe children (f.lineAfter .nil) hchildren (by rwa [lineAfter_shells]) with
        ⟨after, lines, hheld⟩
      exact ⟨after, f.settled :: lines, hheld.lineBreak hbr hf⟩

theorem existsAll_unfolds (hdedupe : o.dedupeInline = false) :
    ∀ (ns : List Node) (f : Outline .standard), (∀ e ∈ Node.sourceEventsAll ns, e.isPhrasing) →
      (∀ l ∈ f.shells, l.name.isLight) → ∃ after lines, Unfolds o (Node.sourceEventsAll ns) f after lines
  | [], f, _, _ => ⟨f, [], .refl o f⟩
  | n :: ns, f, hevents, hf => by
    simp only [Node.sourceEventsAll, List.forall_mem_append] at hevents
    rcases exists_unfolds hdedupe n f hevents.1 hf with ⟨middle, lines, hfirst⟩
    rcases existsAll_unfolds hdedupe ns middle hevents.2 (hfirst.isLight hf) with ⟨after, more, hsecond⟩
    exact ⟨after, lines ++ more, hfirst.append hsecond⟩

end

end Nodes

section Span

variable {o : CleaningOptions} {k : ElementKind} {z : Outline .standard}

def styled (style : String) (z : Outline .standard) : Outline .standard :=
  { z with layers := stylesOf (Style.counterparts style) ++ .written (tagOf .span []) 0 .nil :: z.layers }

theorem styled_shells (style : String) (z : Outline .standard) :
    (z.styled style).shells
      =
    stylesOf (Style.counterparts style) ++ .written (tagOf .span []) 0 .nil :: z.shells := by
  simp [styled, shells, stylesOf_emptied, Layer.emptied]

theorem styled_shells_eq_layers (h : z.shells = z.layers) (style : String) :
    (z.styled style).shells = (z.styled style).layers := by
  rw [styled_shells, h]
  rfl

theorem enter_span (hdedupe : o.dedupeInline = false) (hk : k.isHost) (h : Hosted k z.shells) (style : String) :
    z.enter o 0 (.ofName "span") [⟨"style", style⟩] = z.styled style := by
  have hcounterparts : ElementKind.span.entry.counterparts [⟨"style", style⟩] = Style.counterparts style := by
    have hstyles : ElementKind.span.entry.styleAttributes = [] := rfl
    simp [Entry.counterparts, hstyles]
  have hinline : ElementKind.span.isInline := rfl
  rw [enter_of_hosted h hk rfl hinline rfl, openHere_eq hdedupe hk h hinline, hcounterparts]
  rfl

theorem settled_play_span (hdedupe : o.dedupeInline = false) (hk : k.isHost) (h : Hosted k z.shells)
    (style : String) (content : List Node) :
    (play o z (Node.sourceEventsAll [.element "span" [⟨"style", style⟩] content])).settled
      =
    (play o (z.styled style) (Node.sourceEventsAll content)).settled := by
  rw [Node.sourceEventsAll, Node.sourceEventsAll, List.append_nil, play_element, settled_leave,
    enter_span hdedupe hk h]

theorem hosted_styled (h : Hosted k z.shells) (style : String) : Hosted k (z.styled style).shells := by
  rw [styled_shells]
  apply Hosted.append
  . exact .inside rfl h
  . apply isLight_of_mem_stylesOf
    intro s hs
    rw [Style.counterparts, List.mem_filterMap] at hs
    rcases hs with ⟨⟨property, value⟩, -, hvalue⟩
    exact Style.counterpart?_proper hvalue

theorem layersAlike_styled (first second : String) (z : Outline .standard) :
    LayersAlike (z.styled (first ++ ";" ++ second)).layers ((z.styled first).styled second).layers := by
  have hsplit : stylesOf (Style.counterparts (first ++ ";" ++ second))
      = stylesOf (Style.counterparts second) ++ stylesOf (Style.counterparts first) := by
    simp [Style.counterparts_append, stylesOf]
  simp only [styled, hsplit, List.append_assoc]
  exact (LayersAlike.unwritten rfl rfl [] 0 _).append _

end Span

end Outline

namespace Cleaner

theorem combined_styles_as_nested (o : CleaningOptions) (hdedupe : o.dedupeInline = false) (first second : String)
    {content : List Node} (hphrasing : ∀ e ∈ SourceEvent.ofNodes content, e.isPhrasing) :
    Style.counterparts (first ++ ";" ++ second) = Style.counterparts first ++ Style.counterparts second
      ∧ ∃ combined nested,
        clean ⟨.standard, o⟩
            (Node.fragment [.element "p" [] [.element "span" [⟨"style", first ++ ";" ++ second⟩] content]])
          = .ok combined
          ∧ clean ⟨.standard, o⟩
              (Node.fragment [.element "p" []
                [.element "span" [⟨"style", first⟩] [.element "span" [⟨"style", second⟩] content]]])
            = .ok nested
          ∧ Event.treeOf .standard combined = Event.treeOf .standard nested := by
  rw [SourceEvent.ofNodes_eq] at hphrasing
  refine ⟨Style.counterparts_append first second, _, _, Outline.clean_eq_play o _ _ _,
    Outline.clean_eq_play o _ _ _, ?_⟩
  rw [Event.treeOf_events, Event.treeOf_events]
  apply congrArg Node.fragment
  have hparagraph := Outline.hosted_paragraph
  have hcombined := Outline.hosted_styled hparagraph (first ++ ";" ++ second)
  have houter := Outline.hosted_styled hparagraph first
  rcases Outline.existsAll_unfolds hdedupe content {} hphrasing (by simp [Outline.shells]) with ⟨after, lines, hplay⟩
  have hfirst := hplay.play .p _ rfl hcombined
  have hsecond := hplay.play .p _ rfl (Outline.hosted_styled houter second)
  rw [Outline.atop_empty] at hfirst hsecond
  rw [Outline.settled_play_paragraph, Outline.settled_play_paragraph,
    Outline.settled_play_span hdedupe rfl hparagraph, Outline.settled_play_span hdedupe rfl hparagraph,
    Outline.settled_play_span hdedupe rfl houter, hfirst, hsecond, Outline.settled_atop, Outline.settled_atop]
  have halike := Outline.layersAlike_styled first second Outline.paragraph
  have hempty : Outline.paragraph.shells = Outline.paragraph.layers := rfl
  apply (Outline.afterLines_writtenAlike lines after.settled (.refl .nil) halike _ _).written
  . exact Outline.styled_shells_eq_layers hempty _
  . exact Outline.styled_shells_eq_layers (Outline.styled_shells_eq_layers hempty first) second

def brokenContent : List Node :=
  [.text "a", .element "em" [⟨"style", "font-style: italic"⟩] [.element "br" [] []], .element "x-y" [] [.text "b"]]

theorem bold_and_red_as_nested :
    Style.counterparts ("font-weight: bold" ++ ";" ++ " color: #F00; ")
        = [⟨.strong, none⟩] ++ [⟨.styleFont, some ⟨"color", "#ff0000"⟩⟩]
      ∧ ∃ combined nested,
        clean ⟨.standard, {}⟩
            (Node.fragment [.element "p" []
              [.element "span" [⟨"style", "font-weight: bold" ++ ";" ++ " color: #F00; "⟩] brokenContent]])
          = .ok combined
          ∧ clean ⟨.standard, {}⟩
              (Node.fragment [.element "p" []
                [.element "span" [⟨"style", "font-weight: bold"⟩]
                  [.element "span" [⟨"style", " color: #F00; "⟩] brokenContent]]])
            = .ok nested
          ∧ Event.treeOf .standard combined = Event.treeOf .standard nested := by
  have hphrasing : ∀ e ∈ SourceEvent.ofNodes brokenContent, e.isPhrasing := by
    rw [SourceEvent.ofNodes_eq]
    decide +kernel
  rcases combined_styles_as_nested {} rfl "font-weight: bold" " color: #F00; " hphrasing with ⟨hstyles, hsame⟩
  have hbold : Style.counterparts "font-weight: bold" = [⟨.strong, none⟩] := by decide +kernel
  have hred : Style.counterparts " color: #F00; " = [⟨.styleFont, some ⟨"color", "#ff0000"⟩⟩] := by decide +kernel
  rw [hbold, hred] at hstyles
  exact ⟨hstyles, hsame⟩

end Cleaner

end NoteMarkup
