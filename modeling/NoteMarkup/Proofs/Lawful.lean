import NoteMarkup.Proofs.AdmittedText
import NoteMarkup.Proofs.Attributes
import NoteMarkup.Proofs.Steps

/-!
This module contains what lawful content is under the standard grammar, and that every source event leaves an
outline sound: what its layers hold is lawful, and the layers can be written around it.
-/

namespace NoteMarkup

namespace Content

def Lawful (o : CleaningOptions) (bare : Prop) : Content → Option ElementKind → Prop
  | nil, _ => True
  | element before k attributes held, frame =>
    before.Lawful o bare frame
      ∧ k.fits frame ∧ k.MayHave bare attributes ∧ k ≠ .hr ∧ held ≠ .nil ∧ held.Lawful o bare (some k)
  | standalone before k attributes, frame =>
    before.Lawful o bare frame
      ∧ k.fits frame ∧ k.MayHave bare attributes ∧ (k = .hr ∨ k.entry.collapses)
  | text before content, frame =>
    before.Lawful o bare frame
      ∧ (∃ w ∈ frame, w.model.holdsText) ∧ o.admitText? content = some content

variable {o : CleaningOptions} {bare : Prop}

@[simp]
theorem lawful_nil (frame : Option ElementKind) : nil.Lawful o bare frame := trivial

@[simp]
theorem lawful_append {a b : Content} {frame : Option ElementKind} :
    (a ++ b).Lawful o bare frame ↔ a.Lawful o bare frame ∧ b.Lawful o bare frame := by
  induction b with
  | nil => simp
  | element before k attributes held ih => simp [Lawful, ih, and_assoc]
  | standalone before k attributes ih => simp [Lawful, ih, and_assoc]
  | text before content ih => simp [Lawful, ih, and_assoc]

theorem Lawful.mayHave {content : Content} {frame : Option ElementKind} (h : content.Lawful o bare frame)
    {kind : ElementKind} {attributes : List Attribute}
    (hmem : .startTag kind attributes ∈ content.events ∨ .standaloneTag kind attributes ∈ content.events) :
    kind.MayHave bare attributes := by
  induction content generalizing frame with
  | nil => simp [events] at hmem
  | element before k as held ihbefore ihheld =>
    rcases h with ⟨hbefore, -, hattributes, -, -, hheld⟩
    have hcases : (.startTag kind attributes ∈ before.events ∨ .standaloneTag kind attributes ∈ before.events)
        ∨ (.startTag kind attributes ∈ held.events ∨ .standaloneTag kind attributes ∈ held.events)
        ∨ (kind = k ∧ attributes = as) := by
      simp only [events, List.mem_append, List.mem_cons, List.not_mem_nil, or_false, reduceCtorEq,
        Event.startTag.injEq, false_or] at hmem
      grind
    rcases hcases with hmem | hmem | ⟨rfl, rfl⟩
    . exact ihbefore hbefore hmem
    . exact ihheld hheld hmem
    . exact hattributes
  | standalone before k as ihbefore =>
    rcases h with ⟨hbefore, -, hattributes, -⟩
    simp only [events, List.mem_append, List.mem_singleton, reduceCtorEq, or_false,
      Event.standaloneTag.injEq] at hmem
    rcases hmem with hmem | hmem | ⟨rfl, rfl⟩
    . exact ihbefore hbefore (.inl hmem)
    . exact ihbefore hbefore (.inr hmem)
    . exact hattributes
  | text before content ihbefore =>
    simp only [events, List.mem_append, List.mem_singleton, reduceCtorEq, or_false] at hmem
    exact ihbefore h.1 hmem

end Content

def Layer.Proper (bare : Prop) : Layer .standard → Prop
  | .silent .. => True
  | .written tag _ _ => tag.entry.kind.MayHave bare tag.attributes ∧ tag.entry.kind ≠ .hr

namespace Outline

variable {o : CleaningOptions} {bare : Prop}

def HeldLawful (o : CleaningOptions) (bare : Prop) (ground : Content) : List (Layer .standard) → Prop
  | [] => ground.Lawful o bare none
  | l :: ls => l.held.Lawful o bare (frameOf (l :: ls)) ∧ HeldLawful o bare ground ls

structure Sound (o : CleaningOptions) (bare : Prop) (z : Outline .standard) : Prop where
  stacked : Stacked z.shells
  proper : ∀ l ∈ z.shells, l.Proper bare
  lawful : HeldLawful o bare z.ground z.layers

theorem sound_empty : Sound o bare {} where
  stacked := trivial
  proper := by simp [shells]
  lawful := trivial

theorem frame_eq (z : Outline .standard) : z.frame = frameOf z.layers := by
  unfold frame shells
  exact frameOf_emptied z.layers

variable {z : Outline .standard}

theorem heldLawful_hold (h : HeldLawful o bare z.ground z.layers) {more : Content}
    (hmore : more.Lawful o bare (frameOf z.layers)) :
    HeldLawful o bare (z.hold more).ground (z.hold more).layers := by
  unfold Outline.hold
  split
  . next hnil =>
    rw [hnil] at h hmore ⊢
    exact Content.lawful_append.mpr ⟨h, hmore⟩
  . next l ls hcons =>
    rw [hcons] at h hmore
    have hframe : frameOf (l.hold more :: ls) = frameOf (l :: ls) := by cases l <;> rfl
    refine ⟨?_, h.2⟩
    rw [hframe, Layer.hold_held]
    exact Content.lawful_append.mpr ⟨h.1, hmore⟩

theorem Sound.hold (h : z.Sound o bare) {more : Content} (hmore : more.Lawful o bare z.frame) :
    (z.hold more).Sound o bare := by
  refine ⟨by simpa using h.stacked, by simpa using h.proper, ?_⟩
  rw [frame_eq] at hmore
  exact heldLawful_hold h.lawful hmore

theorem settled_lawful {l : Layer .standard} {ls : List (Layer .standard)}
    (hstacked : Stacked (l.emptied :: ls.map Layer.emptied)) (hproper : l.emptied.Proper bare)
    (hheld : l.held.Lawful o bare (frameOf (l :: ls))) : l.settled.Lawful o bare (frameOf ls) := by
  cases l with
  | silent name since held => exact hheld
  | written tag since held =>
    simp only [Layer.emptied, stacked_written, frameOf_emptied] at hstacked
    simp only [Layer.settled]
    split
    . next hempty =>
      split
      . next hcollapses => exact ⟨trivial, hstacked.1, hproper.1, .inr (by rwa [tag_entry])⟩
      . trivial
    . next hne => exact ⟨trivial, hstacked.1, hproper.1, hproper.2, hne, hheld⟩

theorem Sound.closeInnermost (h : z.Sound o bare) : z.closeInnermost.Sound o bare := by
  rcases z with ⟨ground, _ | ⟨l, ls⟩⟩
  . exact h
  . have hinner : Sound o bare { ground := ground, layers := ls : Outline .standard } := by
      refine ⟨h.stacked.tail, ?_, h.lawful.2⟩
      intro l' hmem
      apply h.proper
      simp only [shells, List.map_cons, List.mem_cons]
      exact .inr hmem
    apply hinner.hold
    rw [frame_eq]
    apply settled_lawful h.stacked
    . apply h.proper
      simp [shells]
    . exact h.lawful.1

theorem Sound.close (h : z.Sound o bare) (n : Nat) : (z.close n).Sound o bare := by
  induction n generalizing z with
  | zero => exact h
  | succ n ih =>
    unfold Outline.close
    exact ih h.closeInnermost

theorem heldLawful_append (ground : Content) (above ls : List (Layer .standard))
    (h : HeldLawful o bare ground ls) : HeldLawful o bare ground (above.map Layer.emptied ++ ls) := by
  induction above with
  | nil => exact h
  | cons l above ih =>
    refine ⟨?_, ih⟩
    cases l <;> exact Content.lawful_nil _

theorem Sound.putUp (h : z.Sound o bare) {line : List (Layer .standard)}
    (hstacked : Stacked (z.putUp line).shells) (hproper : ∀ l ∈ (z.putUp line).shells, l.Proper bare) :
    (z.putUp line).Sound o bare :=
  ⟨hstacked, hproper, heldLawful_append z.ground line.reverse z.layers h.lawful⟩

theorem Sound.place (h : z.Sound o bare) {k : ElementKind} {attributes : List Attribute} (now : Nat)
    (hfitting : z.Fitting k) (hattributes : k.MayHave bare attributes) (hk : k ≠ .hr) :
    (z.place k attributes now).Sound o bare := by
  refine ⟨stacked_place h.stacked hfitting, ?_, Content.lawful_nil _, h.lawful⟩
  unfold Outline.place
  rw [openWritten_shells]
  intro l hmem
  rw [List.mem_cons] at hmem
  rcases hmem with rfl | hmem
  . exact ⟨by simpa [tagOf] using hattributes, by simpa [tagOf] using hk⟩
  . exact h.proper l hmem

theorem Sound.openSilently (h : z.Sound o bare) {name : TagName} (now : Nat)
    (hstacked : Stacked (z.openSilently name now).shells) : (z.openSilently name now).Sound o bare := by
  refine ⟨hstacked, ?_, ?_⟩
  . intro l hmem
    rw [openSilently_shells, List.mem_cons] at hmem
    rcases hmem with rfl | hmem
    . trivial
    . exact h.proper l hmem
  . exact ⟨Content.lawful_nil _, h.lawful⟩

theorem Sound.leave (h : z.Sound o bare) (name : TagName) : (z.leave name).Sound o bare := by
  unfold Outline.leave
  split
  . exact h.close _
  . exact h

theorem mayHave_counterpart {s : Style.Counterpart} (hs : s.Proper) (parent : Option ElementKind) :
    s.kind.MayHave bare (s.kind.entry.keptAttributes s.attributes parent) := by
  apply ElementKind.mayHave_keptAttributes hs.keeps
  intro hcolored
  right
  cases hs with
  | bare kind hk =>
    simp only [List.mem_cons, List.not_mem_nil, or_false] at hk
    rcases hk with rfl | rfl | rfl | rfl <;> rcases hcolored with h | h <;> cases h
  | colored kind hk color hcolor => exact ⟨color, hcolor, rfl⟩

theorem Sound.openCounterpart (h : z.Sound o bare) (now : Nat) {s : Style.Counterpart} (hs : s.Proper) :
    (z.openCounterpart o now s).Sound o bare := by
  unfold Outline.openCounterpart
  split
  . next hallows =>
    split
    . next hopen =>
      simp only [Bool.and_eq_true] at hopen
      apply h.openSilently
      exact stacked_openSilently h.stacked hs.isInline hopen.2
    . apply h.place
      . right
        exact (Option.any_eq_true _ _).mp hallows
      . exact mayHave_counterpart hs z.nearest
      . exact ElementKind.ne_of_isInline hs.isInline rfl
  . exact h

theorem Sound.foldl_openCounterpart (h : z.Sound o bare) (now : Nat) {styles : List Style.Counterpart}
    (hstyles : ∀ s ∈ styles, s.Proper) : (styles.foldl (Outline.openCounterpart o now) z).Sound o bare := by
  induction styles generalizing z with
  | nil => exact h
  | cons s styles ih =>
    apply ih
    . exact h.openCounterpart now (hstyles s (by simp))
    . intro s' hmem
      exact hstyles s' (by simp [hmem])

theorem Sound.openHere (h : z.Sound o bare) {k : ElementKind} {source : List Attribute} (now : Nat)
    (hfitting : z.Fitting k) (hattributes : k.MayHave bare (k.entry.keptAttributes source z.nearest)) :
    (z.openHere o k source now).Sound o bare := by
  unfold Outline.openHere
  dsimp only
  split
  . next hhr =>
    apply h.hold
    exact ⟨trivial, hfitting.fits h.stacked, hattributes, .inl hhr⟩
  . next hhr =>
    split
    . next hopen =>
      simp only [Bool.and_eq_true] at hopen
      apply h.openSilently
      exact stacked_openSilently h.stacked hopen.1.2 hopen.2
    . apply Sound.foldl_openCounterpart
      . exact h.place now hfitting hattributes hhr
      . intro s hs
        exact Entry.counterparts_proper hs

theorem Sound.placeBare (h : z.Sound o bare) {k : ElementKind} (now : Nat) (hk : k ∈ Cleaner.barelyOpened)
    (hfitting : z.Fitting k) : (z.place k [] now).Sound o bare := by
  apply h.place now hfitting
  . exact ElementKind.mayHave_nil hk
  . rintro rfl
    revert hk
    decide

theorem Sound.supply (h : z.Sound o bare) (k : ElementKind) (now : Nat) : (z.supply k now).Sound o bare := by
  unfold Outline.supply
  split
  . exact h
  . next hnone =>
    have hnone : z.nearest = none := by simpa using hnone
    have houter {outer : ElementKind} (hblock : outer.isBlock) (houter : outer ∈ Cleaner.barelyOpened) :
        (z.place outer [] now).Sound o bare :=
      h.placeBare now houter (.inl ⟨hnone, hblock⟩)
    have hrow : ((z.place .table [] now).place .tr [] now).Sound o bare := by
      apply Sound.placeBare
      . exact houter rfl (by decide)
      . decide
      . exact .inr ⟨.table, by simp, rfl⟩
    cases k <;> first | exact h | exact houter rfl (by decide) | exact hrow

theorem Sound.supplyBlock (h : z.Sound o bare) (k : ElementKind) (now : Nat) :
    (z.supplyBlock k now).Sound o bare := by
  unfold Outline.supplyBlock
  split
  . next hblock =>
    simp only [Bool.and_eq_true, Option.isNone_iff_eq_none] at hblock
    apply h.placeBare now (by decide)
    exact .inl ⟨hblock.2, rfl⟩
  . exact h

theorem Sound.clear (h : z.Sound o bare) (k : ElementKind) : (z.clear k).Sound o bare :=
  h.close _

theorem Sound.prepare (h : z.Sound o bare) (k : ElementKind) (now : Nat) : (z.prepare k now).Sound o bare := by
  apply Sound.supplyBlock
  apply Sound.supply
  exact h.clear k

theorem Sound.putUp_line (h : z.Sound o bare) (n : Nat) : ((z.close n).putUp (z.line n)).Sound o bare := by
  apply (h.close n).putUp
  . rw [close_putUp_line_shells]
    exact h.stacked
  . rw [close_putUp_line_shells]
    exact h.proper

theorem admits_plainBlock {k : ElementKind} (h : k.beginsLines) : k.model.admits .p := by
  revert h
  cases k <;> decide

theorem Sound.beginLine (h : z.Sound o bare) (now : Nat) {inside : Nat} {k : ElementKind}
    (hholder : holderOf z.shells = some (inside, k)) (hbegins : k.beginsLines) :
    (((z.close inside).openPlain now).putUp (z.line inside)).Sound o bare := by
  unfold openPlain
  split
  . exact h.putUp_line inside
  . have hdrop := holderOf_drop hholder
    have hplain : ((z.close inside).place .p [] now).Sound o bare := by
      apply (h.close inside).placeBare now (by decide)
      right
      exact ⟨k, nearest_close_of_holderOf hholder, admits_plainBlock hbegins⟩
    have hshells := close_place_putUp_line_shells inside .p [] now z
    apply hplain.putUp
    -- Only inline elements are open inside the holder, and a plain block admits those as well.
    . rw [hshells]
      apply stacked_append_cons
      . rw [List.take_append_drop]
        exact h.stacked
      . simp [hdrop.2.1, hdrop.2.2]
      . exact isInline_take_of_holderOf hholder
      . rfl
      . have hstacked := hplain.stacked
        unfold Outline.place at hstacked
        rwa [openWritten_shells, close_shells] at hstacked
    . rw [hshells]
      intro l hmem
      rw [List.mem_append, List.mem_cons] at hmem
      rcases hmem with hmem | rfl | hmem
      . exact h.proper l (List.mem_of_mem_take hmem)
      . exact ⟨rfl, by decide⟩
      . exact h.proper l (List.mem_of_mem_drop hmem)

theorem Sound.endLine (h : z.Sound o bare) (now : Nat) : (z.endLine now).Sound o bare := by
  unfold Outline.endLine
  split
  . next hholder =>
    apply h.hold
    have hframe : z.frame = none := frameOf_eq_none_of_holderOf h.stacked hholder
    rw [hframe]
    exact ⟨trivial, rfl, rfl, .inr rfl⟩
  . next inside k hholder =>
    split
    . exact h
    . split
      . next hbegins => exact h.beginLine now hholder hbegins
      . exact h.putUp_line (inside + 1)

theorem eq_known_of_canonicalName {name : TagName} {k : ElementKind}
    (h : Grammar.standard.canonicalName name = .known k) (hk : k = .styleFont ∨ k = .styleHighlight) :
    name = .known .styleFont ∨ name = .known .styleHighlight := by
  cases name with
  | unknown name => cases h
  | known source =>
    cases h
    revert hk
    cases source <;> decide

theorem Sound.enter (h : z.Sound o bare) (now : Nat) {name : TagName} (source : List Attribute)
    (hbare : name = .known .styleFont ∨ name = .known .styleHighlight → bare) :
    (z.enter o now name source).Sound o bare := by
  unfold Outline.enter
  split
  . next name' hname =>
    apply h.openSilently
    rw [openSilently_shells, stacked_unknown]
    exact h.stacked
  . next k hname =>
    split
    . exact h
    . next hkeeps =>
      split
      . exact h.endLine now
      . next hbr =>
        split
        . exact h
        . apply (h.prepare k now).openHere
          . exact fitting_prepare (isConcrete_of_canonicalName hname) hbr now z
          . apply ElementKind.mayHave_keptAttributes (by simpa using hkeeps)
            -- From the source a colour may come without a value, from a style it never does.
            intro hcolored
            left
            apply hbare
            exact eq_known_of_canonicalName hname hcolored

theorem Sound.text (h : z.Sound o bare) (now : Nat) {content : String}
    (hcontent : o.admitText? content = some content) : (z.text now content).Sound o bare := by
  unfold Outline.text
  split
  . next w hnearest =>
    split
    . next hholds =>
      apply h.hold
      refine ⟨trivial, ?_, hcontent⟩
      -- The nearest element need not be the frame, but both hold the same.
      have hmodel := h.stacked.model_nearestOf
      have hnearest : nearestOf z.shells = some w := hnearest
      rw [hnearest] at hmodel
      rcases Option.map_eq_some_iff.mp hmodel.symm with ⟨v, hframe, hv⟩
      refine ⟨v, hframe, ?_⟩
      rwa [hv]
    . exact h
  . next hnone =>
    have hplain : (z.place .p [] now).Sound o bare := by
      apply h.placeBare now (by decide)
      exact .inl ⟨hnone, rfl⟩
    apply hplain.hold
    exact ⟨trivial, ⟨.p, rfl, rfl⟩, hcontent⟩

end Outline

def SourceEvent.entersColored : SourceEvent → Bool
  | .enter name _ => TagName.ofName name = .known .styleFont || TagName.ofName name = .known .styleHighlight
  | .leave _ | .text _ => false

namespace Outline

variable {o : CleaningOptions} {bare : Prop} {z : Outline .standard}

theorem Sound.step (h : z.Sound o bare) (now : Nat) (e : SourceEvent) (hbare : e.entersColored → bare) :
    (z.step o now e).Sound o bare := by
  cases e with
  | enter name source =>
    apply h.enter
    simpa [SourceEvent.entersColored] using hbare
  | leave name => exact h.leave _
  | text content =>
    simp only [Outline.step]
    split
    . next admitted hadmitted =>
      apply h.text
      exact CleaningOptions.admitText?_of_admitText? hadmitted
    . exact h

theorem Sound.run (h : z.Sound o bare) (now : Nat) (events : List SourceEvent)
    (hbare : ∀ e ∈ events, e.entersColored → bare) : (z.run o now events).Sound o bare := by
  induction events generalizing now z with
  | nil => exact h
  | cons e events ih =>
    unfold Outline.run
    apply ih
    . exact h.step now e (hbare e (by simp))
    . intro e' hmem
      exact hbare e' (by simp [hmem])

end Outline

end NoteMarkup
