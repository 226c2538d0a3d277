import NoteMarkup.Proofs.Lawful

/-!
This module contains whole runs of cleaning. What source events do to a draft, whatever they are and in
whatever order, is what they do to its outline, and cleaning always comes to an end.
-/

namespace NoteMarkup

namespace Draft

open Outline

variable {o : CleaningOptions} {bare : Prop} {z : Outline .standard}

theorem endLine_draft (depth now : Nat) (hstacked : Stacked z.shells) :
    Cleaner.endLine ⟨.standard, o⟩ (Cleaner.openElement? ⟨.standard, o⟩ (depth + 1) (.known plainBlock) [])
        z.draft
      =
    some (z.endLine now).draft := by
  unfold Cleaner.endLine Outline.endLine
  rw [lineHolder?_draft]
  cases hholder : holderOf z.shells with
  | none =>
    have hnearest : z.nearest = none := by
      unfold nearest
      rw [hstacked.nearestOf_eq_none_iff]
      exact frameOf_eq_none_of_holderOf hstacked hholder
    have hdrops : z.drops .p = false := Cleaner.drops_of_nearest_eq_none hnearest
    -- The plain block is opened and closed at once, which leaves a standalone tag.
    dsimp only [Option.map_none]
    rw [Cleaner.openPlain_draft depth now (by simp [hnearest])]
    unfold openPlain
    rw [if_neg (by simp [hdrops]), Option.map_some, Draft.closeUntil, ← close_draft]
    have hcount : (z.place .p [] now).draft.opened.length - z.draft.opened.length = 1 := by
      simp [place, Outline.openWritten]
    rw [hcount]
    rfl
  | some holder =>
    rcases holder with ⟨inside, k⟩
    dsimp only [Option.map_some]
    simp only [ElementKind.entry_isRow, ElementKind.entry_beginsLines]
    split
    . rfl
    . split
      . next hbegins =>
        have hnearest := nearest_close_of_holderOf hholder
        unfold Cleaner.beginLine
        rw [← close_draft, Cleaner.openPlain_draft depth now (by simp [hnearest, admits_plainBlock hbegins])]
        simp only [Option.bind_eq_bind, Option.bind_some, Option.pure_def]
        rw [putUp_draft _ _ _ (line_draft inside z)]
      . rw [← close_draft, putUp_draft _ _ _ (line_draft (inside + 1) z)]

theorem supplyBlock_draft (depth now : Nat) (k : ElementKind) (hstacked : Stacked z.shells) :
    Cleaner.supplyBlock (Cleaner.openElement? ⟨.standard, o⟩ (depth + 1) (.known plainBlock) []) k.entry z.draft
      =
    some (z.supplyBlock k now).draft := by
  unfold Cleaner.supplyBlock Outline.supplyBlock
  have hblocks : z.draft.blocks.isEmpty = z.nearest.isNone := by
    rw [Bool.eq_iff_iff, List.isEmpty_iff, Option.isNone_iff_eq_none, Cleaner.blocks_draft,
      hstacked.blocksOf_eq_nil_iff]
    exact hstacked.nearestOf_eq_none_iff.symm
  rw [ElementKind.entry_isInline, hblocks]
  split
  . next hblock =>
    simp only [Bool.and_eq_true, Option.isNone_iff_eq_none] at hblock
    rw [Cleaner.openPlain_draft depth now (by simp [hblock.2])]
    unfold openPlain
    rw [if_neg (by simp [Cleaner.drops_of_nearest_eq_none hblock.2])]
  . rfl

theorem openElement?_draft (depth now : Nat) (name : TagName) (source : List Attribute)
    (h : z.Sound o bare) :
    Cleaner.openElement? ⟨.standard, o⟩ (depth + 3) name source z.draft
      =
    some (z.enter o now name source).draft := by
  unfold Outline.enter
  cases hname : Grammar.standard.canonicalName name with
  | unknown name' =>
    unfold Cleaner.openElement?
    simp [hname, openSilently_draft]
  | known k =>
    dsimp only
    by_cases hkeeps : k.entry.keeps source
    . by_cases hbr : k = .br
      . subst hbr
        unfold Cleaner.openElement?
        simp [hname, hkeeps, endLine_draft (depth + 1) now h.stacked]
      . by_cases hdrops : z.drops k
        . unfold Cleaner.openElement?
          simp [hname, hkeeps, hbr, Cleaner.nearest?_any_drops, hdrops]
        . have hdrops : z.drops k = false := by simpa using hdrops
          have hfitting := fitting_prepare (isConcrete_of_canonicalName hname) hbr now z
          rw [Cleaner.openElement?_eq (depth + 2) hname hkeeps hbr hdrops,
            Cleaner.supplyParent_draft depth now (nearest_clear k z), Option.bind_some,
            supplyBlock_draft (depth + 1) now k ((h.clear k).supply k now).stacked,
            Option.bind_some,
            show ((z.clear k).supply k now).supplyBlock k now = z.prepare k now from rfl,
            Cleaner.openHere_draft (depth + 1) now (h.prepare k now).stacked hfitting]
          simp [hkeeps, hbr, hdrops]
    . unfold Cleaner.openElement?
      simp [hname, hkeeps]

theorem enter?_draft (now : Nat) (name : TagName) (source : List Attribute) (h : z.Sound o bare) :
    z.draft.enter? ⟨.standard, o⟩ name source = some (z.enter o now name source).draft := by
  -- A row and a table around it are the most that an opening comes back to itself for.
  have hdepth : ∃ depth, Cleaner.openingDepth z.draft = depth + 3 := by
    refine ⟨Cleaner.openingDepth z.draft - 3, ?_⟩
    have : 3 ≤ Cleaner.openingDepth z.draft := by
      unfold Cleaner.openingDepth
      rw [Nat.mul_add]
      omega
    omega
  rcases hdepth with ⟨depth, hdepth⟩
  unfold enter?
  rw [hdepth, Cleaner.openDeeply?, openElement?_draft depth now name source h]

theorem enter_plain (now : Nat) (hnearest : z.nearest = none) :
    z.enter o now (.known plainBlock) [] = z.place .p [] now := by
  have hname : Grammar.standard.canonicalName (.known plainBlock) = .known .p := rfl
  have hkeeps : ElementKind.p.entry.keeps [] := rfl
  have hprepare : z.prepare .p now = z := by
    have hmissing : missingAround .p = [] := rfl
    rw [prepare_eq, clear_of_nearest (by simp [hnearest])]
    simp [hmissing]
  unfold Outline.enter
  simp [hname, hkeeps, hprepare, Cleaner.drops_of_nearest_eq_none hnearest,
    Cleaner.openHere_bare now (by decide : ElementKind.p ∈ Cleaner.barelyOpened)]

theorem text?_draft (now : Nat) (content : String) (h : z.Sound o bare) :
    z.draft.text? ⟨.standard, o⟩ content = some (z.text now content).draft := by
  unfold text? Outline.text
  rw [nearest?_draft]
  cases hnearest : z.nearest with
  | some w =>
    dsimp only [Option.map_some]
    rw [ElementKind.entry_holdsText]
    by_cases hholds : w.model.holdsText
    . have hblocks : z.draft.blocks ≠ [] := by
        rw [Cleaner.blocks_draft, ne_eq, h.stacked.blocksOf_eq_nil_iff, ← h.stacked.nearestOf_eq_none_iff]
        unfold nearest at hnearest
        simp [hnearest]
      simp [hholds, hblocks, hold_text_draft]
    . simp [hholds]
  | none =>
    dsimp only [Option.map_none]
    unfold text?.openThenEmit
    rw [enter?_draft now _ _ h, enter_plain now hnearest, Option.map_some, hold_text_draft]

theorem step?_draft (now : Nat) (e : SourceEvent) (h : z.Sound o bare) :
    z.draft.step? ⟨.standard, o⟩ e = some (z.step o now e).draft := by
  cases e with
  | enter name source => exact enter?_draft now _ source h
  | leave name =>
    simp only [step?, step]
    rw [leave_draft]
  | text content =>
    simp only [step?, step]
    cases o.admitText? content with
    | some content => exact text?_draft now content h
    | none => rfl

theorem run?_draft (now : Nat) (events : List SourceEvent) (h : z.Sound o True) :
    z.draft.run? ⟨.standard, o⟩ events = some (z.run o now events).draft := by
  induction events generalizing now z with
  | nil => rfl
  | cons e events ih =>
    unfold run? at ih ⊢
    rw [List.foldlM_cons, step?_draft now e h]
    apply ih
    exact h.step now e fun _ => trivial

end Draft

namespace Outline

def cleaned (o : CleaningOptions) (events : List SourceEvent) : Content :=
  (run o 0 {} events).settled

theorem cleanEvents?_eq (o : CleaningOptions) (events : List SourceEvent) :
    Cleaner.cleanEvents? ⟨.standard, o⟩ events = some (cleaned o events).events := by
  have hempty : ({} : Draft) = ({} : Outline .standard).draft := rfl
  unfold Cleaner.cleanEvents?
  rw [hempty, Draft.run?_draft 0 events sound_empty, Option.map_some, settled_draft]
  rfl

theorem clean_eq (o : CleaningOptions) (name : String) (attributes : List Attribute) (children : List Node) :
    Cleaner.clean ⟨.standard, o⟩ (.element name attributes children)
      =
    .ok (cleaned o (SourceEvent.ofNodes children)).events := by
  have hroot : SourceEvent.ofRoot (.element name attributes children) = .ok (SourceEvent.ofNodes children) := rfl
  unfold Cleaner.clean
  rw [hroot]
  dsimp only
  rw [cleanEvents?_eq]

theorem Sound.settled {bare : Prop} {z : Outline .standard} (h : z.Sound o bare) :
    z.settled.Lawful o bare none := by
  have hlawful := (h.close z.layers.length).lawful
  rw [close_length_layers] at hlawful
  exact hlawful

theorem cleaned_lawful (o : CleaningOptions) {bare : Prop} (events : List SourceEvent)
    (hbare : ∀ e ∈ events, e.entersColored → bare) : (cleaned o events).Lawful o bare none :=
  (sound_empty.run 0 events hbare).settled

end Outline

end NoteMarkup
