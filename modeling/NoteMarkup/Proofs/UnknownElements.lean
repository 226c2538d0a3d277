import Mathlib.Data.List.Induction
import Mathlib.Tactic.IntervalCases
import NoteMarkup.Proofs.Melting

/-!
This module contains what elements of unknown names decide. Nothing is written for them and the steps of cleaning look
through them, so that two drafts that are the same without them stay so; what an unknown element does to a document
it does by its end tag, which closes whatever was opened inside of the element and is still open.
-/

namespace NoteMarkup

namespace Cleaner

def recognises (c : Cleaner) (name : TagName) : Bool :=
  (c.entryOf? name).isSome

end Cleaner

/-- The draft without the open elements that the grammar has no entry for. The places of blocks are those among the
elements that are left. -/
def Draft.known (c : Cleaner) (d : Draft) : Draft where
  output := d.output
  opened := d.opened.filter fun o => c.recognises o.name
  blocks := d.blocks.map fun around => (d.opened.reverse.take around).countP fun o => c.recognises o.name

def TagName.isUnknown (name : TagName) : Bool :=
  name.kind?.isNone

def SourceEvent.isRecognised : SourceEvent → Bool
  | enter name _ | leave name => !(TagName.ofName name).isUnknown
  | text _ => true

namespace Outline

variable {o : CleaningOptions}

theorem recognises_standard (name : TagName) : Cleaner.recognises ⟨.standard, o⟩ name = !name.isUnknown := by
  unfold Cleaner.recognises
  rw [entryOf?_standard]
  cases name <;> rfl

theorem melts_unknown (l : Layer .standard) : l.melts TagName.isUnknown = l.name.isUnknown := by
  cases l <;> rfl

theorem openedOf_known (ground : Content) (ls : List (Layer .standard)) :
    openedOf (meltOnto TagName.isUnknown ground ls).ground (meltOnto TagName.isUnknown ground ls).layers
      =
    (openedOf ground ls).filter fun e => Cleaner.recognises ⟨.standard, o⟩ e.name := by
  induction ls with
  | nil => rfl
  | cons l ls ih =>
    have hevents := melt_events TagName.isUnknown ⟨ground, ls⟩
    unfold melt at hevents
    simp only [meltOnto, openedOf, melts_unknown, List.filter_cons, Layer.opened_name, recognises_standard]
    cases hname : l.name.isUnknown with
    | true => simp [openedOf_hold, ih, recognises_standard]
    | false => simp [openedOf, hevents, ih, recognises_standard]

theorem le_length_of_mem_blocksOf {g : Grammar} {ls : List (Layer g)} : ∀ around ∈ blocksOf ls, around ≤ ls.length := by
  induction ls with
  | nil => simp [blocksOf]
  | cons l ls ih =>
    intro around hmem
    unfold blocksOf at hmem
    split at hmem
    . rw [List.mem_cons] at hmem
      rcases hmem with rfl | hmem
      . simp
      . exact Nat.le_succ_of_le (ih around hmem)
    . exact Nat.le_succ_of_le (ih around hmem)

theorem blocksOf_known (ground : Content) (ls : List (Layer .standard)) :
    blocksOf (meltOnto TagName.isUnknown ground ls).layers
      =
    (blocksOf ls).map fun around =>
      ((openedOf ground ls).reverse.take around).countP fun e => Cleaner.recognises ⟨.standard, o⟩ e.name := by
  induction ls with
  | nil => rfl
  | cons l ls ih =>
    -- A layer that comes on top does not change the places of the blocks around it.
    have hrest : (blocksOf ls).map (fun around =>
          ((openedOf ground (l :: ls)).reverse.take around).countP fun e => Cleaner.recognises ⟨.standard, o⟩ e.name)
        =
        blocksOf (meltOnto TagName.isUnknown ground ls).layers := by
      rw [ih]
      apply List.map_congr_left
      intro around hmem
      have hle := le_length_of_mem_blocksOf around hmem
      simp only [openedOf, List.reverse_cons]
      rw [List.take_append_of_le_length (by simpa using hle)]
    have hcount : (((openedOf ground (l :: ls)).reverse.take ls.length).countP fun e =>
        Cleaner.recognises ⟨.standard, o⟩ e.name) = (meltOnto TagName.isUnknown ground ls).layers.length := by
      simp only [openedOf, List.reverse_cons]
      rw [List.take_append_of_le_length (by simp), List.take_of_length_le (by simp), List.countP_reverse,
        List.countP_eq_length_filter, ← openedOf_known, openedOf_length]
    cases l with
    | silent name since held =>
      simp only [blocksOf, Layer.isBlock, Bool.false_eq_true, ↓reduceIte, hrest, meltOnto]
      split
      . rw [blocksOf_hold]
      . rfl
    | written tag since held =>
      simp only [blocksOf, Layer.isBlock, meltOnto, Layer.melts, Bool.false_eq_true, ↓reduceIte]
      by_cases hblock : tag.entry.isBlock
      . simp only [hblock, ↓reduceIte, List.map_cons, hrest, hcount]
      . simp only [hblock, Bool.false_eq_true, ↓reduceIte, hrest]

theorem known_draft (z : Outline .standard) : (z.melt TagName.isUnknown).draft = z.draft.known ⟨.standard, o⟩ := by
  have hevents := melt_events TagName.isUnknown z
  have hopened := openedOf_known (o := o) z.ground z.layers
  have hblocks := blocksOf_known (o := o) z.ground z.layers
  unfold draft Draft.known
  rw [hevents]
  unfold melt
  rw [hopened, hblocks]

section

variable {ls : List (Layer .standard)}

theorem nearestOf_solid (ls : List (Layer .standard)) : nearestOf (solid TagName.isUnknown ls) = nearestOf ls := by
  induction ls with
  | nil => rfl
  | cons l ls ih =>
    unfold nearestOf at ih ⊢
    by_cases hmelts : l.melts TagName.isUnknown
    . have hnone : l.name.kind? = none := by simpa [melts_unknown, TagName.isUnknown] using hmelts
      rw [solid_cons_of_melts _ hmelts, List.findSome?_cons, hnone, ih]
    . rw [solid_cons_of_not_melts _ (by simpa using hmelts), List.findSome?_cons, List.findSome?_cons, ih]

theorem frameOf_solid (p : TagName → Bool) (ls : List (Layer .standard)) : frameOf (solid p ls) = frameOf ls := by
  induction ls with
  | nil => rfl
  | cons l ls ih =>
    cases l with
    | silent name since held =>
      by_cases hmelts : p name
      . rw [solid_cons_of_melts p (l := .silent name since held) hmelts]
        exact ih
      . rw [solid_cons_of_not_melts p (l := .silent name since held) (by simpa [Layer.melts] using hmelts)]
        exact ih
    | written tag since held => rfl

theorem obstaclesOf_solid (k : ElementKind) (ls : List (Layer .standard)) :
    obstaclesOf k (solid TagName.isUnknown ls) = (solid TagName.isUnknown (ls.take (obstaclesOf k ls))).length := by
  induction ls with
  | nil => rfl
  | cons l ls ih =>
    cases hkind : l.name.kind? with
    | none =>
      have hmelts : l.melts TagName.isUnknown := by simp [melts_unknown, TagName.isUnknown, hkind]
      rw [solid_cons_of_melts _ hmelts, ih]
      simp only [obstaclesOf, hkind]
      split
      . next hzero => simp [hzero]
      . rw [List.take_succ_cons, solid_cons_of_melts _ hmelts]
    | some w =>
      have hmelts : l.melts TagName.isUnknown = false := by simp [melts_unknown, TagName.isUnknown, hkind]
      rw [solid_cons_of_not_melts _ hmelts]
      simp only [obstaclesOf, hkind]
      split
      . rfl
      . rw [List.take_succ_cons, solid_cons_of_not_melts _ hmelts, List.length_cons, ← ih]

theorem stacked_solid (h : Stacked ls) : Stacked (solid TagName.isUnknown ls) := by
  induction ls with
  | nil => trivial
  | cons l ls ih =>
    specialize ih h.tail
    cases l with
    | silent name since held =>
      cases name with
      | unknown name => exact ih
      | known k =>
        rw [solid_cons_of_not_melts _ rfl, stacked_known, frameOf_solid]
        exact ⟨h.1, h.2.1, ih⟩
    | written tag since held =>
      rw [solid_cons_of_not_melts _ rfl, stacked_written, frameOf_solid]
      exact ⟨h.1, ih⟩

end

variable {z : Outline .standard}

@[simp]
theorem known_nearest (z : Outline .standard) : (z.melt TagName.isUnknown).nearest = z.nearest := by
  unfold nearest
  rw [melt_shells, nearestOf_solid]

@[simp]
theorem known_hasOpen (k : ElementKind) (z : Outline .standard) :
    (z.melt TagName.isUnknown).hasOpen k = z.hasOpen k := by
  unfold hasOpen
  rw [melt_shells]
  unfold solid
  rw [List.any_filter]
  congr 1
  funext l
  rw [melts_unknown]
  cases hname : l.name <;> simp [TagName.isUnknown, TagName.kind?]

theorem known_drops (k : ElementKind) (z : Outline .standard) : (z.melt TagName.isUnknown).drops k = z.drops k := by
  unfold drops draft
  rw [known_nearest, melt_events]

theorem known_place (k : ElementKind) (attributes : List Attribute) (now : Nat) (z : Outline .standard) :
    (z.place k attributes now).melt TagName.isUnknown = (z.melt TagName.isUnknown).place k attributes now := rfl

theorem known_openSilently (k : ElementKind) (now : Nat) (z : Outline .standard) :
    (z.openSilently (.known k) now).melt TagName.isUnknown = (z.melt TagName.isUnknown).openSilently (.known k) now :=
  melt_openSilently_of_not _ rfl now z

theorem known_foldl {α : Type} {f : Outline .standard → α → Outline .standard}
    (h : ∀ z a, (f z a).melt TagName.isUnknown = f (z.melt TagName.isUnknown) a) (as : List α) (z : Outline .standard) :
    (as.foldl f z).melt TagName.isUnknown = as.foldl f (z.melt TagName.isUnknown) := by
  induction as generalizing z with
  | nil => rfl
  | cons a as ih => rw [List.foldl_cons, List.foldl_cons, ih, h]

theorem known_openCounterpart (now : Nat) (z : Outline .standard) (s : Style.Counterpart) :
    (z.openCounterpart o now s).melt TagName.isUnknown = (z.melt TagName.isUnknown).openCounterpart o now s := by
  unfold openCounterpart
  rw [known_nearest, known_hasOpen]
  split
  . split
    . rw [known_openSilently]
    . rw [known_place]
  . rfl

theorem known_openHere (k : ElementKind) (source : List Attribute) (now : Nat) (z : Outline .standard) :
    (z.openHere o k source now).melt TagName.isUnknown = (z.melt TagName.isUnknown).openHere o k source now := by
  unfold openHere
  rw [known_nearest, known_hasOpen]
  dsimp only
  split
  . rw [melt_hold]
  . split
    . rw [known_openSilently]
    . rw [known_foldl (known_openCounterpart now), known_place]

theorem known_prepare (k : ElementKind) (now : Nat) (z : Outline .standard) :
    (z.prepare k now).melt TagName.isUnknown = (z.melt TagName.isUnknown).prepare k now := by
  have hclear : (z.clear k).melt TagName.isUnknown = (z.melt TagName.isUnknown).clear k := by
    unfold clear
    rw [melt_close, melt_shells, obstaclesOf_solid]
  rw [prepare_eq, prepare_eq, ← hclear, known_nearest]
  split
  . rfl
  . apply known_foldl
    intro y w
    rw [known_place]

theorem known_endLine (now : Nat) (z : Outline .standard) :
    (z.endLine now).melt TagName.isUnknown = (z.melt TagName.isUnknown).endLine now := by
  apply melt_endLine
  intro inside
  rw [known_drops]

theorem known_enter (now : Nat) {name : TagName} (hname : name.isUnknown = false) (source : List Attribute)
    (z : Outline .standard) :
    (z.enter o now name source).melt TagName.isUnknown = (z.melt TagName.isUnknown).enter o now name source := by
  unfold enter
  cases name with
  | unknown raw => cases hname
  | known k =>
    simp only [Grammar.canonicalName]
    rw [known_drops]
    split
    . rfl
    . split
      . rw [known_endLine]
      . split
        . rfl
        . rw [known_openHere, known_prepare]

theorem enter_unknown (now : Nat) {name : TagName} (hname : name.isUnknown) (source : List Attribute)
    (z : Outline .standard) :
    ∃ raw, Grammar.standard.canonicalName name = .unknown raw
      ∧ z.enter o now name source = z.openSilently (.unknown raw) now := by
  cases name with
  | known k => cases hname
  | unknown raw => exact ⟨raw, rfl, rfl⟩

theorem known_text (now : Nat) (content : String) (z : Outline .standard) :
    (z.text now content).melt TagName.isUnknown = (z.melt TagName.isUnknown).text now content := by
  unfold text
  rw [known_nearest]
  split
  . split
    . rw [melt_hold]
    . rfl
  . rw [melt_hold, known_place]

theorem isUnknown_canonicalName (name : TagName) :
    (Grammar.standard.canonicalName name).isUnknown = name.isUnknown := by
  cases name <;> rfl

theorem known_step (now : Nat) {e : SourceEvent} (he : e.isRecognised) (z : Outline .standard) :
    (z.step o now e).melt TagName.isUnknown = (z.melt TagName.isUnknown).step o now e := by
  cases e with
  | enter name source =>
    apply known_enter
    simpa [SourceEvent.isRecognised] using he
  | leave name =>
    apply melt_leave
    rw [isUnknown_canonicalName]
    simpa [SourceEvent.isRecognised] using he
  | text content =>
    simp only [step]
    cases o.admitText? content with
    | none => rfl
    | some admitted => exact known_text now admitted z

variable {bare : Prop}

theorem heldLawful_melt {ground : Content} {ls : List (Layer .standard)} (h : HeldLawful o bare ground ls) :
    HeldLawful o bare (meltOnto TagName.isUnknown ground ls).ground (meltOnto TagName.isUnknown ground ls).layers := by
  induction ls with
  | nil => exact h
  | cons l ls ih =>
    specialize ih h.2
    have hframe : frameOf (meltOnto TagName.isUnknown ground ls).layers = frameOf ls := by
      have hshells := melt_shells TagName.isUnknown ⟨ground, ls⟩
      unfold shells melt at hshells
      rw [← frameOf_emptied, hshells, frameOf_solid, frameOf_emptied]
    have hheld := h.1
    unfold meltOnto
    split
    . apply heldLawful_hold ih
      rw [hframe]
      cases l with
      | silent name since held => exact hheld
      | written tag since held => contradiction
    . refine ⟨?_, ih⟩
      cases l with
      | silent name since held =>
        dsimp only [frameOf] at hheld ⊢
        rwa [hframe]
      | written tag since held => exact hheld

theorem Sound.known (h : z.Sound o bare) : (z.melt TagName.isUnknown).Sound o bare where
  stacked := by
    rw [melt_shells]
    exact stacked_solid h.stacked
  proper := by
    rw [melt_shells]
    intro l hmem
    exact h.proper l (List.mem_filter.mp hmem).1
  lawful := heldLawful_melt h.lawful

end Outline

namespace Draft

open Outline

variable {o : CleaningOptions} {z z' : Outline .standard}

theorem exists_outline_of_run? {events : List SourceEvent} {d : Draft}
    (h : ({} : Draft).run? ⟨.standard, o⟩ events = some d) :
    ∃ z : Outline .standard, z.Sound o True ∧ z.draft = d := by
  refine ⟨run o 0 {} events, sound_empty.run 0 events fun _ _ _ => trivial, ?_⟩
  have hrun := run?_draft (o := o) 0 events sound_empty
  exact Option.some.inj (hrun.symm.trans h)

theorem known_step_draft (hz : z.Sound o True) (hz' : z'.Sound o True)
    (hsame : z.draft.known ⟨.standard, o⟩ = z'.draft.known ⟨.standard, o⟩) {e : SourceEvent} (he : e.isRecognised)
    (now now' : Nat) :
    (z.step o now e).draft.known ⟨.standard, o⟩ = (z'.step o now' e).draft.known ⟨.standard, o⟩ := by
  have hstep := step?_draft now e hz.known
  have hstep' := step?_draft now' e hz'.known
  rw [← known_draft, ← known_draft] at hsame
  rw [hsame, hstep', Option.some.injEq] at hstep
  rw [← known_draft, ← known_draft, known_step now he, known_step now' he, hstep]

theorem known_enter_unknown {name : TagName} (hname : name.isUnknown) (source : List Attribute) (now : Nat)
    (z : Outline .standard) :
    (z.enter o now name source).draft.output = z.draft.output
      ∧ (z.enter o now name source).draft.known ⟨.standard, o⟩ = z.draft.known ⟨.standard, o⟩ := by
  rcases enter_unknown (o := o) now hname source z with ⟨raw, -, henter⟩
  constructor
  . rw [henter, openSilently_draft]
    rfl
  . rw [henter, ← known_draft, ← known_draft, melt_openSilently_of _ rfl]

theorem known_leave {name : TagName} (z : Outline .standard)
    (hopened : ((z.leave name).draft.known ⟨.standard, o⟩).opened = (z.draft.known ⟨.standard, o⟩).opened) :
    (z.leave name).draft.known ⟨.standard, o⟩ = z.draft.known ⟨.standard, o⟩ := by
  rw [← known_draft, ← known_draft] at hopened ⊢
  have hlength := congrArg List.length hopened
  rw [draft_opened_length, draft_opened_length, melt_layers_length, melt_layers_length] at hlength
  unfold Outline.leave at hlength ⊢
  split at hlength
  . next i _ =>
    have hall := congrArg List.length (solid_append TagName.isUnknown (z.shells.take (i + 1)) (z.shells.drop (i + 1)))
    rw [List.take_append_drop, List.length_append, ← close_shells, hlength] at hall
    rw [melt_close, show (solid TagName.isUnknown (z.shells.take (i + 1))).length = 0 by omega]
    rfl
  . rfl

theorem closeAll_known (z : Outline .standard) :
    ((z.melt TagName.isUnknown).draft.closeAll ⟨.standard, o⟩).output.toList
      =
    (z.draft.closeAll ⟨.standard, o⟩).output.toList := by
  rw [settled_draft, settled_draft, melt_settled]

end Draft

namespace SourceEvent

/-- Whether no end tag of an unknown name closes a known element. -/
def Quiet (c : Cleaner) (events : List SourceEvent) : Prop :=
  ∀ i name, events[i]? = some (.leave name) → (TagName.ofName name).isUnknown →
    ∀ d, ({} : Draft).run? c (events.take i) = some d →
      ((d.leave c (.ofName name)).known c).opened = (d.known c).opened

theorem Quiet.of_append {c : Cleaner} {first second : List SourceEvent} (h : Quiet c (first ++ second)) :
    Quiet c first := by
  intro i name hi hname d hd
  have hlt : i < first.length := (List.getElem?_eq_some_iff.mp hi).1
  apply h i name _ hname d
  . rwa [List.take_append_of_le_length (Nat.le_of_lt hlt)]
  . rwa [List.getElem?_append_left hlt]

end SourceEvent

namespace Outline

variable {o : CleaningOptions}

theorem run_snoc (events : List SourceEvent) (e : SourceEvent) :
    run o 0 {} (events ++ [e]) = (run o 0 {} events).step o events.length e := by
  rw [run_append, Nat.zero_add]
  rfl

theorem known_run_filter {events : List SourceEvent} (h : SourceEvent.Quiet ⟨.standard, o⟩ events) :
    (run o 0 {} events).draft.known ⟨.standard, o⟩
      =
    (run o 0 {} (events.filter SourceEvent.isRecognised)).draft.known ⟨.standard, o⟩ := by
  induction events using List.reverseRecOn with
  | nil => rfl
  | append_singleton events e ih =>
    specialize ih h.of_append
    have hsound (events : List SourceEvent) : (run o 0 {} events).Sound o True :=
      sound_empty.run 0 events fun _ _ _ => trivial
    rw [run_snoc, List.filter_append]
    by_cases he : e.isRecognised
    . have hfilter : [e].filter SourceEvent.isRecognised = [e] := by simp [he]
      rw [hfilter, run_snoc]
      exact Draft.known_step_draft (hsound _) (hsound _) ih he _ _
    . have hfilter : [e].filter SourceEvent.isRecognised = [] := by simp [he]
      rw [hfilter, List.append_nil, ← ih]
      cases e with
      | enter name source =>
        apply (Draft.known_enter_unknown _ _ _ _).2
        simpa [SourceEvent.isRecognised] using he
      | leave name =>
        have hunknown : (TagName.ofName name).isUnknown := by simpa [SourceEvent.isRecognised] using he
        have hopened := h events.length name (by simp) hunknown (run o 0 {} events).draft
          (by rw [List.take_left]; exact Draft.run?_draft 0 events sound_empty)
        rw [← leave_draft] at hopened
        exact Draft.known_leave _ hopened
      | text content => exact absurd rfl he

end Outline

namespace Cleaner

/-- Between drafts that are the same without the elements of unknown names, no event of another element and no text
makes a difference; the start of an element of an unknown name writes nothing and makes none. What makes one is an
end tag that closes known elements: without such end tags a document is cleaned as if there were no elements of
unknown names. -/
theorem unknown_elements_decide_nothing (o : CleaningOptions) :
    (∀ events events' d d', ({} : Draft).run? ⟨.standard, o⟩ events = some d →
        ({} : Draft).run? ⟨.standard, o⟩ events' = some d' → d.known ⟨.standard, o⟩ = d'.known ⟨.standard, o⟩ →
      ∀ e : SourceEvent, e.isRecognised →
        ∃ a a', d.step? ⟨.standard, o⟩ e = some a ∧ d'.step? ⟨.standard, o⟩ e = some a'
          ∧ a.known ⟨.standard, o⟩ = a'.known ⟨.standard, o⟩)
      ∧
    (∀ events d, ({} : Draft).run? ⟨.standard, o⟩ events = some d →
      ∀ name source, (TagName.ofName name).isUnknown →
        ∃ a, d.step? ⟨.standard, o⟩ (.enter name source) = some a ∧ a.output = d.output
          ∧ a.known ⟨.standard, o⟩ = d.known ⟨.standard, o⟩)
      ∧
    (∀ events, SourceEvent.Quiet ⟨.standard, o⟩ events →
      cleanEvents? ⟨.standard, o⟩ events
        =
      cleanEvents? ⟨.standard, o⟩ (events.filter SourceEvent.isRecognised)) := by
  refine ⟨?_, ?_, ?_⟩
  . intro events events' d d' hd hd' hsame e he
    rcases Draft.exists_outline_of_run? hd with ⟨z, hz, rfl⟩
    rcases Draft.exists_outline_of_run? hd' with ⟨z', hz', rfl⟩
    refine ⟨_, _, Draft.step?_draft 0 e hz, Draft.step?_draft 0 e hz', ?_⟩
    exact Draft.known_step_draft hz hz' hsame he 0 0
  . intro events d hd name source hname
    rcases Draft.exists_outline_of_run? hd with ⟨z, hz, rfl⟩
    refine ⟨_, Draft.step?_draft 0 _ hz, ?_⟩
    exact Draft.known_enter_unknown hname source 0 z
  . intro events hquiet
    have hsame := Outline.known_run_filter hquiet
    rw [← Outline.known_draft, ← Outline.known_draft] at hsame
    have hleft := Draft.closeAll_known (o := o) (Outline.run o 0 {} events)
    have hright := Draft.closeAll_known (o := o) (Outline.run o 0 {} (events.filter SourceEvent.isRecognised))
    rw [hsame, hright] at hleft
    rw [Outline.cleanEvents?_eq, Outline.cleanEvents?_eq]
    unfold Outline.cleaned
    rw [← Outline.settled_draft (o := o), ← Outline.settled_draft (o := o), hleft]

theorem wrapped_paragraph_cleaned_as_bare :
    let c : Cleaner := ⟨.standard, {}⟩
    let wrapped : List SourceEvent := [.enter "x-a" [], .enter "p" [], .enter "X-B" [], .text "one"]
    let bare : List SourceEvent := [.enter "p" [], .text "one"]
    let closed := wrapped ++ [.leave "x-b", .leave "p", .leave "x-a"]
    (∃ d d' a a', ({} : Draft).run? c wrapped = some d ∧ ({} : Draft).run? c bare = some d'
        ∧ d.known c = d'.known c ∧ (SourceEvent.enter "br" []).isRecognised
        ∧ d.step? c (.enter "br" []) = some a ∧ d'.step? c (.enter "br" []) = some a' ∧ a.known c = a'.known c)
      ∧
    (SourceEvent.Quiet c closed ∧ closed.filter SourceEvent.isRecognised = bare ++ [.leave "p"]
        ∧ cleanEvents? c closed = cleanEvents? c (bare ++ [.leave "p"])) := by
  intro c wrapped bare closed
  have hrun (events : List SourceEvent) : ({} : Draft).run? c events = some (Outline.run {} 0 {} events).draft :=
    Draft.run?_draft 0 events Outline.sound_empty
  rcases unknown_elements_decide_nothing {} with ⟨hrecognised, -, hquiet⟩
  constructor
  . have hsame : (Outline.run {} 0 {} wrapped).draft.known c = (Outline.run {} 0 {} bare).draft.known c := by
      decide +kernel
    have hbreak : (SourceEvent.enter "br" []).isRecognised := by decide
    rcases hrecognised wrapped bare _ _ (hrun wrapped) (hrun bare) hsame (.enter "br" []) hbreak with
      ⟨a, a', ha, ha', hknown⟩
    exact ⟨_, _, a, a', hrun wrapped, hrun bare, hsame, hbreak, ha, ha', hknown⟩
  . have hclosed : SourceEvent.Quiet c closed := by
      intro i name hi hname d hd
      rw [hrun, Option.some.injEq] at hd
      subst hd
      have hcases : (i = 4 ∧ name = "x-b") ∨ (i = 5 ∧ name = "p") ∨ (i = 6 ∧ name = "x-a") := by
        have hlt : i < 7 := (List.getElem?_eq_some_iff.mp hi).1
        interval_cases i <;> simp_all [closed, wrapped]
      rcases hcases with ⟨rfl, rfl⟩ | ⟨rfl, rfl⟩ | ⟨rfl, rfl⟩
      . decide +kernel
      . exact absurd hname (by decide)
      . decide +kernel
    have hfilter : closed.filter SourceEvent.isRecognised = bare ++ [.leave "p"] := by decide
    refine ⟨hclosed, hfilter, ?_⟩
    rw [← hfilter]
    exact hquiet closed hclosed

end Cleaner

end NoteMarkup
