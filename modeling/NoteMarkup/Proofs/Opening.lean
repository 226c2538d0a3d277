import NoteMarkup.Proofs.Stacking
import NoteMarkup.Proofs.Styling

/-!
This module contains the opening of an element under the standard grammar, on outlines and without coming
back to itself. Nothing that is supplied needs more than a row and a table around it, and what a style stands
for has no style, so that the depth of the opening on drafts always suffices.
-/

namespace NoteMarkup

namespace Outline

def tagOf (k : ElementKind) (attributes : List Attribute) : Tag .standard where
  entry := k.entry
  attributes := attributes
  declared := by simp

def place (k : ElementKind) (attributes : List Attribute) (now : Nat) (z : Outline .standard) :
    Outline .standard :=
  z.openWritten (tagOf k attributes) now

def drops (k : ElementKind) (z : Outline .standard) : Bool :=
  z.nearest.any fun parent => parent.entry.drops z.draft.output.back? k

def openCounterpart (o : CleaningOptions) (now : Nat) (z : Outline .standard) (s : Style.Counterpart) :
    Outline .standard :=
  if z.nearest.any (·.model.admits s.kind) then
    if o.dedupeInline && z.hasOpen s.kind then z.openSilently (.known s.kind) now
    else z.place s.kind (s.kind.entry.keptAttributes s.attributes z.nearest) now
  else
    z

def openHere (o : CleaningOptions) (k : ElementKind) (source : List Attribute) (now : Nat)
    (z : Outline .standard) : Outline .standard :=
  let attributes := k.entry.keptAttributes source z.nearest
  if k = .hr then z.hold (.standalone .nil k attributes)
  else if o.dedupeInline && k.isInline && z.hasOpen k then z.openSilently (.known k) now
  else (k.entry.counterparts source).foldl (openCounterpart o now) (z.place k attributes now)

def clear (k : ElementKind) (z : Outline .standard) : Outline .standard :=
  z.close (obstaclesOf k z.shells)

theorem clear_of_nearest {k : ElementKind} {z : Outline .standard} (h : z.nearest.all (·.model.admits k)) :
    z.clear k = z := by
  unfold clear
  rw [obstaclesOf_eq_zero h]
  rfl

end Outline

namespace Cleaner

open Outline

variable {o : CleaningOptions} {z : Outline .standard} {k : ElementKind} {source : List Attribute}

theorem nearest?_any_drops :
    ((nearest? ⟨.standard, o⟩ z.draft.opened).any fun e => e.drops z.draft.output.back? k) = z.drops k := by
  rw [nearest?_draft]
  unfold Outline.drops
  cases z.nearest <;> rfl

theorem nearest?_any_allows :
    ((nearest? ⟨.standard, o⟩ z.draft.opened).any (·.allows k)) = z.nearest.any (·.model.admits k) := by
  rw [nearest?_draft]
  cases z.nearest <;> simp

theorem nearest?_map_kind :
    ((nearest? ⟨.standard, o⟩ z.draft.opened).map (·.kind)) = z.nearest := by
  rw [nearest?_draft]
  cases z.nearest <;> simp

theorem blocks_draft : z.draft.blocks = blocksOf z.shells := by
  unfold shells draft
  generalize z.layers = ls
  induction ls with
  | nil => rfl
  | cons l ls ih =>
    have : l.emptied.isBlock = l.isBlock := by cases l <;> rfl
    simp_all [blocksOf]

theorem openElement?_eq (depth : Nat) {name : TagName} (hname : Grammar.standard.canonicalName name = .known k)
    (hkeeps : k.entry.keeps source) (hends : k ≠ .br) (hdrops : z.drops k = false) :
    openElement? ⟨.standard, o⟩ (depth + 1) name source z.draft
      =
    (supplyParent ⟨.standard, o⟩ (fun kind => openElement? ⟨.standard, o⟩ depth (.known kind) []) k.entry
        (z.clear k).draft).bind fun d =>
      (supplyBlock (openElement? ⟨.standard, o⟩ depth (.known plainBlock) []) k.entry d).bind
        (openHere ⟨.standard, o⟩ (fun s => openElement? ⟨.standard, o⟩ depth (.known s.kind) s.attributes)
          k k.entry source) := by
  unfold clear
  rw [close_draft (o := o), ← obstacles_draft (o := o)]
  unfold openElement?
  simp only [hname, Grammar.entry?_standard, hkeeps, ElementKind.entry_endsLine, nearest?_any_drops, hdrops]
  simp [hends]

theorem supplyParent_of_mem {openBare : ElementKind → Draft → Option Draft}
    (h : k.parents = [] ∨ ∃ parent ∈ z.nearest, parent ∈ k.parents) :
    supplyParent ⟨.standard, o⟩ openBare k.entry z.draft = some z.draft := by
  unfold supplyParent
  rw [nearest?_draft]
  split
  . rfl
  . next first rest hcons =>
    rcases h with hnil | ⟨parent, hnearest, hmem⟩
    . simp [hnil] at hcons
    . rw [Option.mem_def] at hnearest
      simp [hnearest, hmem]

theorem supplyBlock_of_blocks {openPlain : Draft → Option Draft}
    (h : k.isInline → blocksOf z.shells ≠ []) : supplyBlock openPlain k.entry z.draft = some z.draft := by
  unfold supplyBlock
  rw [blocks_draft]
  by_cases hinline : k.isInline
  . simp [h hinline]
  . simp [hinline]

theorem openElement?_here (depth : Nat) (hconcrete : k.isConcrete) (hkeeps : k.entry.keeps source)
    (hends : k ≠ .br) (hdrops : z.drops k = false) (hallows : z.nearest.all (·.model.admits k))
    (hparents : k.parents = [] ∨ ∃ parent ∈ z.nearest, parent ∈ k.parents)
    (hblocks : k.isInline → blocksOf z.shells ≠ []) :
    openElement? ⟨.standard, o⟩ (depth + 1) (.known k) source z.draft
      =
    openHere ⟨.standard, o⟩ (fun s => openElement? ⟨.standard, o⟩ depth (.known s.kind) s.attributes)
      k k.entry source z.draft := by
  have hname : Grammar.standard.canonicalName (.known k) = .known k := by
    simp [Grammar.canonicalName, ElementKind.canonical_of_isConcrete hconcrete]
  rw [openElement?_eq depth hname hkeeps hends hdrops, clear_of_nearest hallows]
  rw [supplyParent_of_mem hparents, Option.bind_some, supplyBlock_of_blocks hblocks, Option.bind_some]

theorem openHere_draft_of_counterparts_nil {openStyled : Style.Counterpart → Draft → Option Draft} (now : Nat)
    (h : k.entry.counterparts source = []) :
    openHere ⟨.standard, o⟩ openStyled k k.entry source z.draft = some (z.openHere o k source now).draft := by
  unfold openHere Outline.openHere
  rw [nearest?_map_kind, hasOpen_draft, h]
  simp only [ElementKind.entry_standalone, ElementKind.entry_isInline, beq_iff_eq]
  split
  . rw [hold_standalone_draft]
  . split
    . rw [openSilently_draft]
    . simp [place, openWritten_draft, tagOf]

theorem openStyled_draft (depth now : Nat) {s : Style.Counterpart} (hs : s.Proper)
    (hstacked : Stacked z.shells) (hallows : z.nearest.any (·.model.admits s.kind)) :
    openElement? ⟨.standard, o⟩ (depth + 1) (.known s.kind) s.attributes z.draft
      =
    some (z.openCounterpart o now s).draft := by
  have hinline := hs.isInline
  have hhr : s.kind ≠ .hr := ElementKind.ne_of_isInline hinline rfl
  have hp : s.kind ≠ .p := ElementKind.ne_of_isInline hinline rfl
  rcases (Option.any_eq_true _ _).mp hallows with ⟨parent, hparent, hadmits⟩
  rw [openElement?_here]
  . rw [openHere_draft_of_counterparts_nil now hs.counterparts_nil]
    unfold Outline.openCounterpart
    simp [Outline.openHere, hs.counterparts_nil, hallows, hinline, hhr]
  . exact hs.isConcrete
  . exact hs.keeps
  . exact ElementKind.ne_of_isInline hinline rfl
  . simp [Outline.drops, hparent, ElementKind.entry_drops, hp]
  . simp [hparent, hadmits]
  . left
    exact ElementKind.parents_of_isInline hinline
  . intro _
    rw [ne_eq, hstacked.blocksOf_eq_nil_iff, ← hstacked.nearestOf_eq_none_iff]
    unfold nearest at hparent
    simp [hparent]

end Cleaner

namespace Outline

def Fitting (k : ElementKind) (z : Outline .standard) : Prop :=
  (z.nearest = none ∧ k.isBlock) ∨ ∃ parent ∈ z.nearest, parent.model.admits k

theorem Fitting.fits {k : ElementKind} {z : Outline .standard} (h : z.Fitting k) (hstacked : Stacked z.shells) :
    k.fits z.frame := by
  rcases h with ⟨hnone, hblock⟩ | ⟨parent, hparent, hadmits⟩
  . unfold nearest at hnone
    rw [hstacked.nearestOf_eq_none_iff] at hnone
    simpa [frame, hnone, ElementKind.fits] using hblock
  . exact hstacked.fits_frameOf hparent hadmits

theorem stacked_place {k : ElementKind} {attributes : List Attribute} {now : Nat} {z : Outline .standard}
    (hstacked : Stacked z.shells) (h : z.Fitting k) : Stacked (z.place k attributes now).shells := by
  unfold place
  rw [openWritten_shells]
  refine ⟨?_, hstacked⟩
  have := h.fits hstacked
  simpa [tagOf, frame] using this

theorem stacked_openSilently {k : ElementKind} {now : Nat} {z : Outline .standard}
    (hstacked : Stacked z.shells) (hinline : k.isInline) (hopen : z.hasOpen k) :
    Stacked (z.openSilently (.known k) now).shells := by
  rw [openSilently_shells]
  refine ⟨hinline, ?_, hstacked⟩
  exact hstacked.isInline_frameOf hopen hinline

theorem stacked_openCounterpart {o : CleaningOptions} {now : Nat} {s : Style.Counterpart}
    {z : Outline .standard} (hs : s.Proper) (hstacked : Stacked z.shells) :
    Stacked (z.openCounterpart o now s).shells := by
  unfold openCounterpart
  split
  . next hallows =>
    split
    . next hopen =>
      simp only [Bool.and_eq_true] at hopen
      exact stacked_openSilently hstacked hs.isInline hopen.2
    . apply stacked_place hstacked
      right
      exact (Option.any_eq_true _ _).mp hallows
  . exact hstacked

end Outline

namespace Cleaner

open Outline

variable {o : CleaningOptions} {z : Outline .standard} {k : ElementKind} {source : List Attribute}

theorem foldlM_openCounterpart_draft (depth now : Nat) {styles : List Style.Counterpart}
    (hstyles : ∀ s ∈ styles, s.Proper) (hstacked : Stacked z.shells) :
    styles.foldlM
        (openCounterpart ⟨.standard, o⟩
          fun s => openElement? ⟨.standard, o⟩ (depth + 1) (.known s.kind) s.attributes)
        z.draft
      =
    some (styles.foldl (Outline.openCounterpart o now) z).draft := by
  induction styles generalizing z with
  | nil => rfl
  | cons s styles ih =>
    have hs : s.Proper := hstyles s (by simp)
    have hhead : openCounterpart ⟨.standard, o⟩
        (fun s => openElement? ⟨.standard, o⟩ (depth + 1) (.known s.kind) s.attributes) z.draft s
          =
        some (z.openCounterpart o now s).draft := by
      unfold openCounterpart
      rw [nearest?_any_allows]
      split
      . next hallows => exact openStyled_draft depth now hs hstacked hallows
      . next hallows => simp [Outline.openCounterpart, hallows]
    rw [List.foldlM_cons, hhead, List.foldl_cons]
    apply ih
    . intro s' hmem
      exact hstyles s' (by simp [hmem])
    . exact stacked_openCounterpart hs hstacked

theorem openHere_draft (depth now : Nat) (hstacked : Stacked z.shells) (hfitting : z.Fitting k) :
    openHere ⟨.standard, o⟩ (fun s => openElement? ⟨.standard, o⟩ (depth + 1) (.known s.kind) s.attributes)
        k k.entry source z.draft
      =
    some (z.openHere o k source now).draft := by
  unfold openHere Outline.openHere
  rw [nearest?_map_kind, hasOpen_draft]
  simp only [ElementKind.entry_standalone, ElementKind.entry_isInline, beq_iff_eq]
  split
  . rw [hold_standalone_draft]
  . split
    . rw [openSilently_draft]
    . have hplace : z.draft.openWritten k k.entry (k.entry.keptAttributes source z.nearest)
          = (z.place k (k.entry.keptAttributes source z.nearest) now).draft := by
        simp [place, openWritten_draft, tagOf]
      rw [hplace]
      apply foldlM_openCounterpart_draft
      . intro s hs
        exact Entry.counterparts_proper hs
      . exact stacked_place hstacked hfitting

def barelyOpened : List ElementKind :=
  [.p, .ul, .dl, .table, .tr]

theorem openHere_bare (now : Nat) (hk : k ∈ barelyOpened) : z.openHere o k [] now = z.place k [] now := by
  have hplain : k ≠ .hr ∧ k.isInline = false ∧ k.entry.keptAttributes [] z.nearest = [] := by
    simp only [barelyOpened, List.mem_cons, List.not_mem_nil, or_false] at hk
    rcases hk with rfl | rfl | rfl | rfl | rfl <;> exact ⟨by decide, rfl, rfl⟩
  rcases hplain with ⟨hhr, hinline, hattributes⟩
  simp [Outline.openHere, hhr, hinline, hattributes]

theorem openBare_draft (depth now : Nat) (hk : k ∈ barelyOpened) (hdrops : z.drops k = false)
    (hallows : z.nearest.all (·.model.admits k))
    (hparents : k.parents = [] ∨ ∃ parent ∈ z.nearest, parent ∈ k.parents) :
    openElement? ⟨.standard, o⟩ (depth + 1) (.known k) [] z.draft = some (z.place k [] now).draft := by
  have hplain : k.isConcrete ∧ k.isInline = false ∧ k ≠ .br ∧ k ≠ .a ∧ k ≠ .li := by
    simp only [barelyOpened, List.mem_cons, List.not_mem_nil, or_false] at hk
    rcases hk with rfl | rfl | rfl | rfl | rfl <;> decide
  rcases hplain with ⟨hconcrete, hinline, hbr, ha, hli⟩
  rw [openElement?_here depth hconcrete (ElementKind.entry_keeps ha hli []) hbr hdrops hallows hparents]
  . rw [openHere_draft_of_counterparts_nil now (ElementKind.entry_counterparts_nil k), openHere_bare now hk]
  . simp [hinline]

end Cleaner

namespace Outline

def openPlain (now : Nat) (z : Outline .standard) : Outline .standard :=
  if z.drops .p then z else z.place .p [] now

/-- What is opened around an element of the kind where nothing known is open, from the outside in. -/
def suppliedAround : ElementKind → List ElementKind
  | .li => [.ul]
  | .dt | .dd => [.dl]
  | .tr => [.table]
  | .td | .th => [.table, .tr]
  | _ => []

def supply (k : ElementKind) (now : Nat) (z : Outline .standard) : Outline .standard :=
  if z.nearest.isSome then z else (suppliedAround k).foldl (fun z parent => z.place parent [] now) z

@[simp]
theorem nearest_place (k : ElementKind) (attributes : List Attribute) (now : Nat) (z : Outline .standard) :
    (z.place k attributes now).nearest = some k := by
  simp [place, nearest, nearestOf, Layer.name, TagName.kind?, tagOf]

@[simp]
theorem hasOpen_place (k l : ElementKind) (attributes : List Attribute) (now : Nat) (z : Outline .standard) :
    (z.place l attributes now).hasOpen k = (l == k || z.hasOpen k) := by
  have hname : (TagName.known l == TagName.known k) = (l == k) := by
    rw [Bool.eq_iff_iff]
    simp
  simp [hasOpen, place, Layer.name, tagOf, hname]

end Outline

namespace Cleaner

open Outline

variable {o : CleaningOptions} {z : Outline .standard} {k : ElementKind} {source : List Attribute}

theorem openPlain_draft (depth now : Nat) (h : z.drops .p ∨ z.nearest.all (·.model.admits .p)) :
    openElement? ⟨.standard, o⟩ (depth + 1) (.known plainBlock) [] z.draft = some (z.openPlain now).draft := by
  unfold openPlain
  split
  . next hdrops =>
    have hname : Grammar.standard.canonicalName (.known plainBlock) = .known .p := rfl
    unfold openElement?
    simp [hname, nearest?_any_drops, hdrops]
  . next hdrops =>
    rcases h with h | h
    . exact absurd h hdrops
    . apply openBare_draft depth now (by decide) (by simpa using hdrops) h
      exact .inl rfl

theorem drops_of_nearest_eq_none (h : z.nearest = none) : z.drops k = false := by
  simp [Outline.drops, h]

theorem openOuter_draft (depth now : Nat) (hk : k ∈ [.ul, .dl, .table]) (hnearest : z.nearest = none) :
    openElement? ⟨.standard, o⟩ (depth + 1) (.known k) [] z.draft = some (z.place k [] now).draft := by
  have hbare : k ∈ barelyOpened ∧ k.parents = [] := by
    simp only [List.mem_cons, List.not_mem_nil, or_false] at hk
    rcases hk with rfl | rfl | rfl <;> decide
  apply openBare_draft depth now hbare.1 (drops_of_nearest_eq_none hnearest) (by simp [hnearest])
  exact .inl hbare.2

theorem openRow_draft (depth now : Nat) (hnearest : z.nearest = none) :
    openElement? ⟨.standard, o⟩ (depth + 2) (.known .tr) [] z.draft
      =
    some ((z.place .table [] now).place .tr [] now).draft := by
  have hsupply : supplyParent ⟨.standard, o⟩
      (fun kind => openElement? ⟨.standard, o⟩ (depth + 1) (.known kind) []) ElementKind.tr.entry z.draft
        =
      some (z.place .table [] now).draft := by
    rw [← openOuter_draft (o := o) depth now (by decide) hnearest]
    unfold supplyParent
    rw [nearest?_draft]
    simp [hnearest, ElementKind.parents]
  have hname : Grammar.standard.canonicalName (.known .tr) = .known .tr := rfl
  rw [openElement?_eq (depth + 1) hname rfl (by decide) (drops_of_nearest_eq_none hnearest),
    clear_of_nearest (by simp [hnearest])]
  rw [hsupply, Option.bind_some, supplyBlock_of_blocks (by simp [ElementKind.isInline]), Option.bind_some,
    openHere_draft_of_counterparts_nil now (ElementKind.entry_counterparts_nil .tr),
    openHere_bare now (by decide)]

theorem supplyParent_draft (depth now : Nat) (hallows : z.nearest.all (·.model.admits k)) :
    supplyParent ⟨.standard, o⟩ (fun kind => openElement? ⟨.standard, o⟩ (depth + 2) (.known kind) [])
        k.entry z.draft
      =
    some (z.supply k now).draft := by
  cases hnearest : z.nearest with
  | some parent =>
    have hadmits : parent.model.admits k := by simpa [hnearest] using hallows
    simp only [supply, hnearest, Option.isSome_some, ↓reduceIte]
    apply supplyParent_of_mem
    by_cases hparents : k.parents = []
    . exact .inl hparents
    . exact .inr ⟨parent, hnearest, ElementKind.mem_parents hadmits hparents⟩
  | none =>
    simp only [supply, hnearest, Option.isSome_none, Bool.false_eq_true, ↓reduceIte]
    unfold supplyParent
    rw [nearest?_draft, hnearest, ElementKind.entry_parentKinds]
    -- What is supplied needs nothing itself, except for a row, which needs a table.
    cases k
    case li => exact openOuter_draft (k := .ul) (depth + 1) now (by decide) hnearest
    case dt => exact openOuter_draft (k := .dl) (depth + 1) now (by decide) hnearest
    case dd => exact openOuter_draft (k := .dl) (depth + 1) now (by decide) hnearest
    case tr => exact openOuter_draft (k := .table) (depth + 1) now (by decide) hnearest
    case td => exact openRow_draft depth now hnearest
    case th => exact openRow_draft depth now hnearest
    all_goals rfl

end Cleaner

end NoteMarkup
