import NoteMarkup.Cleaning.Tree
import NoteMarkup.Proofs.Outline
import NoteMarkup.Proofs.StandardGrammar

/-!
This module contains how the open elements of a draft stand in each other under the standard grammar. An
element for which a start tag was emitted stands in the innermost other one of that sort, its frame; a known
element for which none was emitted is a repeated inline element, and its frame is inline too.
-/

namespace NoteMarkup

namespace Outline

variable {g : Grammar}

def frameOf : List (Layer g) → Option ElementKind
  | [] => none
  | .silent .. :: ls => frameOf ls
  | .written tag _ _ :: _ => some tag.entry.kind

def nearestOf (ls : List (Layer g)) : Option ElementKind :=
  ls.findSome? (·.name.kind?)

def frame (z : Outline g) : Option ElementKind :=
  frameOf z.shells

def nearest (z : Outline g) : Option ElementKind :=
  nearestOf z.shells

def hasOpen (kind : ElementKind) (z : Outline g) : Bool :=
  z.shells.any (·.name == .known kind)

@[simp]
theorem nearest_hold (more : Content) (z : Outline g) : (z.hold more).nearest = z.nearest := by
  simp [nearest]

@[simp]
theorem hasOpen_hold (k : ElementKind) (more : Content) (z : Outline g) :
    (z.hold more).hasOpen k = z.hasOpen k := by
  simp [hasOpen]

theorem frameOf_emptied (ls : List (Layer g)) : frameOf (ls.map Layer.emptied) = frameOf ls := by
  induction ls with
  | nil => rfl
  | cons l ls ih => cases l <;> simp [frameOf, Layer.emptied, ih]

theorem nearestOf_emptied (ls : List (Layer g)) : nearestOf (ls.map Layer.emptied) = nearestOf ls := by
  simp [nearestOf, List.findSome?_map, Function.comp_def]

theorem hasOpen_draft (kind : ElementKind) (z : Outline g) : z.draft.hasOpen kind = z.hasOpen kind := by
  have := congrArg (List.any · (· == .known kind)) (openedOf_names z.ground z.layers)
  simpa [Draft.hasOpen, hasOpen, shells, draft, Function.comp_def] using this

variable {o : CleaningOptions}

theorem entryOf?_standard (name : TagName) :
    Cleaner.entryOf? ⟨.standard, o⟩ name = name.kind?.map ElementKind.entry := by
  cases name <;> simp [Cleaner.entryOf?, TagName.kind?]

theorem nearest?_openedOf (ground : Content) (ls : List (Layer .standard)) :
    Cleaner.nearest? ⟨.standard, o⟩ (openedOf ground ls) = (nearestOf ls).map ElementKind.entry := by
  unfold Cleaner.nearest?
  simp only [entryOf?_standard]
  induction ls with
  | nil => rfl
  | cons l ls ih =>
    unfold nearestOf at ih ⊢
    simp only [openedOf, List.findSome?_cons, Layer.opened_name]
    cases l.name.kind? with
    | none => simpa using ih
    | some k => rfl

theorem nearest?_draft (z : Outline .standard) :
    Cleaner.nearest? ⟨.standard, o⟩ z.draft.opened = z.nearest.map ElementKind.entry := by
  unfold nearest shells
  rw [nearestOf_emptied]
  apply nearest?_openedOf

theorem tag_entry (tag : Tag .standard) : tag.entry.kind.entry = tag.entry := by
  have := tag.declared
  simpa using this

theorem tag_isBlock (tag : Tag .standard) : tag.entry.isBlock = tag.entry.kind.isBlock := by
  rw [← ElementKind.entry_isBlock, tag_entry]

def obstaclesOf (k : ElementKind) : List (Layer g) → Nat
  | [] => 0
  | l :: ls =>
    match l.name.kind? with
    | some w => if w.model.admits k then 0 else obstaclesOf k ls + 1
    | none => if obstaclesOf k ls = 0 then 0 else obstaclesOf k ls + 1

theorem obstacles_openedOf (k : ElementKind) (ground : Content) (ls : List (Layer .standard)) :
    Cleaner.obstacles ⟨.standard, o⟩ k (openedOf ground ls) = obstaclesOf k (ls.map Layer.emptied) := by
  induction ls with
  | nil => rfl
  | cons l ls ih =>
    simp only [openedOf, Cleaner.obstacles, List.map_cons, obstaclesOf, entryOf?_standard, Layer.opened_name,
      Layer.emptied_name, ih]
    cases l.name.kind? <;> simp

theorem obstacles_draft (k : ElementKind) (z : Outline .standard) :
    Cleaner.obstacles ⟨.standard, o⟩ k z.draft.opened = obstaclesOf k z.shells :=
  obstacles_openedOf k z.ground z.layers

theorem nearestOf_drop_obstaclesOf (k : ElementKind) (ls : List (Layer g)) :
    (nearestOf (ls.drop (obstaclesOf k ls))).all (·.model.admits k) := by
  induction ls with
  | nil => rfl
  | cons l ls ih =>
    unfold obstaclesOf
    split
    . next w hw =>
      split
      . next hadmits => simp [nearestOf, hw, hadmits]
      . simpa using ih
    . next hnone =>
      split
      . next hzero => simpa [nearestOf, hnone, hzero] using ih
      . simpa using ih

theorem obstaclesOf_eq_zero {k : ElementKind} {ls : List (Layer g)}
    (h : (nearestOf ls).all (·.model.admits k)) : obstaclesOf k ls = 0 := by
  induction ls with
  | nil => rfl
  | cons l ls ih =>
    unfold obstaclesOf
    unfold nearestOf at ih h
    split
    . next w hw => simpa [hw] using h
    . next hnone =>
      simp only [List.findSome?_cons, hnone] at h
      simp [ih h]

end Outline

def ElementKind.fits (k : ElementKind) : Option ElementKind → Bool
  | none => k.isBlock
  | some frame => frame.model.admits k

namespace Outline

def Stacked : List (Layer .standard) → Prop
  | [] => True
  | .silent (.unknown _) _ _ :: ls => Stacked ls
  | .silent (.known k) _ _ :: ls => k.isInline ∧ (∃ w ∈ frameOf ls, w.isInline) ∧ Stacked ls
  | .written tag _ _ :: ls => tag.entry.kind.fits (frameOf ls) ∧ Stacked ls

@[simp]
theorem stacked_unknown (name : String) (since : Nat) (held : Content) (ls : List (Layer .standard)) :
    Stacked (.silent (.unknown name) since held :: ls) ↔ Stacked ls := Iff.rfl

@[simp]
theorem stacked_known (k : ElementKind) (since : Nat) (held : Content) (ls : List (Layer .standard)) :
    Stacked (.silent (.known k) since held :: ls)
      ↔
    k.isInline ∧ (∃ w ∈ frameOf ls, w.isInline) ∧ Stacked ls := Iff.rfl

@[simp]
theorem stacked_written (tag : Tag .standard) (since : Nat) (held : Content) (ls : List (Layer .standard)) :
    Stacked (.written tag since held :: ls) ↔ tag.entry.kind.fits (frameOf ls) ∧ Stacked ls := Iff.rfl

theorem Stacked.tail {l : Layer .standard} {ls : List (Layer .standard)} (h : Stacked (l :: ls)) :
    Stacked ls := by
  unfold Stacked at h
  split at h <;> simp_all

theorem Stacked.drop {ls : List (Layer .standard)} (h : Stacked ls) (n : Nat) : Stacked (ls.drop n) := by
  induction n generalizing ls with
  | zero => exact h
  | succ n ih =>
    cases ls with
    | nil => exact h
    | cons l ls => exact ih h.tail

theorem Stacked.nearestOf_eq_or {ls : List (Layer .standard)} (h : Stacked ls) :
    nearestOf ls = frameOf ls
      ∨
    (∃ k ∈ nearestOf ls, k.isInline) ∧ (∃ w ∈ frameOf ls, w.isInline) := by
  induction ls with
  | nil => exact .inl rfl
  | cons l ls ih =>
    specialize ih h.tail
    cases l with
    | written tag since held => simp [nearestOf, frameOf, Layer.name, TagName.kind?]
    | silent name since held =>
      cases name with
      | unknown name => simpa [nearestOf, frameOf, Layer.name, TagName.kind?] using ih
      | known k =>
        right
        constructor
        . exact ⟨k, rfl, h.1⟩
        . exact h.2.1

end Outline

theorem ElementKind.model_of_isInline {k : ElementKind} (h : k.isInline) : k.model = .phrasing := by
  cases k <;> first | rfl | simp [isInline] at h

theorem ElementKind.isBlock_of_isInline {k : ElementKind} (h : k.isInline) : k.isBlock = false := by
  cases k <;> first | rfl | simp [isInline] at h

theorem ElementKind.isInline_of_fits {k w : ElementKind} (h : k.fits (some w)) (hw : w.isInline) :
    k.isInline := by
  unfold fits at h
  simpa only [model_of_isInline hw, ContentModel.admits] using h

namespace Outline

theorem Stacked.model_nearestOf {ls : List (Layer .standard)} (h : Stacked ls) :
    (nearestOf ls).map ElementKind.model = (frameOf ls).map ElementKind.model := by
  rcases h.nearestOf_eq_or with heq | ⟨⟨k, hk, hinline⟩, w, hw, winline⟩
  . rw [heq]
  . rw [Option.mem_def] at hk hw
    rw [hk, hw]
    simp [ElementKind.model_of_isInline hinline, ElementKind.model_of_isInline winline]

theorem Stacked.nearestOf_eq_none_iff {ls : List (Layer .standard)} (h : Stacked ls) :
    nearestOf ls = none ↔ frameOf ls = none := by
  have := h.model_nearestOf
  cases hnearest : nearestOf ls <;> cases hframe : frameOf ls <;> simp_all

theorem Stacked.fits_frameOf {ls : List (Layer .standard)} (h : Stacked ls) {k w : ElementKind}
    (hnearest : nearestOf ls = some w) (hadmits : w.model.admits k) : k.fits (frameOf ls) := by
  have hmodel := h.model_nearestOf
  rw [hnearest] at hmodel
  cases hframe : frameOf ls with
  | none => simp [hframe] at hmodel
  | some v =>
    simp only [hframe, Option.map_some, Option.some.injEq] at hmodel
    simpa only [ElementKind.fits, ← hmodel] using hadmits

theorem Stacked.isInline_frameOf {ls : List (Layer .standard)} (h : Stacked ls) {k : ElementKind}
    (hopen : ls.any (·.name == .known k)) (hk : k.isInline) : ∃ w ∈ frameOf ls, w.isInline := by
  induction ls with
  | nil => simp at hopen
  | cons l ls ih =>
    specialize ih h.tail
    cases l with
    | silent name since held =>
      cases name with
      | unknown name => exact ih (by simpa [Layer.name] using hopen)
      | known k => exact h.2.1
    | written tag since held =>
      refine ⟨tag.entry.kind, rfl, ?_⟩
      by_cases heq : tag.entry.kind = k
      . rwa [heq]
      . rcases ih (by simpa [Layer.name, heq] using hopen) with ⟨w, hw, winline⟩
        have hfits := h.1
        rw [hw] at hfits
        exact ElementKind.isInline_of_fits hfits winline

theorem Stacked.blocksOf_eq_nil_iff {ls : List (Layer .standard)} (h : Stacked ls) :
    blocksOf ls = [] ↔ frameOf ls = none := by
  induction ls with
  | nil => simp [blocksOf, frameOf]
  | cons l ls ih =>
    specialize ih h.tail
    cases l with
    | silent name since held => simpa [blocksOf, frameOf, Layer.isBlock] using ih
    | written tag since held =>
      by_cases hblock : tag.entry.isBlock
      . simp [blocksOf, frameOf, Layer.isBlock, hblock]
      . have hfits := h.1
        -- Outside of any frame only a block can stand, so that there is one around.
        cases hframe : frameOf ls with
        | none =>
          rw [hframe] at hfits
          simp [ElementKind.fits, ← tag_isBlock, hblock] at hfits
        | some w => simpa [blocksOf, frameOf, Layer.isBlock, hblock, hframe] using ih

def holderOf : List (Layer g) → Option (Nat × ElementKind)
  | [] => none
  | .silent .. :: ls => (holderOf ls).map fun (inside, k) => (inside + 1, k)
  | .written tag _ _ :: ls =>
    if tag.entry.isInline then (holderOf ls).map fun (inside, k) => (inside + 1, k)
    else some (0, tag.entry.kind)

theorem lineHolder?_openedOf (ground : Content) (ls : List (Layer .standard)) :
    Cleaner.lineHolder? ⟨.standard, o⟩ (openedOf ground ls)
      =
    (holderOf (ls.map Layer.emptied)).map fun (inside, k) => (inside, k.entry) := by
  induction ls with
  | nil => rfl
  | cons l ls ih =>
    cases l with
    | silent name since held =>
      simp [openedOf, Layer.opened, Cleaner.lineHolder?, holderOf, Layer.emptied, ih, Cleaner.lineHolder?.deeper,
        Function.comp_def]
    | written tag since held =>
      simp only [openedOf, Layer.opened, Cleaner.lineHolder?, entryOf?_written, List.map_cons, Layer.emptied,
        holderOf]
      split
      . simp [ih, Cleaner.lineHolder?.deeper, Function.comp_def]
      . simp [tag_entry]

theorem lineHolder?_draft (z : Outline .standard) :
    Cleaner.lineHolder? ⟨.standard, o⟩ z.draft.opened
      =
    (holderOf z.shells).map fun (inside, k) => (inside, k.entry) :=
  lineHolder?_openedOf z.ground z.layers

theorem frameOf_append (ls ms : List (Layer g)) : frameOf (ls ++ ms) = (frameOf ls).or (frameOf ms) := by
  induction ls with
  | nil => rfl
  | cons l ls ih =>
    cases l with
    | silent name since held => simpa [frameOf] using ih
    | written tag since held => rfl

theorem stacked_append_cons {p : Layer .standard} {ls ms : List (Layer .standard)} (h : Stacked (ls ++ ms))
    (hinline : ∀ w ∈ frameOf ms, w.isInline = false)
    (hls : ∀ tag since held, .written tag since held ∈ ls → tag.entry.kind.isInline)
    (hframe : frameOf (p :: ms) = some .p) (hms : Stacked (p :: ms)) : Stacked (ls ++ p :: ms) := by
  induction ls with
  | nil => exact hms
  | cons l ls ih =>
    have htail := ih h.tail (fun tag since held hmem => hls tag since held (by simp [hmem]))
    cases l with
    | silent name since held =>
      cases name with
      | unknown name => exact htail
      | known k =>
        simp only [List.cons_append, stacked_known] at h ⊢
        rcases h with ⟨hk, ⟨w, hw, winline⟩, -⟩
        refine ⟨hk, ⟨w, ?_, winline⟩, htail⟩
        rw [Option.mem_def] at hw ⊢
        rw [frameOf_append] at hw ⊢
        cases hls' : frameOf ls with
        | some v => simpa [hls'] using hw
        -- A repeated element has an inline frame, which is not the one that the plain block comes into.
        | none =>
          rw [hls', Option.none_or] at hw
          simp [hinline w hw] at winline
    | written tag since held =>
      have hk : tag.entry.kind.isInline := hls tag since held (by simp)
      simp only [List.cons_append, stacked_written] at h ⊢
      refine ⟨?_, htail⟩
      have hfits := h.1
      rw [frameOf_append] at hfits ⊢
      cases hls' : frameOf ls with
      | some v => simpa [hls'] using hfits
      | none =>
        rw [hframe]
        simpa [ElementKind.fits, ElementKind.model, ContentModel.admits] using hk

theorem isInline_take_of_holderOf {ls : List (Layer .standard)} {inside : Nat} {k : ElementKind}
    (h : holderOf ls = some (inside, k)) :
    ∀ tag since held, .written tag since held ∈ ls.take inside → tag.entry.kind.isInline := by
  induction ls generalizing inside with
  | nil => simp [holderOf] at h
  | cons l ls ih =>
    cases l with
    | silent name since held =>
      simp only [holderOf, Option.map_eq_some_iff, Prod.mk.injEq, Prod.exists] at h
      rcases h with ⟨further, k', hfurther, rfl, rfl⟩
      simpa using ih hfurther
    | written tag since held =>
      unfold holderOf at h
      split at h
      . next hinline =>
        simp only [Option.map_eq_some_iff, Prod.mk.injEq, Prod.exists] at h
        rcases h with ⟨further, k', hfurther, rfl, rfl⟩
        intro tag' since' held' hmem
        simp only [List.take_succ_cons, List.mem_cons, Layer.written.injEq] at hmem
        rcases hmem with ⟨rfl, -, -⟩ | hmem
        . rwa [← ElementKind.entry_isInline, tag_entry]
        . exact ih hfurther tag' since' held' hmem
      . simp only [Option.some.injEq, Prod.mk.injEq] at h
        rcases h with ⟨rfl, rfl⟩
        simp

theorem frameOf_eq_none_of_holderOf {ls : List (Layer .standard)} (hstacked : Stacked ls)
    (h : holderOf ls = none) : frameOf ls = none := by
  induction ls with
  | nil => rfl
  | cons l ls ih =>
    cases l with
    | silent name since held =>
      simp only [holderOf, Option.map_eq_none_iff] at h
      exact ih hstacked.tail h
    | written tag since held =>
      unfold holderOf at h
      split at h
      . next hinline =>
        rw [Option.map_eq_none_iff] at h
        have hfits := hstacked.1
        rw [ih hstacked.tail h] at hfits
        have hkind : tag.entry.kind.isInline := by rwa [← ElementKind.entry_isInline, tag_entry]
        have hblock : tag.entry.kind.isBlock := hfits
        rw [ElementKind.isBlock_of_isInline hkind] at hblock
        cases hblock
      . simp at h

theorem holderOf_drop {ls : List (Layer .standard)} {inside : Nat} {k : ElementKind}
    (h : holderOf ls = some (inside, k)) :
    nearestOf (ls.drop inside) = some k ∧ frameOf (ls.drop inside) = some k ∧ k.isInline = false := by
  induction ls generalizing inside with
  | nil => simp [holderOf] at h
  | cons l ls ih =>
    have hdeeper (h : ((holderOf ls).map fun (inside, k) => (inside + 1, k)) = some (inside, k)) :
        nearestOf ((l :: ls).drop inside) = some k ∧ frameOf ((l :: ls).drop inside) = some k
          ∧ k.isInline = false := by
      simp only [Option.map_eq_some_iff, Prod.mk.injEq, Prod.exists] at h
      rcases h with ⟨further, _, hfurther, rfl, rfl⟩
      exact ih hfurther
    cases l with
    | silent name since held => exact hdeeper h
    | written tag since held =>
      unfold holderOf at h
      split at h
      . exact hdeeper h
      . next hinline =>
        simp only [Option.some.injEq, Prod.mk.injEq] at h
        rcases h with ⟨rfl, rfl⟩
        refine ⟨rfl, rfl, ?_⟩
        rw [← ElementKind.entry_isInline, tag_entry]
        simpa using hinline

theorem nearest_close_of_holderOf {z : Outline .standard} {inside : Nat} {k : ElementKind}
    (h : holderOf z.shells = some (inside, k)) : (z.close inside).nearest = some k := by
  unfold nearest
  rw [close_shells]
  exact (holderOf_drop h).1

end Outline

end NoteMarkup
