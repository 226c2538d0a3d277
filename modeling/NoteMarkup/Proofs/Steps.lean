import NoteMarkup.Proofs.Opening

/-!
This module contains the source events as steps on outlines. The events of a run are numbered, and what an
event opens carries its number.
-/

namespace NoteMarkup

namespace Outline

variable {g : Grammar} {o : CleaningOptions}

def supplyBlock (k : ElementKind) (now : Nat) (z : Outline .standard) : Outline .standard :=
  if k.isInline && z.nearest.isNone then z.place .p [] now else z

def prepare (k : ElementKind) (now : Nat) (z : Outline .standard) : Outline .standard :=
  ((z.clear k).supply k now).supplyBlock k now

def endLine (now : Nat) (z : Outline .standard) : Outline .standard :=
  match holderOf z.shells with
  | none => z.hold (.standalone .nil .p [])
  | some (inside, k) =>
    if k = .tr then z
    else if k.beginsLines then ((z.close inside).openPlain now).putUp (z.line inside)
    else (z.close (inside + 1)).putUp (z.line (inside + 1))

def enter (o : CleaningOptions) (now : Nat) (name : TagName) (source : List Attribute) (z : Outline .standard) :
    Outline .standard :=
  match Grammar.standard.canonicalName name with
  | .unknown name => z.openSilently (.unknown name) now
  | .known k =>
    if !k.entry.keeps source then z
    else if k = .br then z.endLine now
    else if z.drops k then z
    else (z.prepare k now).openHere o k source now

def text (now : Nat) (content : String) (z : Outline .standard) : Outline .standard :=
  match z.nearest with
  | some w => if w.model.holdsText then z.hold (.text .nil content) else z
  | none => (z.place .p [] now).hold (.text .nil content)

def step (o : CleaningOptions) (now : Nat) (z : Outline .standard) : SourceEvent → Outline .standard
  | .enter name source => z.enter o now (.ofName name) source
  | .leave name => z.leave (Grammar.standard.canonicalName (.ofName name))
  | .text content =>
    match o.admitText? content with
    | some content => z.text now content
    | none => z

def run (o : CleaningOptions) : Nat → Outline .standard → List SourceEvent → Outline .standard
  | _, z, [] => z
  | now, z, e :: events => run o (now + 1) (z.step o now e) events

theorem run_append (o : CleaningOptions) (now : Nat) (z : Outline .standard) (first second : List SourceEvent) :
    z.run o now (first ++ second) = (z.run o now first).run o (now + first.length) second := by
  induction first generalizing now z with
  | nil => rfl
  | cons e first ih =>
    simp only [List.cons_append, run, ih, List.length_cons]
    congr 1
    omega

@[simp]
theorem clear_shells (k : ElementKind) (z : Outline .standard) :
    (z.clear k).shells = z.shells.drop (obstaclesOf k z.shells) := by
  simp [clear]

theorem nearest_clear (k : ElementKind) (z : Outline .standard) : (z.clear k).nearest.all (·.model.admits k) := by
  unfold nearest
  rw [clear_shells]
  apply nearestOf_drop_obstaclesOf

theorem nearest_supply (k : ElementKind) (now : Nat) (z : Outline .standard)
    (h : z.nearest.all (·.model.admits k)) :
    (z.supply k now).nearest.all (·.model.admits k) ∧ (k.parents ≠ [] → (z.supply k now).nearest.isSome) := by
  unfold supply
  split
  . next hsome => exact ⟨h, fun _ => hsome⟩
  . next hnone =>
    have hnone : z.nearest = none := by simpa using hnone
    cases k <;> simp [suppliedAround, ElementKind.parents, hnone, ContentModel.admits, ElementKind.model]

theorem fitting_prepare {k : ElementKind} (hconcrete : k.isConcrete) (hbr : k ≠ .br) (now : Nat)
    (z : Outline .standard) : (z.prepare k now).Fitting k := by
  have hsupply := nearest_supply k now (z.clear k) (nearest_clear k z)
  unfold prepare supplyBlock
  split
  . next hblock =>
    simp only [Bool.and_eq_true] at hblock
    right
    exact ⟨.p, by simp, hblock.1⟩
  . next hblock =>
    cases hnearest : ((z.clear k).supply k now).nearest with
    | some parent =>
      right
      exact ⟨parent, hnearest, by simpa [hnearest] using hsupply.1⟩
    | none =>
      left
      refine ⟨hnearest, ?_⟩
      have hparents : k.parents = [] := by
        have := hsupply.2
        rw [hnearest] at this
        simpa using this
      have hinline : k.isInline = false := by simpa [hnearest] using hblock
      simpa [ElementKind.isConcrete, hbr, hparents, hinline] using hconcrete

/-- What is opened around an element of the kind in the end, a plain block included. -/
def missingAround (k : ElementKind) : List ElementKind :=
  if k.isInline then [.p] else suppliedAround k

theorem mem_missingAround {k w : ElementKind} (h : w ∈ missingAround k) :
    w ∈ suppliedAround k ∨ w = .p ∧ k.isInline := by
  unfold missingAround at h
  split at h
  . next hinline => exact .inr ⟨List.mem_singleton.mp h, hinline⟩
  . exact .inl h

theorem not_isInline_of_mem_missingAround {k w : ElementKind} (h : w ∈ missingAround k) : w.isInline = false := by
  have hall : ∀ w ∈ missingAround k, w.isInline = false := by
    cases k <;> decide
  exact hall w h

theorem prepare_eq (k : ElementKind) (now : Nat) (z : Outline .standard) :
    z.prepare k now
      =
    if (z.clear k).nearest.isSome then z.clear k
    else (missingAround k).foldl (fun z w => z.place w [] now) (z.clear k) := by
  unfold prepare supply supplyBlock missingAround
  cases hnearest : (z.clear k).nearest with
  | some w => simp [hnearest]
  | none =>
    by_cases hinline : k.isInline
    -- No parent is supplied for an inline element, so that nothing known is open yet when the plain block is.
    . have hsupplied : suppliedAround k = [] := by
        cases k <;> first | rfl | cases hinline
      simp [hsupplied, hinline, hnearest]
    . simp [hinline]

theorem endLine_eq (now : Nat) (z : Outline .standard) :
    (holderOf z.shells = none ∧ z.endLine now = z.hold (.standalone .nil .p []))
      ∨
    z.endLine now = z
      ∨
    (∃ n, z.endLine now = (z.close n).putUp (z.line n))
      ∨
    ∃ inside k, holderOf z.shells = some (inside, k) ∧ k.beginsLines
      ∧ z.endLine now = ((z.close inside).place .p [] now).putUp (z.line inside) := by
  unfold endLine
  split
  . next hholder => exact .inl ⟨hholder, rfl⟩
  . next inside k hholder =>
    right
    split
    . exact .inl rfl
    . right
      split
      . next hbegins =>
        unfold openPlain
        split
        . exact .inl ⟨inside, rfl⟩
        . exact .inr ⟨inside, k, hholder, hbegins, rfl⟩
      . exact .inl ⟨inside + 1, rfl⟩

theorem close_putUp_line_shells (n : Nat) (z : Outline g) : ((z.close n).putUp (z.line n)).shells = z.shells := by
  rw [putUp_shells, line_shells, close_shells, List.take_append_drop]

theorem close_place_putUp_line_shells (n : Nat) (k : ElementKind) (attributes : List Attribute) (now : Nat)
    (z : Outline .standard) :
    (((z.close n).place k attributes now).putUp (z.line n)).shells
      =
    z.shells.take n ++ .written (tagOf k attributes) now .nil :: z.shells.drop n := by
  rw [putUp_shells, line_shells]
  unfold place
  rw [openWritten_shells, close_shells]

theorem isConcrete_of_canonicalName {name : TagName} {k : ElementKind}
    (h : Grammar.standard.canonicalName name = .known k) : k.isConcrete := by
  cases name with
  | unknown name => cases h
  | known source =>
    cases h
    exact ElementKind.isConcrete_canonical source

theorem leave_shells (name : TagName) (z : Outline g) :
    ∃ n, (z.leave name).shells = z.shells.drop n := by
  unfold leave
  split
  . exact ⟨_, close_shells _ z⟩
  . exact ⟨0, rfl⟩

end Outline

end NoteMarkup
