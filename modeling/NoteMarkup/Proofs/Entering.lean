import NoteMarkup.Proofs.Run

/-!
This module contains what the start of an element opens: around the element what was missing there, then the
element itself, and inside of it what its styles stand for. Something is supplied around an element only where
nothing known is left open.
-/

namespace NoteMarkup

namespace Outline

/-- Layers are closed, and then an element of the kind is opened by the event of number `now`, with what is
supplied around it and what its styles stand for. -/
inductive EntersOnto (k : ElementKind) (now : Nat) (before after : List (Layer .standard)) : Prop
  | intro (n : Nat) (styled own around : List (Layer .standard))
    (hafter : after = styled ++ (own ++ (around ++ before.drop n)))
    (hnow : ∀ l ∈ styled ++ (own ++ around), l.since = now)
    (hstyled : ∀ l ∈ styled, ∃ w, l.name = .known w ∧ w.isInline)
    (hown : own = [] ∨ ∃ l, own = [l] ∧ l.name = .known k ∧ k ≠ .hr ∧ k ≠ .br)
    (haround : ∀ l ∈ around, ∃ w, l.name = .known w ∧ (w ∈ suppliedAround k ∨ w = .p ∧ k.isInline))
    (hnearest : around ≠ [] → nearestOf (before.drop n) = none) : EntersOnto k now before after

def LineBegun (now : Nat) (before after : List (Layer .standard)) : Prop :=
  ∃ n, after = before.take n ++ .written (tagOf .p []) now .nil :: before.drop n

variable {o : CleaningOptions}

theorem foldl_openCounterpart_shells (now : Nat) (styles : List Style.Counterpart) (z : Outline .standard) :
    ∃ styled, (styles.foldl (openCounterpart o now) z).shells = styled ++ z.shells
      ∧ ∀ l ∈ styled, l.since = now ∧ ∃ s ∈ styles, l.name = .known s.kind := by
  induction styles generalizing z with
  | nil => exact ⟨[], rfl, by simp⟩
  | cons s styles ih =>
    rcases ih (z.openCounterpart o now s) with ⟨styled, hshells, hstyled⟩
    have hhead : ∃ first : List (Layer .standard), (z.openCounterpart o now s).shells = first ++ z.shells
        ∧ ∀ l ∈ first, l.since = now ∧ l.name = .known s.kind := by
      unfold openCounterpart
      split
      . split
        . exact ⟨[.silent (.known s.kind) now .nil], rfl, by simp [Layer.since, Layer.name]⟩
        . exact ⟨[.written (tagOf s.kind _) now .nil], rfl, by simp [Layer.since, Layer.name, tagOf]⟩
      . exact ⟨[], rfl, by simp⟩
    rcases hhead with ⟨first, hfirst, hnew⟩
    refine ⟨styled ++ first, ?_, ?_⟩
    . rw [List.foldl_cons, hshells, hfirst, List.append_assoc]
    . intro l hmem
      rw [List.mem_append] at hmem
      rcases hmem with hmem | hmem
      . rcases hstyled l hmem with ⟨hnow, s', hs', hname⟩
        exact ⟨hnow, s', by simp [hs'], hname⟩
      . exact ⟨(hnew l hmem).1, s, by simp, (hnew l hmem).2⟩

theorem openHere_shells (now : Nat) {k : ElementKind} (hhr : k ≠ .hr) (source : List Attribute)
    (z : Outline .standard) :
    ∃ styled own, (z.openHere o k source now).shells = styled ++ own :: z.shells
      ∧ own.since = now ∧ own.name = .known k
      ∧ ∀ l ∈ styled, l.since = now ∧ ∃ s ∈ k.entry.counterparts source, l.name = .known s.kind := by
  unfold openHere
  dsimp only
  rw [if_neg hhr]
  split
  . exact ⟨[], .silent (.known k) now .nil, rfl, rfl, rfl, by simp⟩
  . rcases foldl_openCounterpart_shells (o := o) now (k.entry.counterparts source)
      (z.place k (k.entry.keptAttributes source z.nearest) now) with ⟨styled, hshells, hstyled⟩
    exact ⟨styled, .written (tagOf k _) now .nil, hshells, rfl, by simp [Layer.name, tagOf], hstyled⟩

theorem foldl_place_shells (now : Nat) (ks : List ElementKind) (z : Outline .standard) :
    (ks.foldl (fun z w => z.place w [] now) z).shells
      =
    (ks.reverse.map fun w => .written (tagOf w []) now .nil) ++ z.shells := by
  induction ks generalizing z with
  | nil => rfl
  | cons k ks ih =>
    rw [List.foldl_cons, ih]
    simp [place]

theorem prepare_shells (now : Nat) (k : ElementKind) (z : Outline .standard) :
    ∃ around, (z.prepare k now).shells = around ++ z.shells.drop (obstaclesOf k z.shells)
      ∧ (∀ l ∈ around, l.since = now)
      ∧ (∀ l ∈ around, ∃ w, l.name = .known w ∧ w ∈ missingAround k)
      ∧ (around ≠ [] → nearestOf (z.shells.drop (obstaclesOf k z.shells)) = none) := by
  rw [← clear_shells, prepare_eq]
  split
  . exact ⟨[], rfl, by simp, by simp, fun h => absurd rfl h⟩
  . next hnone =>
    refine ⟨(missingAround k).reverse.map fun w => .written (tagOf w []) now .nil, foldl_place_shells .., ?_, ?_, ?_⟩
    . simp [Layer.since]
    . intro l hmem
      rw [List.mem_map] at hmem
      rcases hmem with ⟨w, hw, rfl⟩
      exact ⟨w, by simp [Layer.name, tagOf], List.mem_reverse.mp hw⟩
    . exact fun _ => Option.not_isSome_iff_eq_none.mp hnone

theorem endLine_shells (now : Nat) (z : Outline .standard) :
    (z.endLine now).shells = z.shells
      ∨
    ∃ inside k, holderOf z.shells = some (inside, k) ∧ k.beginsLines
      ∧ (z.endLine now).shells = z.shells.take inside ++ .written (tagOf .p []) now .nil :: z.shells.drop inside := by
  rcases endLine_eq now z with ⟨-, hends⟩ | hends | ⟨n, hends⟩ | ⟨inside, k, hholder, hbegins, hends⟩
  . left
    rw [hends, hold_shells]
  . left
    rw [hends]
  . left
    rw [hends, close_putUp_line_shells]
  . right
    refine ⟨inside, k, hholder, hbegins, ?_⟩
    rw [hends, close_place_putUp_line_shells]

theorem endLine_cases (now : Nat) (z : Outline .standard) :
    (z.endLine now).shells = z.shells ∨ LineBegun now z.shells (z.endLine now).shells := by
  rcases endLine_shells now z with hsame | ⟨inside, k, -, -, hbegun⟩
  . exact .inl hsame
  . exact .inr ⟨inside, hbegun⟩

theorem enter_cases (now : Nat) (z : Outline .standard) (name : TagName) (source : List Attribute) :
    (z.enter o now name source).shells = z.shells
      ∨
    (∃ raw, Grammar.standard.canonicalName name = .unknown raw
      ∧ (z.enter o now name source).shells = .silent (.unknown raw) now .nil :: z.shells)
      ∨
    (Grammar.standard.canonicalName name = .known .br ∧ LineBegun now z.shells (z.enter o now name source).shells)
      ∨
    ∃ k, Grammar.standard.canonicalName name = .known k
      ∧ EntersOnto k now z.shells (z.enter o now name source).shells := by
  unfold enter
  split
  . next raw hname => exact .inr (.inl ⟨raw, hname, rfl⟩)
  . next k hname =>
    split
    . exact .inl rfl
    . split
      . next hbr =>
        subst hbr
        rcases endLine_cases now z with hsame | hbegun
        . exact .inl hsame
        . exact .inr (.inr (.inl ⟨hname, hbegun⟩))
      . next hbr =>
        split
        . exact .inl rfl
        . rcases prepare_shells now k z with ⟨around, hprepare, hnow, hmissing, hnearest⟩
          have haround : ∀ l ∈ around, ∃ w, l.name = .known w ∧ (w ∈ suppliedAround k ∨ w = .p ∧ k.isInline) := by
            intro l hmem
            rcases hmissing l hmem with ⟨w, hw, hmem⟩
            exact ⟨w, hw, mem_missingAround hmem⟩
          right; right; right
          by_cases hhr : k = .hr
          . have hshells : (z.prepare k now |>.openHere o k source now).shells = (z.prepare k now).shells := by
              simp [openHere, hhr]
            refine ⟨k, hname, _, [], [], around, ?_, by simpa using hnow, by simp, .inl rfl, haround, hnearest⟩
            rw [hshells, hprepare]
            rfl
          . rcases openHere_shells (o := o) now hhr source (z.prepare k now) with
              ⟨styled, own, hshells, hown, hownName, hstyled⟩
            refine ⟨k, hname, _, styled, [own], around, ?_, ?_, ?_, .inr ⟨own, rfl, hownName, hhr, hbr⟩, haround,
              hnearest⟩
            . rw [hshells, hprepare]
              simp
            . intro l hmem
              simp only [List.mem_append, List.mem_singleton] at hmem
              rcases hmem with hmem | rfl | hmem
              . exact (hstyled l hmem).1
              . exact hown
              . exact hnow l hmem
            . intro l hmem
              rcases (hstyled l hmem).2 with ⟨s, hs, hlname⟩
              exact ⟨s.kind, hlname, (Entry.counterparts_proper hs).isInline⟩

theorem text_shells (now : Nat) (content : String) (z : Outline .standard) :
    (z.text now content).shells = z.shells
      ∨
    (z.text now content).shells = .written (tagOf .p []) now .nil :: z.shells := by
  unfold text
  split
  . left
    split
    . rw [hold_shells]
    . rfl
  . right
    rw [hold_shells]
    rfl

theorem step_text_shells (now : Nat) (content : String) (z : Outline .standard) :
    (z.step o now (.text content)).shells = z.shells
      ∨
    (z.step o now (.text content)).shells = .written (tagOf .p []) now .nil :: z.shells := by
  simp only [step]
  split
  . exact text_shells now _ z
  . exact .inl rfl

end Outline

end NoteMarkup
