import NoteMarkup.Proofs.Phrasing

/-!
This module contains outlines on top of others. What is done to the layers of the upper one comes to the same on both
together, and in the draft nothing changes about what stands for the lower one.
-/

namespace NoteMarkup

namespace Outline

variable {g : Grammar} {f z : Outline g}

def atop (z f : Outline g) : Outline g :=
  { z.hold f.ground with layers := f.layers ++ (z.hold f.ground).layers }

@[simp]
theorem atop_empty (z : Outline g) : z.atop {} = z := by
  unfold atop
  rw [hold_nil]
  rfl

@[simp]
theorem atop_shells (z f : Outline g) : (z.atop f).shells = f.shells ++ z.shells := by
  rw [← hold_shells f.ground z]
  simp [atop, shells]

theorem Hosted.atop {k : ElementKind} {z f : Outline .standard} (h : Hosted k z.shells)
    (hf : ∀ l ∈ f.shells, l.name.isLight) : Hosted k (z.atop f).shells := by
  rw [atop_shells]
  exact h.append hf

theorem atop_hold (more : Content) (z f : Outline g) : z.atop (f.hold more) = (z.atop f).hold more := by
  rcases f with ⟨ground, _ | ⟨l, ls⟩⟩
  . have hhold := hold_hold ground more z
    simp only [atop, hold, List.nil_append] at hhold ⊢
    exact hhold.symm
  . rfl

theorem atop_closeInnermost (hne : f.layers ≠ []) : z.atop f.closeInnermost = (z.atop f).closeInnermost := by
  rcases f with ⟨ground, _ | ⟨l, ls⟩⟩
  . exact absurd rfl hne
  . rw [closeInnermost]
    dsimp only
    rw [atop_hold]
    rfl

theorem atop_close {n : Nat} (hn : n ≤ f.layers.length) : z.atop (f.close n) = (z.atop f).close n := by
  induction n generalizing f with
  | zero => rfl
  | succ n ih =>
    have hne : f.layers ≠ [] := by
      rintro hnil
      simp [hnil] at hn
    have hlength : f.closeInnermost.layers.length = f.layers.length - 1 := by
      rw [← shells_length, closeInnermost_shells, List.length_tail, shells_length]
    rw [close, ih (by omega), atop_closeInnermost hne]
    rfl

theorem settled_atop (z f : Outline g) : (z.atop f).settled = (z.hold f.settled).settled := by
  have hclosed : f.close f.layers.length = ⟨f.settled, []⟩ := by
    rw [eq_of_layers_eq_nil (close_length_layers f), settled_close]
  rw [← settled_close f.layers.length, ← atop_close (Nat.le_refl _), hclosed]
  rfl

theorem atop_leave {name : TagName} (hfound : ∃ l ∈ f.layers, l.name = name) :
    z.atop (f.leave name) = (z.atop f).leave name := by
  have hsome : ∃ n, f.layers.findIdx? (·.name == name) = some n := by
    rw [← Option.isSome_iff_exists, List.findIdx?_isSome]
    simpa using hfound
  rcases hsome with ⟨n, hn⟩
  have hall : (z.atop f).layers.findIdx? (·.name == name) = some n := by
    simp [atop, List.findIdx?_append, hn]
  have hlt : n < f.layers.length := (List.findIdx?_eq_some_iff_getElem.mp hn).1
  unfold leave
  rw [hn, hall]
  exact atop_close hlt

theorem atop_putUp (line : List (Layer g)) (z f : Outline g) : z.atop (f.putUp line) = (z.atop f).putUp line := by
  simp [atop, putUp]

theorem atop_take_drop (n : Nat) (z : Outline g) : atop ⟨z.ground, z.layers.drop n⟩ ⟨.nil, z.layers.take n⟩ = z := by
  unfold atop
  rw [hold_nil, List.take_append_drop]

section Drafts

theorem openedOf_drop (ground : Content) (ls : List (Layer g)) (n : Nat) :
    (openedOf ground ls).drop n = openedOf ground (ls.drop n) := by
  induction n generalizing ls with
  | zero => rfl
  | succ n ih =>
    cases ls with
    | nil => rfl
    | cons l ls => apply ih

theorem eventsOf_prefix (ground : Content) (ls ms : List (Layer g)) :
    eventsOf ground ms <+: eventsOf ground (ls ++ ms) := by
  induction ls with
  | nil => apply List.prefix_refl
  | cons l ls ih =>
    apply ih.trans
    apply List.prefix_append

theorem opened_suffix_atop (z f : Outline g) : z.draft.opened <:+ (z.atop f).draft.opened := by
  have hopened := openedOf_drop (z.hold f.ground).ground (z.atop f).layers f.layers.length
  have hlayers : (z.atop f).layers.drop f.layers.length = (z.hold f.ground).layers := by
    rw [atop, List.drop_left]
  rw [hlayers, openedOf_hold] at hopened
  unfold draft
  rw [← hopened]
  apply List.drop_suffix

theorem output_atop (z f : Outline g) {i : Nat} (hi : i < z.draft.output.size) :
    (z.atop f).draft.output[i]? = z.draft.output[i]? := by
  have hevents := eventsOf_prefix (z.hold f.ground).ground f.layers (z.hold f.ground).layers
  rw [eventsOf_hold] at hevents
  rcases (List.prefix_append _ _).trans hevents with ⟨behind, hbehind⟩
  simp only [draft, List.size_toArray, List.getElem?_toArray] at hi ⊢
  rw [atop, ← hbehind, List.getElem?_append_left hi]

theorem start_of_drop {z : Outline g} {n : Nat} {e : OpenElement} {outer : List OpenElement}
    (h : z.draft.opened.drop n = e :: outer) :
    outer = (draft ⟨z.ground, z.layers.drop (n + 1)⟩).opened
      ∧ ∀ start ∈ e.start, start = (draft ⟨z.ground, z.layers.drop (n + 1)⟩).output.size := by
  rw [draft, openedOf_drop] at h
  rw [← List.tail_drop]
  cases hlayers : z.layers.drop n with
  | nil =>
    rw [hlayers] at h
    cases h
  | cons l ls =>
    rw [hlayers, openedOf, List.cons.injEq] at h
    rcases h with ⟨rfl, rfl⟩
    refine ⟨rfl, ?_⟩
    cases l <;> simp [Layer.opened, draft]

end Drafts

end Outline

end NoteMarkup
