import NoteMarkup.Proofs.Run

/-!
This module contains the melting of layers. A layer for which nothing was written can be taken out of an outline,
with what it holds left to the layer around it; the document stays the same, and so does what the steps on outlines
do to the other layers.
-/

namespace NoteMarkup

namespace Layer

variable {g : Grammar}

/-- Whether nothing was written for the layer, and its name is one of those to be taken out. -/
def melts (p : TagName → Bool) : Layer g → Bool
  | silent name _ _ => p name
  | written .. => false

@[simp]
theorem emptied_melts (p : TagName → Bool) (l : Layer g) : l.emptied.melts p = l.melts p := by
  cases l <;> rfl

theorem settled_of_melts {p : TagName → Bool} {l : Layer g} (h : l.melts p) : l.settled = l.held := by
  cases l with
  | silent name since held => rfl
  | written tag since held => cases h

theorem startTag?_of_melts {p : TagName → Bool} {l : Layer g} (h : l.melts p) : l.startTag? = none := by
  cases l with
  | silent name since held => rfl
  | written tag since held => cases h

end Layer

namespace Outline

variable {g : Grammar} (p : TagName → Bool)

def solid (ls : List (Layer g)) : List (Layer g) :=
  ls.filter fun l => !l.melts p

def meltOnto (ground : Content) : List (Layer g) → Outline g
  | [] => { ground := ground }
  | l :: ls =>
    if l.melts p then (meltOnto ground ls).hold l.held
    else { meltOnto ground ls with layers := l :: (meltOnto ground ls).layers }

def melt (z : Outline g) : Outline g :=
  meltOnto p z.ground z.layers

theorem solid_cons_of_melts {l : Layer g} (h : l.melts p) (ls : List (Layer g)) : solid p (l :: ls) = solid p ls := by
  simp [solid, h]

theorem solid_cons_of_not_melts {l : Layer g} (h : l.melts p = false) (ls : List (Layer g)) :
    solid p (l :: ls) = l :: solid p ls := by
  simp [solid, h]

theorem solid_append (ls ms : List (Layer g)) : solid p (ls ++ ms) = solid p ls ++ solid p ms := by
  simp [solid]

theorem solid_eq_take (ls : List (Layer g)) (n : Nat) :
    solid p (ls.take n) = (solid p ls).take (solid p (ls.take n)).length := by
  have h := congrArg (solid p) (List.take_append_drop n ls)
  rw [solid_append] at h
  rw [← h, List.take_left]

@[simp]
theorem melt_shells (z : Outline g) : (z.melt p).shells = solid p z.shells := by
  rcases z with ⟨ground, ls⟩
  unfold melt
  induction ls with
  | nil => rfl
  | cons l ls ih =>
    have hshells : shells ⟨ground, l :: ls⟩ = l.emptied :: shells ⟨ground, ls⟩ := rfl
    rw [hshells]
    unfold meltOnto
    split
    . next h => rw [hold_shells, ih, solid_cons_of_melts p (by simpa using h)]
    . next h =>
      rw [solid_cons_of_not_melts p (by simpa using h), ← ih]
      rfl

theorem melt_layers_length (z : Outline g) : (z.melt p).layers.length = (solid p z.shells).length := by
  rw [← melt_shells, shells_length]

@[simp]
theorem melt_hold (more : Content) (z : Outline g) : (z.hold more).melt p = (z.melt p).hold more := by
  rcases z with ⟨ground, _ | ⟨l, ls⟩⟩
  . rfl
  . have hmelts : (l.hold more).melts p = l.melts p := by cases l <;> rfl
    have hhold : hold more ⟨ground, l :: ls⟩ = ⟨ground, l.hold more :: ls⟩ := rfl
    rw [hhold]
    unfold melt meltOnto
    simp only [hmelts]
    split
    . rw [Layer.hold_held, hold_hold]
    . rfl

theorem melt_closeInnermost (z : Outline g) :
    z.closeInnermost.melt p = (z.melt p).close (solid p (z.shells.take 1)).length := by
  rcases z with ⟨ground, _ | ⟨l, ls⟩⟩
  . rfl
  . have hclose : closeInnermost ⟨ground, l :: ls⟩ = hold l.settled ⟨ground, ls⟩ := rfl
    have hfirst : (shells ⟨ground, l :: ls⟩).take 1 = [l.emptied] := rfl
    rw [hclose, hfirst, melt_hold]
    by_cases h : l.melts p
    . rw [solid_cons_of_melts p (by simpa using h), Layer.settled_of_melts h]
      unfold melt
      rw [meltOnto, if_pos h]
      rfl
    . have h : l.melts p = false := by simpa using h
      rw [solid_cons_of_not_melts p (by simpa using h)]
      unfold melt
      rw [meltOnto, if_neg (by simp [h])]
      rfl

theorem close_close (n m : Nat) (z : Outline g) : (z.close n).close m = z.close (n + m) := by
  induction n generalizing z with
  | zero => simp [close]
  | succ n ih =>
    rw [show n + 1 + m = n + m + 1 by omega]
    exact ih z.closeInnermost

theorem melt_close (n : Nat) (z : Outline g) :
    (z.close n).melt p = (z.melt p).close (solid p (z.shells.take n)).length := by
  induction n generalizing z with
  | zero => rfl
  | succ n ih =>
    have hsplit : z.shells.take (n + 1) = z.shells.take 1 ++ z.shells.tail.take n := by
      cases z.shells <;> simp
    have hclose : z.close (n + 1) = z.closeInnermost.close n := rfl
    rw [hclose, ih, melt_closeInnermost, closeInnermost_shells, close_close, hsplit, solid_append, List.length_append]

theorem melt_putUp_line (n : Nat) (z y : Outline g) :
    (y.putUp (z.line n)).melt p
      =
    (y.melt p).putUp ((z.melt p).line (solid p (z.shells.take n)).length) := by
  have hline (m : Nat) (x y : Outline g) : y.putUp (x.line m) = { y with layers := x.shells.take m ++ y.layers } := by
    rw [← line_shells]
    rfl
  rw [hline, hline, melt_shells, ← solid_eq_take]
  have hempty : ∀ l ∈ z.shells.take n, l.held = .nil := by
    intro l hmem
    rcases List.mem_map.mp (List.mem_of_mem_take hmem) with ⟨l', -, rfl⟩
    cases l' <;> rfl
  generalize z.shells.take n = above at hempty
  unfold melt
  induction above with
  | nil => rfl
  | cons l above ih =>
    rw [List.forall_mem_cons] at hempty
    specialize ih hempty.2
    rw [List.cons_append, meltOnto]
    dsimp only at ih
    split
    . next h => rw [solid_cons_of_melts p h, hempty.1, hold_nil, ih]
    . next h => rw [solid_cons_of_not_melts p (by simpa using h), ih]; rfl

theorem melt_openWritten (tag : Tag g) (now : Nat) (z : Outline g) :
    (z.openWritten tag now).melt p = (z.melt p).openWritten tag now := rfl

theorem melt_openSilently_of_not {name : TagName} (h : p name = false) (now : Nat) (z : Outline g) :
    (z.openSilently name now).melt p = (z.melt p).openSilently name now := by
  unfold openSilently melt
  rw [meltOnto, if_neg (by simpa [Layer.melts] using h)]

theorem melt_openSilently_of {name : TagName} (h : p name) (now : Nat) (z : Outline g) :
    (z.openSilently name now).melt p = z.melt p := by
  unfold openSilently melt
  rw [meltOnto, if_pos (by simpa [Layer.melts] using h)]
  exact hold_nil _

@[simp]
theorem melt_events (z : Outline g) :
    eventsOf (z.melt p).ground (z.melt p).layers = eventsOf z.ground z.layers := by
  rcases z with ⟨ground, ls⟩
  unfold melt
  induction ls with
  | nil => rfl
  | cons l ls ih =>
    dsimp only at ih ⊢
    unfold meltOnto
    split
    . next h => simp [eventsOf_hold, ih, eventsOf, Layer.startTag?_of_melts h]
    . simp [eventsOf, ih]

@[simp]
theorem melt_settled (z : Outline g) : (z.melt p).settled = z.settled := by
  have hall : (solid p (z.shells.take z.layers.length)).length = (z.melt p).layers.length := by
    rw [melt_layers_length, List.take_of_length_le (by simp)]
  have hclosed := melt_close p z.layers.length z
  rw [hall] at hclosed
  unfold settled
  rw [← hclosed]
  unfold melt
  rw [close_length_layers]
  rfl

theorem holderOf_solid (ls : List (Layer g)) :
    holderOf (solid p ls) = (holderOf ls).map fun (inside, k) => ((solid p (ls.take inside)).length, k) := by
  have hcons (l : Layer g) (ls : List (Layer g))
      (ih : holderOf (solid p ls) = (holderOf ls).map fun (inside, k) => ((solid p (ls.take inside)).length, k))
      (h : holderOf (l :: solid p ls) = (holderOf (solid p ls)).map fun (inside, k) => (inside + 1, k)) :
      holderOf (solid p (l :: ls))
        =
      (holderOf ls).map fun (inside, k) => ((solid p ((l :: ls).take (inside + 1))).length, k) := by
    by_cases hmelts : l.melts p
    . simp [solid_cons_of_melts p hmelts, ih]
    . have hmelts : l.melts p = false := by simpa using hmelts
      rw [solid_cons_of_not_melts p hmelts, h, ih]
      simp [solid_cons_of_not_melts p hmelts, Function.comp_def]
  induction ls with
  | nil => rfl
  | cons l ls ih =>
    cases l with
    | silent name since held =>
      rw [hcons _ ls ih rfl]
      simp [holderOf, Function.comp_def]
    | written tag since held =>
      by_cases hinline : tag.entry.isInline
      . rw [hcons _ ls ih (by simp [holderOf, hinline])]
        simp [holderOf, hinline, Function.comp_def]
      . simp [solid, holderOf, hinline, Layer.melts]

theorem solid_take_holder {ls : List (Layer g)} {inside : Nat} {k : ElementKind} (h : holderOf ls = some (inside, k)) :
    (solid p (ls.take (inside + 1))).length = (solid p (ls.take inside)).length + 1 := by
  induction ls generalizing inside with
  | nil => cases h
  | cons l ls ih =>
    have hdeeper (h : ((holderOf ls).map fun (inside, k) => (inside + 1, k)) = some (inside, k)) :
        (solid p ((l :: ls).take (inside + 1))).length = (solid p ((l :: ls).take inside)).length + 1 := by
      simp only [Option.map_eq_some_iff, Prod.mk.injEq, Prod.exists] at h
      rcases h with ⟨further, _, hfurther, rfl, rfl⟩
      specialize ih hfurther
      by_cases hmelts : l.melts p
      . simpa [solid_cons_of_melts p hmelts] using ih
      . simpa [solid_cons_of_not_melts p (by simpa using hmelts : l.melts p = false)] using ih
    cases l with
    | silent name since held => exact hdeeper h
    | written tag since held =>
      unfold holderOf at h
      split at h
      . exact hdeeper h
      . cases h
        rfl

variable {p} in
theorem melt_endLine (now : Nat) {z : Outline .standard}
    (h : ∀ inside, ((z.close inside).melt p).drops .p = (z.close inside).drops .p) :
    (z.endLine now).melt p = (z.melt p).endLine now := by
  unfold endLine
  rw [melt_shells, holderOf_solid]
  cases hholder : holderOf z.shells with
  | none => simp
  | some holder =>
    rcases holder with ⟨inside, k⟩
    simp only [Option.map_some]
    split
    . rfl
    . split
      . have hplain : ((z.close inside).openPlain now).melt p = ((z.close inside).melt p).openPlain now := by
          unfold openPlain
          rw [h]
          split <;> rfl
        rw [melt_putUp_line, hplain, melt_close]
      . rw [melt_putUp_line, melt_close, solid_take_holder p hholder]

theorem findIdx?_solid {q : Layer g → Bool} {ls : List (Layer g)} (h : ∀ l ∈ ls, q l → l.melts p = false) :
    ((solid p ls).findIdx? q).map (· + 1) = (ls.findIdx? q).map fun i => (solid p (ls.take (i + 1))).length := by
  induction ls with
  | nil => rfl
  | cons l ls ih =>
    rw [List.forall_mem_cons] at h
    specialize ih h.2
    by_cases hq : q l
    . have hfirst : solid p [l] = [l] := solid_cons_of_not_melts p (h.1 hq) []
      rw [solid_cons_of_not_melts p (h.1 hq)]
      simp [List.findIdx?_cons, hq, hfirst]
    . by_cases hmelts : l.melts p
      . simp [solid_cons_of_melts p hmelts, List.findIdx?_cons, hq, ih, Function.comp_def]
      . have hmelts : l.melts p = false := by simpa using hmelts
        rw [solid_cons_of_not_melts p hmelts, List.findIdx?_cons, List.findIdx?_cons]
        simp only [hq, Bool.false_eq_true, ↓reduceIte, Option.map_map, Function.comp_def, List.take_succ_cons,
          solid_cons_of_not_melts p hmelts, List.length_cons]
        have := congrArg (Option.map (· + 1)) ih
        simpa [Function.comp_def] using this

theorem melt_leave {name : TagName} (h : p name = false) (z : Outline g) :
    (z.leave name).melt p = (z.melt p).leave name := by
  have hsolid : ∀ l ∈ z.shells, (l.name == name) → l.melts p = false := by
    intro l _ hname
    cases l with
    | silent raw since held =>
      rw [beq_iff_eq] at hname
      rw [← hname] at h
      exact h
    | written tag since held => rfl
  have hplace := findIdx?_solid p hsolid
  have hfind (x : Outline g) : x.layers.findIdx? (·.name == name) = x.shells.findIdx? (·.name == name) := by
    simp [shells, List.findIdx?_map, Function.comp_def]
  unfold leave
  rw [hfind, hfind, melt_shells]
  cases hfound : z.shells.findIdx? (·.name == name) with
  | none =>
    rw [hfound, Option.map_none, Option.map_eq_none_iff] at hplace
    rw [hplace]
  | some i =>
    rw [hfound, Option.map_some, Option.map_eq_some_iff] at hplace
    rcases hplace with ⟨j, hj, heq⟩
    rw [hj]
    dsimp only
    rw [melt_close, heq]

end Outline

end NoteMarkup
