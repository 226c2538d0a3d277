import NoteMarkup.Proofs.Melting

/-!
This module contains outlines without inline elements. What is left of an outline when the tags of inline elements
are taken out of it is its skeleton; the steps on outlines do to the skeleton what they do to the layers that are
not inline.
-/

namespace NoteMarkup

def TagName.isInline (name : TagName) : Bool :=
  name.kind?.any (·.isInline)

@[simp]
theorem TagName.isInline_known (k : ElementKind) : (TagName.known k).isInline = k.isInline := rfl

def Event.isInlineTag : Event → Bool
  | .startTag kind _ | .endTag kind => kind.isInline
  | .standaloneTag .. | .text _ => false

namespace Content

def stripped : Content → Content
  | nil => nil
  | element before kind attributes held =>
    if kind.isInline then before.stripped ++ held.stripped
    else element before.stripped kind attributes held.stripped
  | standalone before kind attributes => standalone before.stripped kind attributes
  | text before content => text before.stripped content

@[simp]
theorem stripped_append (a b : Content) : (a ++ b).stripped = a.stripped ++ b.stripped := by
  induction b with
  | nil => rfl
  | element before kind attributes held ih =>
    simp only [append_element, stripped, ih]
    split
    . rw [append_assoc]
    . rfl
  | standalone before kind attributes ih => simp [stripped, ih]
  | text before content ih => simp [stripped, ih]

theorem stripped_events (a : Content) : a.stripped.events = a.events.filter fun e => !e.isInlineTag := by
  induction a with
  | nil => rfl
  | element before kind attributes held ihbefore ihheld =>
    by_cases hinline : kind.isInline
    . simp [stripped, hinline, events, ihbefore, ihheld, Event.isInlineTag]
    . simp [stripped, hinline, events, ihbefore, ihheld, Event.isInlineTag]
  | standalone before kind attributes ih => simp [stripped, events, ih, Event.isInlineTag]
  | text before content ih => simp [stripped, events, ih, Event.isInlineTag]

theorem append_eq_nil_iff {a b : Content} : a ++ b = nil ↔ a = nil ∧ b = nil := by
  cases b <;> simp

theorem Lawful.stripped_eq_nil_iff {o : CleaningOptions} {bare : Prop} {a : Content} {frame : Option ElementKind}
    (h : a.Lawful o bare frame) : a.stripped = nil ↔ a = nil := by
  induction a generalizing frame with
  | nil => simp [stripped]
  | element before kind attributes held ihbefore ihheld =>
    rcases h with ⟨-, -, -, -, hne, hheld⟩
    have hleft : held.stripped ≠ nil := by rwa [ne_eq, ihheld hheld]
    unfold stripped
    split
    . simp [append_eq_nil_iff, hleft]
    . simp
  | standalone before kind attributes ih => simp [stripped]
  | text before content ih => simp [stripped]

end Content

@[simp]
theorem Outline.tagOf_kind (k : ElementKind) (attributes : List Attribute) : (tagOf k attributes).entry.kind = k := by
  simp [tagOf]

namespace Layer

@[simp]
theorem written_tagOf_name (k : ElementKind) (attributes : List Attribute) (since : Nat) (held : Content) :
    (written (Outline.tagOf k attributes) since held).name = .known k := by
  simp [name]

def stripped : Layer .standard → Layer .standard
  | silent name since held => silent name since held.stripped
  | written tag since held =>
    if tag.entry.kind.isInline then silent (.known tag.entry.kind) since held.stripped
    else written tag since held.stripped

@[simp]
theorem stripped_held (l : Layer .standard) : l.stripped.held = l.held.stripped := by
  cases l with
  | silent name since held => rfl
  | written tag since held =>
    simp only [stripped]
    split <;> rfl

@[simp]
theorem stripped_name (l : Layer .standard) : l.stripped.name = l.name := by
  cases l with
  | silent name since held => rfl
  | written tag since held =>
    simp only [stripped]
    split <;> rfl

theorem stripped_hold (l : Layer .standard) (more : Content) :
    (l.hold more).stripped = l.stripped.hold more.stripped := by
  cases l with
  | silent name since held => simp [stripped, hold]
  | written tag since held =>
    simp only [stripped, hold]
    split <;> simp

theorem stripped_emptied (l : Layer .standard) : l.emptied.stripped = l.stripped.emptied := by
  cases l with
  | silent name since held => rfl
  | written tag since held =>
    simp only [stripped, emptied]
    split <;> rfl

theorem stripped_melts (l : Layer .standard) : l.stripped.melts TagName.isInline = l.name.isInline := by
  cases l with
  | silent name since held => rfl
  | written tag since held =>
    simp only [stripped]
    split
    . rfl
    . next hinline => simpa [melts, name, TagName.isInline, TagName.kind?] using hinline

theorem stripped_of_not_inline {l : Layer .standard} (h : l.name.isInline = false) :
    l.emptied.stripped = l.emptied := by
  cases l with
  | silent name since held => rfl
  | written tag since held =>
    have hkind : tag.entry.kind.isInline = false := h
    simp [emptied, stripped, hkind, Content.stripped]

theorem settled_stripped {o : CleaningOptions} {bare : Prop} {l : Layer .standard} {frame : Option ElementKind}
    (h : l.held.Lawful o bare frame) : l.settled.stripped = l.stripped.settled := by
  cases l with
  | silent name since held => rfl
  | written tag since held =>
    have hnil := h.stripped_eq_nil_iff
    simp only [Layer.held] at hnil
    simp only [stripped]
    split
    . next hinline =>
      -- an inline element is taken back if it holds nothing
      have hcollapses : tag.entry.collapses = false := by
        rw [← Outline.tag_entry, ElementKind.entry_collapses]
        revert hinline
        cases tag.entry.kind <;> decide
      simp only [settled, hcollapses]
      split
      . next hempty => simp [hempty, Content.stripped]
      . simp [Content.stripped, hinline]
    . next hinline =>
      simp only [settled, hnil]
      split
      . split <;> rfl
      . simp [Content.stripped, hinline]

end Layer

namespace Outline

variable {o : CleaningOptions} {bare : Prop}

def stripped (z : Outline .standard) : Outline .standard where
  ground := z.ground.stripped
  layers := z.layers.map Layer.stripped

def skeleton (z : Outline .standard) : Outline .standard :=
  z.stripped.melt TagName.isInline

def heavy (ls : List (Layer .standard)) : List (Layer .standard) :=
  ls.filter fun l => !l.name.isInline

section Stripped

theorem stripped_shells (z : Outline .standard) : z.stripped.shells = z.shells.map Layer.stripped := by
  simp [shells, stripped, Function.comp_def, Layer.stripped_emptied]

theorem stripped_hold (more : Content) (z : Outline .standard) :
    (z.hold more).stripped = z.stripped.hold more.stripped := by
  rcases z with ⟨ground, _ | ⟨l, ls⟩⟩
  . simp [hold, stripped]
  . simp [hold, stripped, Layer.stripped_hold]

theorem stripped_close {z : Outline .standard} (h : z.Sound o bare) (n : Nat) :
    (z.close n).stripped = z.stripped.close n := by
  induction n generalizing z with
  | zero => rfl
  | succ n ih =>
    have hinnermost : z.closeInnermost.stripped = z.stripped.closeInnermost := by
      rcases z with ⟨ground, _ | ⟨l, ls⟩⟩
      . rfl
      . have hlawful := h.lawful.1
        simp only [closeInnermost, stripped_hold, Layer.settled_stripped hlawful]
        rfl
    unfold close
    rw [ih h.closeInnermost, hinnermost]

theorem stripped_putUp_line (n : Nat) (z y : Outline .standard) :
    (y.putUp (z.line n)).stripped = y.stripped.putUp (z.stripped.line n) := by
  simp [putUp, line, stripped, Function.comp_def, Layer.stripped_emptied, ← List.map_take, ← List.map_reverse]

theorem stripped_openWritten {tag : Tag .standard} (h : tag.entry.kind.isInline) (now : Nat) (z : Outline .standard) :
    (z.openWritten tag now).stripped = z.stripped.openSilently (.known tag.entry.kind) now := by
  simp [openWritten, openSilently, stripped, Layer.stripped, h, Content.stripped]

theorem stripped_openWritten_of_not {tag : Tag .standard} (h : tag.entry.kind.isInline = false) (now : Nat)
    (z : Outline .standard) : (z.openWritten tag now).stripped = z.stripped.openWritten tag now := by
  simp [openWritten, stripped, Layer.stripped, h, Content.stripped]

theorem holderOf_stripped (ls : List (Layer .standard)) : holderOf (ls.map Layer.stripped) = holderOf ls := by
  induction ls with
  | nil => rfl
  | cons l ls ih =>
    cases l with
    | silent name since held => simp [Layer.stripped, holderOf, ih]
    | written tag since held =>
      have hinline : tag.entry.isInline = tag.entry.kind.isInline := by
        rw [← ElementKind.entry_isInline, tag_entry]
      by_cases h : tag.entry.kind.isInline
      . simp [Layer.stripped, holderOf, ih, h, hinline]
      . simp [Layer.stripped, holderOf, h, hinline]

end Stripped

section Skeleton

variable {z : Outline .standard}

theorem solid_stripped (z : Outline .standard) (n : Nat) :
    solid TagName.isInline (z.stripped.shells.take n) = heavy (z.shells.take n) := by
  rw [stripped_shells, ← List.map_take]
  unfold solid heavy shells
  rw [← List.map_take]
  induction z.layers.take n with
  | nil => rfl
  | cons l ls ih =>
    simp only [List.map_cons, List.filter_cons, Layer.stripped_melts, Layer.emptied_name, ih]
    split
    . next h => rw [Layer.stripped_of_not_inline (by simpa using h)]
    . rfl

theorem skeleton_shells (z : Outline .standard) : z.skeleton.shells = heavy z.shells := by
  have hall := solid_stripped z z.layers.length
  rwa [List.take_of_length_le (by simp [stripped]), List.take_of_length_le (by simp), ← melt_shells] at hall

theorem skeleton_hold (more : Content) (z : Outline .standard) :
    (z.hold more).skeleton = z.skeleton.hold more.stripped := by
  unfold skeleton
  rw [stripped_hold, melt_hold]

theorem skeleton_close (h : z.Sound o bare) (n : Nat) :
    (z.close n).skeleton = z.skeleton.close (heavy (z.shells.take n)).length := by
  unfold skeleton
  rw [stripped_close h, melt_close, solid_stripped]

theorem skeleton_putUp_line (n : Nat) (z y : Outline .standard) :
    (y.putUp (z.line n)).skeleton = y.skeleton.putUp (z.skeleton.line (heavy (z.shells.take n)).length) := by
  unfold skeleton
  rw [stripped_putUp_line, melt_putUp_line, solid_stripped]

theorem skeleton_place {k : ElementKind} (h : k.isInline) (attributes : List Attribute) (now : Nat)
    (z : Outline .standard) : (z.place k attributes now).skeleton = z.skeleton := by
  unfold skeleton place
  rw [stripped_openWritten (by simpa using h), tagOf_kind]
  exact melt_openSilently_of _ h now _

theorem skeleton_place_of_not {k : ElementKind} (h : k.isInline = false) (attributes : List Attribute) (now : Nat)
    (z : Outline .standard) : (z.place k attributes now).skeleton = z.skeleton.place k attributes now := by
  unfold skeleton place
  rw [stripped_openWritten_of_not (by simpa using h)]
  exact melt_openWritten _ _ now _

theorem skeleton_openSilently {name : TagName} (h : name.isInline) (now : Nat) (z : Outline .standard) :
    (z.openSilently name now).skeleton = z.skeleton :=
  melt_openSilently_of _ h now z.stripped

theorem skeleton_openSilently_of_not {name : TagName} (h : name.isInline = false) (now : Nat) (z : Outline .standard) :
    (z.openSilently name now).skeleton = z.skeleton.openSilently name now :=
  melt_openSilently_of_not _ h now z.stripped

theorem skeleton_settled (h : z.Sound o bare) : z.skeleton.settled = z.settled.stripped := by
  have hclosed := stripped_close h z.layers.length
  have hlength : z.stripped.layers.length = z.layers.length := by simp [stripped]
  unfold skeleton
  rw [melt_settled]
  unfold settled
  rw [hlength, ← hclosed]
  rfl

theorem holderOf_skeleton (z : Outline .standard) :
    holderOf z.skeleton.shells
      =
    (holderOf z.shells).map fun (inside, k) => ((heavy (z.shells.take inside)).length, k) := by
  unfold skeleton
  rw [melt_shells, holderOf_solid, stripped_shells, holderOf_stripped]
  simp only [← stripped_shells, solid_stripped]

theorem Stacked.isInline_of_silent {ls : List (Layer .standard)} (h : Stacked ls) {k : ElementKind} {since : Nat}
    {held : Content} (hmem : .silent (.known k) since held ∈ ls) : k.isInline := by
  induction ls with
  | nil => cases hmem
  | cons l ls ih =>
    rw [List.mem_cons] at hmem
    rcases hmem with rfl | hmem
    . exact h.1
    . exact ih h.tail hmem

def untouched : List (Layer .standard) → Bool
  | [] => false
  | .silent name _ held :: ls => held = .nil && (name.kind?.isNone && untouched ls)
  | .written _ _ held :: _ => held = .nil

theorem opens_append_events (first : List Event) (content : Content) (k : ElementKind) :
    (first ++ content.events).getLast?.any (·.opens k) = (content = .nil && first.getLast?.any (·.opens k)) := by
  cases content with
  | nil => simp [Content.events]
  | element before kind attributes held =>
    rw [Content.events, ← List.cons_append, ← List.append_assoc, ← List.append_assoc, List.getLast?_concat]
    simp [Event.opens]
  | standalone before kind attributes => simp [Content.events, ← List.append_assoc, Event.opens]
  | text before content => simp [Content.events, ← List.append_assoc, Event.opens]

theorem opens_last {ls : List (Layer .standard)} {k : ElementKind} (ground : Content) (hnearest : nearestOf ls = some k)
    (hsilent : ∀ since held, .silent (.known k) since held ∉ ls) :
    (eventsOf ground ls).getLast?.any (·.opens k) = untouched ls := by
  induction ls with
  | nil => cases hnearest
  | cons l ls ih =>
    rw [eventsOf, ← List.append_assoc, opens_append_events]
    cases l with
    | written tag since held =>
      have hkind : tag.entry.kind = k := by simpa [nearestOf, Layer.name, TagName.kind?] using hnearest
      simp only [Layer.startTag?, Layer.held, untouched, Option.toList_some, List.getLast?_concat, Option.any_some,
        Event.opens, hkind, beq_self_eq_true, Bool.and_true]
      rfl
    | silent name since held =>
      cases name with
      | known w =>
        have hkind : w = k := by simpa [nearestOf, Layer.name, TagName.kind?] using hnearest
        exact absurd (by simp [hkind]) (hsilent since held)
      | unknown name =>
        have hrest := ih hnearest fun since held hmem => hsilent since held (by simp [hmem])
        simp only [Layer.startTag?, Layer.held, untouched, Option.toList_none, List.append_nil, hrest, TagName.kind?,
          Option.isNone_none, Bool.true_and]
        rfl

theorem untouched_meltOnto {ground : Content} {ls : List (Layer .standard)} {k : ElementKind}
    (hlawful : HeldLawful o bare ground ls) (hnearest : nearestOf ls = some k) (hk : k.isInline = false) :
    untouched (meltOnto TagName.isInline ground.stripped (ls.map Layer.stripped)).layers = untouched ls := by
  induction ls with
  | nil => cases hnearest
  | cons l ls ih =>
    have hnil := hlawful.1.stripped_eq_nil_iff
    cases l with
    | written tag since held =>
      have hkind : tag.entry.kind.isInline = false := by
        have : tag.entry.kind = k := by simpa [nearestOf, Layer.name, TagName.kind?] using hnearest
        rwa [this]
      simp only [Layer.held] at hnil
      simp [Layer.stripped, hkind, meltOnto, Layer.melts, untouched, hnil]
    | silent name since held =>
      simp only [Layer.held] at hnil
      cases name with
      | known w =>
        have hkind : w.isInline = false := by
          have : w = k := by simpa [nearestOf, Layer.name, TagName.kind?] using hnearest
          rwa [this]
        simp [Layer.stripped, meltOnto, Layer.melts, TagName.isInline, TagName.kind?, hkind, untouched]
      | unknown name =>
        have hrest := ih hlawful.2 hnearest
        simp [Layer.stripped, meltOnto, Layer.melts, TagName.isInline, TagName.kind?, untouched, hnil, hrest]

theorem nearestOf_heavy {ls : List (Layer .standard)} {k : ElementKind} (h : nearestOf ls = some k)
    (hk : k.isInline = false) : nearestOf (heavy ls) = some k := by
  induction ls with
  | nil => cases h
  | cons l ls ih =>
    unfold nearestOf at ih h ⊢
    rw [List.findSome?_cons] at h
    cases hkind : l.name.kind? with
    | none => simpa [heavy, TagName.isInline, hkind] using ih (by simpa [hkind] using h)
    | some w =>
      have : w = k := by simpa [hkind] using h
      simp [heavy, TagName.isInline, hkind, this, hk]

theorem nearest_skeleton {k : ElementKind} (h : z.nearest = some k) (hk : k.isInline = false) :
    z.skeleton.nearest = some k := by
  unfold nearest
  rw [skeleton_shells]
  exact nearestOf_heavy h hk

theorem drops_eq_of_nearest {k w : ElementKind} (hw : z.nearest = some w) (hwinline : w.isInline = false)
    (hsilent : ∀ l ∈ z.shells, ∀ k since, l = .silent (.known k) since .nil → k.isInline) :
    z.drops k = ((w == .li || w == .dd || w == .td || w == .th) && (k == .p && untouched z.layers)) := by
  have hnearest : nearestOf z.layers = some w := by rwa [← nearestOf_emptied]
  have hlast := opens_last z.ground hnearest <| by
    intro since held hmem
    have := hsilent _ (List.mem_map_of_mem hmem) w since rfl
    rw [hwinline] at this
    cases this
  have hback : z.draft.output.back? = (eventsOf z.ground z.layers).getLast? := by simp [draft]
  simp [drops, hw, ElementKind.entry_drops, hback, hlast]

theorem drops_skeleton (h : z.Sound o bare) {w : ElementKind} (hw : z.nearest = some w) (hwinline : w.isInline = false)
    (k : ElementKind) : z.skeleton.drops k = z.drops k := by
  have hsilent : ∀ l ∈ z.shells, ∀ k since, l = .silent (.known k) since .nil → k.isInline := by
    rintro _ hmem k since rfl
    exact h.stacked.isInline_of_silent hmem
  have huntouched : untouched z.skeleton.layers = untouched z.layers := by
    apply untouched_meltOnto h.lawful _ hwinline
    rwa [← nearestOf_emptied]
  rw [drops_eq_of_nearest hw hwinline hsilent, drops_eq_of_nearest (nearest_skeleton hw hwinline) hwinline, huntouched]
  rw [skeleton_shells]
  intro l hmem
  exact hsilent l (List.mem_filter.mp hmem).1

theorem holderOf_cons_cases (l : Layer .standard) :
    (∃ k, l.name = .known k ∧ k.isInline = false ∧ ∀ ls, holderOf (l :: ls) = some (0, k))
      ∨
    ∀ ls, holderOf (l :: ls) = (holderOf ls).map fun (inside, k) => (inside + 1, k) := by
  cases l with
  | silent name since held => exact .inr fun _ => rfl
  | written tag since held =>
    by_cases hinline : tag.entry.isInline
    . exact .inr fun ls => by simp [holderOf, hinline]
    . refine .inl ⟨tag.entry.kind, rfl, ?_, fun ls => by simp [holderOf, hinline]⟩
      rw [← ElementKind.entry_isInline, tag_entry]
      simpa using hinline

theorem heavy_take_holder {ls : List (Layer .standard)} {inside : Nat} {k : ElementKind}
    (h : holderOf ls = some (inside, k)) :
    (heavy (ls.take (inside + 1))).length = (heavy (ls.take inside)).length + 1 := by
  induction ls generalizing inside with
  | nil => cases h
  | cons l ls ih =>
    rcases holderOf_cons_cases l with ⟨w, hname, hw, hholder⟩ | hholder
    . rw [hholder] at h
      cases h
      simp [heavy, hname, TagName.isInline, TagName.kind?, hw]
    . rw [hholder] at h
      simp only [Option.map_eq_some_iff, Prod.mk.injEq, Prod.exists] at h
      rcases h with ⟨further, _, hfurther, rfl, rfl⟩
      specialize ih hfurther
      unfold heavy at ih ⊢
      by_cases hinline : l.name.isInline
      . simpa [hinline] using ih
      . simpa [hinline] using ih

theorem skeleton_endLine (h : z.Sound o bare) (now : Nat) : (z.endLine now).skeleton = z.skeleton.endLine now := by
  unfold endLine
  rw [holderOf_skeleton]
  cases hholder : holderOf z.shells with
  | none => exact skeleton_hold _ z
  | some holder =>
    rcases holder with ⟨inside, k⟩
    simp only [Option.map_some]
    split
    . rfl
    . split
      . have hplain : ((z.close inside).openPlain now).skeleton = (z.close inside).skeleton.openPlain now := by
          unfold openPlain
          rw [drops_skeleton (h.close inside) (nearest_close_of_holderOf hholder) (holderOf_drop hholder).2.2]
          split
          . rfl
          . exact skeleton_place_of_not rfl [] now _
        rw [skeleton_putUp_line, hplain, skeleton_close h]
      . rw [skeleton_putUp_line, skeleton_close h, heavy_take_holder hholder]

end Skeleton

end Outline

end NoteMarkup
