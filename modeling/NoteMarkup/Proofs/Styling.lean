import NoteMarkup.Proofs.StandardGrammar

/-!
This module contains what styles can stand for under the standard grammar: inline elements that have no style
of their own, those of a colour with a colour of the palette.
-/

namespace NoteMarkup

@[simp]
theorem Attribute.lookup?_singleton (name value : String) : lookup? [⟨name, value⟩] name = some value := by
  simp [lookup?, Text.sameLetters]

theorem Attribute.lookup?_style {name : String} (h : name ∈ ["href", "list", "color"]) (value : String) :
    lookup? [⟨name, value⟩] "style" = none := by
  have hother : Text.sameLetters name "style" = false := by
    simp only [List.mem_cons, List.not_mem_nil, or_false] at h
    rcases h with rfl | rfl | rfl <;> decide
  simp [lookup?, hother]

inductive Style.Counterpart.Proper : Style.Counterpart → Prop
  | bare (kind : ElementKind) (h : kind ∈ [.strong, .em, .u, .strike]) : Proper ⟨kind, none⟩
  | colored (kind : ElementKind) (h : kind ∈ [.styleHighlight, .styleFont]) (color : Color)
      (hcolor : color ∈ Color.palette) : Proper ⟨kind, some ⟨"color", color.hex⟩⟩

theorem Color.mem_palette_of_parsePalette? {value : String} {color : Color}
    (h : parsePalette? value = some color) : color ∈ palette := by
  unfold parsePalette? at h
  rw [Option.filter_eq_some_iff] at h
  simpa using h.2

namespace Style

theorem Property.mem_palette_of_shownColor? {value : String} {color : Color}
    (h : shownColor? value = some color) : color ∈ Color.palette := by
  unfold shownColor? at h
  cases hwhole : Color.parsePalette? value with
  | some whole =>
    simp only [hwhole, Option.orElse_some, Option.some.injEq] at h
    subst h
    exact Color.mem_palette_of_parsePalette? hwhole
  | none =>
    simp only [hwhole, Option.orElse_none] at h
    rcases List.exists_of_findSome?_eq_some h with ⟨word, _, hword⟩
    exact Color.mem_palette_of_parsePalette? hword

theorem Property.counterpart?_proper {property : Property} {value : String} {s : Counterpart}
    (h : property.counterpart? value = some s) : s.Proper := by
  cases property with
  | fontWeight =>
    simp only [counterpart?, Option.ite_none_right_eq_some, Option.some.injEq] at h
    rw [← h.2]
    exact .bare .strong (by decide)
  | fontStyle =>
    simp only [counterpart?, Option.ite_none_right_eq_some, Option.some.injEq] at h
    rw [← h.2]
    exact .bare .em (by decide)
  | textDecoration =>
    simp only [counterpart?] at h
    rcases List.exists_of_findSome?_eq_some h with ⟨word, _, hword⟩
    split at hword
    . cases hword
      exact .bare .u (by decide)
    . cases hword
      exact .bare .strike (by decide)
    . cases hword
  | background =>
    simp only [counterpart?, Option.map_eq_some_iff] at h
    rcases h with ⟨color, hcolor, rfl⟩
    exact .colored .styleHighlight (by decide) color (mem_palette_of_shownColor? hcolor)
  | color =>
    simp only [counterpart?, Option.map_eq_some_iff] at h
    rcases h with ⟨color, hcolor, rfl⟩
    exact .colored .styleFont (by decide) color (mem_palette_of_shownColor? hcolor)

theorem counterpart?_proper {property value : String} {s : Counterpart}
    (h : counterpart? property value = some s) : s.Proper := by
  unfold counterpart? at h
  cases hname : Property.ofName? property with
  | none => simp [hname] at h
  | some known =>
    simp only [hname, Option.bind_eq_bind, Option.bind_some] at h
    exact Property.counterpart?_proper h

end Style

theorem Entry.counterparts_proper {e : Entry} {source : List Attribute} {s : Style.Counterpart}
    (h : s ∈ e.counterparts source) : s.Proper := by
  unfold Entry.counterparts at h
  rw [List.mem_append] at h
  rcases h with h | h
  . rw [List.mem_filterMap] at h
    rcases h with ⟨⟨name, property⟩, _, h⟩
    rw [Option.bind_eq_some_iff] at h
    rcases h with ⟨value, _, hvalue⟩
    exact Style.Property.counterpart?_proper hvalue
  . cases hstyle : Attribute.lookup? source "style" with
    | none => simp [hstyle] at h
    | some style =>
      simp only [hstyle, Option.map_some, Option.getD_some, Style.counterparts, List.mem_filterMap] at h
      rcases h with ⟨⟨property, value⟩, _, hvalue⟩
      exact Style.counterpart?_proper hvalue

namespace Style.Counterpart.Proper

variable {s : Style.Counterpart}

theorem isInline (h : s.Proper) : s.kind.isInline := by
  cases h with
  | bare kind h =>
    simp only [List.mem_cons, List.not_mem_nil, or_false] at h
    rcases h with rfl | rfl | rfl | rfl <;> rfl
  | colored kind h color hcolor =>
    simp only [List.mem_cons, List.not_mem_nil, or_false] at h
    rcases h with rfl | rfl <;> rfl

theorem isConcrete (h : s.Proper) : s.kind.isConcrete := by
  simp [ElementKind.isConcrete, h.isInline]

theorem keeps (h : s.Proper) : s.kind.entry.keeps s.attributes := by
  apply ElementKind.entry_keeps
  . rintro heq
    cases h <;> simp_all
  . rintro heq
    cases h <;> simp_all

theorem counterparts_nil (h : s.Proper) : s.kind.entry.counterparts s.attributes = [] := by
  cases h with
  | bare kind h => simp [attributes]
  | colored kind h color hcolor =>
    have hstyle : kind.entry.styleAttributes = [] := by
      simp only [List.mem_cons, List.not_mem_nil, or_false] at h
      rcases h with rfl | rfl <;> rfl
    simp [attributes, Entry.counterparts, Attribute.lookup?_style, hstyle]

end Style.Counterpart.Proper

end NoteMarkup
