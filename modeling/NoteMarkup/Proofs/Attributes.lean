import NoteMarkup.Proofs.Styling

/-!
This module contains the attributes that elements are written with under the standard grammar, and that what
an attribute is kept with is a value it would be kept with again.
-/

namespace NoteMarkup

namespace Text

theorem dropWhile_eq_self {p : Char → Bool} {cs : List Char} (h : ∀ c ∈ cs.head?, p c = false) :
    cs.dropWhile p = cs := by
  cases cs with
  | nil => rfl
  | cons c cs => simp [h c rfl]

theorem dropWhile_eq_of_start {p : Char → Bool} {cs ds : List Char} (h : ds <+: cs.dropWhile p) :
    ds.dropWhile p = ds := by
  apply dropWhile_eq_self
  intro c hc
  rcases h with ⟨es, h⟩
  have hhead := List.head?_dropWhile_not p cs
  rw [← h, List.head?_append, hc] at hhead
  simpa using hhead

theorem dropWhile_trimChars (cs : List Char) : (trimChars cs).dropWhile isBlank = trimChars cs := by
  have hprefix : trimChars cs <+: cs.dropWhile isBlank := by
    unfold trimChars
    rw [← List.reverse_reverse (cs.dropWhile isBlank), List.reverse_prefix, List.reverse_reverse]
    apply List.dropWhile_suffix
  exact dropWhile_eq_of_start hprefix

theorem dropWhile_reverse_trimChars (cs : List Char) :
    (trimChars cs).reverse.dropWhile isBlank = (trimChars cs).reverse := by
  unfold trimChars
  rw [List.reverse_reverse]
  exact dropWhile_eq_of_start (List.prefix_refl _)

theorem trimChars_trimChars (cs : List Char) : trimChars (trimChars cs) = trimChars cs := by
  show (((trimChars cs).dropWhile isBlank).reverse.dropWhile isBlank).reverse = trimChars cs
  rw [dropWhile_trimChars, dropWhile_reverse_trimChars, List.reverse_reverse]

theorem trim_trim (s : String) : trim (trim s) = trim s := by
  simp [trim, trimChars_trimChars]

end Text

theorem Href.usable?_of_usable? {value target : String} (h : usable? value = some target) :
    usable? target = some target := by
  unfold usable? at h ⊢
  dsimp only at h ⊢
  rw [Option.ite_none_left_eq_some, Option.some.injEq] at h
  rcases h with ⟨hmet, rfl⟩
  rw [Text.trim_trim, if_neg hmet]

theorem Color.parsePalette?_hex {color : Color} (h : color ∈ palette) :
    parsePalette? color.hex = some color := by
  revert h
  unfold palette
  simp only [List.mem_cons, List.not_mem_nil, or_false]
  rintro (rfl | rfl | rfl | rfl | rfl | rfl | rfl) <;> decide

namespace ElementKind

/-- The attributes that an element of the kind may be written with. Only if `bare` may elements of a colour
do without one. -/
def MayHave (bare : Prop) (attributes : List Attribute) : ElementKind → Prop
  | a => ∃ target, attributes = [⟨"href", target⟩] ∧ Href.usable? target = some target
  | li => ∃ marker ∈ ["disc", "number"], attributes = [⟨"list", marker⟩]
  | text => attributes = [] ∨ ∃ marker ∈ ["disc", "number"], attributes = [⟨"list", marker⟩]
  | styleFont | styleHighlight =>
    (∃ color ∈ Color.palette, attributes = [⟨"color", color.hex⟩]) ∨ (bare ∧ attributes = [])
  | _ => attributes = []

variable {bare : Prop} {source : List Attribute} {parent : Option ElementKind}

theorem keptAttributes_of_recognised {k : ElementKind} {name : String} {rule : ValueRule}
    (h : k.recognised = [(name, rule)]) (hli : k ≠ .li) :
    k.entry.keptAttributes source parent
      =
    (((Attribute.lookup? source name).bind rule.keptValue?).map fun value => ⟨name, value⟩).toList := by
  unfold Entry.keptAttributes
  rw [entry_attributes, h, entry_supplied, if_neg hli]
  cases hvalue : (Attribute.lookup? source name).bind rule.keptValue? with
  | none =>
    simp only [List.filterMap_cons, hvalue, Option.map_none, List.filterMap_nil, List.map_nil, List.append_nil,
      Option.toList_none]
  | some value =>
    simp only [List.filterMap_cons, hvalue, Option.map_some, List.filterMap_nil, List.map_nil, List.append_nil,
      Option.toList_some]

theorem mayHave_a (h : a.entry.keeps source) : a.MayHave bare (a.entry.keptAttributes source parent) := by
  have hkept : ((Attribute.lookup? source "href").bind Href.usable?).isSome := by
    simpa [Entry.keeps, requirements, Requirement.isMet] using h
  rw [Option.isSome_iff_exists] at hkept
  rcases hkept with ⟨target, htarget⟩
  refine ⟨target, ?_, ?_⟩
  . have hvalue : (Attribute.lookup? source "href").bind ValueRule.href.keptValue? = some target := htarget
    rw [keptAttributes_of_recognised (k := .a) rfl (by decide), hvalue]
    rfl
  . rw [Option.bind_eq_some_iff] at htarget
    rcases htarget with ⟨value, -, hvalue⟩
    exact Href.usable?_of_usable? hvalue

theorem mayHave_li : li.MayHave bare (li.entry.keptAttributes source parent) := by
  refine ⟨if parent = some .ol then "number" else "disc", ?_, ?_⟩
  . split <;> decide
  . simp [Entry.keptAttributes, recognised, PositionAttribute.supplied]

theorem mem_of_keptValue?_listStyle {value marker : String}
    (h : ValueRule.listStyle.keptValue? value = some marker) : marker ∈ ["disc", "number"] := by
  simp only [ValueRule.keptValue?] at h
  split at h
  . cases h
    decide
  . cases h
    decide
  . cases h

theorem mayHave_text : text.MayHave bare (text.entry.keptAttributes source parent) := by
  rw [keptAttributes_of_recognised (k := .text) rfl (by decide)]
  cases hmarker : (Attribute.lookup? source "list").bind ValueRule.listStyle.keptValue? with
  | none => exact .inl rfl
  | some marker =>
    rcases Option.bind_eq_some_iff.mp hmarker with ⟨value, -, hvalue⟩
    exact .inr ⟨marker, mem_of_keptValue?_listStyle hvalue, rfl⟩

theorem mem_palette_of_keptValue?_color {value color : String}
    (h : ValueRule.color.keptValue? value = some color) : ∃ c ∈ Color.palette, color = c.hex := by
  simp only [ValueRule.keptValue?, Option.map_eq_some_iff] at h
  rcases h with ⟨c, hc, rfl⟩
  exact ⟨c, Color.mem_palette_of_parsePalette? hc, rfl⟩

theorem mayHave_colored (k : ElementKind) (hk : k = .styleFont ∨ k = .styleHighlight)
    (h : bare ∨ ∃ color ∈ Color.palette, source = [⟨"color", color.hex⟩]) :
    k.MayHave bare (k.entry.keptAttributes source parent) := by
  have hkept : k.entry.keptAttributes source parent
      = (((Attribute.lookup? source "color").bind ValueRule.color.keptValue?).map
          fun value => ⟨"color", value⟩).toList := by
    rcases hk with rfl | rfl <;> exact keptAttributes_of_recognised rfl (by decide)
  have hmayHave : k.MayHave bare (k.entry.keptAttributes source parent)
      = ((∃ color ∈ Color.palette, k.entry.keptAttributes source parent = [⟨"color", color.hex⟩])
          ∨ (bare ∧ k.entry.keptAttributes source parent = [])) := by
    rcases hk with rfl | rfl <;> rfl
  rw [hmayHave, hkept]
  cases hcolor : (Attribute.lookup? source "color").bind ValueRule.color.keptValue? with
  | some color =>
    left
    rcases Option.bind_eq_some_iff.mp hcolor with ⟨value, -, hvalue⟩
    rcases mem_palette_of_keptValue?_color hvalue with ⟨c, hc, rfl⟩
    exact ⟨c, hc, rfl⟩
  | none =>
    right
    rcases h with hbare | ⟨color, hmem, rfl⟩
    . exact ⟨hbare, rfl⟩
    . simp [ValueRule.keptValue?, Color.parsePalette?_hex hmem] at hcolor

theorem mayHave_keptAttributes {k : ElementKind} (hkeeps : k.entry.keeps source)
    (h : (k = .styleFont ∨ k = .styleHighlight) →
      bare ∨ ∃ color ∈ Color.palette, source = [⟨"color", color.hex⟩]) :
    k.MayHave bare (k.entry.keptAttributes source parent) := by
  by_cases hcolored : k = .styleFont ∨ k = .styleHighlight
  . exact mayHave_colored k hcolored (h hcolored)
  . cases k
    case a => exact mayHave_a hkeeps
    case li => exact mayHave_li
    case text => exact mayHave_text
    case styleFont => simp at hcolored
    case styleHighlight => simp at hcolored
    all_goals rfl

theorem keptAttributes_of_mayHave {k : ElementKind} {attributes : List Attribute}
    (h : k.MayHave bare attributes) (hli : k ≠ .li) :
    k.entry.keptAttributes attributes parent = attributes := by
  have hcolored (hk : k = .styleFont ∨ k = .styleHighlight) {color : Color} (hcolor : color ∈ Color.palette) :
      k.entry.keptAttributes [⟨"color", color.hex⟩] parent = [⟨"color", color.hex⟩] := by
    have hrecognised : k.recognised = [("color", .color)] := by
      rcases hk with rfl | rfl <;> rfl
    rw [keptAttributes_of_recognised hrecognised hli, Attribute.lookup?_singleton]
    simp [ValueRule.keptValue?, Color.parsePalette?_hex hcolor]
  -- What is written as an attribute is a value that the rule for it takes to itself.
  cases k
  case li => contradiction
  case a =>
    rcases h with ⟨target, rfl, htarget⟩
    rw [keptAttributes_of_recognised (k := .a) rfl hli, Attribute.lookup?_singleton]
    simp [ValueRule.keptValue?, htarget]
  case text =>
    rcases h with rfl | ⟨marker, hmarker, rfl⟩
    . rfl
    . rw [keptAttributes_of_recognised (k := .text) rfl hli, Attribute.lookup?_singleton]
      simp only [List.mem_cons, List.not_mem_nil, or_false] at hmarker
      rcases hmarker with rfl | rfl <;> decide
  case styleFont =>
    rcases h with ⟨color, hcolor, rfl⟩ | ⟨-, rfl⟩
    . exact hcolored (.inl rfl) hcolor
    . rfl
  case styleHighlight =>
    rcases h with ⟨color, hcolor, rfl⟩ | ⟨-, rfl⟩
    . exact hcolored (.inr rfl) hcolor
    . rfl
  all_goals
    cases h
    rfl

theorem keeps_of_mayHave {k : ElementKind} {attributes : List Attribute} (h : k.MayHave bare attributes)
    (hli : k ≠ .li) : k.entry.keeps attributes := by
  by_cases ha : k = .a
  . subst ha
    rcases h with ⟨target, rfl, htarget⟩
    simp [Entry.keeps, requirements, Requirement.isMet, htarget]
  . exact entry_keeps ha hli attributes

theorem eq_singleton_of_mayHave {k : ElementKind} {attributes : List Attribute} (h : k.MayHave bare attributes) :
    attributes = [] ∨ ∃ name ∈ ["href", "list", "color"], ∃ value, attributes = [⟨name, value⟩] := by
  cases k
  case a =>
    rcases h with ⟨target, rfl, -⟩
    exact .inr ⟨"href", by decide, target, rfl⟩
  case li =>
    rcases h with ⟨marker, -, rfl⟩
    exact .inr ⟨"list", by decide, marker, rfl⟩
  case text =>
    rcases h with rfl | ⟨marker, -, rfl⟩
    . exact .inl rfl
    . exact .inr ⟨"list", by decide, marker, rfl⟩
  case styleFont | styleHighlight =>
    rcases h with ⟨color, -, rfl⟩ | ⟨-, rfl⟩
    . exact .inr ⟨"color", by decide, color.hex, rfl⟩
    . exact .inl rfl
  all_goals exact .inl h

theorem usable?_of_mayHave {k : ElementKind} {attributes : List Attribute} {a : Attribute}
    (h : k.MayHave bare attributes) (ha : a ∈ attributes) (hname : a.name = "href") :
    Href.usable? a.value = some a.value := by
  cases k
  case a =>
    rcases h with ⟨target, rfl, htarget⟩
    rw [List.mem_singleton] at ha
    rwa [ha]
  case li =>
    rcases h with ⟨marker, -, rfl⟩
    rw [List.mem_singleton] at ha
    simp [ha] at hname
  case text =>
    rcases h with rfl | ⟨marker, -, rfl⟩
    . cases ha
    . rw [List.mem_singleton] at ha
      simp [ha] at hname
  case styleFont | styleHighlight =>
    rcases h with ⟨color, -, rfl⟩ | ⟨-, rfl⟩
    . rw [List.mem_singleton] at ha
      simp [ha] at hname
    . cases ha
  all_goals
    cases h
    cases ha

theorem mayHave_nil {k : ElementKind} (h : k ∈ [.p, .ul, .dl, .table, .tr]) : k.MayHave bare [] := by
  simp only [List.mem_cons, List.not_mem_nil, or_false] at h
  rcases h with rfl | rfl | rfl | rfl | rfl <;> rfl

end ElementKind

end NoteMarkup
