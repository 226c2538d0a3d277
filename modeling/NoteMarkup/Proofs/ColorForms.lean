import NoteMarkup.Proofs.Attributes
import NoteMarkup.Proofs.ScriptSchemes

/-!
This module contains the one form that colours have once they have been read, whichever notation they were read from.
Reading the form again gives the same colour, be it as a colour, as the value of an attribute, or as the value of a
style property.
-/

namespace NoteMarkup

namespace Text

theorem isBlank_toLower (c : Char) : isBlank c.toLower = isBlank c := by
  unfold Char.toLower
  split
  . next hupper =>
    -- A capital is no blank, and neither is its small letter.
    have hleast : 65 ≤ c.val.toNat := hupper.1
    have hgreatest : c.val.toNat ≤ 90 := hupper.2
    have hoffset : ('a'.val - 'A'.val).toNat = 32 := rfl
    simp only [isBlank, Char.toNat, UInt32.toNat_add, hoffset]
    rw [Bool.eq_iff_iff]
    simp only [Bool.or_eq_true, Bool.and_eq_true, beq_iff_eq, decide_eq_true_eq]
    omega
  . rfl

theorem trimChars_map_toLower (cs : List Char) : trimChars (cs.map Char.toLower) = (trimChars cs).map Char.toLower := by
  have hsame : isBlank ∘ Char.toLower = isBlank := funext isBlank_toLower
  simp only [trimChars, List.dropWhile_map, hsame, ← List.map_reverse]

theorem trimChars_around {lead trail : List Char} (hlead : ∀ c ∈ lead, isBlank c) (htrail : ∀ c ∈ trail, isBlank c)
    (cs : List Char) : trimChars (lead ++ cs ++ trail) = trimChars cs := by
  have hdrop : trail.dropWhile isBlank = [] := List.dropWhile_eq_nil_iff.mpr htrail
  have hreverse : ∀ c ∈ trail.reverse, isBlank c := fun c hc => htrail c (List.mem_reverse.mp hc)
  unfold trimChars
  rw [List.append_assoc, List.dropWhile_append_of_pos hlead, List.dropWhile_append, hdrop]
  split
  . next hblank => rw [List.isEmpty_iff.mp hblank]
  . rw [List.reverse_append, List.dropWhile_append_of_pos hreverse]

theorem trimChars_eq_self {cs : List Char} (h : ∀ c ∈ cs, isBlank c = false) : trimChars cs = cs := by
  unfold trimChars
  rw [dropWhile_eq_self fun c hc => h c (List.mem_of_head? hc), dropWhile_eq_self, List.reverse_reverse]
  intro c hc
  exact h c (List.mem_reverse.mp (List.mem_of_head? hc))

end Text

namespace Color

def writtenDigits : List Char :=
  "0123456789abcdef".toList

theorem hexDigit_mem_writtenDigits : ∀ n < 16, Text.hexDigit n ∈ writtenDigits := by
  decide

theorem mem_hexPair {n : Fin 256} {c : Char} (h : c ∈ hexPair n) : c ∈ writtenDigits := by
  simp only [hexPair, List.mem_cons, List.not_mem_nil, or_false] at h
  rcases h with rfl | rfl
  . exact hexDigit_mem_writtenDigits _ (by omega)
  . exact hexDigit_mem_writtenDigits _ (by omega)

theorem hex_eq (color : Color) :
    ∃ digits, color.hex = String.ofList ('#' :: digits) ∧ digits.length = 6 ∧ ∀ d ∈ digits, d ∈ writtenDigits := by
  refine ⟨_, rfl, rfl, ?_⟩
  intro d hd
  simp only [List.mem_append] at hd
  rcases hd with (hd | hd) | hd <;> exact mem_hexPair hd

theorem plain_of_mem_hex {color : Color} {c : Char} (h : c ∈ color.hex.toList) :
    Text.isBlank c = false ∧ c.toLower = c := by
  have hplain : ('#' :: writtenDigits).all fun d => Text.isBlank d == false && d.toLower == d := by
    decide +kernel
  rcases hex_eq color with ⟨digits, hcolor, -, hdigits⟩
  rw [hcolor, String.toList_ofList, List.mem_cons] at h
  simpa using List.all_eq_true.mp hplain c (List.mem_cons.mpr (h.imp_right (hdigits c)))

theorem trimChars_hex (color : Color) : Text.trimChars color.hex.toList = color.hex.toList :=
  Text.trimChars_eq_self fun _ h => (plain_of_mem_hex h).1

theorem map_toLower_hex (color : Color) : color.hex.toList.map Char.toLower = color.hex.toList :=
  (List.map_congr_left fun _ h => (plain_of_mem_hex h).2).trans (List.map_id _)

theorem lowercase_trim_hex (color : Color) : Text.lowercase (Text.trim color.hex) = color.hex := by
  rw [Text.lowercase, Text.trim_toList, trimChars_hex, map_toLower_hex, String.ofList_toList]

theorem ofHexPair?_hexPair (n : Fin 256) :
    ofHexPair? (Text.hexDigit (n.val / 16)) (Text.hexDigit (n.val % 16)) = some n := by
  have hhigh := Text.hexValue?_hexDigit (n.val / 16) (by omega)
  have hlow := Text.hexValue?_hexDigit (n.val % 16) (by omega)
  have hvalue : 16 * (n.val / 16) + n.val % 16 = n.val := Nat.div_add_mod n.val 16
  simp [ofHexPair?, hhigh, hlow, hvalue]

theorem parse?_hex (color : Color) : parse? color.hex = some color := by
  unfold parse?
  dsimp only
  rw [trimChars_hex, map_toLower_hex, hex, String.toList_ofList]
  simp [hexPair, ofHexDigits?, ofHexPair?_hexPair]

theorem parse?_congr {value other : String}
    (h : Text.trimChars (value.toList.map Char.toLower) = Text.trimChars (other.toList.map Char.toLower)) :
    parse? value = parse? other := by
  rw [Text.trimChars_map_toLower, Text.trimChars_map_toLower] at h
  unfold parse?
  rw [h]

end Color

namespace Style.Property

def coloredKinds : List (Property × ElementKind) :=
  [(.color, .styleFont), (.background, .styleHighlight)]

variable {property : Property} {kind : ElementKind}

theorem kinds_of_colored (h : (property, kind) ∈ coloredKinds) : property.kinds = [kind] := by
  revert h
  cases property <;> cases kind <;> decide

theorem counterpart?_of_colored (h : (property, kind) ∈ coloredKinds) (value : String) :
    property.counterpart? value = (shownColor? (Text.lowercase (Text.trim value))).map (colored kind) := by
  simp only [coloredKinds, List.mem_cons, Prod.mk.injEq, List.not_mem_nil, or_false] at h
  rcases h with ⟨rfl, rfl⟩ | ⟨rfl, rfl⟩ <;> rfl

theorem shownColor?_hex {color : Color} (h : color ∈ Color.palette) : shownColor? color.hex = some color := by
  simp [shownColor?, Color.parsePalette?_hex h]

end Style.Property

theorem Color.read_in_normal_form :
    (∀ value written, (parse? value).map hex = some written →
        (∃ digits, written = String.ofList ('#' :: digits)
          ∧ digits.length = 6
          ∧ ∀ d ∈ digits, d ∈ writtenDigits)
        ∧ (parse? written).map hex = some written)
      ∧ (∀ lead value trail, Text.isBlankText lead → Text.isBlankText trail →
          parse? (lead ++ value ++ trail) = parse? value)
      ∧ (∀ value other, Text.sameLetters value other → parse? value = parse? other)
      ∧ ∀ property ∈ [.color, .background], ∀ value s, Style.Property.counterpart? property value = some s →
          property.kinds = [s.kind]
            ∧ ∃ written ∈ palette.map hex,
                s.attributes = [⟨"color", written⟩]
                  ∧ ValueRule.color.keptValue? written = some written
                  ∧ property.counterpart? written = some s := by
  refine ⟨?_, ?_, ?_, ?_⟩
  . intro value written h
    rw [Option.map_eq_some_iff] at h
    rcases h with ⟨color, -, rfl⟩
    rw [parse?_hex]
    exact ⟨hex_eq color, rfl⟩
  . intro lead value trail hlead htrail
    rw [Text.isBlankText, List.all_eq_true] at hlead htrail
    apply parse?_congr
    rw [Text.trimChars_map_toLower, Text.trimChars_map_toLower, String.toList_append, String.toList_append,
      Text.trimChars_around hlead htrail]
  . intro value other h
    rw [Text.sameLetters, beq_iff_eq] at h
    apply parse?_congr
    rw [← String.ofList_injective h]
  . intro property hproperty value s h
    have hcolored : ∃ kind, (property, kind) ∈ Style.Property.coloredKinds := by
      simp only [List.mem_cons, List.not_mem_nil, or_false] at hproperty
      rcases hproperty with rfl | rfl
      . exact ⟨.styleFont, by decide⟩
      . exact ⟨.styleHighlight, by decide⟩
    rcases hcolored with ⟨kind, hkind⟩
    rw [Style.Property.counterpart?_of_colored hkind, Option.map_eq_some_iff] at h
    rcases h with ⟨color, hshown, rfl⟩
    have hcolor := Style.Property.mem_palette_of_shownColor? hshown
    refine ⟨Style.Property.kinds_of_colored hkind, color.hex, List.mem_map_of_mem hcolor, rfl, ?_, ?_⟩
    . rw [ValueRule.keptValue?, parsePalette?_hex hcolor, Option.map_some]
    . rw [Style.Property.counterpart?_of_colored hkind, lowercase_trim_hex, Style.Property.shownColor?_hex hcolor,
        Option.map_some]

example :
    Color.palette.map Color.hex = ["#ff0000", "#00ff00", "#0000ff", "#ffff00", "#ff00ff", "#00ffff", "#ffffff"] := by
  decide +kernel

theorem Color.yellow_in_normal_form :
    ((parse? "Rgba(100.0%, 3e2,-7 , any)").map hex = some "#ffff00"
        ∧ (∃ digits, "#ffff00" = String.ofList ('#' :: digits)
          ∧ digits.length = 6
          ∧ ∀ d ∈ digits, d ∈ writtenDigits)
        ∧ (parse? "#ffff00").map hex = some "#ffff00")
      ∧ (Text.isBlankText "\u00a0" ∧ Text.isBlankText "\n\u2003"
        ∧ parse? ("\u00a0" ++ "Aqua" ++ "\n\u2003") = parse? "Aqua")
      ∧ (Text.sameLetters "Aqua" "aQUA" ∧ parse? "Aqua" = parse? "aQUA")
      ∧ Style.Property.counterpart? .background "none YELLOW repeat" = some ⟨.styleHighlight, some ⟨"color", "#ffff00"⟩⟩
      ∧ ∃ written ∈ palette.map hex,
          ValueRule.color.keptValue? written = some written
            ∧ Style.Property.counterpart? .background written
              = Style.Property.counterpart? .background "none YELLOW repeat" := by
  have hread : (parse? "Rgba(100.0%, 3e2,-7 , any)").map hex = some "#ffff00" := by decide +kernel
  have hlead : Text.isBlankText "\u00a0" := by decide +kernel
  have htrail : Text.isBlankText "\n\u2003" := by decide +kernel
  have hletters : Text.sameLetters "Aqua" "aQUA" := by decide +kernel
  have hstyle : Style.Property.counterpart? .background "none YELLOW repeat"
      = some ⟨.styleHighlight, some ⟨"color", "#ffff00"⟩⟩ := by
    decide +kernel
  rcases read_in_normal_form with ⟨hforms, hblank, hcase, hstyles⟩
  rcases hstyles .background (by decide) _ _ hstyle with ⟨-, written, hwritten, -, hkept, hagain⟩
  exact ⟨⟨hread, hforms _ _ hread⟩, ⟨hlead, htrail, hblank _ _ _ hlead htrail⟩, ⟨hletters, hcase _ _ hletters⟩, hstyle,
    written, hwritten, hkept, hagain.trans hstyle.symm⟩

end NoteMarkup
