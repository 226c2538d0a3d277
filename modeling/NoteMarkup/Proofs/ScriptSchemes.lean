import Mathlib.Data.List.TakeWhile
import NoteMarkup.Proofs.Links

/-!
This module contains which link targets are refused. A target is refused exactly if nothing is left of it without the
white space around it, or if what is left spells a scheme that runs scripts, with characters that readers of links
pass over between its letters. What is kept does not begin with such a scheme to a parser of URLs either, although
that parser passes over fewer characters.
-/

namespace NoteMarkup

namespace Text

structure Trims (value target : String) : Prop where
  cut : ∃ lead trail, value = lead ++ target ++ trail ∧ isBlankText lead ∧ isBlankText trail
  start : ∀ c ∈ target.toList.head?, isBlank c = false
  ending : ∀ c ∈ target.toList.getLast?, isBlank c = false

theorem toLower_eq_self {c : Char} (h : c.toNat < 65 ∨ 90 < c.toNat) : c.toLower = c := by
  unfold Char.toLower
  split
  . next hupper =>
    have hleast : 65 ≤ c.toNat := hupper.1
    have hgreatest : c.toNat ≤ 90 := hupper.2
    omega
  . rfl

theorem toLower_of_isBlank {c : Char} (h : isBlank c) : c.toLower = c := by
  apply toLower_eq_self
  simp only [isBlank, Bool.or_eq_true, Bool.and_eq_true, beq_iff_eq, decide_eq_true_eq] at h
  omega

theorem trimChars_cut (cs : List Char) :
    ∃ lead trail, cs = lead ++ trimChars cs ++ trail ∧ lead.all isBlank ∧ trail.all isBlank := by
  refine ⟨cs.takeWhile isBlank, ((cs.dropWhile isBlank).reverse.takeWhile isBlank).reverse, ?_, List.all_takeWhile, ?_⟩
  . rw [trimChars, List.append_assoc, ← List.reverse_append, List.takeWhile_append_dropWhile, List.reverse_reverse,
      List.takeWhile_append_dropWhile]
  . rw [List.all_reverse, List.all_takeWhile]

theorem trim_toList (value : String) : (trim value).toList = trimChars value.toList := by
  simp [trim]

theorem head?_of_dropWhile_eq_self {p : Char → Bool} {cs : List Char} (h : cs.dropWhile p = cs) :
    ∀ c ∈ cs.head?, p c = false := by
  intro c hc
  have hhead := List.head?_dropWhile_not p cs
  rw [h, Option.mem_def.mp hc] at hhead
  simpa using hhead

theorem trims_trim (value : String) : Trims value (trim value) where
  cut := by
    rcases trimChars_cut value.toList with ⟨lead, trail, hcut, hlead, htrail⟩
    refine ⟨String.ofList lead, String.ofList trail, ?_, by simpa [isBlankText] using hlead,
      by simpa [isBlankText] using htrail⟩
    rw [trim, ← String.ofList_append, ← String.ofList_append, ← hcut, String.ofList_toList]
  start := by
    rw [trim_toList]
    exact head?_of_dropWhile_eq_self (dropWhile_trimChars value.toList)
  ending := by
    rw [trim_toList, ← List.head?_reverse]
    exact head?_of_dropWhile_eq_self (dropWhile_reverse_trimChars value.toList)

theorem mem_of_mem_trim {value : String} {c : Char} (h : c ∈ (trim value).toList) : c ∈ value.toList := by
  rcases trimChars_cut value.toList with ⟨lead, trail, hcut, -, -⟩
  rw [trim_toList] at h
  rw [hcut]
  simp [h]

theorem trim_eq_empty_iff (value : String) : trim value = "" ↔ isBlankText value := by
  rw [← String.toList_eq_nil_iff, trim_toList, isBlankText]
  rcases trimChars_cut value.toList with ⟨lead, trail, hcut, hlead, htrail⟩
  constructor
  . intro hnil
    rw [hcut, hnil, List.append_nil, List.all_append, hlead, htrail]
    rfl
  . intro hall
    rw [trimChars, List.dropWhile_eq_nil_iff.mpr (List.all_eq_true.mp hall)]
    rfl

end Text

namespace Href

def isPassedOver (c : Char) : Bool :=
  Text.isAsciiBlank c || Text.isControl c

/-- Whether a text begins by spelling a word, in capitals or small letters and with characters that are passed over in
front of the letters. -/
inductive Spells : List Char → List Char → Prop
  | done (rest : List Char) : Spells [] rest
  | letter {c : Char} {word cs : List Char} (h : Spells word cs) : Spells (c.toLower :: word) (c :: cs)
  | skip {c : Char} {word cs : List Char} (hc : isPassedOver c) (h : Spells word cs) : Spells word (c :: cs)

theorem toLower_of_isPassedOver {c : Char} (h : isPassedOver c) : c.toLower = c := by
  apply Text.toLower_eq_self
  simp only [isPassedOver, Text.isAsciiBlank, Text.isControl, Bool.or_eq_true, Bool.and_eq_true, beq_iff_eq,
    decide_eq_true_eq] at h
  rcases h with (((((rfl | rfl) | rfl) | rfl) | rfl) | hsmall | hbetween)
  all_goals first | decide | omega

theorem prefix_linkChars_of_spells {word cs : List Char} (h : Spells word cs)
    (hword : ∀ c ∈ word, isPassedOver c = false) : word <+: linkChars cs := by
  induction h with
  | done rest => exact List.nil_prefix
  | @letter c word cs _ ih =>
    rw [List.forall_mem_cons] at hword
    have hc : isPassedOver c = false := by
      rw [Bool.eq_false_iff]
      intro hpassed
      rw [toLower_of_isPassedOver hpassed, hpassed] at hword
      cases hword.1
    rw [linkChars_cons, if_neg (by simpa [isPassedOver] using hc), List.cons_prefix_cons]
    exact ⟨rfl, ih hword.2⟩
  | @skip c word cs hc _ ih =>
    rw [linkChars_cons, if_pos (by simpa [isPassedOver] using hc)]
    exact ih hword

theorem spells_of_prefix {p : Char → Bool} (hp : ∀ c, p c = false → isPassedOver c) {word cs : List Char}
    (h : word <+: (cs.filter p).map Char.toLower) : Spells word cs := by
  induction cs generalizing word with
  | nil =>
    rw [List.filter_nil, List.map_nil, List.prefix_nil] at h
    rw [h]
    exact .done []
  | cons c cs ih =>
    rw [List.filter_cons] at h
    split at h
    . rw [List.map_cons, List.prefix_cons_iff] at h
      rcases h with rfl | ⟨word, rfl, h⟩
      . exact .done (c :: cs)
      . exact .letter (ih h)
    . next hc => exact .skip (hp c (by simpa using hc)) (ih h)

namespace Spells

variable {word cs : List Char}

theorem of_dropWhile {p : Char → Bool} (hp : ∀ c, p c → isPassedOver c) (h : Spells word (cs.dropWhile p)) :
    Spells word cs := by
  induction cs with
  | nil => exact h
  | cons c cs ih =>
    rw [List.dropWhile_cons] at h
    split at h
    . next hc => exact .skip (hp c hc) (ih h)
    . exact h

theorem exists_letter (h : Spells word cs) : ∀ w ∈ word, ∃ c ∈ cs, c.toLower = w := by
  induction h with
  | done rest => simp
  | @letter c word cs _ ih =>
    rw [List.forall_mem_cons]
    refine ⟨⟨c, by simp, rfl⟩, fun w hw => ?_⟩
    rcases ih w hw with ⟨d, hd, hletter⟩
    exact ⟨d, by simp [hd], hletter⟩
  | @skip c word cs _ _ ih =>
    intro w hw
    rcases ih w hw with ⟨d, hd, hletter⟩
    exact ⟨d, by simp [hd], hletter⟩

theorem of_blank_append {lead : List Char} (hlead : lead.all Text.isBlank) (hne : word ≠ [])
    (hword : ∀ w ∈ word, Text.isBlank w = false) (h : Spells word (lead ++ cs)) : Spells word cs := by
  induction lead with
  | nil => exact h
  | cons c lead ih =>
    rw [List.all_cons, Bool.and_eq_true] at hlead
    cases h with
    | done => exact absurd rfl hne
    | letter h =>
      have hc := hword c.toLower (by simp)
      rw [Text.toLower_of_isBlank hlead.1, hlead.1] at hc
      cases hc
    | skip hc h => exact ih hlead.2 h

theorem of_append_blank {trail : List Char} (htrail : trail.all Text.isBlank)
    (hword : ∀ w ∈ word, Text.isBlank w = false) (h : Spells word (cs ++ trail)) : Spells word cs := by
  induction cs generalizing word with
  | nil =>
    cases word with
    | nil => exact .done []
    | cons w word =>
      rcases h.exists_letter w (by simp) with ⟨c, hc, hletter⟩
      have hblank := List.all_eq_true.mp htrail c hc
      have hw := hword w (by simp)
      rw [← hletter, Text.toLower_of_isBlank hblank, hblank] at hw
      cases hw
  | cons c cs ih =>
    cases h with
    | done => exact .done (c :: cs)
    | letter h => exact .letter (ih (fun w hw => hword w (by simp [hw])) h)
    | skip hc h => exact .skip hc (ih hword h)

theorem trim {value : String} (hne : word ≠ []) (hword : ∀ w ∈ word, Text.isBlank w = false)
    (h : Spells word value.toList) : Spells word (Text.trim value).toList := by
  rcases Text.trimChars_cut value.toList with ⟨lead, trail, hcut, hlead, htrail⟩
  rw [hcut, List.append_assoc] at h
  rw [Text.trim_toList]
  exact (h.of_blank_append hlead hne hword).of_append_blank htrail hword

end Spells

def SpellsScript (text : String) : Prop :=
  ∃ scheme ∈ ["javascript:", "vbscript:", "data:"], Spells scheme.toList text.toList

theorem leadsToScript_iff_spellsScript (target : String) : LeadsToScript target ↔ SpellsScript target := by
  have hletters : ∀ scheme ∈ ["javascript:", "vbscript:", "data:"], ∀ c ∈ scheme.toList, isPassedOver c = false := by
    have hall : ∀ scheme ∈ ["javascript:", "vbscript:", "data:"], scheme.toList.all (!isPassedOver ·) := by decide
    simpa using hall
  constructor
  . rintro ⟨scheme, hscheme, hprefix⟩
    refine ⟨scheme, hscheme, spells_of_prefix ?_ hprefix⟩
    intro c hc
    rwa [Bool.not_eq_false'] at hc
  . rintro ⟨scheme, hscheme, hspells⟩
    exact ⟨scheme, hscheme, prefix_linkChars_of_spells hspells (hletters scheme hscheme)⟩

/-- The characters by which a parser of URLs reads a target: control characters and spaces in front of it are dropped,
and tabs and ends of lines wherever they are. -/
def parsedChars (cs : List Char) : List Char :=
  ((cs.dropWhile (· ≤ ' ')).filter fun c => c != '\t' && c != '\n' && c != '\r').map Char.toLower

def ParsesToScript (target : String) : Prop :=
  ∃ scheme ∈ ["javascript:", "vbscript:", "data:"], scheme.toList <+: parsedChars target.toList

theorem ParsesToScript.spellsScript {target : String} (h : ParsesToScript target) : SpellsScript target := by
  rcases h with ⟨scheme, hscheme, hprefix⟩
  refine ⟨scheme, hscheme, ?_⟩
  have hspells : Spells scheme.toList (target.toList.dropWhile (· ≤ ' ')) := by
    apply spells_of_prefix _ hprefix
    intro c hc
    simp only [Bool.and_eq_false_iff, bne_eq_false_iff_eq] at hc
    rcases hc with (rfl | rfl) | rfl <;> decide
  apply hspells.of_dropWhile
  intro c hc
  -- The space is white space, and what is less is a control character.
  rcases Nat.lt_or_ge c.toNat 0x20 with hcontrol | hspace
  . simp [isPassedOver, Text.isControl, hcontrol]
  . have hle : c.toNat ≤ 0x20 := of_decide_eq_true hc
    have hc : c = ' ' := Char.toNat_inj.mp (Nat.le_antisymm hle hspace)
    rw [hc]
    rfl

theorem SpellsScript.trim {value : String} (h : SpellsScript value) : SpellsScript (Text.trim value) := by
  have hletters : ∀ scheme ∈ ["javascript:", "vbscript:", "data:"],
      scheme.toList ≠ [] ∧ ∀ c ∈ scheme.toList, Text.isBlank c = false := by
    have hall : ∀ scheme ∈ ["javascript:", "vbscript:", "data:"],
        scheme.toList ≠ [] ∧ scheme.toList.all (!Text.isBlank ·) := by decide
    simpa using hall
  rcases h with ⟨scheme, hscheme, hspells⟩
  exact ⟨scheme, hscheme, hspells.trim (hletters scheme hscheme).1 (hletters scheme hscheme).2⟩

theorem SpellsScript.colon_mem {text : String} (h : SpellsScript text) : ':' ∈ text.toList := by
  have hcolon : ∀ scheme ∈ ["javascript:", "vbscript:", "data:"], ':' ∈ scheme.toList := by decide
  rcases h with ⟨scheme, hscheme, hspells⟩
  rcases hspells.exists_letter ':' (hcolon scheme hscheme) with ⟨c, hc, hletter⟩
  rwa [Text.toLower_eq_colon_iff.mp hletter] at hc

theorem usable?_eq_none_iff (value : String) :
    usable? value = none ↔ Text.isBlankText value ∨ SpellsScript (Text.trim value) := by
  rw [← Text.trim_eq_empty_iff, ← leadsToScript_iff_spellsScript, ← hasRefusedScheme_iff]
  simp [usable?, or_iff_not_imp_left]

theorem usable?_of_ne_none {value : String} (h : usable? value ≠ none) : usable? value = some (Text.trim value) := by
  unfold usable? at h ⊢
  dsimp only at h ⊢
  split at h
  . exact absurd rfl h
  . next hmet => rw [if_neg hmet]

theorem refused_iff_spells_script :
    (∀ value target, usable? value = some target →
      Text.Trims value target ∧ target ≠ "" ∧ usable? target = some target ∧ ¬ ParsesToScript target)
      ∧
    (∀ value, usable? value = none ↔ Text.isBlankText value ∨ SpellsScript (Text.trim value))
      ∧
    (∀ value, SpellsScript value → usable? value = none)
      ∧
    (∀ value, ¬ Text.isBlankText value → ':' ∉ value.toList → usable? value = some (Text.trim value)) := by
  refine ⟨?_, usable?_eq_none_iff, ?_, ?_⟩
  . intro value target htarget
    have hne : usable? value ≠ none := by simp [htarget]
    have htrim : Text.trim value = target := by rwa [usable?_of_ne_none hne, Option.some.injEq] at htarget
    have hagain := usable?_of_usable? htarget
    rw [ne_eq, usable?_eq_none_iff, not_or, htrim] at hne
    refine ⟨htrim ▸ Text.trims_trim value, ?_, hagain, fun hparses => hne.2 hparses.spellsScript⟩
    rw [← htrim, ne_eq, Text.trim_eq_empty_iff]
    exact hne.1
  . intro value hspells
    rw [usable?_eq_none_iff]
    exact .inr hspells.trim
  . intro value hblank hcolon
    apply usable?_of_ne_none
    rw [ne_eq, usable?_eq_none_iff, not_or]
    refine ⟨hblank, fun hspells => hcolon ?_⟩
    exact Text.mem_of_mem_trim hspells.colon_mem

theorem hidden_scheme_refused :
    SpellsScript "\x01 Java\nSCRIPT:alert(1)" ∧ usable? "\x01 Java\nSCRIPT:alert(1)" = none
      ∧ usable? " javascripts:x\n" = some "javascripts:x" ∧ Text.Trims " javascripts:x\n" "javascripts:x"
      ∧ ¬ ParsesToScript "javascripts:x"
      ∧ usable? " data\n" = some (Text.trim " data\n") := by
  have hhidden : SpellsScript "\x01 Java\nSCRIPT:alert(1)" := by
    rw [← leadsToScript_iff_spellsScript, ← hasRefusedScheme_iff]
    decide +kernel
  have hkept : usable? " javascripts:x\n" = some "javascripts:x" := by decide +kernel
  rcases refused_iff_spells_script with ⟨hfirst, -, hrefused, haccepted⟩
  refine ⟨hhidden, hrefused _ hhidden, hkept, (hfirst _ _ hkept).1, (hfirst _ _ hkept).2.2.2, ?_⟩
  exact haccepted _ (by decide +kernel) (by decide +kernel)

end Href

end NoteMarkup
