import NoteMarkup.Proofs.MarkupRoundTrip

/-!
This module contains where the links of written markup lead to. A target whose scheme would run a script is
dropped, but markup keeps the references in a target, so that a reader can find such a scheme where none was
recognised.
-/

namespace NoteMarkup

namespace Text

theorem toLower_eq_colon_iff {c : Char} : c.toLower = ':' ↔ c = ':' := by
  constructor
  . intro h
    unfold Char.toLower at h
    split at h
    . next hupper =>
      -- A capital becomes a letter, and all letters are behind the colon.
      have hval : (c.val + 32).toNat = 58 := congrArg (fun c : Char => c.val.toNat) h
      have hleast : 65 ≤ c.val.toNat := hupper.1
      have hgreatest : c.val.toNat ≤ 90 := hupper.2
      have hoffset : (32 : UInt32).toNat = 32 := rfl
      rw [UInt32.toNat_add, hoffset] at hval
      omega
    . exact h
  . rintro rfl
    rfl

theorem snoc_prefix_iff {word cs : List Char} {c : Char} (h : c ∉ word) :
    word ++ [c] <+: cs ↔ cs.takeWhile (· != c) = word ∧ c ∈ cs := by
  constructor
  . rintro ⟨rest, rfl⟩
    rw [List.append_assoc, List.singleton_append, takeWhile_append_of_not_mem h]
    simp
  . rintro ⟨rfl, hmem⟩
    rcases exists_eq_takeWhile_append hmem with ⟨rest, hrest⟩
    refine ⟨rest, ?_⟩
    rw [List.append_assoc, List.singleton_append, ← hrest]

theorem takeWhile_decodeReferencesChars {cs : List Char} {c : Char} (hc : c ≠ '&')
    (h : '&' ∉ cs.takeWhile (· != c)) :
    (decodeReferencesChars cs).takeWhile (· != c) = cs.takeWhile (· != c)
      ∧ (c ∈ decodeReferencesChars cs ↔ c ∈ cs) := by
  by_cases hmem : c ∈ cs
  . rcases exists_eq_takeWhile_append hmem with ⟨rest, hrest⟩
    have hdecoded : decodeReferencesChars cs = cs.takeWhile (· != c) ++ c :: decodeReferencesChars rest := by
      have happend := decodeReferencesChars_append h (c :: rest)
      rwa [← hrest, decodeReferencesChars_cons hc] at happend
    constructor
    . rw [hdecoded, takeWhile_append_of_not_mem (not_mem_takeWhile c cs)]
    . rw [hdecoded]
      simp [hmem]
  . have hdecoded : decodeReferencesChars cs = cs := by
      rw [takeWhile_of_not_mem hmem] at h
      simpa [decodeReferencesChars] using decodeReferencesChars_append h []
    rw [hdecoded]
    exact ⟨rfl, Iff.rfl⟩

end Text

namespace Href

/-- The characters by which readers of links take a target: white space and control characters are passed over. -/
def linkChars (cs : List Char) : List Char :=
  (cs.filter fun c => !(Text.isAsciiBlank c || Text.isControl c)).map Char.toLower

theorem linkChars_cons (c : Char) (cs : List Char) :
    linkChars (c :: cs)
      =
    if (Text.isAsciiBlank c || Text.isControl c) then linkChars cs else c.toLower :: linkChars cs := by
  unfold linkChars
  rw [List.filter_cons]
  by_cases h : (Text.isAsciiBlank c || Text.isControl c) <;> simp only [h] <;> rfl

def LeadsToScript (target : String) : Prop :=
  ∃ scheme ∈ ["javascript:", "vbscript:", "data:"], scheme.toList <+: linkChars target.toList

theorem hasRefusedScheme_iff (target : String) : hasRefusedScheme target ↔ LeadsToScript target := by
  have hlength : ∀ scheme ∈ refusedSchemes, scheme.toList.length ≤ schemeWindow := by decide
  have hstart : schemeStart target = (linkChars target.toList).take schemeWindow := by
    simp [schemeStart, linkChars, List.map_take]
  unfold hasRefusedScheme LeadsToScript
  rw [List.any_eq_true, hstart]
  constructor
  . rintro ⟨scheme, hscheme, hstarts⟩
    rw [List.isPrefixOf_iff_prefix, List.prefix_take_iff] at hstarts
    exact ⟨scheme, hscheme, hstarts.1⟩
  . rintro ⟨scheme, hscheme, hstarts⟩
    refine ⟨scheme, hscheme, ?_⟩
    rw [List.isPrefixOf_iff_prefix, List.prefix_take_iff]
    exact ⟨hstarts, hlength scheme hscheme⟩

theorem not_leadsToScript_of_usable? {target : String} (h : usable? target = some target) :
    ¬ LeadsToScript target := by
  unfold usable? at h
  dsimp only at h
  rw [Option.ite_none_left_eq_some, Option.some.injEq] at h
  rcases h with ⟨hnot, htrim⟩
  rw [htrim, Bool.or_eq_true, not_or] at hnot
  rw [← hasRefusedScheme_iff]
  exact hnot.2

theorem linkChars_colon (cs : List Char) :
    (linkChars cs).takeWhile (· != ':') = linkChars (cs.takeWhile (· != ':')) ∧ (':' ∈ linkChars cs ↔ ':' ∈ cs) := by
  induction cs with
  | nil => simp [linkChars]
  | cons c cs ih =>
    by_cases hc : c = ':'
    . subst hc
      have hkept : linkChars (':' :: cs) = ':' :: linkChars cs := by
        rw [linkChars_cons]
        rfl
      rw [hkept]
      simp [linkChars]
    . have hlower : c.toLower ≠ ':' := fun h => hc (Text.toLower_eq_colon_iff.mp h)
      rw [List.takeWhile_cons, if_pos (by simpa using hc), linkChars_cons, linkChars_cons, ← ih.1]
      split
      . simp [ih.2, Ne.symm hc]
      . simp [ih.2, hlower, Ne.symm hc, Ne.symm hlower]

theorem leadsToScript_iff (target : String) :
    LeadsToScript target
      ↔
    linkChars (target.toList.takeWhile (· != ':')) ∈ ["javascript".toList, "vbscript".toList, "data".toList]
      ∧ ':' ∈ target.toList := by
  have hcolon := linkChars_colon target.toList
  have hscheme (word : String) (hword : ':' ∉ word.toList) :
      (word ++ ":").toList <+: linkChars target.toList
        ↔ linkChars (target.toList.takeWhile (· != ':')) = word.toList ∧ ':' ∈ target.toList := by
    rw [String.toList_append, show ":".toList = [':'] from rfl, Text.snoc_prefix_iff hword, hcolon.1, hcolon.2]
  have hjavascript := hscheme "javascript" (by decide)
  have hvbscript := hscheme "vbscript" (by decide)
  have hdata := hscheme "data" (by decide)
  unfold LeadsToScript
  simp only [List.mem_cons, List.not_mem_nil, or_false, exists_eq_or_imp, exists_eq_left]
  rw [show "javascript:" = "javascript" ++ ":" from rfl, show "vbscript:" = "vbscript" ++ ":" from rfl,
    show "data:" = "data" ++ ":" from rfl, hjavascript, hvbscript, hdata, or_and_right, or_and_right]

theorem leadsToScript_decodeReferences {target : String} (h : '&' ∉ target.toList.takeWhile (· != ':')) :
    LeadsToScript (Text.decodeReferences target) ↔ LeadsToScript target := by
  have hdecoded := Text.takeWhile_decodeReferencesChars (by decide) h
  have hchars : (Text.decodeReferences target).toList = Text.decodeReferencesChars target.toList := by
    simp [Text.decodeReferences]
  rw [leadsToScript_iff, leadsToScript_iff, hchars, hdecoded.1, hdecoded.2]

end Href

def Stretch.attributes : Stretch → List Attribute
  | .start _ attributes | .single _ attributes => attributes
  | .ending _ | .run _ => []

namespace Cleaner

theorem usable?_of_mem_stretches (o : CleaningOptions) (events : List SourceEvent) {s : Stretch} {a : Attribute}
    (hs : s ∈ Event.stretches .standard (Outline.cleaned o events).events) (ha : a ∈ s.attributes)
    (hname : a.name = "href") : Href.usable? a.value = some a.value := by
  have hlawful : (Outline.cleaned o events).Lawful o True none :=
    Outline.cleaned_lawful o events fun _ _ _ => trivial
  rcases Event.exists_tagStretch?_of_mem_stretches hs with ⟨pieces, rfl⟩ | ⟨event, hmem, htag⟩
  . cases ha
  . cases event with
    | text content => cases htag
    | endTag kind =>
      rcases Option.map_eq_some_iff.mp htag with ⟨_, -, rfl⟩
      cases ha
    | startTag kind attributes =>
      rcases Option.map_eq_some_iff.mp htag with ⟨_, -, rfl⟩
      exact ElementKind.usable?_of_mayHave (hlawful.mayHave (.inl hmem)) ha hname
    | standaloneTag kind attributes =>
      rcases Option.map_eq_some_iff.mp htag with ⟨_, -, rfl⟩
      exact ElementKind.usable?_of_mayHave (hlawful.mayHave (.inr hmem)) ha hname

/-- No link of a cleaned document leads to a script by its target as it is. To a reader, who replaces the
references in what is written, it does exactly if an `&` stands in front of the first colon of the target and the
target leads to a script with its references replaced. -/
theorem written_link_leadsToScript_iff (o : CleaningOptions) (name : String) (attributes : List Attribute)
    (children : List Node) :
    ∃ cleaned, clean ⟨.standard, o⟩ (.element name attributes children) = .ok cleaned
      ∧ (Event.markupOf .standard cleaned).toList = (Event.stretches .standard cleaned).flatMap Stretch.chars
      ∧ ∀ s ∈ Event.stretches .standard cleaned, ∀ a ∈ s.attributes, a.name = "href" →
          let read := Text.decodeReferences (Text.encodeKeepingReferences a.value)
          ¬ Href.LeadsToScript a.value
            ∧ (Href.LeadsToScript read
              ↔ '&' ∈ a.value.toList.takeWhile (· != ':') ∧ Href.LeadsToScript (Text.decodeReferences a.value)) := by
  refine ⟨_, Outline.clean_eq o name attributes children, MarkupBuilder.markupOf_toList _, ?_⟩
  intro s hs a ha hname read
  have hread : read = Text.decodeReferences a.value := Text.decodeReferences_encodeKeepingReferences a.value
  have hsource : ¬ Href.LeadsToScript a.value :=
    Href.not_leadsToScript_of_usable? (usable?_of_mem_stretches o _ hs ha hname)
  rw [hread]
  refine ⟨hsource, ?_, fun h => h.2⟩
  intro hleads
  refine ⟨?_, hleads⟩
  by_cases hplain : '&' ∈ a.value.toList.takeWhile (· != ':')
  . exact hplain
  . rw [Href.leadsToScript_decodeReferences hplain] at hleads
    exact absurd hleads hsource

/-- A scheme with a letter written as a reference is not recognised, and is one that runs scripts to a reader. -/
theorem referenced_scheme_leadsToScript :
    let target := "java&#115;cript:alert(1)"
    let cleaned : List Event :=
      [.startTag .p [], .startTag .a [⟨"href", target⟩], .text "x", .endTag .a, .endTag .p]
    clean ⟨.standard, {}⟩ (Node.fragment [.element "p" [] [.element "a" [⟨"href", target⟩] [.text "x"]]])
        = .ok cleaned
      ∧ Event.markupOf .standard cleaned
          = "<text><a href=\"java&#115;cript:alert(1)\"><![CDATA[x]]></a></text>"
      ∧ Href.LeadsToScript (Text.decodeReferences target) := by
  refine ⟨?_, by decide +kernel, ?_⟩
  . unfold Node.fragment
    rw [Outline.clean_eq, SourceEvent.ofNodes_eq, Except.ok.injEq]
    decide +kernel
  . rw [← Href.hasRefusedScheme_iff]
    decide +kernel

end Cleaner

end NoteMarkup
