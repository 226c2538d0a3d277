import NoteMarkup.Proofs.Lawful
import NoteMarkup.Proofs.WrittenTree

/-!
This module contains the shape of the trees that cleaning by the standard grammar ends in. A written tree is
read by other kinds than it was written by: items and paragraphs come back as `text`, terms as `strong`, and
colours as elements that have a colour for their style.
-/

namespace NoteMarkup

namespace ElementKind

def isWritten : ElementKind → Bool
  | ul | ol | dd | highlight | font | acronym | ins | small | span | st1 | var | wbr
  | h4 | h5 | h6 | div | pre | br => false
  | _ => true

theorem isSome_writtenName? (k : ElementKind) : (Grammar.standard.writtenName? k).isSome = k.isWritten := by
  cases k <;> rfl

/-- The kind by which an element is read when it has been written. -/
def readBack : ElementKind → ElementKind
  | p | li | dl => text
  | blockquote => quote
  | dt | b => strong
  | i => em
  | s => strike
  | styleFont => font
  | styleHighlight => highlight
  | k => k

/-- The kind that an element of the kind is written by: a colour by the style it stands for. -/
def writing : ElementKind → ElementKind
  | font => styleFont
  | highlight => styleHighlight
  | k => k

def standsIn (k : ElementKind) : Option ContentModel → Bool
  | none => k.isBlock
  | some m => m.admits k

theorem fits_eq_standsIn (k : ElementKind) (frame : Option ElementKind) :
    k.fits frame = k.standsIn (frame.map model) := by
  cases frame <;> rfl

@[simp]
theorem model_writing (k : ElementKind) : k.writing.model = k.model := by
  cases k <;> rfl

theorem ofName_of_writtenName? {k : ElementKind} {name : String} (h : Grammar.standard.writtenName? k = some name) :
    TagName.ofName name = .known k.readBack
      ∧ Grammar.standard.writtenName? k.readBack.writing = some name := by
  cases k <;> cases h <;> exact ⟨by decide, rfl⟩

theorem mayHave_readBack {k : ElementKind} {bare : Prop} {attributes : List Attribute}
    (h : k.MayHave bare attributes) (hwritten : k.isWritten) :
    k.readBack.writing.MayHave bare attributes := by
  cases k
  case p => exact .inl h
  case li => exact .inr h
  case dl => exact .inl h
  case ul => cases hwritten
  case ol => cases hwritten
  case dd => cases hwritten
  all_goals first | exact h | cases hwritten

/-- Where what an element of the kind holds stands once it has been written, if the element stands there. -/
def placeInside (k : ElementKind) (place : Option ContentModel) : Option ContentModel :=
  if k.isWritten then some k.readBack.model else place

end ElementKind

namespace ContentModel

/-- Whether what may stand in the first place may stand in the second the way it is written. -/
def covers : Option ContentModel → Option ContentModel → Bool
  | none, place => place = none
  | some phrasing, place => place = some .phrasing || place = some .flow
  | some flow, place | some terms, place => place = some .flow
  | some items, place => place = none || place = some .flow
  | some rows, place => place = some .rows
  | some cells, place => place = some .cells
  | some nothing, _ => true

theorem covers_of_standsIn {frame place : Option ContentModel} {k : ElementKind} (h : covers frame place)
    (hk : k.standsIn frame) :
    (k.isWritten → k.readBack.standsIn place)
      ∧ covers (some k.model) (k.placeInside place) := by
  -- At most two places cover a frame, and then what is left is a table over the kinds.
  cases frame with
  | none =>
    have hplace : place = none := by simpa [covers] using h
    subst hplace
    cases k <;> first | decide | cases hk
  | some m =>
    cases m with
    | nothing => cases hk
    | phrasing =>
      have hplace : place = some .phrasing ∨ place = some .flow := by simpa [covers] using h
      rcases hplace with rfl | rfl <;> cases k <;> first | decide | cases hk
    | items =>
      have hplace : place = none ∨ place = some .flow := by simpa [covers] using h
      rcases hplace with rfl | rfl <;> cases k <;> first | decide | cases hk
    | flow | terms =>
      have hplace : place = some .flow := by simpa [covers] using h
      subst hplace
      cases k <;> first | decide | cases hk
    | rows =>
      have hplace : place = some .rows := by simpa [covers] using h
      subst hplace
      cases k <;> first | decide | cases hk
    | cells =>
      have hplace : place = some .cells := by simpa [covers] using h
      subst hplace
      cases k <;> first | decide | cases hk

theorem holdsText_of_covers {m : ContentModel} {place : Option ContentModel} (h : covers (some m) place)
    (hm : m.holdsText) : ∃ n ∈ place, n.holdsText := by
  cases m with
  | phrasing =>
    have hplace : place = some .phrasing ∨ place = some .flow := by simpa [covers] using h
    rcases hplace with rfl | rfl
    . exact ⟨.phrasing, rfl, rfl⟩
    . exact ⟨.flow, rfl, rfl⟩
  | flow =>
    have hplace : place = some .flow := by simpa [covers] using h
    exact ⟨.flow, hplace, rfl⟩
  | items | terms | rows | cells | nothing => cases hm

end ContentModel

/-- Siblings that cleaning leaves as they are: no text is next to another, every element may stand where it does
and only some have no children. If `bare`, elements of a colour may do without one. -/
inductive Node.Canonical (o : CleaningOptions) (bare : Prop) : Option ContentModel → List Node → Prop
  | nil (place : Option ContentModel) : Canonical o bare place []
  | text {place : Option ContentModel} {ns : List Node} {content : String} (before : Canonical o bare place ns)
      (happart : Node.endsInText ns = false) (hplace : ∃ m ∈ place, m.holdsText)
      (hcontent : o.admitText? content = some content) : Canonical o bare place (ns ++ [.text content])
  | element {place : Option ContentModel} {ns children : List Node} {name : String}
      {attributes : List Attribute} {k : ElementKind} (before : Canonical o bare place ns)
      (hread : TagName.ofName name = .known k) (hwritten : Grammar.standard.writtenName? k.writing = some name)
      (hplace : k.standsIn place) (hattributes : k.writing.MayHave bare attributes)
      (hchildren : children = [] → k = .hr ∨ k.entry.collapses)
      (held : Canonical o bare (some k.model) children) :
      Canonical o bare place (ns ++ [.element name attributes children])

namespace Node.Canonical

variable {o : CleaningOptions} {bare : Prop} {place : Option ContentModel} {ns : List Node}

theorem appendText {content : String} (h : Canonical o bare place ns) (hplace : ∃ m ∈ place, m.holdsText)
    (hcontent : o.admitText? content = some content) : Canonical o bare place (Node.appendText content ns) := by
  cases h with
  | nil =>
    exact text (.nil place) rfl hplace hcontent
  | text before happart _ hadmitted =>
    -- The two are one text, in front of which there is none.
    rw [appendText_snoc]
    exact text before happart hplace (CleaningOptions.admitText?_append hadmitted hcontent)
  | element before hread hwritten hstands hattributes hchildren held =>
    rw [appendText_of_not_endsInText (by simp [endsInText, isElement])]
    exact text (element before hread hwritten hstands hattributes hchildren held)
      (by simp [endsInText, isElement]) hplace hcontent

theorem isWritten_of_standalone {k : ElementKind} (h : k = .hr ∨ k.entry.collapses) :
    k.isWritten ∧ (k.readBack = .hr ∨ k.readBack.entry.collapses) := by
  revert h
  cases k <;> decide

theorem writtenBehind_ne_nil {content : Content} {frame : Option ElementKind} (h : content.Lawful o bare frame)
    (hne : content ≠ .nil ∨ ns ≠ []) : content.writtenBehind .standard ns ≠ [] := by
  induction content generalizing frame ns with
  | nil => simpa [Content.writtenBehind] using hne
  | element before k attributes held ihbefore ihheld =>
    rcases h with ⟨-, -, -, -, hheld, hlawful⟩
    unfold Content.writtenBehind
    split
    . simp
    -- An element that is not written itself holds something, of which something is written.
    . exact ihheld hlawful (.inl hheld)
  | standalone before k attributes ihbefore =>
    rcases h with ⟨-, -, -, hstandalone⟩
    have hwritten := (isWritten_of_standalone hstandalone).1
    rw [← ElementKind.isSome_writtenName?, Option.isSome_iff_exists] at hwritten
    rcases hwritten with ⟨name, hname⟩
    simp [Content.writtenBehind, hname]
  | text before content ihbefore =>
    unfold Content.writtenBehind
    apply appendText_ne_nil

theorem writtenBehind {content : Content} {frame : Option ElementKind} (h : content.Lawful o bare frame)
    (hcovers : ContentModel.covers (frame.map ElementKind.model) place) (hns : Canonical o bare place ns) :
    Canonical o bare place (content.writtenBehind .standard ns) := by
  induction content generalizing frame place ns with
  | nil => exact hns
  | element before k attributes held ihbefore ihheld =>
    rcases h with ⟨hbefore, hfits, hattributes, -, hheld, hlawful⟩
    rw [ElementKind.fits_eq_standsIn] at hfits
    have hinside := ContentModel.covers_of_standsIn hcovers hfits
    have hns := ihbefore hbefore hcovers hns
    unfold ElementKind.placeInside at hinside
    rw [← ElementKind.isSome_writtenName?] at hinside
    simp only [Content.writtenBehind]
    split
    . next name hname =>
      have hread := ElementKind.ofName_of_writtenName? hname
      simp only [hname, Option.isSome_some, ↓reduceIte, forall_const] at hinside
      apply element hns hread.1 hread.2 hinside.1
      . apply ElementKind.mayHave_readBack hattributes
        simp [← ElementKind.isSome_writtenName?, hname]
      . intro hnil
        exact absurd hnil (writtenBehind_ne_nil hlawful (.inl hheld))
      . exact ihheld hlawful hinside.2 (.nil _)
    . next hname =>
      -- What it holds stands where the element itself would have stood.
      simp only [hname, Option.isSome_none, Bool.false_eq_true, ↓reduceIte] at hinside
      exact ihheld hlawful hinside.2 hns
  | standalone before k attributes ihbefore =>
    rcases h with ⟨hbefore, hfits, hattributes, hstandalone⟩
    rw [ElementKind.fits_eq_standsIn] at hfits
    have hinside := ContentModel.covers_of_standsIn hcovers hfits
    have hwritten := isWritten_of_standalone hstandalone
    have hname := hwritten.1
    rw [← ElementKind.isSome_writtenName?, Option.isSome_iff_exists] at hname
    rcases hname with ⟨name, hname⟩
    have hread := ElementKind.ofName_of_writtenName? hname
    simp only [Content.writtenBehind, hname]
    apply element (ihbefore hbefore hcovers hns) hread.1 hread.2 (hinside.1 hwritten.1)
    . exact ElementKind.mayHave_readBack hattributes hwritten.1
    . intro _
      exact hwritten.2
    . exact .nil _
  | text before content ihbefore =>
    rcases h with ⟨hbefore, ⟨w, hframe, hholds⟩, hcontent⟩
    apply appendText (ihbefore hbefore hcovers hns) _ hcontent
    rw [Option.mem_def] at hframe
    subst hframe
    exact ContentModel.holdsText_of_covers hcovers hholds

end Node.Canonical

end NoteMarkup
