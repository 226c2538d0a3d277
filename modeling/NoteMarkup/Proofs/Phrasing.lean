import NoteMarkup.Proofs.Idempotence
import NoteMarkup.Proofs.Repetition

/-!
This module contains what becomes of inline content in a block that holds text. Nothing stands in its way and nothing
has to be supplied, so that inline elements open on top of what is open, a line break begins the block and all that
is open in it anew, and the block itself stays open until its own end tag.
-/

namespace NoteMarkup

def TagName.isPhrasing (name : TagName) : Bool :=
  name.isLight || name == .known .br

theorem TagName.isPhrasing_cases {name : TagName} (h : name.isPhrasing) :
    (∃ raw, name = .unknown raw) ∨ (∃ w, name = .known w ∧ w.isInline) ∨ name = .known .br := by
  rw [isPhrasing, Bool.or_eq_true, beq_iff_eq] at h
  rcases h with hlight | rfl
  . cases name with
    | known w => exact .inr (.inl ⟨w, rfl, hlight⟩)
    | unknown raw => exact .inl ⟨raw, rfl⟩
  . exact .inr (.inr rfl)

def SourceEvent.isPhrasing : SourceEvent → Bool
  | enter name source =>
    (Grammar.standard.canonicalName (.ofName name)).isPhrasing && (enter name source).linksUsably
  | leave name => (Grammar.standard.canonicalName (.ofName name)).isPhrasing
  | text _ => true

theorem SourceEvent.isPhrasing_enter {name : String} {source : List Attribute} (h : (enter name source).isPhrasing) :
    (∃ raw, Grammar.standard.canonicalName (.ofName name) = .unknown raw)
      ∨ (∃ w, Grammar.standard.canonicalName (.ofName name) = .known w ∧ w.isInline
        ∧ (enter name source).linksUsably)
      ∨ Grammar.standard.canonicalName (.ofName name) = .known .br := by
  rw [isPhrasing, Bool.and_eq_true] at h
  rcases TagName.isPhrasing_cases h.1 with hraw | ⟨w, hw, hinline⟩ | hbr
  . exact .inl hraw
  . exact .inr (.inl ⟨w, hw, hinline, h.2⟩)
  . exact .inr (.inr hbr)

def ElementKind.isHost (k : ElementKind) : Bool :=
  k.isBlock && k.model.holdsText

namespace ElementKind

variable {k w : ElementKind}

theorem isInline_of_isHost (h : k.isHost) : k.isInline = false := by
  cases k <;> first | rfl | cases h

theorem splits_of_isHost (h : k.isHost) : k ≠ .tr ∧ k.beginsLines = false ∧ k ≠ .br ∧ k ≠ .hr := by
  cases k <;> first | decide | cases h

theorem keeps_of_isHost (h : k.isHost) (source : List Attribute) : k.entry.keeps source := by
  apply entry_keeps
  . rintro rfl
    cases h
  . rintro rfl
    cases h

theorem admits_of_isHost (h : k.isHost) (hw : w.isInline) : k.model.admits w := by
  cases k <;> first | (cases h; done) | simp [model, ContentModel.admits, hw]

theorem collapses_of_isInline (hw : w.isInline) : w.entry.collapses = false := by
  cases w <;> first | rfl | cases hw

theorem keptAttributes_of_isInline (hw : w.isInline) (source : List Attribute) (parent other : Option ElementKind) :
    w.entry.keptAttributes source parent = w.entry.keptAttributes source other := by
  have hli : w ≠ .li := ne_of_isInline hw rfl
  simp [Entry.keptAttributes, hli]

end ElementKind

namespace Outline

section Runs

variable {o : CleaningOptions} {z : Outline .standard}

def play (o : CleaningOptions) (z : Outline .standard) (events : List SourceEvent) : Outline .standard :=
  events.foldl (step o 0) z

@[simp]
theorem play_nil (o : CleaningOptions) (z : Outline .standard) : play o z [] = z := rfl

@[simp]
theorem play_cons (o : CleaningOptions) (z : Outline .standard) (e : SourceEvent) (events : List SourceEvent) :
    play o z (e :: events) = play o (z.step o 0 e) events := rfl

@[simp]
theorem play_append (o : CleaningOptions) (z : Outline .standard) (first second : List SourceEvent) :
    play o z (first ++ second) = play o (play o z first) second :=
  List.foldl_append

theorem play_element (name : String) (source : List Attribute) (children : List Node) :
    play o z (Node.element name source children).sourceEvents
      =
    (play o (z.enter o 0 (.ofName name) source) (Node.sourceEventsAll children)).leave
      (Grammar.standard.canonicalName (.ofName name)) := by
  simp [Node.sourceEvents, step]

theorem play_draft (events : List SourceEvent) (h : z.Sound o True) :
    z.draft.run? ⟨.standard, o⟩ events = some (play o z events).draft := by
  induction events generalizing z with
  | nil => rfl
  | cons e events ih =>
    unfold Draft.run? at ih ⊢
    rw [List.foldlM_cons, Draft.step?_draft 0 e h]
    exact ih (h.step 0 e fun _ => trivial)

theorem clean_eq_play (o : CleaningOptions) (name : String) (attributes : List Attribute) (children : List Node) :
    Cleaner.clean ⟨.standard, o⟩ (.element name attributes children)
      =
    .ok (play o {} (Node.sourceEventsAll children)).settled.events := by
  have hempty : ({} : Draft) = ({} : Outline .standard).draft := rfl
  have hroot : SourceEvent.ofRoot (.element name attributes children) = .ok (SourceEvent.ofNodes children) := rfl
  unfold Cleaner.clean Cleaner.cleanEvents?
  rw [hroot, SourceEvent.ofNodes_eq]
  dsimp only
  rw [hempty, play_draft _ sound_empty, Option.map_some, settled_draft]

end Runs

section Settled

variable {g : Grammar} {z : Outline g}

@[simp]
theorem settled_closeInnermost (z : Outline g) : z.closeInnermost.settled = z.settled := by
  rcases z with ⟨ground, _ | ⟨l, ls⟩⟩
  . rfl
  . have hlength : (closeInnermost ⟨ground, l :: ls⟩).layers.length = ls.length := by
      rw [← shells_length, closeInnermost_shells]
      simp
    simp only [settled, hlength, List.length_cons, close]

theorem settled_hold_cons (ground held : Content) (l : Layer g) (ls : List (Layer g)) :
    (hold held ⟨ground, l :: ls⟩).settled = (hold (l.hold held).settled ⟨ground, ls⟩).settled := by
  rw [← settled_closeInnermost]
  rfl

@[simp]
theorem settled_close (n : Nat) (z : Outline g) : (z.close n).settled = z.settled := by
  induction n generalizing z with
  | zero => rfl
  | succ n ih => rw [close, ih, settled_closeInnermost]

theorem leave_eq_close (name : TagName) (z : Outline g) : ∃ n, z.leave name = z.close n := by
  unfold leave
  split
  . exact ⟨_, rfl⟩
  . exact ⟨0, rfl⟩

@[simp]
theorem settled_leave (name : TagName) (z : Outline g) : (z.leave name).settled = z.settled := by
  rcases leave_eq_close name z with ⟨n, hn⟩
  rw [hn, settled_close]

theorem eq_of_layers_eq_nil (h : z.layers = []) : z = ⟨z.settled, []⟩ := by
  rcases z with ⟨ground, ls⟩
  cases h
  rfl

def lineAfter (ground : Content) (z : Outline g) : Outline g :=
  ⟨ground, z.shells⟩

@[simp]
theorem lineAfter_shells (ground : Content) (z : Outline g) : (z.lineAfter ground).shells = z.shells := by
  simp [lineAfter, shells]

theorem lineAfter_congr {other : Outline g} (h : z.shells = other.shells) (ground : Content) :
    z.lineAfter ground = other.lineAfter ground := by
  rw [lineAfter, lineAfter, h]

end Settled

/-- The layers where a block of that kind holds inline content: inside of it there are only inline and unknown
elements. -/
inductive Hosted (k : ElementKind) : List (Layer .standard) → Prop
  | host (tag : Tag .standard) (since : Nat) (held : Content) (htag : tag.entry.kind = k) :
    Hosted k [.written tag since held]
  | inside {l : Layer .standard} {ls : List (Layer .standard)} (hl : l.name.isLight) (hrest : Hosted k ls) :
    Hosted k (l :: ls)

namespace Hosted

variable {k : ElementKind} {ls : List (Layer .standard)}

theorem append {inner : List (Layer .standard)} (h : Hosted k ls) (hinner : ∀ l ∈ inner, l.name.isLight) :
    Hosted k (inner ++ ls) := by
  induction inner with
  | nil => exact h
  | cons l inner ih =>
    rw [List.forall_mem_cons] at hinner
    exact .inside hinner.1 (ih hinner.2)

theorem nearestOf (h : Hosted k ls) : ∃ w ∈ nearestOf ls, w.isInline ∨ w = k := by
  induction h with
  | host tag since held htag => exact ⟨tag.entry.kind, rfl, .inr htag⟩
  | @inside l ls hl _ ih =>
    rcases ih with ⟨w, hw, hkind⟩
    unfold Outline.nearestOf at hw ⊢
    unfold TagName.isLight at hl
    rw [List.findSome?_cons]
    cases hname : l.name.kind? with
    | none => exact ⟨w, hw, hkind⟩
    | some v =>
      rw [hname] at hl
      exact ⟨v, rfl, .inl hl⟩

theorem name_ne_br (h : Hosted k ls) (hk : k.isHost) : ∀ l ∈ ls, l.name ≠ .known .br := by
  induction h with
  | host tag since held htag =>
    rw [List.forall_mem_singleton]
    simpa [Layer.name, htag] using (ElementKind.splits_of_isHost hk).2.2.1
  | inside hl _ ih =>
    rw [List.forall_mem_cons]
    refine ⟨?_, ih⟩
    intro hbr
    rw [hbr] at hl
    cases hl

theorem holderOf (h : Hosted k ls) (hk : k.isHost) : holderOf ls = some (ls.length - 1, k) := by
  induction h with
  | host tag since held htag =>
    have hinline : tag.entry.isInline = false := by
      rw [← tag_entry, ElementKind.entry_isInline, htag, ElementKind.isInline_of_isHost hk]
    simp [Outline.holderOf, hinline, htag]
  | @inside l ls hl hrest ih =>
    have hlength : ls.length - 1 + 1 = ls.length := by
      cases hrest <;> rfl
    cases l with
    | silent name since held => simp [Outline.holderOf, ih, hlength]
    | written tag since held =>
      have hinline : tag.entry.isInline := by
        rw [← tag_entry, ElementKind.entry_isInline]
        exact hl
      simp [Outline.holderOf, hinline, ih, hlength]

theorem around? {name : TagName} {ms : List (Layer .standard)} (h : Hosted k ls) (hk : k.isHost)
    (hname : name.isLight) (haround : around? name ls = some ms) : Hosted k ms := by
  induction h with
  | host tag since held htag =>
    have hne : TagName.known k ≠ name := by
      rintro rfl
      have hinline : k.isInline := hname
      rw [ElementKind.isInline_of_isHost hk] at hinline
      cases hinline
    rw [around?_cons] at haround
    simp [Layer.name, htag, hne, Outline.around?] at haround
  | inside hl hrest ih =>
    rw [around?_cons] at haround
    split at haround
    . cases haround
      exact hrest
    . exact ih haround

end Hosted

section Steps

variable {o : CleaningOptions} {k : ElementKind} {z : Outline .standard}

theorem nearest_of_hosted (h : Hosted k z.shells) (hk : k.isHost) :
    ∃ w ∈ z.nearest, w.model.holdsText ∧ ∀ v : ElementKind, v.isInline → w.model.admits v := by
  rcases h.nearestOf with ⟨w, hw, hkind⟩
  refine ⟨w, hw, ?_⟩
  rcases hkind with hinline | rfl
  . rw [ElementKind.model_of_isInline hinline]
    exact ⟨rfl, fun v hv => hv⟩
  . unfold ElementKind.isHost at hk
    exact ⟨(Bool.and_eq_true_iff.mp hk).2, fun v hv => ElementKind.admits_of_isHost hk hv⟩

theorem enter_unknown_of_canonicalName {name : TagName} {raw : String} {now : Nat} {source : List Attribute}
    (hname : Grammar.standard.canonicalName name = .unknown raw) :
    z.enter o now name source = z.openSilently (.unknown raw) now := by
  unfold enter
  rw [hname]

theorem enter_inline {name : String} {w : ElementKind} (hadmits : ∃ parent ∈ z.nearest, parent.model.admits w)
    (hname : Grammar.standard.canonicalName (.ofName name) = .known w) (hw : w.isInline) (source : List Attribute)
    (now : Nat) :
    z.enter o now (.ofName name) source = if w.entry.keeps source then z.openHere o w source now else z := by
  rcases hadmits with ⟨parent, hnearest, hadmits⟩
  have hprepare : z.prepare w now = z := by
    apply prepare_of_standsIn
    simpa [Option.mem_def.mp hnearest, ElementKind.standsIn] using hadmits
  have hdrops : z.drops w = false := by
    rw [Bool.eq_false_iff]
    exact fun hdrops => ElementKind.ne_of_isInline hw rfl (eq_p_of_drops hdrops)
  have hbr : w ≠ .br := ElementKind.ne_of_isInline hw rfl
  unfold enter
  by_cases hkeeps : w.entry.keeps source
  . simp [hname, hkeeps, hbr, hdrops, hprepare]
  . simp [hname, hkeeps]

theorem enter_br {name : TagName} (hname : Grammar.standard.canonicalName name = .known .br) (source : List Attribute)
    (now : Nat) : z.enter o now name source = z.endLine now := by
  have hkeeps : ElementKind.br.entry.keeps source := ElementKind.entry_keeps (by decide) (by decide) source
  unfold enter
  simp [hname, hkeeps]

theorem text_of_nearest (h : ∃ w ∈ z.nearest, w.model.holdsText) (now : Nat) (content : String) :
    z.text now content = z.hold (.text .nil content) := by
  rcases h with ⟨w, hw, hholds⟩
  unfold text
  simp [Option.mem_def.mp hw, hholds]

theorem enter_of_hosted (h : Hosted k z.shells) (hk : k.isHost) {name : String} {w : ElementKind}
    {source : List Attribute} {now : Nat} (hname : Grammar.standard.canonicalName (.ofName name) = .known w)
    (hw : w.isInline) (hlink : (SourceEvent.enter name source).linksUsably) :
    z.enter o now (.ofName name) source = z.openHere o w source now := by
  rcases nearest_of_hosted h hk with ⟨parent, hnearest, -, hadmits⟩
  have hkeeps : w.entry.keeps source := by
    by_cases ha : w = .a
    . subst ha
      exact SourceEvent.keeps_of_linksUsably hlink hname
    . exact ElementKind.entry_keeps ha (ElementKind.ne_of_isInline hw rfl) source
  rw [enter_inline ⟨parent, hnearest, hadmits w hw⟩ hname hw, if_pos hkeeps]

theorem endLine_of_hosted (h : Hosted k z.shells) (hk : k.isHost) (now : Nat) :
    z.endLine now = z.lineAfter z.settled := by
  rcases ElementKind.splits_of_isHost hk with ⟨htr, hbegins, -, -⟩
  have hlength : z.shells.length - 1 + 1 = z.layers.length := by
    rw [← shells_length]
    generalize z.shells = ls at h
    cases h <;> rfl
  have hclosed : z.close z.layers.length = ⟨z.settled, []⟩ := by
    rw [eq_of_layers_eq_nil (close_length_layers z), settled_close]
  have hline : (z.line z.layers.length).reverse.map Layer.emptied = z.shells := by
    rw [line_shells, List.take_of_length_le (by simp)]
  unfold endLine
  rw [h.holderOf hk]
  simp only [htr, ↓reduceIte, hbegins, Bool.false_eq_true, hlength]
  rw [hclosed, putUp, hline, List.append_nil]
  rfl

theorem enter_br_of_hosted (h : Hosted k z.shells) (hk : k.isHost) {name : TagName} {source : List Attribute}
    {now : Nat} (hname : Grammar.standard.canonicalName name = .known .br) :
    z.enter o now name source = z.lineAfter z.settled := by
  rw [enter_br hname, endLine_of_hosted h hk]

theorem leave_br_of_hosted (h : Hosted k z.shells) (hk : k.isHost) : z.leave (.known .br) = z := by
  apply leave_of_hasOpen
  rw [hasOpen, List.any_eq_false]
  intro l hmem
  simpa using h.name_ne_br hk l hmem

theorem text_of_hosted (h : Hosted k z.shells) (hk : k.isHost) (now : Nat) (content : String) :
    z.text now content = z.hold (.text .nil content) := by
  rcases nearest_of_hosted h hk with ⟨w, hw, hholds, -⟩
  exact text_of_nearest ⟨w, hw, hholds⟩ now content

theorem leave_shells_eq (name : TagName) (z : Outline .standard) :
    (z.leave name).shells = (around? name z.shells).getD z.shells := by
  rcases leave_cases name z with ⟨hnone, hleave⟩ | ⟨n, hsome, hleave⟩
  . rw [hleave, hnone, Option.getD_none]
  . rw [hleave, hsome, close_shells, Option.getD_some]

theorem exists_around?_append {name : TagName} {own : Layer .standard} (hown : own.name = name)
    (inner ls : List (Layer .standard)) :
    ∃ rest, around? name (inner ++ own :: ls) = some (rest ++ ls) ∧ rest ⊆ inner ++ [own] := by
  induction inner with
  | nil => exact ⟨[], by simp [around?_cons, hown], by simp⟩
  | cons l inner ih =>
    rw [List.cons_append, around?_cons]
    split
    . exact ⟨inner ++ [own], by simp, by simp⟩
    . rcases ih with ⟨rest, hrest, hsub⟩
      exact ⟨rest, hrest, List.subset_cons_of_subset l hsub⟩

theorem around?_append_of_ne {name : TagName} {own : Layer .standard} (hown : own.name = name)
    {inner : List (Layer .standard)} (hinner : ∀ l ∈ inner, l.name ≠ name) (ls : List (Layer .standard)) :
    around? name (inner ++ own :: ls) = some ls := by
  induction inner with
  | nil => simp [around?_cons, hown]
  | cons l inner ih =>
    rw [List.forall_mem_cons] at hinner
    rw [List.cons_append, around?_cons, if_neg hinner.1, ih hinner.2]

theorem openHere_shells_of_isInline {w : ElementKind} (hw : w.isInline) (source : List Attribute) (now : Nat)
    (z : Outline .standard) :
    ∃ styled own, (z.openHere o w source now).shells = styled ++ own :: z.shells ∧ own.name = .known w
      ∧ ∀ l ∈ styled, l.name.isLight ∧ ∃ s ∈ w.entry.counterparts source, l.name = .known s.kind := by
  rcases openHere_shells (o := o) now (ElementKind.ne_of_isInline hw rfl) source z with
    ⟨styled, own, hshells, -, hown, hstyled⟩
  refine ⟨styled, own, hshells, hown, ?_⟩
  intro l hmem
  rcases (hstyled l hmem).2 with ⟨s, hs, hname⟩
  refine ⟨?_, s, hs, hname⟩
  rw [hname]
  exact (Entry.counterparts_proper hs).isInline

theorem Hosted.openHere (h : Hosted k z.shells) {w : ElementKind} (hw : w.isInline) (source : List Attribute)
    (now : Nat) : Hosted k (z.openHere o w source now).shells := by
  rcases openHere_shells_of_isInline (o := o) hw source now z with ⟨styled, own, hshells, hown, hstyled⟩
  rw [hshells]
  apply Hosted.append
  . exact .inside (by rwa [hown]) h
  . exact fun l hmem => (hstyled l hmem).1

theorem Hosted.enter (h : Hosted k z.shells) (hk : k.isHost) {name : String} {source : List Attribute}
    (he : (SourceEvent.enter name source).isPhrasing) (now : Nat) :
    Hosted k (z.enter o now (.ofName name) source).shells := by
  rcases SourceEvent.isPhrasing_enter he with ⟨raw, hraw⟩ | ⟨w, hw, hinline, hlink⟩ | hbr
  . rw [enter_unknown_of_canonicalName hraw, openSilently_shells]
    exact .inside rfl h
  . rw [enter_of_hosted h hk hw hinline hlink]
    exact h.openHere hinline source now
  . rwa [enter_br_of_hosted h hk hbr, lineAfter_shells]

theorem Hosted.leave (h : Hosted k z.shells) (hk : k.isHost) {name : TagName} (hname : name.isPhrasing) :
    Hosted k (z.leave name).shells := by
  rw [TagName.isPhrasing, Bool.or_eq_true, beq_iff_eq] at hname
  rcases hname with hlight | rfl
  . rw [leave_shells_eq]
    cases haround : Outline.around? name z.shells with
    | none => exact h
    | some ms => exact h.around? hk hlight haround
  . rwa [leave_br_of_hosted h hk]

theorem Hosted.step (h : Hosted k z.shells) (hk : k.isHost) {e : SourceEvent} (he : e.isPhrasing) (now : Nat) :
    Hosted k (z.step o now e).shells := by
  cases e with
  | enter name source => exact h.enter hk he now
  | leave name => exact h.leave hk he
  | text content =>
    simp only [Outline.step]
    split
    . rwa [text_of_hosted h hk, hold_shells]
    . exact h

theorem Hosted.play (h : Hosted k z.shells) (hk : k.isHost) {events : List SourceEvent}
    (hevents : ∀ e ∈ events, e.isPhrasing) : Hosted k (play o z events).shells := by
  induction events generalizing z with
  | nil => exact h
  | cons e events ih =>
    rw [List.forall_mem_cons] at hevents
    exact ih (h.step hk hevents.1 0) hevents.2

end Steps

end Outline

end NoteMarkup
