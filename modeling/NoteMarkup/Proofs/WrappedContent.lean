import NoteMarkup.Proofs.Phrasing

/-!
This module contains that a block around the whole content of an item or a cell makes no difference. The block itself
is left out, and its end tag closes only what is open inside of the item, which the end tag of the item closes anyway.
-/

namespace NoteMarkup

def SourceEvent.tag? : SourceEvent → Option TagName
  | enter name _ | leave name => some (Grammar.standard.canonicalName (.ofName name))
  | text _ => none

mutual

theorem Node.tag_of_mem_sourceEvents {e : SourceEvent} {tag : TagName} (htag : tag ∈ e.tag?) :
    ∀ n : Node, e ∈ n.sourceEvents → ∃ name ∈ n.elementNames, tag = Grammar.standard.canonicalName (.ofName name)
  | .element name source children, h => by
    have hown : tag = Grammar.standard.canonicalName (.ofName name) →
        ∃ below ∈ (element name source children).elementNames, tag = Grammar.standard.canonicalName (.ofName below) :=
      fun heq => ⟨name, by simp [elementNames], heq⟩
    simp only [sourceEvents, List.mem_cons, List.mem_append, List.not_mem_nil, or_false] at h
    rcases h with rfl | h | rfl
    . apply hown
      simpa [SourceEvent.tag?] using htag.symm
    . rcases tag_of_mem_sourceEventsAll htag children h with ⟨below, hmem, heq⟩
      exact ⟨below, by simp [elementNames, hmem], heq⟩
    . apply hown
      simpa [SourceEvent.tag?] using htag.symm
  | .text content, h => by
    simp only [sourceEvents, List.mem_singleton] at h
    subst h
    cases htag

theorem Node.tag_of_mem_sourceEventsAll {e : SourceEvent} {tag : TagName} (htag : tag ∈ e.tag?) :
    ∀ ns : List Node, e ∈ sourceEventsAll ns →
      ∃ name ∈ elementNamesAll ns, tag = Grammar.standard.canonicalName (.ofName name)
  | [], h => by simp [sourceEventsAll] at h
  | n :: ns, h => by
    simp only [sourceEventsAll, List.mem_append] at h
    rcases h with h | h
    . rcases tag_of_mem_sourceEvents htag n h with ⟨name, hmem, heq⟩
      exact ⟨name, by simp [elementNamesAll, hmem], heq⟩
    . rcases tag_of_mem_sourceEventsAll htag ns h with ⟨name, hmem, heq⟩
      exact ⟨name, by simp [elementNamesAll, hmem], heq⟩

end

def ElementKind.dropsBlock (k : ElementKind) : Bool :=
  k == .li || k == .dd || k == .td || k == .th

namespace ElementKind

variable {k : ElementKind}

theorem of_dropsBlock (h : k.dropsBlock) :
    k.model = .flow ∧ k.isInline = false ∧ k.isBlock = false ∧ k ≠ .p ∧ k ≠ .hr ∧ k ≠ .br := by
  cases k <;> first | decide | cases h

theorem keeps_nil_of_dropsBlock (h : k.dropsBlock) : k.entry.keeps [] := by
  cases k <;> first | rfl | cases h

theorem drops_of_dropsBlock (h : k.dropsBlock) (attributes : List Attribute) :
    k.entry.drops (some (.startTag k attributes)) .p := by
  unfold dropsBlock at h
  simpa [entry_drops, Event.opens] using h

end ElementKind

namespace Outline

section Counting

def countNamed (name : TagName) (ls : List (Layer .standard)) : Nat :=
  ls.countP (·.name == name)

variable {o : CleaningOptions} {ls ms : List (Layer .standard)} {z : Outline .standard}

theorem countNamed_eq_zero {name : TagName} : countNamed name ls = 0 ↔ ∀ l ∈ ls, l.name ≠ name := by
  simp [countNamed]

theorem countNamed_append (name : TagName) (ls ms : List (Layer .standard)) :
    countNamed name (ls ++ ms) = countNamed name ls + countNamed name ms :=
  List.countP_append

theorem countNamed_drop_le (name : TagName) (ls : List (Layer .standard)) (n : Nat) :
    countNamed name (ls.drop n) ≤ countNamed name ls :=
  (List.drop_sublist n ls).countP_le

theorem countNamed_lineBegun_le (raw : String) {now : Nat} (h : LineBegun now ls ms) :
    countNamed (.unknown raw) ms ≤ countNamed (.unknown raw) ls := by
  rcases h with ⟨n, rfl⟩
  have hsplit := countNamed_append (.unknown raw) (ls.take n) (ls.drop n)
  rw [List.take_append_drop] at hsplit
  rw [hsplit, countNamed_append]
  simp [countNamed, Layer.name]

theorem countNamed_entersOnto_le (raw : String) {k : ElementKind} {now : Nat} (h : EntersOnto k now ls ms) :
    countNamed (.unknown raw) ms ≤ countNamed (.unknown raw) ls := by
  rcases h with ⟨n, styled, own, around, rfl, -, hstyled, hown, haround, -⟩
  have hknown {new : List (Layer .standard)} (h : ∀ l ∈ new, ∃ w, l.name = .known w) :
      countNamed (.unknown raw) new = 0 := by
    rw [countNamed_eq_zero]
    intro l hmem
    rcases h l hmem with ⟨w, hw⟩
    simp [hw]
  rw [countNamed_append, countNamed_append, countNamed_append, hknown, hknown, hknown]
  . simpa using countNamed_drop_le (.unknown raw) ls n
  . exact fun l hmem => (haround l hmem).imp fun w hw => hw.1
  . rcases hown with rfl | ⟨l, rfl, hname, -⟩
    . simp
    . simpa using ⟨k, hname⟩
  . exact fun l hmem => (hstyled l hmem).imp fun w hw => hw.1

theorem countNamed_enter_le (raw : String) (now : Nat) (name : TagName) (source : List Attribute)
    (z : Outline .standard) :
    countNamed (.unknown raw) (z.enter o now name source).shells
      ≤
    countNamed (.unknown raw) z.shells
      + if Grammar.standard.canonicalName name = .unknown raw then 1 else 0 := by
  rcases enter_cases (o := o) now z name source with hsame | ⟨raw', hname, hsilent⟩ | ⟨-, hbegun⟩ | ⟨k, -, henters⟩
  . rw [hsame]
    omega
  . rw [hsilent, hname]
    simp [countNamed, List.countP_cons, Layer.name]
  . have := countNamed_lineBegun_le raw hbegun
    omega
  . have := countNamed_entersOnto_le raw henters
    omega

theorem countNamed_leave_le (name : TagName) (z : Outline .standard) :
    countNamed name (z.leave name).shells ≤ countNamed name z.shells - 1 := by
  rw [leave_shells_eq]
  generalize z.shells = ls
  induction ls with
  | nil => simp [around?, countNamed]
  | cons l ls ih =>
    rw [around?_cons]
    unfold countNamed at ih ⊢
    by_cases hname : l.name = name
    . simp [hname]
    . have hcount : (l :: ls).countP (·.name == name) = ls.countP (·.name == name) := by simp [hname]
      rw [if_neg hname, hcount]
      cases haround : around? name ls with
      | some ms => simpa [haround] using ih
      | none =>
        rw [haround, Option.getD_none] at ih
        simpa [hcount] using ih

theorem countNamed_leave_le_self (name other : TagName) (z : Outline .standard) :
    countNamed name (z.leave other).shells ≤ countNamed name z.shells := by
  rcases leave_shells other z with ⟨n, hn⟩
  rw [hn]
  exact countNamed_drop_le name z.shells n

mutual

theorem countNamed_play_le (raw : String) {z : Outline .standard} :
    ∀ n : Node, countNamed (.unknown raw) (play o z n.sourceEvents).shells ≤ countNamed (.unknown raw) z.shells
  | .text content => by
    simp only [Node.sourceEvents, play_cons, play_nil]
    rcases step_text_shells (o := o) 0 content z with hsame | hplain
    . exact Nat.le_of_eq (by rw [hsame])
    . rw [hplain]
      simp [countNamed, Layer.name]
  | .element name source children => by
    rw [play_element]
    have hentered := countNamed_enter_le (o := o) raw 0 (.ofName name) source z
    have hheld := countNamed_playAll_le raw (z := z.enter o 0 (.ofName name) source) children
    generalize play o (z.enter o 0 (.ofName name) source) (Node.sourceEventsAll children) = y at hheld ⊢
    by_cases hname : Grammar.standard.canonicalName (.ofName name) = .unknown raw
    . have hleft := countNamed_leave_le (.unknown raw) y
      rw [if_pos hname] at hentered
      rw [hname]
      omega
    . have hleft := countNamed_leave_le_self (.unknown raw) (Grammar.standard.canonicalName (.ofName name)) y
      rw [if_neg hname] at hentered
      omega

theorem countNamed_playAll_le (raw : String) {z : Outline .standard} :
    ∀ ns : List Node,
      countNamed (.unknown raw) (play o z (Node.sourceEventsAll ns)).shells ≤ countNamed (.unknown raw) z.shells
  | [] => Nat.le_refl _
  | n :: ns => by
    rw [Node.sourceEventsAll, play_append]
    exact Nat.le_trans (countNamed_playAll_le raw ns) (countNamed_play_le raw n)

end

/-- Whether no element is open that has the name of an unknown one of the content. -/
def FreeFor (content : List Node) (z : Outline .standard) : Prop :=
  ∀ name ∈ Node.elementNamesAll content, ∀ raw,
    Grammar.standard.canonicalName (.ofName name) = .unknown raw → countNamed (.unknown raw) z.shells = 0

variable {content : List Node}

theorem freeFor_empty (content : List Node) : FreeFor content {} := by
  intro name _ raw _
  simp [countNamed, shells]

theorem FreeFor.play (h : FreeFor content z) (before : List Node) :
    FreeFor content (play o z (Node.sourceEventsAll before)) := by
  intro name hname raw hraw
  have hle := countNamed_playAll_le (o := o) raw (z := z) before
  rw [h name hname raw hraw] at hle
  exact Nat.le_zero.mp hle

theorem FreeFor.enter (h : FreeFor content z) (now : Nat) {name : TagName} (source : List Attribute)
    (hname : ∀ raw, Grammar.standard.canonicalName name = .unknown raw →
      ∀ below ∈ Node.elementNamesAll content, Grammar.standard.canonicalName (.ofName below) ≠ .unknown raw) :
    FreeFor content (z.enter o now name source) := by
  intro below hbelow raw hraw
  have hle := countNamed_enter_le (o := o) raw now name source z
  rw [h below hbelow raw hraw, if_neg fun heq => hname raw heq below hbelow hraw] at hle
  exact Nat.le_zero.mp hle

end Counting

theorem Stacked.model_ne_phrasing {ls : List (Layer .standard)} (h : Stacked ls)
    (hframe : ∀ w ∈ frameOf ls, w.model ≠ .phrasing) : ∀ l ∈ ls, ∀ w, l.name = .known w → w.model ≠ .phrasing := by
  induction ls with
  | nil => simp
  | cons l ls ih =>
    rw [List.forall_mem_cons]
    cases l with
    | silent name since held =>
      cases name with
      | unknown raw => exact ⟨by simp [Layer.name], ih h hframe⟩
      | known k =>
        rcases h.2.1 with ⟨w, hw, hinline⟩
        exact absurd (ElementKind.model_of_isInline hinline) (hframe w hw)
    | written tag since held =>
      have hown : tag.entry.kind.model ≠ .phrasing := hframe _ rfl
      refine ⟨by simpa [Layer.name] using hown, ih h.tail ?_⟩
      intro w hw hmodel
      have hfits := h.1
      rw [Option.mem_def.mp hw, ElementKind.fits, hmodel] at hfits
      exact hown (ElementKind.model_of_isInline hfits)

/-- The layers where content stands in an item or a cell: inside of its own layer there are only inline and unknown
elements and plain blocks. -/
inductive Filling (own : Layer .standard) (outer : List (Layer .standard)) : List (Layer .standard) → Prop
  | own : Filling own outer (own :: outer)
  | inside {l : Layer .standard} {ls : List (Layer .standard)} (hl : l.name.isLight ∨ l.name = .known .p)
    (hrest : Filling own outer ls) : Filling own outer (l :: ls)

def itemLayer (k : ElementKind) (attributes : List Attribute) : Layer .standard :=
  .written (tagOf k attributes) 0 .nil

@[simp]
theorem itemLayer_name (k : ElementKind) (attributes : List Attribute) : (itemLayer k attributes).name = .known k := by
  simp [itemLayer, Layer.name, tagOf]

namespace Filling

variable {k : ElementKind} {attributes : List Attribute} {own : Layer .standard} {outer ls : List (Layer .standard)}

theorem append {inner : List (Layer .standard)} (h : Filling own outer ls) (hinner : ∀ l ∈ inner, l.name.isLight) :
    Filling own outer (inner ++ ls) := by
  induction inner with
  | nil => exact h
  | cons l inner ih =>
    rw [List.forall_mem_cons] at hinner
    exact .inside (.inl hinner.1) (ih hinner.2)

theorem length_lt (h : Filling own outer ls) : outer.length < ls.length := by
  induction h with
  | own => simp
  | inside _ _ ih =>
    rw [List.length_cons]
    omega

theorem nearestOf (h : Filling (itemLayer k attributes) outer ls) :
    ∃ w ∈ nearestOf ls, w.isInline ∨ w = .p ∨ w = k := by
  induction h with
  | own => exact ⟨k, by simp [Outline.nearestOf, TagName.kind?], .inr (.inr rfl)⟩
  | @inside l ls hl _ ih =>
    rcases ih with ⟨w, hw, hkind⟩
    unfold Outline.nearestOf at hw ⊢
    unfold TagName.isLight at hl
    rw [List.findSome?_cons]
    cases hname : l.name with
    | unknown raw => exact ⟨w, hw, hkind⟩
    | known v =>
      rw [hname] at hl
      refine ⟨v, rfl, ?_⟩
      simpa [TagName.kind?, or_assoc] using Or.inl (b := v = k) hl

theorem insert {inside : Nat} {w : ElementKind} {p : Layer .standard} (h : Filling (itemLayer k attributes) outer ls)
    (hk : k.isInline = false) (hholder : holderOf ls = some (inside, w)) (hp : p.name = .known .p) :
    Filling (itemLayer k attributes) outer (ls.take inside ++ p :: ls.drop inside) := by
  induction h generalizing inside with
  | own =>
    have hinline : (tagOf k attributes).entry.isInline = false := by simpa [tagOf] using hk
    simp only [itemLayer, holderOf, hinline, Bool.false_eq_true, ↓reduceIte, Option.some.injEq, Prod.mk.injEq]
      at hholder
    rcases hholder with ⟨rfl, -⟩
    exact .inside (.inr hp) .own
  | @inside l ls hl hrest ih =>
    rcases holderOf_cons_cases l with ⟨v, -, -, hhere⟩ | hdeeper
    . rw [hhere] at hholder
      cases hholder
      exact .inside (.inr hp) (.inside hl hrest)
    . rw [hdeeper] at hholder
      simp only [Option.map_eq_some_iff, Prod.mk.injEq, Prod.exists] at hholder
      rcases hholder with ⟨further, _, hfurther, rfl, rfl⟩
      exact .inside hl (ih hfurther)

theorem around? {name : TagName} {ms : List (Layer .standard)} (h : Filling own outer ls) (hown : own.name ≠ name)
    (houter : ∀ l ∈ outer, l.name ≠ name) (haround : around? name ls = some ms) : Filling own outer ms := by
  induction h with
  | own =>
    have hnone : Outline.around? name outer = none := by
      unfold Outline.around?
      rw [List.findIdx?_eq_none_iff.mpr (by simpa using houter), Option.map_none]
    rw [around?_cons, if_neg hown, hnone] at haround
    cases haround
  | inside hl hrest ih =>
    rw [around?_cons] at haround
    split at haround
    . cases haround
      exact hrest
    . exact ih haround

theorem leave {z : Outline .standard} {name : TagName} (h : Filling own outer z.shells) (hown : own.name ≠ name)
    (houter : ∀ l ∈ outer, l.name ≠ name) : Filling own outer (z.leave name).shells := by
  rw [leave_shells_eq]
  cases haround : Outline.around? name z.shells with
  | none => exact h
  | some ms => exact h.around? hown houter haround

theorem findIdx?_own (h : Filling (itemLayer k attributes) outer ls) (hk : k.isInline = false) (hp : k ≠ .p) :
    ls.findIdx? (·.name == .known k) = some (ls.length - outer.length - 1) := by
  induction h with
  | own => simp [List.findIdx?_cons]
  | @inside l ls hl hrest ih =>
    have hne : (l.name == .known k) = false := by
      rw [beq_eq_false_iff_ne]
      intro hname
      rw [hname] at hl
      rcases hl with hlight | hplain
      . have hinline : k.isInline := hlight
        rw [hk] at hinline
        cases hinline
      . exact hp (TagName.known.inj hplain)
    have hlt := hrest.length_lt
    rw [List.findIdx?_cons, hne, if_neg Bool.false_ne_true, ih, Option.map_some, List.length_cons, Option.some.injEq]
    omega

theorem leave_own {z : Outline .standard} (h : Filling (itemLayer k attributes) outer z.shells)
    (hk : k.isInline = false) (hp : k ≠ .p) : z.leave (.known k) = z.close (z.shells.length - outer.length) := by
  have hlt := h.length_lt
  have hfound := h.findIdx?_own hk hp
  rw [findIdx?_shells] at hfound
  unfold Outline.leave
  rw [hfound]
  dsimp only
  congr 1
  omega

theorem leave_leave {z : Outline .standard} {name : TagName} (h : Filling (itemLayer k attributes) outer z.shells)
    (hk : k.isInline = false) (hp : k ≠ .p) (hname : TagName.known k ≠ name) (houter : ∀ l ∈ outer, l.name ≠ name) :
    (z.leave name).leave (.known k) = z.leave (.known k) := by
  have hinner := h.leave (by simpa using hname) houter
  have hlt := hinner.length_lt
  rw [hinner.leave_own hk hp, h.leave_own hk hp]
  rcases leave_eq_close name z with ⟨n, hn⟩
  rw [hn, close_shells, List.length_drop] at hlt
  rw [hn, close_shells, List.length_drop, close_close]
  congr 1
  omega

end Filling

section Content

variable {o : CleaningOptions} {k : ElementKind} {attributes : List Attribute} {outer : List (Layer .standard)}
  {z : Outline .standard}

theorem nearest_of_filling (h : Filling (itemLayer k attributes) outer z.shells) (hk : k.model = .flow) :
    ∃ w ∈ z.nearest, w.model.holdsText ∧ ∀ v : ElementKind, v.isInline → w.model.admits v := by
  rcases h.nearestOf with ⟨w, hw, hkind⟩
  refine ⟨w, hw, ?_⟩
  rcases hkind with hinline | rfl | rfl
  . rw [ElementKind.model_of_isInline hinline]
    exact ⟨rfl, fun v hv => hv⟩
  . exact ⟨rfl, fun v hv => hv⟩
  . rw [hk]
    exact ⟨rfl, fun v hv => by simp [ContentModel.admits, hv]⟩

theorem Filling.enter (h : Filling (itemLayer k attributes) outer z.shells) (hk : k.dropsBlock) {name : String}
    (hname : (Grammar.standard.canonicalName (.ofName name)).isPhrasing) (source : List Attribute) (now : Nat) :
    Filling (itemLayer k attributes) outer (z.enter o now (.ofName name) source).shells := by
  rcases ElementKind.of_dropsBlock hk with ⟨hmodel, hinline, -⟩
  rcases TagName.isPhrasing_cases hname with ⟨raw, hraw⟩ | ⟨w, hw, hwinline⟩ | hbr
  . rw [enter_unknown_of_canonicalName hraw, openSilently_shells]
    exact .inside (.inl rfl) h
  . rcases nearest_of_filling h hmodel with ⟨parent, hnearest, -, hadmits⟩
    rw [enter_inline ⟨parent, hnearest, hadmits w hwinline⟩ hw hwinline]
    split
    . rcases openHere_shells_of_isInline (o := o) hwinline source now z with ⟨styled, own, hshells, hown, hstyled⟩
      rw [hshells]
      apply Filling.append
      . exact .inside (.inl (by rwa [hown])) h
      . exact fun l hmem => (hstyled l hmem).1
    . exact h
  . rw [enter_br hbr]
    rcases endLine_shells now z with hsame | ⟨inside, w, hholder, -, hbegun⟩
    . rwa [hsame]
    . rw [hbegun]
      exact h.insert hinline hholder (by simp [Layer.name, tagOf])

theorem Filling.step (h : Filling (itemLayer k attributes) outer z.shells) (hk : k.dropsBlock) {e : SourceEvent}
    (he : ∀ tag ∈ e.tag?, tag.isPhrasing ∧ ∀ l ∈ outer, l.name ≠ tag) (now : Nat) :
    Filling (itemLayer k attributes) outer (z.step o now e).shells := by
  rcases ElementKind.of_dropsBlock hk with ⟨hmodel, hinline, -, -, -, hbr⟩
  cases e with
  | enter name source => exact h.enter hk (he _ rfl).1 source now
  | leave name =>
    rcases he _ rfl with ⟨hphrasing, houter⟩
    refine h.leave ?_ houter
    rw [itemLayer_name]
    intro hname
    rw [← hname, TagName.isPhrasing, Bool.or_eq_true, beq_iff_eq] at hphrasing
    rcases hphrasing with hlight | hknown
    . have hlight : k.isInline := hlight
      rw [hinline] at hlight
      cases hlight
    . exact hbr (TagName.known.inj hknown)
  | text content =>
    rcases nearest_of_filling h hmodel with ⟨w, hw, hholds, -⟩
    simp only [Outline.step]
    split
    . rwa [text_of_nearest ⟨w, hw, hholds⟩, hold_shells]
    . exact h

theorem Filling.play (h : Filling (itemLayer k attributes) outer z.shells) (hk : k.dropsBlock)
    {events : List SourceEvent}
    (hevents : ∀ e ∈ events, ∀ tag ∈ e.tag?, tag.isPhrasing ∧ ∀ l ∈ outer, l.name ≠ tag) :
    Filling (itemLayer k attributes) outer (play o z events).shells := by
  induction events generalizing z with
  | nil => exact h
  | cons e events ih =>
    rw [List.forall_mem_cons] at hevents
    exact ih (h.step hk hevents.1 0) hevents.2

end Content

section Item

variable {o : CleaningOptions} {bare : Prop} {k : ElementKind} {z : Outline .standard}

theorem enter_item (hk : k.dropsBlock) {name : TagName} (hname : Grammar.standard.canonicalName name = .known k)
    (z : Outline .standard) :
    ∃ attributes, z.enter o 0 name [] = (z.prepare k 0).place k attributes 0 := by
  rcases ElementKind.of_dropsBlock hk with ⟨-, hinline, -, hp, hhr, hbr⟩
  have hdrops : z.drops k = false := by
    rw [Bool.eq_false_iff]
    exact fun hdrops => hp (eq_p_of_drops hdrops)
  refine ⟨k.entry.keptAttributes [] (z.prepare k 0).nearest, ?_⟩
  unfold enter
  simp [hname, ElementKind.keeps_nil_of_dropsBlock hk, hbr, hdrops, openHere, hhr, hinline]

theorem model_ne_phrasing_around_item (hsound : z.Sound o bare) (hk : k.dropsBlock) (hconcrete : k.isConcrete) :
    ∀ l ∈ (z.prepare k 0).shells, ∀ w, l.name = .known w → w.model ≠ .phrasing := by
  rcases ElementKind.of_dropsBlock hk with ⟨-, hinline, hblock, -, -, hbr⟩
  have hstacked := (hsound.prepare k 0).stacked
  apply hstacked.model_ne_phrasing
  intro w hframe hphrasing
  have hmodel := hstacked.model_nearestOf
  rw [Option.mem_def.mp hframe] at hmodel
  rcases fitting_prepare hconcrete hbr 0 z with ⟨-, hnot⟩ | ⟨parent, hparent, hadmits⟩
  . rw [hblock] at hnot
    cases hnot
  . rw [nearest, Option.mem_def] at hparent
    rw [hparent] at hmodel
    simp only [Option.map_some, Option.some.injEq] at hmodel
    rw [hmodel, hphrasing] at hadmits
    have hk : k.isInline := hadmits
    rw [hinline] at hk
    cases hk

theorem enter_block_of_item (hk : k.dropsBlock) (attributes : List Attribute) {name : TagName}
    (hname : Grammar.standard.canonicalName name = .known .p) (z : Outline .standard) :
    (z.place k attributes 0).enter o 0 name [] = z.place k attributes 0 := by
  have hlast : (z.place k attributes 0).draft.output.back? = some (.startTag k attributes) := by
    simp [place, openWritten, draft, eventsOf, Layer.startTag?, Layer.held, Content.events, tagOf]
  have hdrops : (z.place k attributes 0).drops .p := by
    unfold drops
    rw [nearest_place, Option.any_some, hlast]
    exact ElementKind.drops_of_dropsBlock hk attributes
  have hkeeps : ElementKind.p.entry.keeps [] := rfl
  unfold enter
  simp [hname, hkeeps, hdrops]

theorem name_ne_around_item (hsound : z.Sound o bare) (hk : k.dropsBlock) {item : String}
    (hitem : Grammar.standard.canonicalName (.ofName item) = .known k) {tag : TagName} (htag : tag.isPhrasing)
    (hunknown : ∀ raw, tag = .unknown raw → countNamed tag z.shells = 0) :
    ∀ l ∈ (z.prepare k 0).shells, l.name ≠ tag := by
  rcases TagName.isPhrasing_cases htag with ⟨raw, rfl⟩ | ⟨w, rfl, hw⟩ | rfl
  . rcases enter_item (o := o) hk hitem z with ⟨attributes, henter⟩
    have hcount := countNamed_enter_le (o := o) raw 0 (.ofName item) [] z
    rw [hunknown raw rfl, hitem, henter] at hcount
    have hnone : countNamed (.unknown raw) ((z.prepare k 0).place k attributes 0).shells = 0 := by simpa using hcount
    rw [countNamed_eq_zero] at hnone
    exact fun l hmem => hnone l (List.mem_cons_of_mem _ hmem)
  . intro l hmem hname
    exact model_ne_phrasing_around_item hsound hk (isConcrete_of_canonicalName hitem) l hmem w hname
      (ElementKind.model_of_isInline hw)
  . exact fun l hmem => ((hsound.prepare k 0).name_ne l hmem).2

theorem play_wrapped_item (hsound : z.Sound o bare) (hk : k.dropsBlock) {item wrapper : String}
    (hitem : Grammar.standard.canonicalName (.ofName item) = .known k)
    (hwrapper : Grammar.standard.canonicalName (.ofName wrapper) = .known .p) {content : List Node}
    (hcontent : ∀ name ∈ Node.elementNamesAll content, (Grammar.standard.canonicalName (.ofName name)).isPhrasing)
    (hfree : FreeFor content z) :
    play o z (Node.element item [] [.element wrapper [] content]).sourceEvents
      =
    play o z (Node.element item [] content).sourceEvents := by
  rcases ElementKind.of_dropsBlock hk with ⟨-, hinline, -, hp, -⟩
  rcases enter_item (o := o) hk hitem z with ⟨attributes, henter⟩
  have hevents : ∀ e ∈ Node.sourceEventsAll content, ∀ tag ∈ e.tag?,
      tag.isPhrasing ∧ ∀ l ∈ (z.prepare k 0).shells, l.name ≠ tag := by
    intro e he tag htag
    rcases Node.tag_of_mem_sourceEventsAll htag content he with ⟨name, hname, rfl⟩
    refine ⟨hcontent name hname, name_ne_around_item hsound hk hitem (hcontent name hname) ?_⟩
    intro raw hraw
    rw [hraw]
    exact hfree name hname raw hraw
  have hblock : ∀ l ∈ (z.prepare k 0).shells, l.name ≠ .known .p := by
    intro l hmem hname
    exact model_ne_phrasing_around_item hsound hk (isConcrete_of_canonicalName hitem) l hmem .p hname rfl
  have hfilling : Filling (itemLayer k attributes) (z.prepare k 0).shells
      ((z.prepare k 0).place k attributes 0).shells := .own
  have hfilled := hfilling.play (o := o) hk hevents
  rw [play_element, play_element, hitem, henter, Node.sourceEventsAll, Node.sourceEventsAll, List.append_nil,
    play_element, hwrapper, enter_block_of_item hk attributes hwrapper]
  exact hfilled.leave_leave hinline hp (by simpa using hp) hblock

end Item

end Outline

/-- Siblings, and the same with a block around the whole content of an item or a cell somewhere in them. The item has
no attributes, nor does the block. -/
inductive Wrapping (content : List Node) : List Node → List Node → Prop
  | here (before after : List Node) {item wrapper : String} {k : ElementKind} (hk : k.dropsBlock)
    (hitem : Grammar.standard.canonicalName (.ofName item) = .known k)
    (hwrapper : Grammar.standard.canonicalName (.ofName wrapper) = .known .p) :
    Wrapping content (before ++ .element item [] content :: after)
      (before ++ .element item [] [.element wrapper [] content] :: after)
  | inside (before after : List Node) {name : String} (source : List Attribute) {plain wrapped : List Node}
    (hname : ∀ raw, Grammar.standard.canonicalName (.ofName name) = .unknown raw →
      ∀ below ∈ Node.elementNamesAll content, Grammar.standard.canonicalName (.ofName below) ≠ .unknown raw)
    (hwrapping : Wrapping content plain wrapped) :
    Wrapping content (before ++ .element name source plain :: after) (before ++ .element name source wrapped :: after)

theorem Wrapping.known {content plain wrapped : List Node} (before after : List Node) {name : String} {k : ElementKind}
    (hname : Grammar.standard.canonicalName (.ofName name) = .known k) (source : List Attribute)
    (h : Wrapping content plain wrapped) :
    Wrapping content (before ++ .element name source plain :: after)
      (before ++ .element name source wrapped :: after) := by
  apply Wrapping.inside before after source _ h
  intro raw hraw
  rw [hname] at hraw
  cases hraw

namespace Outline

variable {o : CleaningOptions} {z : Outline .standard}

theorem Sound.play (h : z.Sound o True) (events : List SourceEvent) : (play o z events).Sound o True := by
  induction events generalizing z with
  | nil => exact h
  | cons e events ih => exact ih (h.step 0 e fun _ => trivial)

theorem play_wrapping {content plain wrapped : List Node} (h : Wrapping content plain wrapped)
    (hsound : z.Sound o True) (hfree : FreeFor content z)
    (hcontent : ∀ name ∈ Node.elementNamesAll content, (Grammar.standard.canonicalName (.ofName name)).isPhrasing) :
    play o z (Node.sourceEventsAll wrapped) = play o z (Node.sourceEventsAll plain) := by
  induction h generalizing z with
  | here before after hk hitem hwrapper =>
    simp only [Node.sourceEventsAll_append, Node.sourceEventsAll, play_append]
    rw [play_wrapped_item (hsound.play _) hk hitem hwrapper hcontent (hfree.play before)]
  | @inside before after name source plain wrapped hname hwrapping ih =>
    simp only [Node.sourceEventsAll_append, Node.sourceEventsAll, play_append, play_element]
    rw [ih ((hsound.play _).enter 0 source fun _ => trivial) ((hfree.play before).enter 0 source hname)]

end Outline

namespace Cleaner

/-- A block around the whole content of an item or a cell makes no difference to the document, whatever the content is
made of texts, inline and unknown elements and line breaks. Around the item there may be anything but an unknown
element of a name that an unknown one of the content has too. -/
theorem wrapped_content_cleaned_alike (o : CleaningOptions) (name : String) (attributes : List Attribute)
    {content plain wrapped : List Node} (h : Wrapping content plain wrapped)
    (hcontent : ∀ below ∈ Node.elementNamesAll content,
      (Grammar.standard.canonicalName (.ofName below)).isPhrasing) :
    ∃ cleaned,
      clean ⟨.standard, o⟩ (.element name attributes plain) = .ok cleaned
        ∧ clean ⟨.standard, o⟩ (.element name attributes wrapped) = .ok cleaned := by
  refine ⟨_, Outline.clean_eq_play o name attributes plain, ?_⟩
  rw [Outline.clean_eq_play,
    Outline.play_wrapping h Outline.sound_empty (Outline.freeFor_empty content) hcontent]

def brokenCellContent : List Node :=
  [.element "br" [] [], .text "x", .element "b" [] [.element "foo" [] [.text "y", .element "br" [] []], .text "z"]]

theorem broken_cell_wrapped_alike :
    let cell (held : List Node) : List Node :=
      [.element "table" [] [.element "tr" [] [.element "th" [] [.text "h"], .element "td" [] held]], .text "t"]
    (Wrapping brokenCellContent (cell brokenCellContent) (cell [.element "div" [] brokenCellContent])
        ∧ ∀ below ∈ Node.elementNamesAll brokenCellContent,
          (Grammar.standard.canonicalName (.ofName below)).isPhrasing)
      ∧ ∃ cleaned,
        clean ⟨.standard, {}⟩ (Node.fragment (cell brokenCellContent)) = .ok cleaned
          ∧ clean ⟨.standard, {}⟩ (Node.fragment (cell [.element "div" [] brokenCellContent])) = .ok cleaned := by
  intro cell
  have hrow : Wrapping brokenCellContent [.element "th" [] [.text "h"], .element "td" [] brokenCellContent]
      [.element "th" [] [.text "h"], .element "td" [] [.element "div" [] brokenCellContent]] :=
    .here (k := .td) [.element "th" [] [.text "h"]] [] (by decide) (by decide) (by decide)
  have htable : Grammar.standard.canonicalName (.ofName "table") = .known .table := by decide
  have htr : Grammar.standard.canonicalName (.ofName "tr") = .known .tr := by decide
  have hcell : Wrapping brokenCellContent (cell brokenCellContent) (cell [.element "div" [] brokenCellContent]) :=
    .known [] [.text "t"] htable [] (.known [] [] htr [] hrow)
  have hcontent : ∀ below ∈ Node.elementNamesAll brokenCellContent,
      (Grammar.standard.canonicalName (.ofName below)).isPhrasing := by
    decide
  exact ⟨⟨hcell, hcontent⟩, wrapped_content_cleaned_alike {} Node.fragmentTag [] hcell hcontent⟩

end Cleaner

end NoteMarkup
