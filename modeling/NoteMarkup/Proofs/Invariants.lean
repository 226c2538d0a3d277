import NoteMarkup.Proofs.Access

/-!
This module contains what holds of cleaning under any grammar. What the elementary steps on drafts keep, every
source event keeps; an access that such drafts grant makes no difference; and the depth to which the opening of an
element is tried does not matter, since greater depths have the outcomes of smaller ones.
-/

namespace NoteMarkup

namespace Cleaner

structure Opens (c : Cleaner) (kind : ElementKind) (e : Entry) : Prop where
  canonical : ∃ source, c.grammar.canonical source = kind
  declared : c.grammar.entry? kind = some e
  endsLine : e.endsLine = false

structure Keeps (c : Cleaner) (P : Draft → Prop) : Prop where
  text : ∀ {d}, P d → ∀ content, P (d.emit (.text content))
  standalone : ∀ {d kind e}, P d → c.Opens kind e → e.standalone →
    ∀ attributes, P (d.emit (.standaloneTag kind attributes))
  openSilently : ∀ {d}, P d → ∀ name, P (d.openSilently name)
  openWritten : ∀ {d kind e}, P d → c.Opens kind e → e.standalone = false →
    ∀ attributes, P (d.openWritten kind e attributes)
  close : ∀ {d}, P d → ∀ n, P (d.close c n)
  putUp : ∀ {d d'}, P d → P d' → ∀ n, P (d'.putUp c (d.line n))

/-- From a draft with the property, what the first step comes to has it again, and the second step comes to the
same. -/
def Carries (P : Draft → Prop) (step further : Draft → Option Draft) : Prop :=
  ∀ d d', P d → step d = some d' → P d' ∧ further d = some d'

structure Access.Grants (a : Access) (c : Cleaner) (P : Draft → Prop) : Prop where
  line : ∀ {d}, P d → ∀ {n}, n ≤ d.opened.length → a.line? n d = some (d.line n)
  close : ∀ {d}, P d → ∀ {n}, n ≤ d.opened.length → a.close? n d = some (d.close c n)

theorem Access.plain_grants (c : Cleaner) (P : Draft → Prop) : (plain c).Grants c P :=
  ⟨fun _ _ _ => rfl, fun _ _ _ => rfl⟩

theorem obstacles_le (c : Cleaner) (kind : ElementKind) (opened : List OpenElement) :
    c.obstacles kind opened ≤ opened.length := by
  induction opened with
  | nil => exact Nat.le_refl 0
  | cons o opened ih =>
    unfold obstacles
    dsimp only
    rw [List.length_cons]
    split
    . split <;> omega
    . split <;> omega

theorem lineHolder?_lt {c : Cleaner} {opened : List OpenElement} {inside : Nat} {e : Entry}
    (h : c.lineHolder? opened = some (inside, e)) : inside < opened.length := by
  induction opened generalizing inside with
  | nil => cases h
  | cons o opened ih =>
    have hdeeper : (c.lineHolder? opened).map lineHolder?.deeper = some (inside, e) →
        inside < (o :: opened).length := by
      intro hmap
      rw [Option.map_eq_some_iff] at hmap
      rcases hmap with ⟨⟨further, _⟩, hfurther, heq⟩
      cases heq
      exact Nat.succ_lt_succ (ih hfurther)
    unfold lineHolder? at h
    split at h
    . split at h
      . exact hdeeper h
      . cases h
        exact Nat.succ_pos _
    . exact hdeeper h

variable {c : Cleaner} {P : Draft → Prop} {a : Access} {step further : Draft → Option Draft}

theorem beginLine_carries (hP : c.Keeps P) (ha : a.Grants c P) (h : Carries P step further) {inside : Nat}
    {d d' : Draft} (hinside : inside ≤ d.opened.length) (hd : P d) (hstep : c.beginLine step inside d = some d') :
    P d' ∧ a.beginLine c further inside d = some d' := by
  simp only [beginLine, Option.bind_eq_bind, Option.bind_eq_some_iff] at hstep
  rcases hstep with ⟨opened, hopened, hputUp⟩
  rcases h _ _ (hP.close hd inside) hopened with ⟨hheld, hfurther⟩
  cases hputUp
  refine ⟨hP.putUp hd hheld inside, ?_⟩
  simp [Access.beginLine, ha.line hd hinside, ha.close hd hinside, hfurther]

theorem endLine_carries (hP : c.Keeps P) (ha : a.Grants c P) (h : Carries P step further) :
    Carries P (c.endLine step) (a.endLine c further) := by
  intro d d' hd hstep
  cases hholder : c.lineHolder? d.opened with
  | none =>
    rw [endLine, hholder] at hstep
    rcases Option.map_eq_some_iff.mp hstep with ⟨opened, hopened, rfl⟩
    rcases h _ _ hd hopened with ⟨hheld, hfurther⟩
    refine ⟨hP.close hheld _, ?_⟩
    rw [Access.endLine, hholder]
    simp only [hfurther, Option.bind_eq_bind, Option.bind_some]
    exact ha.close hheld (Nat.sub_le _ _)
  | some holder =>
    rcases holder with ⟨inside, e⟩
    have hinside := lineHolder?_lt hholder
    rw [endLine, hholder] at hstep
    rw [Access.endLine, hholder]
    dsimp only at hstep ⊢
    split at hstep
    . next hrow =>
      rw [if_pos hrow]
      cases hstep
      exact ⟨hd, rfl⟩
    . next hrow =>
      rw [if_neg hrow]
      split at hstep
      . next hbegins =>
        rw [if_pos hbegins]
        exact beginLine_carries hP ha h (Nat.le_of_lt hinside) hd hstep
      . next hbegins =>
        rw [if_neg hbegins]
        cases hstep
        refine ⟨hP.putUp hd (hP.close hd _) _, ?_⟩
        simp [ha.line hd hinside, ha.close hd hinside]

theorem supplyParent_carries {step further : ElementKind → Draft → Option Draft}
    (h : ∀ kind, Carries P (step kind) (further kind)) (e : Entry) :
    Carries P (c.supplyParent step e) (c.supplyParent further e) := by
  intro d d' hd hstep
  unfold supplyParent at hstep ⊢
  split at hstep
  . cases hstep
    exact ⟨hd, rfl⟩
  . next first _ _ =>
    split at hstep
    . next hstands =>
      rw [if_pos hstands]
      cases hstep
      exact ⟨hd, rfl⟩
    . next hstands =>
      rw [if_neg hstands]
      exact h first _ _ hd hstep

theorem supplyBlock_carries (h : Carries P step further) (e : Entry) :
    Carries P (supplyBlock step e) (supplyBlock further e) := by
  intro d d' hd hstep
  unfold supplyBlock at hstep ⊢
  split at hstep
  . next hblock =>
    rw [if_pos hblock]
    exact h _ _ hd hstep
  . next hblock =>
    rw [if_neg hblock]
    cases hstep
    exact ⟨hd, rfl⟩

section

variable {step further : Style.Counterpart → Draft → Option Draft}

theorem openCounterpart_carries (h : ∀ s, Carries P (step s) (further s)) (s : Style.Counterpart) :
    Carries P (c.openCounterpart step · s) (c.openCounterpart further · s) := by
  intro d d' hd hstep
  dsimp only [openCounterpart] at hstep ⊢
  split at hstep
  . next hallows =>
    rw [if_pos hallows]
    exact h s _ _ hd hstep
  . next hallows =>
    rw [if_neg hallows]
    cases hstep
    exact ⟨hd, rfl⟩

theorem openCounterparts_carries (h : ∀ s, Carries P (step s) (further s)) (styles : List Style.Counterpart) :
    Carries P (styles.foldlM (c.openCounterpart step)) (styles.foldlM (c.openCounterpart further)) := by
  induction styles with
  | nil =>
    intro d d' hd hstep
    cases hstep
    exact ⟨hd, rfl⟩
  | cons s styles ih =>
    intro d d' hd hstep
    simp only [List.foldlM_cons, Option.bind_eq_bind, Option.bind_eq_some_iff] at hstep ⊢
    rcases hstep with ⟨opened, hopened, hrest⟩
    rcases openCounterpart_carries h s _ _ hd hopened with ⟨hheld, hfurther⟩
    rcases ih _ _ hheld hrest with ⟨hkept, hlast⟩
    exact ⟨hkept, opened, hfurther, hlast⟩

theorem openHere_carries (hP : c.Keeps P) (h : ∀ s, Carries P (step s) (further s)) {kind : ElementKind}
    {e : Entry} (hopens : c.Opens kind e) (source : List Attribute) :
    Carries P (c.openHere step kind e source) (c.openHere further kind e source) := by
  intro d d' hd hstep
  unfold openHere at hstep ⊢
  dsimp only at hstep ⊢
  split at hstep
  . next hstandalone =>
    rw [if_pos hstandalone]
    cases hstep
    exact ⟨hP.standalone hd hopens hstandalone _, rfl⟩
  . next hstandalone =>
    rw [if_neg hstandalone]
    split at hstep
    . next hdedupe =>
      rw [if_pos hdedupe]
      cases hstep
      exact ⟨hP.openSilently hd _, rfl⟩
    . next hdedupe =>
      rw [if_neg hdedupe]
      exact openCounterparts_carries h _ _ _ (hP.openWritten hd hopens (by simpa using hstandalone) _) hstep

end

theorem openElement?_carries (hP : c.Keeps P) (ha : a.Grants c P) {depth deeper : Nat} (hdepth : depth ≤ deeper)
    (name : TagName) (source : List Attribute) :
    Carries P (c.openElement? depth name source) (a.openElement? c deeper name source) := by
  induction depth generalizing deeper name source with
  | zero =>
    intro d d' hd hstep
    cases hstep
  | succ depth ih =>
    obtain ⟨deeper, rfl⟩ : ∃ n, deeper = n + 1 := ⟨deeper - 1, by omega⟩
    have hinside : depth ≤ deeper := Nat.le_of_succ_le_succ hdepth
    intro d d' hd hstep
    rw [openElement?] at hstep
    rw [Access.openElement?]
    dsimp only at hstep ⊢
    generalize hname : c.grammar.canonicalName name = canonical at hstep ⊢
    cases canonical with
    | unknown raw =>
      cases hstep
      exact ⟨hP.openSilently hd _, rfl⟩
    | known kind =>
      dsimp only at hstep ⊢
      generalize hdeclared : c.grammar.entry? kind = declared at hstep ⊢
      cases declared with
      | none =>
        cases hstep
        exact ⟨hP.openSilently hd _, rfl⟩
      | some e =>
        dsimp only at hstep ⊢
        split at hstep
        . next hkeeps =>
          rw [if_pos hkeeps]
          cases hstep
          exact ⟨hd, rfl⟩
        . next hkeeps =>
          rw [if_neg hkeeps]
          split at hstep
          . next hends =>
            rw [if_pos hends]
            exact endLine_carries hP ha (ih hinside _ _) _ _ hd hstep
          . next hends =>
            rw [if_neg hends]
            split at hstep
            . next hdrops =>
              rw [if_pos hdrops]
              cases hstep
              exact ⟨hd, rfl⟩
            . next hdrops =>
              rw [if_neg hdrops]
              have hopens : c.Opens kind e := by
                refine ⟨?_, hdeclared, by simpa using hends⟩
                cases name with
                | known source => exact ⟨source, TagName.known.inj hname⟩
                | unknown name => cases hname
              simp only [ha.close hd (c.obstacles_le kind d.opened), Option.bind_eq_bind, Option.bind_some,
                Option.bind_eq_some_iff] at hstep ⊢
              rcases hstep with ⟨inParent, hparent, inBlock, hblock, hhere⟩
              rcases supplyParent_carries (fun kind => ih hinside _ _) e _ _ (hP.close hd _) hparent with
                ⟨hheldParent, hfurtherParent⟩
              rcases supplyBlock_carries (ih hinside _ _) e _ _ hheldParent hblock with ⟨hheldBlock, hfurtherBlock⟩
              rcases openHere_carries hP (fun s => ih hinside _ _) hopens source _ _ hheldBlock hhere with
                ⟨hheldHere, hfurtherHere⟩
              exact ⟨hheldHere, inParent, hfurtherParent, inBlock, hfurtherBlock, hfurtherHere⟩

theorem openElement?_mono {depth deeper : Nat} (h : depth ≤ deeper) {name : TagName} {source : List Attribute}
    {d d' : Draft} (hd : c.openElement? depth name source d = some d') :
    c.openElement? deeper name source d = some d' := by
  have hkeeps : c.Keeps fun _ => True := by
    constructor <;> intros <;> trivial
  rw [← Access.plain_openElement?]
  exact (openElement?_carries hkeeps (Access.plain_grants c _) h name source d d' trivial hd).2

theorem openElement?_unique {depth other : Nat} {name : TagName} {source : List Attribute} {d first second : Draft}
    (hfirst : c.openElement? depth name source d = some first)
    (hsecond : c.openElement? other name source d = some second) : first = second := by
  have hleft := openElement?_mono (Nat.le_max_left depth other) hfirst
  have hright := openElement?_mono (Nat.le_max_right depth other) hsecond
  exact Option.some.inj (hleft.symm.trans hright)

theorem openDeeply?_of_openElement? {depth : Nat} {name : TagName} {source : List Attribute} {d d' : Draft}
    (h : c.openElement? depth name source d = some d') (tried : Nat) :
    c.openDeeply? tried name source d = some d' := by
  rw [openDeeply?]
  split
  . next opened hopened => rw [openElement?_unique hopened h]
  . next hnone =>
    have hlt : tried < depth := by
      apply Nat.lt_of_not_le
      intro hle
      rw [openElement?_mono hle h] at hnone
      cases hnone
    exact openDeeply?_of_openElement? h (2 * tried + 1)
termination_by depth - tried

theorem exists_depth_of_openDeeply? {tried : Nat} {name : TagName} {source : List Attribute} {d d' : Draft}
    (h : c.openDeeply? tried name source d = some d') :
    ∃ depth, c.openElement? depth name source d = some d' := by
  refine openDeeply?.partial_correctness c d
    (fun _ name source d' => ∃ depth, c.openElement? depth name source d = some d') ?_ tried name source d' h
  intro deeply ih tried name source d' hd
  split at hd
  . next opened hopened =>
    cases hd
    exact ⟨tried, hopened⟩
  . exact ih _ _ _ _ hd

end Cleaner

namespace Draft

variable {c : Cleaner} {P : Draft → Prop} {d d' : Draft}

theorem enter?_eq_some_iff {name : TagName} {source : List Attribute} :
    d.enter? c name source = some d' ↔ ∃ depth, c.openElement? depth name source d = some d' := by
  unfold enter?
  constructor
  . exact Cleaner.exists_depth_of_openDeeply?
  . rintro ⟨depth, hdepth⟩
    exact Cleaner.openDeeply?_of_openElement? hdepth _

theorem enter?_keeps (hP : c.Keeps P) (hd : P d) {name : TagName} {source : List Attribute}
    (h : d.enter? c name source = some d') : P d' := by
  rw [enter?_eq_some_iff] at h
  rcases h with ⟨depth, hdepth⟩
  have hgrants := Cleaner.Access.plain_grants c P
  exact (Cleaner.openElement?_carries hP hgrants (Nat.le_refl depth) name source d d' hd hdepth).1

theorem text?_keeps (hP : c.Keeps P) (hd : P d) {content : String} (h : d.text? c content = some d') : P d' := by
  have hopen : text?.openThenEmit c content d = some d' → P d' := by
    intro h
    rw [text?.openThenEmit, Option.map_eq_some_iff] at h
    rcases h with ⟨opened, hopened, rfl⟩
    exact hP.text (enter?_keeps hP hd hopened) content
  unfold text? at h
  split at h
  . split at h
    . cases h
      exact hd
    . split at h
      . exact hopen h
      . cases h
        exact hP.text hd content
  . exact hopen h

theorem leave_keeps (hP : c.Keeps P) (hd : P d) (name : TagName) : P (d.leave c name) := by
  unfold leave
  dsimp only
  split
  . exact hP.close hd _
  . exact hd

theorem step?_keeps (hP : c.Keeps P) (hd : P d) {e : SourceEvent} (h : d.step? c e = some d') : P d' := by
  cases e with
  | enter name source => exact enter?_keeps hP hd h
  | leave name =>
    cases h
    exact leave_keeps hP hd _
  | text content =>
    simp only [step?] at h
    split at h
    . exact text?_keeps hP hd h
    . cases h
      exact hd

theorem run?_keeps (hP : c.Keeps P) (hd : P d) {events : List SourceEvent} (h : d.run? c events = some d') :
    P d' := by
  unfold run? at h
  induction events generalizing d with
  | nil =>
    cases h
    exact hd
  | cons e events ih =>
    rw [List.foldlM_cons, Option.bind_eq_bind, Option.bind_eq_some_iff] at h
    rcases h with ⟨next, hnext, hrest⟩
    exact ih (step?_keeps hP hd hnext) hrest

section Granted

variable {a : Cleaner.Access}

theorem enter?_grants (hP : c.Keeps P) (ha : a.Grants c P) (hd : P d) {name : TagName} {source : List Attribute}
    (h : d.enter? c name source = some d') :
    ∃ depth, ∀ deeper, depth ≤ deeper → a.openElement? c deeper name source d = some d' := by
  rw [enter?_eq_some_iff] at h
  rcases h with ⟨depth, hdepth⟩
  exact ⟨depth, fun _ hle => (Cleaner.openElement?_carries hP ha hle name source d d' hd hdepth).2⟩

theorem text?_grants (hP : c.Keeps P) (ha : a.Grants c P) (hd : P d) {content : String}
    (h : d.text? c content = some d') :
    ∃ depth, ∀ deeper, depth ≤ deeper → a.text? c deeper content d = some d' := by
  have hopen : text?.openThenEmit c content d = some d' →
      ∃ depth, ∀ deeper, depth ≤ deeper → Cleaner.Access.text?.openThenEmit c a deeper content d = some d' := by
    intro h
    rw [text?.openThenEmit, Option.map_eq_some_iff] at h
    rcases h with ⟨opened, hopened, rfl⟩
    rcases enter?_grants hP ha hd hopened with ⟨depth, hdepth⟩
    refine ⟨depth, fun deeper hle => ?_⟩
    rw [Cleaner.Access.text?.openThenEmit, hdepth deeper hle, Option.map_some]
  unfold text? at h
  unfold Cleaner.Access.text?
  generalize c.nearest? d.opened = nearest at h ⊢
  cases nearest with
  | some parent =>
    dsimp only at h ⊢
    split at h
    . next hholds =>
      cases h
      exact ⟨0, fun _ _ => if_pos hholds⟩
    . next hholds =>
      simp only [if_neg hholds]
      split at h
      . next hblocks =>
        simp only [if_pos hblocks]
        exact hopen h
      . next hblocks =>
        cases h
        exact ⟨0, fun _ _ => if_neg hblocks⟩
  | none => exact hopen h

theorem leave_grants (ha : a.Grants c P) (hd : P d) (name : TagName) : a.leave? c name d = some (d.leave c name) := by
  unfold leave Cleaner.Access.leave?
  dsimp only
  generalize hfound : d.opened.findIdx? (·.name == c.grammar.canonicalName name) = found
  cases found with
  | some i => exact ha.close hd (List.findIdx?_eq_some_iff_getElem.mp hfound).1
  | none => rfl

theorem step?_grants (hP : c.Keeps P) (ha : a.Grants c P) (hd : P d) {e : SourceEvent} (h : d.step? c e = some d') :
    ∃ depth, ∀ deeper, depth ≤ deeper → a.step? c deeper d e = some d' := by
  cases e with
  | enter name source => exact enter?_grants hP ha hd h
  | leave name =>
    cases h
    exact ⟨0, fun _ _ => leave_grants ha hd _⟩
  | text content =>
    simp only [step?] at h
    simp only [Cleaner.Access.step?]
    generalize c.options.admitText? content = admitted at h ⊢
    cases admitted with
    | some admitted => exact text?_grants hP ha hd h
    | none =>
      cases h
      exact ⟨0, fun _ _ => rfl⟩

theorem run?_grants (hP : c.Keeps P) (ha : a.Grants c P) (hd : P d) {events : List SourceEvent}
    (h : d.run? c events = some d') : ∃ depth, ∀ deeper, depth ≤ deeper → a.run? c deeper d events = some d' := by
  unfold run? at h
  unfold Cleaner.Access.run?
  induction events generalizing d with
  | nil => exact ⟨0, fun _ _ => h⟩
  | cons e events ih =>
    rw [List.foldlM_cons, Option.bind_eq_bind, Option.bind_eq_some_iff] at h
    rcases h with ⟨next, hnext, hrest⟩
    rcases step?_grants hP ha hd hnext with ⟨first, hfirst⟩
    rcases ih (step?_keeps hP hd hnext) hrest with ⟨depth, hdepth⟩
    refine ⟨max first depth, fun deeper hle => ?_⟩
    rw [List.foldlM_cons, hfirst deeper (by omega), Option.bind_eq_bind, Option.bind_some, hdepth deeper (by omega)]

end Granted

end Draft

end NoteMarkup
