import NoteMarkup.Proofs.Ownership

/-!
This module contains two runs of cleaning next to each other, of which one passes inline elements through that are
open already and the other writes them again. Layers of the second run that the first has none for are those of
the styles of such elements; without their inline elements both outlines are the same.
-/

namespace NoteMarkup

namespace Outline

theorem obstaclesOf_eq_zero_iff {k : ElementKind} {ls : List (Layer .standard)} :
    obstaclesOf k ls = 0 ↔ (nearestOf ls).all (·.model.admits k) := by
  constructor
  . intro hzero
    have hadmits := nearestOf_drop_obstaclesOf k ls
    rwa [hzero] at hadmits
  . exact obstaclesOf_eq_zero

theorem obstaclesOf_cons {k : ElementKind} {l : Layer .standard} {ls : List (Layer .standard)}
    (h : obstaclesOf k (l :: ls) ≠ 0) : obstaclesOf k (l :: ls) = obstaclesOf k ls + 1 := by
  simp only [obstaclesOf] at h ⊢
  split <;> simp_all

theorem holderOf_cons_of_isInline {l : Layer .standard} (hl : l.name.isInline) (ls : List (Layer .standard)) :
    holderOf (l :: ls) = (holderOf ls).map fun (inside, k) => (inside + 1, k) := by
  rcases holderOf_cons_cases l with ⟨k, hname, hk, -⟩ | hholder
  . rw [hname] at hl
    exact absurd hl (by simp [TagName.isInline, TagName.kind?, hk])
  . exact hholder ls

def around? (name : TagName) (ls : List (Layer .standard)) : Option (List (Layer .standard)) :=
  (ls.findIdx? (·.name == name)).map fun i => ls.drop (i + 1)

theorem around?_cons (name : TagName) (l : Layer .standard) (ls : List (Layer .standard)) :
    around? name (l :: ls) = if l.name = name then some ls else around? name ls := by
  unfold around?
  rw [List.findIdx?_cons]
  by_cases hname : l.name = name
  . simp [hname]
  . simp [hname, Function.comp_def]

theorem leave_cases (name : TagName) (z : Outline .standard) :
    around? name z.shells = none ∧ z.leave name = z
      ∨
    ∃ n, around? name z.shells = some (z.shells.drop n) ∧ z.leave name = z.close n := by
  unfold around? leave
  rw [findIdx?_shells]
  cases z.layers.findIdx? (·.name == name) with
  | none => exact .inl ⟨rfl, rfl⟩
  | some i => exact .inr ⟨i + 1, rfl, rfl⟩

/-- The layers of a run that writes repeated inline elements, next to those of one that passes them through. What
was opened for a style of an element may be missing there, as long as it stands inside something inline. -/
inductive Beside (as : List Ancestor) : List (Layer .standard) → List (Layer .standard) → Prop
  | nil : Beside as [] []
  | same {l : Layer .standard} {ls ms : List (Layer .standard)} (hl : l.name.isInline = false)
    (hrest : Beside as ls ms) : Beside as (l :: ls) (l :: ms)
  | pair {l m : Layer .standard} {ls ms : List (Layer .standard)} (hname : l.name = m.name) (hm : m.name.isInline)
    (hrest : Beside as ls ms) : Beside as (l :: ls) (m :: ms)
  | skip {l : Layer .standard} {ls ms : List (Layer .standard)} (hl : l.name.isInline)
    (hstyle : ∃ a ∈ as, a.number = l.since ∧ a.tag ≠ l.name) (hinside : ∃ w ∈ nearestOf ls, w.isInline)
    (hrest : Beside as ls ms) : Beside as (l :: ls) ms

namespace Beside

variable {as bs : List Ancestor} {ls ms : List (Layer .standard)}

theorem mono (h : Beside as ls ms) (hsub : as ⊆ bs) : Beside bs ls ms := by
  induction h with
  | nil => exact .nil
  | same hl _ ih => exact .same hl ih
  | pair hname hm _ ih => exact .pair hname hm ih
  | skip hl hstyle hinside _ ih =>
    rcases hstyle with ⟨a, ha, hstyle⟩
    exact .skip hl ⟨a, hsub ha, hstyle⟩ hinside ih

theorem tail {a : Ancestor} (h : Beside (a :: as) ls ms) (hls : ∀ l ∈ ls, l.name.isInline → l.since ≠ a.number) :
    Beside as ls ms := by
  induction h with
  | nil => exact .nil
  | same hl _ ih => exact .same hl (ih (List.forall_mem_cons.mp hls).2)
  | pair hname hm _ ih => exact .pair hname hm (ih (List.forall_mem_cons.mp hls).2)
  | skip hl hstyle hinside _ ih =>
    rw [List.forall_mem_cons] at hls
    rcases hstyle with ⟨b, hb, hnumber, htag⟩
    rw [List.mem_cons] at hb
    rcases hb with rfl | hb
    . exact absurd hnumber.symm (hls.1 hl)
    . exact .skip hl ⟨b, hb, hnumber, htag⟩ hinside (ih hls.2)

theorem heavy_eq (h : Beside as ls ms) : heavy ls = heavy ms := by
  unfold heavy
  induction h with
  | nil => rfl
  | same hl _ ih => simp [hl, ih]
  | pair hname hm _ ih => simp [hname, hm, ih]
  | skip hl _ _ _ ih => simp [hl, ih]

theorem nearestOf_eq_or (h : Beside as ls ms) :
    nearestOf ls = nearestOf ms ∨ (∃ w ∈ nearestOf ls, w.isInline) ∧ ∃ w ∈ nearestOf ms, w.isInline := by
  have hinline {l : Layer .standard} (ls : List (Layer .standard)) (hl : l.name.isInline) :
      ∃ w ∈ nearestOf (l :: ls), w.isInline := by
    rcases (Option.any_eq_true _ _).mp hl with ⟨w, hw, hwinline⟩
    exact ⟨w, by simp [nearestOf, hw], hwinline⟩
  induction h with
  | nil => exact .inl rfl
  | @same l ls ms hl _ ih =>
    unfold nearestOf at ih ⊢
    simp only [List.findSome?_cons]
    cases l.name.kind? with
    | none => exact ih
    | some k => exact .inl rfl
  | @pair l m ls ms hname hm _ _ => exact .inr ⟨hinline ls (hname ▸ hm), hinline ms hm⟩
  | @skip l ls ms hl _ hinside _ ih =>
    refine .inr ⟨hinline ls hl, ?_⟩
    rcases ih with heq | ⟨-, hms⟩
    . exact heq ▸ hinside
    . exact hms

theorem model_nearestOf (h : Beside as ls ms) :
    (nearestOf ls).map ElementKind.model = (nearestOf ms).map ElementKind.model := by
  rcases h.nearestOf_eq_or with heq | ⟨⟨v, hv, hvinline⟩, w, hw, hwinline⟩
  . rw [heq]
  . rw [Option.mem_def] at hv hw
    simp [hv, hw, ElementKind.model_of_isInline hvinline, ElementKind.model_of_isInline hwinline]

theorem obstaclesOf_eq_zero_iff (h : Beside as ls ms) (k : ElementKind) :
    obstaclesOf k ls = 0 ↔ obstaclesOf k ms = 0 := by
  have hmodel := congrArg (Option.all (·.admits k)) h.model_nearestOf
  rw [Option.all_map, Option.all_map] at hmodel
  rw [Outline.obstaclesOf_eq_zero_iff, Outline.obstaclesOf_eq_zero_iff]
  exact Bool.eq_iff_iff.mp hmodel

theorem drop_obstaclesOf (h : Beside as ls ms) (k : ElementKind) :
    Beside as (ls.drop (obstaclesOf k ls)) (ms.drop (obstaclesOf k ms)) := by
  have hzero {ls ms : List (Layer .standard)} (h : Beside as ls ms)
      (hsome : obstaclesOf k ls ≠ 0 → obstaclesOf k ms ≠ 0 →
        Beside as (ls.drop (obstaclesOf k ls)) (ms.drop (obstaclesOf k ms))) :
      Beside as (ls.drop (obstaclesOf k ls)) (ms.drop (obstaclesOf k ms)) := by
    have hboth := h.obstaclesOf_eq_zero_iff k
    by_cases hls : obstaclesOf k ls = 0
    . rw [hls, hboth.mp hls]
      exact h
    . exact hsome hls (hls ∘ hboth.mpr)
  induction h with
  | nil => exact .nil
  | same hl hrest ih =>
    apply hzero (.same hl hrest)
    intro hls hms
    rwa [obstaclesOf_cons hls, obstaclesOf_cons hms]
  | pair hname hm hrest ih =>
    apply hzero (.pair hname hm hrest)
    intro hls hms
    rwa [obstaclesOf_cons hls, obstaclesOf_cons hms]
  | skip hl hstyle hinside hrest ih =>
    apply hzero (.skip hl hstyle hinside hrest)
    intro hls _
    rwa [obstaclesOf_cons hls]

theorem around? (h : Beside as ls ms) {name : TagName}
    (hfirst : ∀ l ∈ ls.find? (·.name == name), l.name.isInline → ∀ a ∈ as, a.number = l.since → a.tag = l.name) :
    (Outline.around? name ls).Rel (Beside as) (Outline.around? name ms) := by
  induction h with
  | nil => exact .none
  | @same l ls ms hl hrest ih =>
    rw [around?_cons, around?_cons]
    split
    . exact .some hrest
    . next hname =>
      apply ih
      simpa [List.find?_cons, hname] using hfirst
  | @pair l m ls ms hlm hm hrest ih =>
    rw [around?_cons, around?_cons, hlm]
    split
    . exact .some hrest
    . next hname =>
      apply ih
      simpa [List.find?_cons, hlm, hname] using hfirst
  | @skip l ls ms hl hstyle hinside hrest ih =>
    rw [around?_cons]
    split
    -- The layer of a style would be the first of the name.
    . next hname =>
      rcases hstyle with ⟨a, ha, hnumber, htag⟩
      exact absurd (hfirst l (by simp [hname]) hl a ha hnumber) htag
    . next hname =>
      apply ih
      simpa [List.find?_cons, hname] using hfirst

theorem insert {inside inside' : Nat} {k k' : ElementKind} {p : Layer .standard} (h : Beside as ls ms)
    (hls : holderOf ls = some (inside, k)) (hms : holderOf ms = some (inside', k')) (hp : p.name.isInline = false) :
    Beside as (ls.take inside ++ p :: ls.drop inside) (ms.take inside' ++ p :: ms.drop inside') := by
  have hdeeper {ls : List (Layer .standard)} {inside : Nat} {k : ElementKind}
      (h : ((holderOf ls).map fun (inside, k) => (inside + 1, k)) = some (inside, k)) :
      ∃ further, inside = further + 1 ∧ holderOf ls = some (further, k) := by
    simp only [Option.map_eq_some_iff, Prod.mk.injEq, Prod.exists] at h
    rcases h with ⟨further, _, hfurther, rfl, rfl⟩
    exact ⟨further, rfl, hfurther⟩
  induction h generalizing inside inside' with
  | nil => cases hls
  | @same l ls ms hl hrest ih =>
    rcases holderOf_cons_cases l with ⟨w, -, -, hholder⟩ | hholder
    . rw [hholder] at hls hms
      cases hls
      cases hms
      exact .same hp (.same hl hrest)
    . rw [hholder] at hls hms
      rcases hdeeper hls with ⟨further, rfl, hfurther⟩
      rcases hdeeper hms with ⟨further', rfl, hfurther'⟩
      exact .same hl (ih hfurther hfurther')
  | @pair l m ls ms hname hm hrest ih =>
    rw [holderOf_cons_of_isInline (hname ▸ hm)] at hls
    rw [holderOf_cons_of_isInline hm] at hms
    rcases hdeeper hls with ⟨further, rfl, hfurther⟩
    rcases hdeeper hms with ⟨further', rfl, hfurther'⟩
    exact .pair hname hm (ih hfurther hfurther')
  | @skip l ls ms hl hstyle hinside hrest ih =>
    rw [holderOf_cons_of_isInline hl] at hls
    rcases hdeeper hls with ⟨further, rfl, hfurther⟩
    -- What is inline and nearest is inside of the written element, and stays the nearest.
    have hnearest : ∃ w ∈ nearestOf (ls.take further ++ p :: ls.drop further), w.isInline := by
      rcases hinside with ⟨w, hw, hwinline⟩
      have hdrop := holderOf_drop hfurther
      unfold nearestOf at hw hdrop ⊢
      rw [← List.take_append_drop further ls, List.findSome?_append, hdrop.1] at hw
      rw [List.findSome?_append]
      cases hnearest : (ls.take further).findSome? (·.name.kind?) with
      | some v =>
        rw [hnearest, Option.some_or] at hw
        exact ⟨w, by simpa using hw, hwinline⟩
      | none =>
        rw [hnearest, Option.none_or] at hw
        cases hw
        rw [hdrop.2.2] at hwinline
        cases hwinline
    exact .skip hl hstyle hnearest (ih hfurther hms)

end Beside

structure Alike (as : List Ancestor) (y z : Outline .standard) : Prop where
  beside : Beside as y.shells z.shells
  skeleton : y.skeleton = z.skeleton

namespace Alike

variable {o o' : CleaningOptions} {bare : Prop} {as : List Ancestor} {y z : Outline .standard} {k : ElementKind}
  {now : Nat}

theorem nearest_eq_or (h : Alike as y z) :
    y.nearest = z.nearest ∨ (∃ w ∈ y.nearest, w.isInline) ∧ ∃ w ∈ z.nearest, w.isInline :=
  h.beside.nearestOf_eq_or

theorem model_nearest (h : Alike as y z) :
    y.nearest.map ElementKind.model = z.nearest.map ElementKind.model :=
  h.beside.model_nearestOf

theorem close (h : Alike as y z) (hy : y.Sound o bare) (hz : z.Sound o' bare) {n m : Nat}
    (hbeside : Beside as (y.shells.drop n) (z.shells.drop m)) : Alike as (y.close n) (z.close m) where
  beside := by rwa [close_shells, close_shells]
  skeleton := by
    have hsplit (ls : List (Layer .standard)) (n : Nat) :
        (heavy ls).length = (heavy (ls.take n)).length + (heavy (ls.drop n)).length := by
      unfold heavy
      rw [← List.length_append, ← List.filter_append, List.take_append_drop]
    have hy' := hsplit y.shells n
    have hz' := hsplit z.shells m
    rw [h.beside.heavy_eq] at hy'
    rw [hbeside.heavy_eq] at hy'
    have hcount : (heavy (y.shells.take n)).length = (heavy (z.shells.take m)).length := by omega
    rw [skeleton_close hy, skeleton_close hz, h.skeleton, hcount]

theorem hold (h : Alike as y z) (more : Content) : Alike as (y.hold more) (z.hold more) where
  beside := by rw [hold_shells, hold_shells]; exact h.beside
  skeleton := by rw [skeleton_hold, skeleton_hold, h.skeleton]

theorem place (h : Alike as y z) (hk : k.isInline = false) (attributes : List Attribute) (now : Nat) :
    Alike as (y.place k attributes now) (z.place k attributes now) where
  beside := .same (by simpa using hk) h.beside
  skeleton := by rw [skeleton_place_of_not hk, skeleton_place_of_not hk, h.skeleton]

theorem drops (h : Alike as y z) (hy : y.Sound o bare) (hz : z.Sound o' bare) (k : ElementKind) :
    y.drops k = z.drops k := by
  have hinline {x : Outline .standard} (hx : ∃ w ∈ x.nearest, w.isInline) : x.drops k = false := by
    rcases hx with ⟨w, hw, hwinline⟩
    rw [Option.mem_def] at hw
    unfold Outline.drops
    rw [hw, Option.any_some, ElementKind.entry_drops]
    revert hwinline
    cases w <;> simp [ElementKind.isInline]
  rcases h.nearest_eq_or with heq | ⟨hyinline, hzinline⟩
  . cases hnearest : z.nearest with
    | none =>
      rw [hnearest] at heq
      rw [Cleaner.drops_of_nearest_eq_none heq, Cleaner.drops_of_nearest_eq_none hnearest]
    | some w =>
      rw [hnearest] at heq
      by_cases hw : w.isInline
      . rw [hinline ⟨w, heq, hw⟩, hinline ⟨w, hnearest, hw⟩]
      . have hw : w.isInline = false := by simpa using hw
        rw [← drops_skeleton hy heq hw, ← drops_skeleton hz hnearest hw, h.skeleton]
  . rw [hinline hyinline, hinline hzinline]

theorem endLine (h : Alike as y z) (hy : y.Sound o bare) (hz : z.Sound o' bare) (now : Nat) :
    Alike as (y.endLine now) (z.endLine now) where
  beside := by
    have hholders := holderOf_skeleton y
    rw [h.skeleton, holderOf_skeleton z] at hholders
    unfold Outline.endLine
    cases hyholder : holderOf y.shells with
    | none =>
      rw [hyholder, Option.map_none, Option.map_eq_none_iff] at hholders
      rw [hholders]
      exact (h.hold _).beside
    | some yholder =>
      rcases yholder with ⟨inside, k⟩
      rw [hyholder, Option.map_some, Option.map_eq_some_iff] at hholders
      rcases hholders with ⟨⟨inside', k'⟩, hzholder, heq⟩
      simp only [Prod.mk.injEq] at heq
      rcases heq with ⟨hcount, rfl⟩
      rw [hzholder]
      dsimp only
      have hsame {n m : Nat} :
          Beside as ((y.close n).putUp (y.line n)).shells ((z.close m).putUp (z.line m)).shells := by
        rw [close_putUp_line_shells, close_putUp_line_shells]
        exact h.beside
      split
      . exact h.beside
      . split
        -- The plain block begins in both or in none.
        . have hdrops : (y.close inside).drops .p = (z.close inside').drops .p := by
            have hinline := (holderOf_drop hyholder).2.2
            rw [← drops_skeleton (hy.close inside) (nearest_close_of_holderOf hyholder) hinline,
              ← drops_skeleton (hz.close inside') (nearest_close_of_holderOf hzholder) hinline, skeleton_close hy,
              skeleton_close hz, h.skeleton, hcount]
          unfold openPlain
          rw [hdrops]
          split
          . exact hsame
          . rw [close_place_putUp_line_shells, close_place_putUp_line_shells]
            exact h.beside.insert hyholder hzholder rfl
        . exact hsame
  skeleton := by rw [skeleton_endLine hy, skeleton_endLine hz, h.skeleton]

theorem foldl_place (h : Alike as y z) {ks : List ElementKind} (hks : ∀ k ∈ ks, k.isInline = false) (now : Nat) :
    Alike as (ks.foldl (fun z k => z.place k [] now) y) (ks.foldl (fun z k => z.place k [] now) z) := by
  induction ks generalizing y z with
  | nil => exact h
  | cons k ks ih =>
    rw [List.forall_mem_cons] at hks
    exact ih (h.place hks.1 [] now) hks.2

theorem prepare (h : Alike as y z) (hy : y.Sound o bare) (hz : z.Sound o' bare) (k : ElementKind) (now : Nat) :
    Alike as (y.prepare k now) (z.prepare k now) := by
  have hclear : Alike as (y.clear k) (z.clear k) := h.close hy hz (h.beside.drop_obstaclesOf k)
  have hsome : (y.clear k).nearest.isSome = (z.clear k).nearest.isSome := by
    simpa using congrArg Option.isSome hclear.model_nearest
  rw [prepare_eq, prepare_eq, hsome]
  split
  . exact hclear
  . exact hclear.foldl_place (fun _ => not_isInline_of_mem_missingAround) now

theorem keptAttributes (h : Alike as y z) (k : ElementKind) (source : List Attribute) :
    k.entry.keptAttributes source y.nearest = k.entry.keptAttributes source z.nearest := by
  -- It matters only whether items are numbered, which they are in nothing inline.
  have hol : y.nearest = some .ol ↔ z.nearest = some .ol := by
    rcases h.nearest_eq_or with heq | ⟨⟨v, hv, hvinline⟩, w, hw, hwinline⟩
    . rw [heq]
    . rw [Option.mem_def] at hv hw
      have hv' := ElementKind.ne_of_isInline hvinline (rfl : ElementKind.ol.isInline = false)
      have hw' := ElementKind.ne_of_isInline hwinline (rfl : ElementKind.ol.isInline = false)
      simp [hv, hw, hv', hw']
  have hsupplied (position : PositionAttribute) : position.supplied y.nearest = position.supplied z.nearest := by
    cases position
    simp [PositionAttribute.supplied, hol]
  simp only [Entry.keptAttributes, hsupplied]

theorem admits_eq (h : Alike as y z) (k : ElementKind) :
    y.nearest.any (·.model.admits k) = z.nearest.any (·.model.admits k) := by
  have hmodel := congrArg (Option.any (·.admits k)) h.model_nearest
  rwa [Option.any_map, Option.any_map] at hmodel

theorem openInline (h : Alike as y z) (hk : k.isInline) (attributes attributes' : List Attribute) (now : Nat) :
    Alike as (y.place k attributes now) (z.place k attributes' now)
      ∧ Alike as (y.place k attributes now) (z.openSilently (.known k) now) := by
  have hname : (TagName.known k).isInline := hk
  refine ⟨⟨.pair (by simp) (by simpa using hk) h.beside, ?_⟩, ⟨.pair (Layer.written_tagOf_name ..) hname h.beside, ?_⟩⟩
  . rw [skeleton_place hk, skeleton_place hk, h.skeleton]
  . rw [skeleton_place hk, skeleton_openSilently hname, h.skeleton]

theorem foldl_openCounterpart (h : Alike as y z) (ho : o.dedupeInline = false) (now : Nat)
    {styles : List Style.Counterpart} (hstyles : ∀ s ∈ styles, s.kind.isInline) :
    Alike as (styles.foldl (openCounterpart o now) y) (styles.foldl (openCounterpart o' now) z) := by
  induction styles generalizing y z with
  | nil => exact h
  | cons s styles ih =>
    rw [List.forall_mem_cons] at hstyles
    refine ih ?_ hstyles.2
    unfold openCounterpart
    rw [h.admits_eq, ho]
    simp only [Bool.false_and, Bool.false_eq_true, ↓reduceIte]
    split
    . split
      . exact (h.openInline hstyles.1 _ [] now).2
      . exact (h.openInline hstyles.1 _ _ now).1
    . exact h

theorem foldl_surplus (h : Alike as y z) (ho : o.dedupeInline = false) {a : Ancestor} (ha : a ∈ as)
    {styles : List Style.Counterpart} (hstyles : ∀ s ∈ styles, s.kind.isInline ∧ a.tag ≠ .known s.kind)
    (hinside : ∃ w ∈ y.nearest, w.isInline) : Alike as (styles.foldl (openCounterpart o a.number) y) z := by
  induction styles generalizing y with
  | nil => exact h
  | cons s styles ih =>
    rw [List.forall_mem_cons] at hstyles
    rcases hstyles with ⟨⟨hs, htag⟩, hstyles⟩
    have hadmits : y.nearest.any (·.model.admits s.kind) := by
      rcases hinside with ⟨w, hw, hwinline⟩
      rwa [Option.mem_def.mp hw, Option.any_some, ElementKind.admits_of_isInline hwinline]
    have hopen : y.openCounterpart o a.number s
        = y.place s.kind (s.kind.entry.keptAttributes s.attributes y.nearest) a.number := by
      simp [openCounterpart, hadmits, ho]
    rw [List.foldl_cons, hopen]
    refine ih ⟨.skip (by simpa using hs) ⟨a, ha, rfl, by simpa using htag⟩ hinside h.beside, ?_⟩ hstyles
      ⟨s.kind, nearest_place .., hs⟩
    rw [skeleton_place hs, h.skeleton]

theorem openHere (h : Alike as y z) (ho : o.dedupeInline = false) {a : Ancestor} (ha : a ∈ as)
    (htag : a.tag = .known k) (source : List Attribute) (hstyles : ∀ s ∈ k.entry.counterparts source, s.kind ≠ k) :
    Alike as (y.openHere o k source a.number) (z.openHere o' k source a.number) := by
  have hproper : ∀ s ∈ k.entry.counterparts source, s.kind.isInline :=
    fun s hs => (Entry.counterparts_proper hs).isInline
  unfold Outline.openHere
  rw [h.keptAttributes, ho]
  simp only [Bool.false_and, Bool.false_eq_true, ↓reduceIte]
  split
  . exact h.hold _
  . split
    . next hopen =>
      simp only [Bool.and_eq_true] at hopen
      have hk : k.isInline := hopen.1.2
      refine ((h.openInline hk _ [] a.number).2).foldl_surplus ho ha ?_ ⟨k, nearest_place .., hk⟩
      intro s hs
      refine ⟨hproper s hs, ?_⟩
      rw [htag]
      simpa using (hstyles s hs).symm
    . apply foldl_openCounterpart _ ho a.number hproper
      by_cases hk : k.isInline
      . exact (h.openInline hk _ _ a.number).1
      . exact h.place (by simpa using hk) _ a.number

theorem enter (h : Alike as y z) (hy : y.Sound o bare) (hz : z.Sound o' bare) (ho : o.dedupeInline = false)
    {a : Ancestor} (ha : a ∈ as) {source : List Attribute} (hstyles : (SourceEvent.enter a.name source).stylesOthers) :
    Alike as (y.enter o a.number (.ofName a.name) source) (z.enter o' a.number (.ofName a.name) source) := by
  unfold Outline.enter
  split
  . next raw hname =>
    refine ⟨.same rfl h.beside, ?_⟩
    have hsilent (x : Outline .standard) :
        (x.openSilently (.unknown raw) a.number).skeleton = x.skeleton.openSilently (.unknown raw) a.number :=
      skeleton_openSilently_of_not rfl a.number x
    rw [hsilent, hsilent, h.skeleton]
  . next k hname =>
    split
    . exact h
    . split
      . exact h.endLine hy hz a.number
      . rw [h.drops hy hz]
        split
        . exact h
        . exact (h.prepare hy hz k a.number).openHere ho ha hname source (SourceEvent.ne_of_stylesOthers hstyles hname)

theorem text (h : Alike as y z) (now : Nat) (content : String) :
    Alike as (y.text now content) (z.text now content) := by
  have hmodel := h.model_nearest
  unfold Outline.text
  cases hy : y.nearest with
  | none =>
    rw [hy, Option.map_none, eq_comm, Option.map_eq_none_iff] at hmodel
    rw [hmodel]
    exact (h.place rfl [] now).hold _
  | some v =>
    rw [hy, Option.map_some, eq_comm, Option.map_eq_some_iff] at hmodel
    rcases hmodel with ⟨w, hw, hmodel⟩
    rw [hw]
    dsimp only
    rw [hmodel]
    split
    . exact h.hold _
    . exact h

end Alike

theorem mem_reach_of_find? {name : TagName} {l : Layer .standard} {ls : List (Layer .standard)}
    (h : l ∈ ls.find? (·.name == name)) : l ∈ reach name ls ∧ l.name = name := by
  refine ⟨?_, by simpa using List.find?_some h⟩
  rw [Option.mem_def, List.find?_eq_bind_findIdx?_getElem?, Option.bind_eq_some_iff] at h
  rcases h with ⟨i, hi, hl⟩
  unfold reach
  rw [hi]
  have htake : (ls.take (i + 1))[i]? = some l := by rwa [List.getElem?_take_of_lt (Nat.lt_succ_self i)]
  exact List.mem_of_getElem? htake

/-- Two runs that have come to the event of number `now`, the first of which writes repeated inline elements. -/
structure Parallel (o o' : CleaningOptions) (events : List SourceEvent) (now : Nat) (as : List Ancestor)
    (y z : Outline .standard) : Prop where
  alike : Alike as y z
  owned : Owned as y.shells
  traced : Traced events now as y
  first : y.Sound o True
  second : z.Sound o' True

namespace Parallel

variable {o o' : CleaningOptions} {events rest : List SourceEvent} {as : List Ancestor} {y z : Outline .standard}
  {now : Nat} {e : SourceEvent}

theorem empty (o o' : CleaningOptions) (events : List SourceEvent) : Parallel o o' events 0 [] {} {} where
  alike := ⟨.nil, rfl⟩
  owned := owned_nil
  traced := traced_empty events
  first := sound_empty
  second := sound_empty

theorem leave {a : Ancestor} (h : Parallel o o' events now (a :: as) y z) :
    Alike as (y.leave a.tag) (z.leave a.tag) := by
  have hwithin := h.traced.within a (by simp)
  have hnested := (List.pairwise_cons.mp h.traced.nested).1
  -- What the end tag finds is no layer of a style.
  have hfirst : ∀ l ∈ y.shells.find? (·.name == a.tag), l.name.isInline →
      ∀ b ∈ a :: as, b.number = l.since → b.tag = l.name := by
    intro l hl hinline b hb hnumber
    rcases mem_reach_of_find? hl with ⟨hreach, hname⟩
    have hsince := h.owned.since_of_mem_reach hwithin hnested (hname ▸ hinline) l hreach hname
    rw [List.mem_cons] at hb
    rcases hb with rfl | hb
    . exact hname.symm
    . have := hnested b hb
      omega
  have hclosed : Alike (a :: as) (y.leave a.tag) (z.leave a.tag) := by
    have hleft := h.alike.beside.around? hfirst
    rcases leave_cases a.tag y with ⟨hy, hyleft⟩ | ⟨n, hy, hyleft⟩ <;>
      rcases leave_cases a.tag z with ⟨hz, hzleft⟩ | ⟨m, hz, hzleft⟩ <;>
      rw [hy, hz] at hleft <;> rw [hyleft, hzleft]
    . exact h.alike
    . cases hleft
    . cases hleft
    . cases hleft with
      | some hdrop => exact h.alike.close h.first h.second hdrop
  refine ⟨hclosed.beside.tail ?_, hclosed.skeleton⟩
  intro l hmem hl
  have howned := h.owned.leave h.first.stacked hwithin hnested
  rcases howned.sourced l hmem hl with ⟨b, hb, hnumber, -⟩
  have := hnested b hb
  omega

theorem step (h : Parallel o o' events now as y z) (ho : o.dedupeInline = false)
    (htext : o.admitText? = o'.admitText?) (he : events[now]? = some e)
    (hmatched : SourceEvent.Matched (as.map (·.name)) (e :: rest)) (hlink : e.linksUsably)
    (hstyles : e.stylesOthers) :
    Parallel o o' events (now + 1) (e.enclose now as) (y.step o now e) (z.step o' now e)
      ∧ SourceEvent.Matched ((e.enclose now as).map (·.name)) rest := by
  have hfirst := h.first.step now e fun _ => trivial
  have hsecond := h.second.step now e fun _ => trivial
  cases e with
  | enter name source =>
    have halike : Alike (⟨now, name⟩ :: as) y z := ⟨h.alike.beside.mono (List.subset_cons_self _ _), h.alike.skeleton⟩
    refine ⟨⟨?_, ?_, h.traced.step_enter he, hfirst, hsecond⟩, hmatched⟩
    . exact halike.enter h.first h.second ho (a := ⟨now, name⟩) (by simp) hstyles
    . exact h.owned.step_enter h.first.stacked h.traced.opened h.traced.entered hlink hstyles
  | text content =>
    refine ⟨⟨?_, ?_, h.traced.step_text content, hfirst, hsecond⟩, hmatched⟩
    . simp only [Outline.step]
      rw [htext]
      split
      . exact h.alike.text now _
      . exact h.alike
    . exact h.owned.step_text h.traced.entered content
  | leave name =>
    cases as with
    | nil => cases hmatched.1
    | cons a as =>
      have hname : a.name = name := by simpa using hmatched.1
      subst hname
      have hwithin := h.traced.within a (by simp)
      have hnested := (List.pairwise_cons.mp h.traced.nested).1
      exact ⟨⟨h.leave, h.owned.leave h.first.stacked hwithin hnested, h.traced.step_leave, hfirst, hsecond⟩,
        hmatched.2⟩

theorem run (h : Parallel o o' events now as y z) (ho : o.dedupeInline = false)
    (htext : o.admitText? = o'.admitText?) (hrest : ∀ i e, rest[i]? = some e → events[now + i]? = some e)
    (hmatched : SourceEvent.Matched (as.map (·.name)) rest) (hlinks : ∀ e ∈ rest, e.linksUsably)
    (hstyles : ∀ e ∈ rest, e.stylesOthers) :
    Parallel o o' events (now + rest.length) (SourceEvent.encloseAll now as rest) (y.run o now rest)
      (z.run o' now rest) := by
  induction rest generalizing now as y z with
  | nil => exact h
  | cons e rest ih =>
    rw [List.forall_mem_cons] at hlinks hstyles
    have hlength : now + (e :: rest).length = now + 1 + rest.length := by
      simp only [List.length_cons]
      omega
    rcases h.step ho htext (hrest 0 e rfl) hmatched hlinks.1 hstyles.1 with ⟨hstep, hmatched⟩
    rw [hlength]
    refine ih hstep ?_ hmatched hlinks.2 hstyles.2
    intro i e' hi
    have hevent := hrest (i + 1) e' (by simpa using hi)
    rwa [show now + (i + 1) = now + 1 + i by omega] at hevent

end Parallel

theorem stripped_cleaned {o o' : CleaningOptions} {events : List SourceEvent} (ho : o.dedupeInline = false)
    (htext : o.admitText? = o'.admitText?) (hmatched : SourceEvent.Matched [] events)
    (hlinks : ∀ e ∈ events, e.linksUsably) (hstyles : ∀ e ∈ events, e.stylesOthers) :
    (cleaned o events).stripped = (cleaned o' events).stripped := by
  have hrun := (Parallel.empty o o' events).run ho htext (by simp) hmatched hlinks hstyles
  unfold cleaned
  rw [← skeleton_settled hrun.first, ← skeleton_settled hrun.second, hrun.alike.skeleton]

end Outline

end NoteMarkup
