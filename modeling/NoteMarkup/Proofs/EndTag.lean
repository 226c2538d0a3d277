import NoteMarkup.Proofs.Entering
import NoteMarkup.Proofs.Walk

/-!
This module contains what an end tag closes. The layers that are open when an element begins are older than
it; they stay open at its end tag if the element is still open itself, and otherwise only as far as none of
them stands in the innermost element of its name.
-/

namespace NoteMarkup

namespace Outline

def OpenedOnto (now : Nat) (before after : List (Layer .standard)) : Prop :=
  ∃ n opened, (∀ l ∈ opened, l.since = now) ∧ after = opened ++ before.drop n

variable {now : Nat} {o : CleaningOptions}

theorem OpenedOnto.refl (ls : List (Layer .standard)) : OpenedOnto now ls ls :=
  ⟨0, [], by simp, rfl⟩

theorem OpenedOnto.cons {l : Layer .standard} (hl : l.since = now) (ls : List (Layer .standard)) :
    OpenedOnto now ls (l :: ls) :=
  ⟨0, [l], by simpa using hl, rfl⟩

theorem EntersOnto.openedOnto {k : ElementKind} {before after : List (Layer .standard)}
    (h : EntersOnto k now before after) : OpenedOnto now before after := by
  rcases h with ⟨n, styled, own, around, rfl, hnow, -⟩
  exact ⟨n, styled ++ (own ++ around), hnow, by simp⟩

theorem step_cases (now : Nat) (z : Outline .standard) (e : SourceEvent) :
    OpenedOnto now z.shells (z.step o now e).shells
      ∨
    ((∃ name source, e = .enter name source ∧ Grammar.standard.canonicalName (.ofName name) = .known .br)
      ∧ LineBegun now z.shells (z.step o now e).shells) := by
  cases e with
  | leave name =>
    left
    rcases leave_shells (Grammar.standard.canonicalName (.ofName name)) z with ⟨n, hn⟩
    exact ⟨n, [], by simp, hn⟩
  | text content =>
    left
    rcases step_text_shells (o := o) now content z with hsame | hplain
    . rw [hsame]
      exact .refl _
    . rw [hplain]
      apply OpenedOnto.cons
      rfl
  | enter name source =>
    simp only [step]
    -- Only a line break can put something around layers that stay open.
    rcases enter_cases (o := o) now z (.ofName name) source with
      hsame | ⟨raw, -, hsilent⟩ | ⟨hbr, hbegun⟩ | ⟨k, -, henters⟩
    . left
      rw [hsame]
      exact .refl _
    . left
      rw [hsilent]
      apply OpenedOnto.cons
      rfl
    . exact .inr ⟨⟨name, source, rfl, hbr⟩, hbegun⟩
    . exact .inl henters.openedOnto

/-- What stands inside a layer of that name that the event of number `start` opened was opened no earlier. -/
def Within (start : Nat) (name : TagName) (ls : List (Layer .standard)) : Prop :=
  ls.Pairwise fun inner l => l.since = start → l.name = name → start ≤ inner.since

variable {start : Nat} {name : TagName}

theorem since_lt_step {z : Outline .standard} (h : ∀ l ∈ z.shells, l.since < now) (e : SourceEvent) :
    ∀ l ∈ (z.step o now e).shells, l.since < now + 1 := by
  intro l hmem
  rcases step_cases (o := o) now z e with ⟨n, opened, hopened, hshells⟩ | ⟨-, n, hshells⟩
  . rw [hshells, List.mem_append] at hmem
    rcases hmem with hmem | hmem
    . have := hopened l hmem
      omega
    . have := h l (List.mem_of_mem_drop hmem)
      omega
  . rw [hshells, List.mem_append, List.mem_cons] at hmem
    rcases hmem with hmem | rfl | hmem
    . have := h l (List.mem_of_mem_take hmem)
      omega
    . simp [Layer.since]
    . have := h l (List.mem_of_mem_drop hmem)
      omega

theorem since_lt_run {z : Outline .standard} (h : ∀ l ∈ z.shells, l.since < now) (events : List SourceEvent) :
    ∀ l ∈ (z.run o now events).shells, l.since < now + events.length := by
  induction events generalizing now z with
  | nil => exact h
  | cons e events ih =>
    unfold run
    intro l hmem
    have := ih (since_lt_step h e) l hmem
    simp only [List.length_cons]
    omega

theorem within_enter {z : Outline .standard} (h : ∀ l ∈ z.shells, l.since < now) (source : List Attribute)
    (name : String) :
    Within now (Grammar.standard.canonicalName (.ofName name)) (z.step o now (.enter name source)).shells := by
  unfold Within
  rcases step_cases (o := o) now z (.enter name source) with
    ⟨n, opened, hopened, hshells⟩ | ⟨⟨_, _, heq, hbr⟩, n, hshells⟩
  -- What the event opens has its number, and everything around that is older.
  . rw [hshells, List.pairwise_append]
    refine ⟨?_, ?_, ?_⟩
    . apply List.pairwise_of_forall_mem_list
      intro inner hinner l _ _ _
      exact Nat.le_of_eq (hopened inner hinner).symm
    . apply List.pairwise_of_forall_mem_list
      intro inner _ l hl hsince
      have := h l (List.mem_of_mem_drop hl)
      omega
    . intro inner hinner l hl hsince
      have := h l (List.mem_of_mem_drop hl)
      omega
  -- A plain block begun by a line break has the number of the event, but not its name.
  . cases heq
    rw [hshells, hbr]
    apply List.pairwise_of_forall_mem_list
    intro inner _ l hl hsince hname
    rw [List.mem_append, List.mem_cons] at hl
    rcases hl with hl | rfl | hl
    . have := h l (List.mem_of_mem_take hl)
      omega
    . cases hname
    . have := h l (List.mem_of_mem_drop hl)
      omega

theorem within_step {z : Outline .standard} (hstart : start < now) (h : Within start name z.shells)
    (e : SourceEvent) : Within start name (z.step o now e).shells := by
  unfold Within at h ⊢
  rcases step_cases (o := o) now z e with ⟨n, opened, hopened, hshells⟩ | ⟨-, n, hshells⟩
  . rw [hshells, List.pairwise_append]
    refine ⟨?_, h.drop, ?_⟩
    . apply List.pairwise_of_forall_mem_list
      intro inner hinner l _ _ _
      have := hopened inner hinner
      omega
    . intro inner hinner l _ _ _
      have := hopened inner hinner
      omega
  -- The plain block is younger than the element, whether it is put inside or around it.
  . rw [← List.take_append_drop n z.shells, List.pairwise_append] at h
    rcases h with ⟨htake, hdrop, hacross⟩
    rw [hshells, List.pairwise_append, List.pairwise_cons]
    refine ⟨htake, ⟨?_, hdrop⟩, ?_⟩
    . intro l _ _ _
      simp only [Layer.since]
      omega
    . intro inner hinner l hl
      rw [List.mem_cons] at hl
      rcases hl with rfl | hl
      . simp only [Layer.since]
        omega
      . exact hacross inner hinner l hl

theorem within_run {z : Outline .standard} (hstart : start < now) (h : Within start name z.shells)
    (events : List SourceEvent) : Within start name (z.run o now events).shells := by
  induction events generalizing now z with
  | nil => exact h
  | cons e events ih =>
    unfold run
    apply ih
    . omega
    . exact within_step hstart h e

def reach (name : TagName) (ls : List (Layer .standard)) : List (Layer .standard) :=
  match ls.findIdx? (·.name == name) with
  | some i => ls.take (i + 1)
  | none => []

def older (start : Nat) (ls : List (Layer .standard)) : List (Layer .standard) :=
  ls.filter (·.since < start)

theorem findIdx?_shells (name : TagName) (z : Outline .standard) :
    z.shells.findIdx? (·.name == name) = z.layers.findIdx? (·.name == name) := by
  simp [shells, List.findIdx?_map, Function.comp_def]

theorem reach_append_leave (name : TagName) (z : Outline .standard) :
    reach name z.shells ++ (z.leave name).shells = z.shells := by
  unfold reach leave
  rw [findIdx?_shells]
  cases z.layers.findIdx? (·.name == name) with
  | none => rfl
  | some i =>
    dsimp only
    rw [close_shells, List.take_append_drop]

theorem older_leave_iff (name : TagName) (z : Outline .standard) :
    older start (z.leave name).shells = older start z.shells ↔ ∀ l ∈ reach name z.shells, start ≤ l.since := by
  have hsplit : older start z.shells = older start (reach name z.shells) ++ older start (z.leave name).shells := by
    unfold older
    rw [← List.filter_append, reach_append_leave]
  rw [hsplit]
  simp [older]

theorem since_of_mem_reach {ls : List (Layer .standard)} (h : Within start name ls)
    (hopen : ∃ l ∈ ls, l.since = start ∧ l.name = name) : ∀ l ∈ reach name ls, start ≤ l.since := by
  induction ls with
  | nil => simp [reach]
  | cons x ls ih =>
    unfold Within at h
    rw [List.pairwise_cons] at h
    rcases h with ⟨hx, htail⟩
    rcases hopen with ⟨l, hmem, hsince, hname⟩
    -- The innermost layer is the element itself or stands inside of it.
    have hx : start ≤ x.since := by
      rw [List.mem_cons] at hmem
      rcases hmem with rfl | hmem
      . omega
      . exact hx l hmem hsince hname
    unfold reach
    rw [List.findIdx?_cons]
    by_cases hxname : x.name = name
    . simpa [hxname] using hx
    . have hmem : l ∈ ls := by
        rw [List.mem_cons] at hmem
        rcases hmem with rfl | hmem
        . exact absurd hname hxname
        . exact hmem
      specialize ih htail ⟨l, hmem, hsince, hname⟩
      unfold reach at ih
      cases hfind : ls.findIdx? (·.name == name) with
      | none => simp [hxname]
      | some i =>
        rw [hfind] at ih
        simpa [hxname, hx] using ih

theorem ne_br_of_fits {k : ElementKind} {frame : Option ElementKind} (h : k.fits frame) : k ≠ .br := by
  rintro rfl
  cases frame with
  | none => cases h
  | some w =>
    revert h
    cases w <;> decide

theorem Sound.name_ne {o : CleaningOptions} {bare : Prop} {z : Outline .standard} (h : z.Sound o bare) :
    ∀ l ∈ z.shells, l.name ≠ .known .hr ∧ l.name ≠ .known .br := by
  have hstacked := h.stacked
  have hproper := h.proper
  revert hstacked hproper
  generalize z.shells = ls
  intro hstacked hproper
  induction ls with
  | nil => simp
  | cons l ls ih =>
    intro l' hmem
    rw [List.mem_cons] at hmem
    rcases hmem with rfl | hmem
    . cases l' with
      | silent name since held =>
        cases name with
        | unknown name => simp [Layer.name]
        | known k =>
          have hinline : k.isInline := hstacked.1
          constructor
          . simpa [Layer.name] using ElementKind.ne_of_isInline hinline rfl
          . simpa [Layer.name] using ElementKind.ne_of_isInline hinline rfl
      | written tag since held =>
        have hhr : tag.entry.kind ≠ .hr := (hproper (.written tag since held) (by simp)).2
        constructor
        . simpa [Layer.name] using hhr
        . simpa [Layer.name] using ne_br_of_fits hstacked.1
    . exact ih hstacked.tail (fun l hl => hproper l (by simp [hl])) l' hmem

theorem reach_eq_nil {o : CleaningOptions} {bare : Prop} {z : Outline .standard} (h : z.Sound o bare)
    (hname : name = .known .hr ∨ name = .known .br) : reach name z.shells = [] := by
  have hnone : ∀ l ∈ z.shells, l.name ≠ name := by
    intro l hmem
    rcases hname with rfl | rfl
    . exact (h.name_ne l hmem).1
    . exact (h.name_ne l hmem).2
  unfold reach
  rw [List.findIdx?_eq_none_iff.mpr (by simpa using hnone)]

/-- At the end tag of an element exactly then everything older than the element stays open, if the element is
still open itself or nothing older stands in reach of the end tag. No end tag of a line break or a rule closes
anything. -/
theorem endTag_keeps_older_iff (o : CleaningOptions) (before inner : List SourceEvent) (name : String)
    (source : List Attribute) :
    let own := Grammar.standard.canonicalName (.ofName name)
    let events := before ++ .enter name source :: inner
    let z := run o 0 {} events
    ({} : Draft).run? ⟨.standard, o⟩ events = some z.draft
      ∧ z.draft.leave ⟨.standard, o⟩ (.ofName name) = (z.leave own).draft
      ∧ (older before.length (z.leave own).shells = older before.length z.shells
        ↔ (∃ l ∈ z.shells, l.since = before.length ∧ l.name = own)
          ∨ ∀ l ∈ reach own z.shells, before.length ≤ l.since)
      ∧ (own = .known .hr ∨ own = .known .br → reach own z.shells = []) := by
  intro own events z
  have hsound : z.Sound o True := sound_empty.run 0 events fun _ _ _ => trivial
  refine ⟨Draft.run?_draft 0 events sound_empty, (leave_draft (.ofName name) z).symm, ?_, reach_eq_nil hsound⟩
  rw [older_leave_iff]
  constructor
  . exact .inr
  . rintro (hopen | hreach)
    . apply since_of_mem_reach ?_ hopen
      have hbefore : ∀ l ∈ (run o 0 {} before).shells, l.since < 0 + before.length :=
        since_lt_run (by simp [shells]) before
      have hz : z = ((run o 0 {} before).step o (0 + before.length) (.enter name source)).run o
          (0 + before.length + 1) inner := by
        rw [show z = run o 0 {} (before ++ .enter name source :: inner) from rfl, run_append]
        rfl
      rw [Nat.zero_add] at hbefore hz
      rw [hz]
      apply within_run (by omega)
      exact within_enter hbefore source name
    . exact hreach

/-- A link inside a link is dropped if it has no target, but its end tag is not: it closes the link around
it. -/
theorem endTag_closes_older :
    let tree := Node.element "p" [] [.element "a" [⟨"href", "/x"⟩] [.text "1", .element "a" [] [.text "2"], .text "3"]]
    let before : List SourceEvent := [.enter "p" [], .enter "a" [⟨"href", "/x"⟩], .text "1"]
    let inner : List SourceEvent := [.text "2"]
    let z := run {} 0 {} (before ++ .enter "a" [] :: inner)
    SourceEvent.ofNodes [tree]
        = before ++ .enter "a" [] :: (inner ++ [.leave "a", .text "3", .leave "a", .leave "p"])
      ∧ (older before.length z.shells).map (·.name) = [.known .a, .known .p]
      ∧ (older before.length (z.leave (.known .a)).shells).map (·.name) = [.known .p] := by
  refine ⟨?_, by decide +kernel, by decide +kernel⟩
  rw [SourceEvent.ofNodes_eq]
  rfl

end Outline

end NoteMarkup
