import NoteMarkup.Proofs.Phrasing

/-!
This module contains where the tags of a cleaned document come from: from an element of the source, from a style of
one, or from what is supplied around content. Elements of a colour that come from a style have the colour; those that
come from the source have it just if their attribute gives one.
-/

namespace NoteMarkup

namespace Event

def begun? : Event → Option (ElementKind × List Attribute)
  | startTag kind attributes | standaloneTag kind attributes => some (kind, attributes)
  | endTag _ | text _ => none

def begun (events : List Event) : List (ElementKind × List Attribute) :=
  events.filterMap begun?

@[simp]
theorem begun_nil : begun [] = [] := rfl

@[simp]
theorem begun_cons (e : Event) (events : List Event) : begun (e :: events) = e.begun?.toList ++ begun events := by
  unfold begun
  cases h : e.begun? <;> simp [h]

@[simp]
theorem begun_append (first second : List Event) : begun (first ++ second) = begun first ++ begun second :=
  List.filterMap_append

theorem mem_begun_of_startTag {k : ElementKind} {attributes : List Attribute} {events : List Event}
    (h : .startTag k attributes ∈ events) : (k, attributes) ∈ begun events :=
  List.mem_filterMap.mpr ⟨_, h, rfl⟩

end Event

namespace Content

@[simp]
theorem begun_nil : Event.begun nil.events = [] := rfl

@[simp]
theorem begun_element (before held : Content) (k : ElementKind) (attributes : List Attribute) :
    Event.begun (element before k attributes held).events
      =
    Event.begun before.events ++ (k, attributes) :: Event.begun held.events := by
  simp [events, Event.begun?]

@[simp]
theorem begun_standalone (before : Content) (k : ElementKind) (attributes : List Attribute) :
    Event.begun (standalone before k attributes).events = Event.begun before.events ++ [(k, attributes)] := by
  simp [events, Event.begun?]

@[simp]
theorem begun_text (before : Content) (content : String) :
    Event.begun (text before content).events = Event.begun before.events := by
  simp [events, Event.begun?]

end Content

namespace Outline

section Tags

variable {z y : Outline .standard}

def begun (z : Outline .standard) : List (ElementKind × List Attribute) :=
  Event.begun (eventsOf z.ground z.layers)

@[simp]
theorem begun_hold (more : Content) (z : Outline .standard) :
    (z.hold more).begun = z.begun ++ Event.begun more.events := by
  unfold begun
  rw [eventsOf_hold, Event.begun_append]

theorem begun_cons (ground : Content) (l : Layer .standard) (ls : List (Layer .standard)) :
    begun ⟨ground, l :: ls⟩ = begun ⟨ground, ls⟩ ++ (Event.begun l.startTag?.toList ++ Event.begun l.held.events) := by
  simp [begun, eventsOf]

@[simp]
theorem begun_openSilently (name : TagName) (now : Nat) (z : Outline .standard) :
    (z.openSilently name now).begun = z.begun := by
  unfold openSilently
  rw [begun_cons]
  simp [Layer.startTag?, Layer.held]

@[simp]
theorem begun_place (k : ElementKind) (attributes : List Attribute) (now : Nat) (z : Outline .standard) :
    (z.place k attributes now).begun = z.begun ++ [(k, attributes)] := by
  unfold place openWritten
  rw [begun_cons]
  simp [Event.begun?, Layer.startTag?, Layer.held, tagOf]

theorem begun_settled_subset (l : Layer .standard) :
    Event.begun l.settled.events ⊆ Event.begun l.startTag?.toList ++ Event.begun l.held.events := by
  cases l with
  | silent name since held => simp [Layer.settled, Layer.held]
  | written tag since held =>
    simp only [Layer.settled, Layer.startTag?, Layer.held]
    split
    . split <;> simp [Event.begun?]
    . simp [Event.begun?]

theorem begun_closeInnermost_subset (z : Outline .standard) : z.closeInnermost.begun ⊆ z.begun := by
  rcases z with ⟨ground, _ | ⟨l, ls⟩⟩
  . exact List.Subset.refl _
  . have hclose : closeInnermost ⟨ground, l :: ls⟩ = hold l.settled ⟨ground, ls⟩ := rfl
    rw [hclose, begun_hold, begun_cons]
    exact List.append_subset.mpr
      ⟨List.subset_append_left _ _, List.subset_append_of_subset_right _ (begun_settled_subset l)⟩

theorem begun_close_subset (n : Nat) (z : Outline .standard) : (z.close n).begun ⊆ z.begun := by
  induction n generalizing z with
  | zero => exact List.Subset.refl _
  | succ n ih => exact List.Subset.trans (ih z.closeInnermost) (begun_closeInnermost_subset z)

theorem begun_leave_subset (name : TagName) (z : Outline .standard) : (z.leave name).begun ⊆ z.begun := by
  rcases leave_eq_close name z with ⟨n, hn⟩
  rw [hn]
  exact begun_close_subset n z

theorem begun_of_mem_layers {ground : Content} {ls : List (Layer .standard)} {l : Layer .standard} (hmem : l ∈ ls) :
    Event.begun l.startTag?.toList ⊆ begun ⟨ground, ls⟩ := by
  induction ls with
  | nil => cases hmem
  | cons m ls ih =>
    rw [begun_cons]
    rw [List.mem_cons] at hmem
    rcases hmem with rfl | hmem
    . exact List.subset_append_of_subset_right _ (List.subset_append_left _ _)
    . exact List.subset_append_of_subset_left _ (ih hmem)

theorem begun_putUp_subset {line : List (Layer .standard)} (hline : ∀ l ∈ line, l ∈ z.layers) :
    (y.putUp line).begun ⊆ y.begun ++ z.begun := by
  unfold putUp
  have hline : ∀ l ∈ line.reverse, l ∈ z.layers := by simpa using hline
  generalize line.reverse = line at hline
  induction line with
  | nil => exact List.subset_append_left _ _
  | cons l line ih =>
    rw [List.forall_mem_cons] at hline
    have hstart : l.emptied.startTag? = l.startTag? := by cases l <;> rfl
    have hheld : l.emptied.held = .nil := by cases l <;> rfl
    rw [List.map_cons, List.cons_append, begun_cons, hstart, hheld]
    refine List.append_subset.mpr ⟨ih hline.2, List.append_subset.mpr ⟨?_, by simp⟩⟩
    exact List.subset_append_of_subset_right _ (begun_of_mem_layers hline.1)

theorem begun_putUp_line_subset (n : Nat) (y z : Outline .standard) :
    (y.putUp (z.line n)).begun ⊆ y.begun ++ z.begun := by
  apply begun_putUp_subset
  intro l hmem
  rw [line, List.mem_reverse] at hmem
  exact List.mem_of_mem_take hmem

theorem begun_settled (z : Outline .standard) : Event.begun z.settled.events ⊆ z.begun := by
  have hclosed := begun_close_subset z.layers.length z
  unfold begun at hclosed
  rwa [close_length_layers] at hclosed

end Tags

end Outline

/-- How an element may be begun with its attributes at an event of the source: as the element that begins there, as
what one of its styles stands for, or because something has to be supplied around it or around a text. -/
inductive SourceEvent.Begins : SourceEvent → ElementKind × List Attribute → Prop
  | element {name : String} {source : List Attribute} {k : ElementKind} (parent : Option ElementKind)
    (hname : Grammar.standard.canonicalName (.ofName name) = .known k) :
    Begins (.enter name source) (k, k.entry.keptAttributes source parent)
  | style {name : String} {source : List Attribute} {k : ElementKind} {s : Style.Counterpart}
    (parent : Option ElementKind) (hname : Grammar.standard.canonicalName (.ofName name) = .known k)
    (hs : s ∈ k.entry.counterparts source) :
    Begins (.enter name source) (s.kind, s.kind.entry.keptAttributes s.attributes parent)
  | supplied (e : SourceEvent) {k : ElementKind} (hk : k ∈ Cleaner.barelyOpened) : Begins e (k, [])

namespace Outline

open SourceEvent (Begins)

section Steps

variable {o : CleaningOptions} {e : SourceEvent} {tag : ElementKind × List Attribute} {now : Nat}
  {z : Outline .standard}

theorem begun_foldl_place {ks : List ElementKind} (hks : ∀ k ∈ ks, k ∈ Cleaner.barelyOpened)
    (h : tag ∈ (ks.foldl (fun z w => z.place w [] now) z).begun) : tag ∈ z.begun ∨ Begins e tag := by
  induction ks generalizing z with
  | nil => exact .inl h
  | cons k ks ih =>
    rw [List.forall_mem_cons] at hks
    rcases ih hks.2 h with hplaced | hbegins
    . rw [begun_place, List.mem_append, List.mem_singleton] at hplaced
      rcases hplaced with hmem | rfl
      . exact .inl hmem
      . exact .inr (.supplied e hks.1)
    . exact .inr hbegins

theorem begun_prepare {k : ElementKind} (h : tag ∈ (z.prepare k now).begun) : tag ∈ z.begun ∨ Begins e tag := by
  have hclear : tag ∈ (z.clear k).begun → tag ∈ z.begun := fun hmem => begun_close_subset _ z hmem
  rw [prepare_eq] at h
  split at h
  . exact .inl (hclear h)
  . have hbare : ∀ w ∈ missingAround k, w ∈ Cleaner.barelyOpened := by
      cases k <;> decide
    exact (begun_foldl_place hbare h).imp_left hclear

variable {name : String} {source : List Attribute} {k : ElementKind}

theorem begun_foldl_openCounterpart (hname : Grammar.standard.canonicalName (.ofName name) = .known k)
    {styles : List Style.Counterpart} (hstyles : styles ⊆ k.entry.counterparts source)
    (h : tag ∈ (styles.foldl (openCounterpart o now) z).begun) :
    tag ∈ z.begun ∨ Begins (.enter name source) tag := by
  induction styles generalizing z with
  | nil => exact .inl h
  | cons s styles ih =>
    rw [List.cons_subset] at hstyles
    rcases ih hstyles.2 h with hopened | hbegins
    . unfold openCounterpart at hopened
      split at hopened
      . split at hopened
        . exact .inl (by simpa using hopened)
        . rw [begun_place, List.mem_append, List.mem_singleton] at hopened
          rcases hopened with hmem | rfl
          . exact .inl hmem
          . exact .inr (.style z.nearest hname hstyles.1)
      . exact .inl hopened
    . exact .inr hbegins

theorem begun_openHere (hname : Grammar.standard.canonicalName (.ofName name) = .known k)
    (h : tag ∈ (z.openHere o k source now).begun) : tag ∈ z.begun ∨ Begins (.enter name source) tag := by
  unfold openHere at h
  dsimp only at h
  split at h
  . rw [begun_hold, List.mem_append] at h
    rcases h with hmem | hmem
    . exact .inl hmem
    . rw [Content.begun_standalone, Content.begun_nil, List.nil_append, List.mem_singleton] at hmem
      subst hmem
      exact .inr (.element z.nearest hname)
  . split at h
    . exact .inl (by simpa using h)
    . rcases begun_foldl_openCounterpart hname (List.Subset.refl _) h with hplaced | hbegins
      . rw [begun_place, List.mem_append, List.mem_singleton] at hplaced
        rcases hplaced with hmem | rfl
        . exact .inl hmem
        . exact .inr (.element z.nearest hname)
      . exact .inr hbegins

theorem begun_endLine (h : tag ∈ (z.endLine now).begun) : tag ∈ z.begun ∨ Begins e tag := by
  have hline {n : Nat} {y : Outline .standard} (hy : tag ∈ y.begun → tag ∈ z.begun ∨ Begins e tag)
      (h : tag ∈ (y.putUp (z.line n)).begun) : tag ∈ z.begun ∨ Begins e tag := by
    have hmem := begun_putUp_line_subset n y z h
    rw [List.mem_append] at hmem
    rcases hmem with hmem | hmem
    . exact hy hmem
    . exact .inl hmem
  rcases endLine_eq now z with ⟨-, hends⟩ | hends | ⟨n, hends⟩ | ⟨inside, k, -, -, hends⟩
  . rw [hends, begun_hold, List.mem_append] at h
    rcases h with hmem | hmem
    . exact .inl hmem
    . rw [Content.begun_standalone, Content.begun_nil, List.nil_append, List.mem_singleton] at hmem
      subst hmem
      exact .inr (.supplied e (by decide))
  . rw [hends] at h
    exact .inl h
  . rw [hends] at h
    exact hline (fun hmem => .inl (begun_close_subset n z hmem)) h
  . rw [hends] at h
    refine hline ?_ h
    intro hmem
    rw [begun_place, List.mem_append, List.mem_singleton] at hmem
    rcases hmem with hmem | rfl
    . exact .inl (begun_close_subset inside z hmem)
    . exact .inr (.supplied e (by decide))

theorem begun_enter (h : tag ∈ (z.enter o now (.ofName name) source).begun) :
    tag ∈ z.begun ∨ Begins (.enter name source) tag := by
  unfold enter at h
  split at h
  . exact .inl (by simpa using h)
  . next k hname =>
    split at h
    . exact .inl h
    . split at h
      . exact begun_endLine h
      . split at h
        . exact .inl h
        . rcases begun_openHere hname h with hprepared | hbegins
          . exact begun_prepare hprepared
          . exact .inr hbegins

theorem begun_text {content : String} (h : tag ∈ (z.text now content).begun) : tag ∈ z.begun ∨ Begins e tag := by
  have hheld (y : Outline .standard) : (y.hold (.text .nil content)).begun = y.begun := by
    rw [begun_hold, Content.begun_text, Content.begun_nil, List.append_nil]
  unfold text at h
  split at h
  . split at h
    . rw [hheld] at h
      exact .inl h
    . exact .inl h
  . rw [hheld, begun_place, List.mem_append, List.mem_singleton] at h
    rcases h with hmem | rfl
    . exact .inl hmem
    . exact .inr (.supplied e (by decide))

theorem begun_step (h : tag ∈ (z.step o now e).begun) : tag ∈ z.begun ∨ Begins e tag := by
  cases e with
  | enter name source => exact begun_enter h
  | leave name => exact .inl (begun_leave_subset _ z h)
  | text content =>
    simp only [step] at h
    split at h
    . exact begun_text h
    . exact .inl h

theorem begun_run {events : List SourceEvent} (h : tag ∈ (z.run o now events).begun) :
    tag ∈ z.begun ∨ ∃ e ∈ events, Begins e tag := by
  induction events generalizing now z with
  | nil => exact .inl h
  | cons e events ih =>
    rcases ih h with hstep | ⟨e', hmem, hbegins⟩
    . rcases begun_step hstep with hmem | hbegins
      . exact .inl hmem
      . exact .inr ⟨e, by simp, hbegins⟩
    . exact .inr ⟨e', by simp [hmem], hbegins⟩

theorem exists_begins_of_mem_cleaned {events : List SourceEvent} (h : tag ∈ Event.begun (cleaned o events).events) :
    ∃ e ∈ events, Begins e tag := by
  rcases begun_run (begun_settled _ h) with hempty | hbegins
  . cases hempty
  . exact hbegins

end Steps

end Outline

def Grammar.WrittenFrom (g : Grammar) (tags : List (ElementKind × List Attribute)) (name : String)
    (attributes : List Attribute) : Prop :=
  ∃ k, g.writtenName? k = some name ∧ (k, attributes) ∈ tags

section Written

variable {g : Grammar} {name : String} {attributes : List Attribute}

theorem Grammar.WrittenFrom.mono {tags more : List (ElementKind × List Attribute)} (hsub : tags ⊆ more)
    (h : g.WrittenFrom tags name attributes) : g.WrittenFrom more name attributes := by
  rcases h with ⟨k, hk, hmem⟩
  exact ⟨k, hk, hsub hmem⟩

theorem Node.enter_mem_appendText (content : String) (ns : List Node) :
    .enter name attributes ∈ sourceEventsAll (appendText content ns) ↔ .enter name attributes ∈ sourceEventsAll ns := by
  rcases endsInText_cases ns with ⟨init, before, rfl⟩ | hends
  . rw [appendText_snoc]
    simp [sourceEventsAll, sourceEvents]
  . rw [appendText_of_not_endsInText hends]
    simp [sourceEventsAll, sourceEvents]

theorem Content.writtenFrom_of_mem_written (content : Content) {ns : List Node}
    (h : .enter name attributes ∈ Node.sourceEventsAll (content.writtenBehind g ns)) :
    .enter name attributes ∈ Node.sourceEventsAll ns ∨ g.WrittenFrom (Event.begun content.events) name attributes := by
  induction content generalizing ns with
  | nil => exact .inl h
  | element before k as held ihbefore ihheld =>
    rw [begun_element]
    have hbefore := fun h => (@ihbefore ns h).imp_right
      (Grammar.WrittenFrom.mono (List.subset_append_left _ ((k, as) :: Event.begun held.events)))
    have hinner : Event.begun held.events ⊆ Event.begun before.events ++ (k, as) :: Event.begun held.events :=
      List.subset_append_of_subset_right _ (List.subset_cons_self _ _)
    rw [writtenBehind] at h
    split at h
    . next written hwritten =>
      simp only [Node.sourceEventsAll_append, Node.sourceEventsAll, Node.sourceEvents, List.append_nil, List.mem_append,
        List.mem_cons, SourceEvent.enter.injEq, List.not_mem_nil, or_false, reduceCtorEq] at h
      rcases h with h | ⟨rfl, rfl⟩ | h
      . exact hbefore h
      . exact .inr ⟨k, hwritten, by simp⟩
      . rcases ihheld h with hnil | hheld
        . cases hnil
        . exact .inr (hheld.mono hinner)
    . rcases ihheld h with h | hheld
      . exact hbefore h
      . exact .inr (hheld.mono hinner)
  | standalone before k as ihbefore =>
    rw [begun_standalone]
    have hbefore := fun h => (@ihbefore ns h).imp_right
      (Grammar.WrittenFrom.mono (List.subset_append_left _ [(k, as)]))
    rw [writtenBehind] at h
    split at h
    . next written hwritten =>
      simp only [Node.sourceEventsAll_append, Node.sourceEventsAll, Node.sourceEvents, List.append_nil, List.nil_append,
        List.mem_append, List.mem_cons, SourceEvent.enter.injEq, List.not_mem_nil, or_false, reduceCtorEq] at h
      rcases h with h | ⟨rfl, rfl⟩
      . exact hbefore h
      . exact .inr ⟨k, hwritten, by simp⟩
    . exact hbefore h
  | text before content ihbefore =>
    rw [writtenBehind, Node.enter_mem_appendText] at h
    rw [begun_text]
    exact ihbefore h

theorem Event.writtenFrom_of_mem_treeOf {content : Content}
    (h : .enter name attributes ∈ (treeOf g content.events).sourceEvents) :
    name = Node.fragmentTag ∨ g.WrittenFrom (begun content.events) name attributes := by
  rw [treeOf_events, Node.fragment, Node.sourceEvents] at h
  simp only [List.mem_cons, SourceEvent.enter.injEq, List.mem_append, List.not_mem_nil, or_false, reduceCtorEq] at h
  rcases h with ⟨hroot, -⟩ | h
  . exact .inl hroot
  . rcases content.writtenFrom_of_mem_written h with hnil | hwritten
    . cases hnil
    . exact .inr hwritten

end Written

end NoteMarkup
