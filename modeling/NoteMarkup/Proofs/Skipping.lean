import NoteMarkup.Proofs.Calls
import NoteMarkup.Proofs.Nesting

/-!
This module contains what becomes of a log if a visitor skips elements of some kinds: it is the log of a walk that
skips nothing, without what stands between the start of an element that is skipped and its end.
-/

namespace NoteMarkup

namespace Report

def depthBehind (depth : Nat) : Report → Nat
  | .blockStart _ | .inlineStart _ => depth + 1
  | .blockEnd _ | .inlineEnd _ => depth - 1
  | .text _ => depth

/-- A log without what is behind the start of an element that is skipped, up to the end of this element and with it.
The number is that of the ends there are to come before the log goes on. -/
def pruned (skips : Report → Bool) : Nat → List Report → List Report
  | _, [] => []
  | 0, r :: reports => r :: pruned skips (if skips r then 1 else 0) reports
  | depth + 1, r :: reports => pruned skips (r.depthBehind (depth + 1)) reports

def starts (blocks : BlockKind → Bool) (inlines : InlineKind → Bool) : Report → Bool
  | .blockStart block => blocks block.kind
  | .inlineStart element => inlines element.kind
  | .blockEnd _ | .inlineEnd _ | .text _ => false

section

variable {blocks : BlockKind → Bool} {inlines : InlineKind → Bool}

theorem depthBehind_of_ending? {start ending : Report} (h : start.ending? = some ending) (depth : Nat) :
    start.depthBehind depth = depth + 1 ∧ ending.depthBehind (depth + 1) = depth := by
  cases start <;> cases h <;> exact ⟨rfl, rfl⟩

theorem starts_of_ending? {start ending : Report} (h : start.ending? = some ending) :
    starts blocks inlines ending = false := by
  cases start <;> cases h <;> rfl

theorem Nested.pruned_deep {reports : List Report} (h : Nested reports) (depth : Nat) (behind : List Report) :
    pruned (starts blocks inlines) (depth + 1) (reports ++ behind)
      =
    pruned (starts blocks inlines) (depth + 1) behind := by
  induction h generalizing depth behind with
  | nil => rfl
  | text content hbehind ih => exact ih depth behind
  | element h hinside hbehind ihinside ihbehind =>
    have hdepth := depthBehind_of_ending? h (depth + 1)
    rw [List.cons_append, List.append_assoc, List.cons_append, pruned, hdepth.1, ihinside, pruned, hdepth.2, ihbehind]

theorem Nested.pruned_append {reports : List Report} (h : Nested reports) (behind : List Report) :
    pruned (starts blocks inlines) 0 (reports ++ behind)
      =
    pruned (starts blocks inlines) 0 reports ++ pruned (starts blocks inlines) 0 behind := by
  induction h generalizing behind with
  | nil => rfl
  | text content hbehind ih => simp [pruned, starts, ih]
  | @element start ending inside _ h hinside hbehind ihinside ihbehind =>
    have hdepth := depthBehind_of_ending? h 0
    have hending : starts blocks inlines ending = false := starts_of_ending? h
    by_cases hskips : starts blocks inlines start
    . simp [pruned, hskips, hinside.pruned_deep, hdepth.2, ihbehind]
    . simp [pruned, hskips, ihinside, hending, ihbehind]

theorem pruned_element (start ending : Report) {inside : List Report} (hinside : Nested inside) :
    pruned (starts blocks inlines) 0 (start :: (inside ++ [ending]))
      =
    if starts blocks inlines start then [start]
    else start :: (pruned (starts blocks inlines) 0 inside ++ [ending]) := by
  split
  . next hskips => simp [pruned, hskips, hinside.pruned_deep]
  . next hskips => simp [pruned, hskips, hinside.pruned_append]

theorem Nested.filter_pruned {reports : List Report} (h : Nested reports) :
    Nested ((pruned (starts blocks inlines) 0 reports).filter fun r => !starts blocks inlines r) := by
  induction h with
  | nil => exact .nil
  | text content hbehind ih => exact .text content ih
  | @element start ending inside behind h hinside hbehind ihinside ihbehind =>
    have hsplit : start :: (inside ++ ending :: behind) = (start :: (inside ++ [ending])) ++ behind := by simp
    have hnested : Nested (start :: (inside ++ [ending])) := .element h hinside .nil
    rw [hsplit, hnested.pruned_append, pruned_element start ending hinside, List.filter_append]
    split
    . next hskips => simpa [hskips] using ihbehind
    . next hskips => simpa [hskips, starts_of_ending? h] using Nested.element h ihinside ihbehind

theorem pruned_of_forall {skips : Report → Bool} {reports : List Report} (h : ∀ r ∈ reports, skips r = false) :
    pruned skips 0 reports = reports := by
  induction reports with
  | nil => rfl
  | cons r reports ih =>
    rw [List.forall_mem_cons] at h
    simp [pruned, h.1, ih h.2]

theorem pruned_none (reports : List Report) :
    pruned (starts (fun _ => false) (fun _ => false)) 0 reports = reports := by
  apply pruned_of_forall
  intro r _
  cases r <;> rfl

end

end Report

namespace Visitor

open Report

variable {σ : Type} {v : Visitor σ} {blocks : BlockKind → Bool} {inlines : InlineKind → Bool}

structure Skips (v : Visitor σ) (blocks : BlockKind → Bool) (inlines : InlineKind → Bool) : Prop where
  block : ∀ block s, (v.blockStart block s).1 = if blocks block.kind then .skip else .enter
  inline : ∀ element s, (v.inlineStart element s).1 = if inlines element.kind then .skip else .enter

mutual

theorem Skips.callsInLine (h : v.Skips blocks inlines) :
    ∀ (n : Node) (s : σ), v.callsInLine n s = pruned (starts blocks inlines) 0 n.reportsInLine
  | .text content, s => by
    unfold Visitor.callsInLine Node.reportsInLine
    split <;> rfl
  | .element name attributes children, s => by
    have hchildren := Skips.callsOfLine h children
    unfold Visitor.callsInLine Node.reportsInLine
    cases InlineKind.ofName? name with
    | none => exact hchildren s
    | some kind =>
      dsimp only
      rw [h.inline, pruned_element _ _ (Node.line_reportsOfLine children).nested, hchildren]
      dsimp only [starts]
      by_cases hskips : inlines kind <;> simp [hskips]

theorem Skips.callsOfLine (h : v.Skips blocks inlines) :
    ∀ (ns : List Node) (s : σ), v.callsOfLine ns s = pruned (starts blocks inlines) 0 (Node.reportsOfLine ns)
  | [], _ => rfl
  | n :: ns, s => by
    unfold Visitor.callsOfLine Node.reportsOfLine
    rw [(Node.line_reportsInLine n).nested.pruned_append, Skips.callsInLine h n, Skips.callsOfLine h ns]

end

mutual

theorem Skips.callsAsBlock (h : v.Skips blocks inlines) :
    ∀ (n : Node) (s : σ), v.callsAsBlock n s = pruned (starts blocks inlines) 0 n.reportsAsBlock
  | .text content, s => rfl
  | .element name attributes children, s => by
    have hcontent := Skips.callsOfContent h children
    have hblocks := Skips.callsOfBlocks h children
    unfold Visitor.callsAsBlock Node.reportsAsBlock
    cases BlockKind.ofName? name with
    | none => exact hblocks s
    | some kind =>
      dsimp only
      rw [h.block, pruned_element _ _ (Node.nested_reportsOfContent children), hcontent]
      dsimp only [starts]
      by_cases hskips : blocks kind <;> simp [hskips]

theorem Skips.callsOfBlocks (h : v.Skips blocks inlines) :
    ∀ (ns : List Node) (s : σ), v.callsOfBlocks ns s = pruned (starts blocks inlines) 0 (Node.reportsOfBlocks ns)
  | [], _ => rfl
  | n :: ns, s => by
    unfold Visitor.callsOfBlocks Node.reportsOfBlocks
    rw [(Node.blocks_reportsAsBlock n).nested.pruned_append, Skips.callsAsBlock h n, Skips.callsOfBlocks h ns]

theorem Skips.callsOfContent (h : v.Skips blocks inlines) :
    ∀ (ns : List Node) (s : σ), v.callsOfContent ns s = pruned (starts blocks inlines) 0 (Node.reportsOfContent ns)
  | [], _ => rfl
  | n :: ns, s => by
    unfold Visitor.callsOfContent Node.reportsOfContent
    split
    . rw [(Node.line_reportsInLine n).nested.pruned_append, Skips.callsInLine h n, Skips.callsOfContent h ns]
    . rw [(Node.blocks_reportsAsBlock n).nested.pruned_append, Skips.callsAsBlock h n, Skips.callsOfBlocks h ns]

end

structure Enters (v : Visitor σ) : Prop where
  block : ∀ block s, (v.blockStart block s).1 = .enter
  inline : ∀ element s, (v.inlineStart element s).1 = .enter

theorem Enters.skips (h : v.Enters) : v.Skips (fun _ => false) (fun _ => false) where
  block := h.block
  inline := h.inline

theorem visitDocument_eq (h : v.Enters) (name : String) (attributes : List Attribute) (children : List Node) (s : σ) :
    v.visitDocument (.element name attributes children) s = .ok ((Node.reportsOfBlocks children).foldl v.tell s) := by
  have hcalls := h.skips.callsOfBlocks children s
  rw [pruned_none] at hcalls
  rw [← hcalls, ← (tells_visitBlocks children).state]
  rfl

theorem foldl_tell_logging (reports : List Report) (log : Array Report) :
    reports.foldl (logging blocks inlines).tell log = log ++ reports.toArray := by
  induction reports generalizing log with
  | nil => simp
  | cons r reports ih =>
    rw [List.foldl_cons, ih]
    cases r <;> simp [tell, logging]

theorem log_eq (name : String) (attributes : List Attribute) (children : List Node) :
    (logging (fun _ => false) (fun _ => false)).visitDocument (.element name attributes children) #[]
      =
    .ok (Node.reportsOfBlocks children).toArray := by
  rw [visitDocument_eq ⟨fun _ _ => rfl, fun _ _ => rfl⟩, foldl_tell_logging]
  simp

structure OnlyPrunes (walk : Visitor (Array Report) → Array Report) : Prop where
  full_nested : Nested (walk (logging (fun _ => false) (fun _ => false))).toList
  log_eq_pruned : ∀ blocks inlines,
    (walk (logging blocks inlines)).toList
      =
    pruned (starts blocks inlines) 0 (walk (logging (fun _ => false) (fun _ => false))).toList
  kept_nested : ∀ blocks inlines,
    Nested ((walk (logging blocks inlines)).toList.filter fun r => !starts blocks inlines r)

theorem Tells.onlyPrunes {walk : {σ : Type} → Visitor σ → σ → σ} {calls : {σ : Type} → Visitor σ → σ → List Report}
    (h : Tells walk calls) {reports : List Report} (hnested : Nested reports)
    (hcalls : ∀ blocks inlines log, calls (logging blocks inlines) log = pruned (starts blocks inlines) 0 reports) :
    OnlyPrunes fun v => walk v #[] := by
  have hlog (blocks : BlockKind → Bool) (inlines : InlineKind → Bool) :
      (walk (logging blocks inlines) #[]).toList = pruned (starts blocks inlines) 0 reports := by
    rw [h.state, foldl_tell_logging, hcalls]
    simp
  constructor
  . rw [hlog, pruned_none]
    exact hnested
  . intro blocks inlines
    rw [hlog, hlog, pruned_none]
  . intro blocks inlines
    rw [hlog]
    exact hnested.filter_pruned

theorem logging_skips (blocks : BlockKind → Bool) (inlines : InlineKind → Bool) :
    (logging blocks inlines).Skips blocks inlines where
  block _ _ := rfl
  inline _ _ := rfl

theorem onlyPrunes_visitBlocks (nodes : List Node) : OnlyPrunes fun v => v.visitBlocks nodes #[] :=
  (tells_visitBlocks nodes).onlyPrunes (Node.blocks_reportsOfBlocks nodes).nested
    fun blocks inlines => (logging_skips blocks inlines).callsOfBlocks nodes

theorem skipping_only_prunes (name : String) (attributes : List Attribute) (nodes : List Node) (n : Node) :
    (∃ walk : Visitor (Array Report) → Array Report,
        (∀ v : Visitor (Array Report), v.visitDocument (.element name attributes nodes) #[] = .ok (walk v))
          ∧ OnlyPrunes walk)
      ∧ (OnlyPrunes fun v => v.visitBlocks nodes #[])
      ∧ (OnlyPrunes fun v => v.visitContent nodes #[])
      ∧ (OnlyPrunes fun v => v.visitInline n #[]) := by
  have hblocks := onlyPrunes_visitBlocks nodes
  refine ⟨⟨fun v => v.visitBlocks nodes #[], fun v => rfl, hblocks⟩, hblocks, ?_, ?_⟩
  . apply (tells_visitContent nodes).onlyPrunes (Node.nested_reportsOfContent nodes)
    intro blocks inlines
    exact (logging_skips blocks inlines).callsOfContent nodes
  . apply (tells_visitInline n).onlyPrunes (Node.line_reportsInLine n).nested
    intro blocks inlines
    exact (logging_skips blocks inlines).callsInLine n

end Visitor

end NoteMarkup
