import NoteMarkup.Document.Log

/-!
This module contains what a walk tells a visitor by recursion on the tree, whatever the visitor answers: an answer
may depend on everything the visitor has been told before. The walk, which puts what it still has to do aside in a
list, tells every visitor the same.
-/

namespace NoteMarkup

namespace Visitor

variable {σ : Type}

def tell (v : Visitor σ) (s : σ) : Report → σ
  | .blockStart block => (v.blockStart block s).2
  | .blockEnd block => v.blockEnd block s
  | .inlineStart element => (v.inlineStart element s).2
  | .inlineEnd element => v.inlineEnd element s
  | .text content => v.text content s

mutual

def callsInLine (v : Visitor σ) : Node → σ → List Report
  | .text content, _ => if content.isEmpty then [] else [.text content]
  | .element name attributes children, s =>
    match InlineKind.ofName? name with
    | some kind =>
      let start := .inlineStart ⟨kind, attributes⟩
      match (v.inlineStart ⟨kind, attributes⟩ s).1 with
      | .skip => [start]
      | .enter => start :: (v.callsOfLine children (v.tell s start) ++ [.inlineEnd ⟨kind, attributes⟩])
    | none => v.callsOfLine children s

def callsOfLine (v : Visitor σ) : List Node → σ → List Report
  | [], _ => []
  | n :: ns, s => v.callsInLine n s ++ v.callsOfLine ns ((v.callsInLine n s).foldl v.tell s)

end

mutual

def callsAsBlock (v : Visitor σ) : Node → σ → List Report
  | .text _, _ => []
  | .element name attributes children, s =>
    match BlockKind.ofName? name with
    | some kind =>
      let start := .blockStart ⟨kind, attributes⟩
      match (v.blockStart ⟨kind, attributes⟩ s).1 with
      | .skip => [start]
      | .enter => start :: (v.callsOfContent children (v.tell s start) ++ [.blockEnd ⟨kind, attributes⟩])
    | none => v.callsOfBlocks children s

def callsOfBlocks (v : Visitor σ) : List Node → σ → List Report
  | [], _ => []
  | n :: ns, s => v.callsAsBlock n s ++ v.callsOfBlocks ns ((v.callsAsBlock n s).foldl v.tell s)

/-- What a visitor is told of what a block holds: a line up to the first block, and from there on blocks. -/
def callsOfContent (v : Visitor σ) : List Node → σ → List Report
  | [], _ => []
  | n :: ns, s =>
    if n.isNoBlock then v.callsInLine n s ++ v.callsOfContent ns ((v.callsInLine n s).foldl v.tell s)
    else v.callsAsBlock n s ++ v.callsOfBlocks ns ((v.callsAsBlock n s).foldl v.tell s)

end

theorem callsOfContent_eq (v : Visitor σ) (ns : List Node) (s : σ) :
    v.callsOfContent ns s
      =
    v.callsOfLine (ns.takeWhile Node.isNoBlock) s
      ++ v.callsOfBlocks (ns.dropWhile Node.isNoBlock)
          ((v.callsOfLine (ns.takeWhile Node.isNoBlock) s).foldl v.tell s) := by
  induction ns generalizing s with
  | nil => rfl
  | cons n ns ih =>
    unfold callsOfContent
    by_cases hn : n.isNoBlock
    . simp [hn, ih, callsOfLine]
    . simp [hn, callsOfLine, callsOfBlocks]

def callsOfErrand (v : Visitor σ) : Errand → σ → List Report
  | .blocks nodes, s => v.callsOfBlocks nodes s
  | .content nodes, s => v.callsOfContent nodes s
  | .inline nodes, s => v.callsOfLine nodes s
  | .endBlock block, _ => [.blockEnd block]
  | .endInline element, _ => [.inlineEnd element]

def callsOfErrands (v : Visitor σ) : List Errand → σ → List Report
  | [], _ => []
  | e :: errands, s => v.callsOfErrand e s ++ v.callsOfErrands errands ((v.callsOfErrand e s).foldl v.tell s)

theorem run_eq (v : Visitor σ) (errands : List Errand) (s : σ) :
    v.run errands s = (v.callsOfErrands errands s).foldl v.tell s := by
  fun_induction v.run errands s with
  | case1 s => rfl
  | case2 errands s ih => exact ih
  | case3 content rest errands s ih => exact ih
  | case4 name attributes children rest errands s kind hkind s' hskip ih =>
    rw [ih]
    simp [callsOfErrands, callsOfErrand, callsOfBlocks, callsAsBlock, hkind, hskip, tell]
  | case5 name attributes children rest errands s kind hkind s' henter ih =>
    rw [ih]
    simp [callsOfErrands, callsOfErrand, callsOfBlocks, callsAsBlock, hkind, henter, tell]
  | case6 name attributes children rest errands s hnone ih =>
    rw [ih]
    simp [callsOfErrands, callsOfErrand, callsOfBlocks, callsAsBlock, hnone]
  | case7 children errands s ih =>
    rw [ih]
    simp [callsOfErrands, callsOfErrand, callsOfContent_eq]
  | case8 errands s ih => exact ih
  | case9 content rest errands s ih =>
    by_cases hempty : content.isEmpty
    . simp only [hempty, if_true] at ih ⊢
      simpa [callsOfErrands, callsOfErrand, callsOfLine, callsInLine, hempty] using ih
    . simp only [hempty] at ih ⊢
      simpa [callsOfErrands, callsOfErrand, callsOfLine, callsInLine, hempty, tell] using ih
  | case10 name attributes children rest errands s kind hkind s' hskip ih =>
    rw [ih]
    simp [callsOfErrands, callsOfErrand, callsOfLine, callsInLine, hkind, hskip, tell]
  | case11 name attributes children rest errands s kind hkind s' henter ih =>
    rw [ih]
    simp [callsOfErrands, callsOfErrand, callsOfLine, callsInLine, hkind, henter, tell]
  | case12 name attributes children rest errands s hnone ih =>
    rw [ih]
    simp [callsOfErrands, callsOfErrand, callsOfLine, callsInLine, hnone]
  | case13 block errands s ih =>
    rw [ih]
    rfl
  | case14 element errands s ih =>
    rw [ih]
    rfl

def recording (v : Visitor σ) : Visitor (σ × List Report) where
  blockStart block s :=
    let (answer, state) := v.blockStart block s.1
    (answer, state, s.2 ++ [.blockStart block])
  blockEnd block s := (v.blockEnd block s.1, s.2 ++ [.blockEnd block])
  inlineStart element s :=
    let (answer, state) := v.inlineStart element s.1
    (answer, state, s.2 ++ [.inlineStart element])
  inlineEnd element s := (v.inlineEnd element s.1, s.2 ++ [.inlineEnd element])
  text content s := (v.text content s.1, s.2 ++ [.text content])

theorem tell_recording (v : Visitor σ) (s : σ) (told : List Report) (r : Report) :
    v.recording.tell (s, told) r = (v.tell s r, told ++ [r]) := by
  cases r <;> rfl

theorem foldl_tell_recording (v : Visitor σ) (s : σ) (told reports : List Report) :
    reports.foldl v.recording.tell (s, told) = (reports.foldl v.tell s, told ++ reports) := by
  induction reports generalizing s told with
  | nil => simp
  | cons r reports ih => simp [tell_recording, ih]

mutual

theorem callsInLine_recording (v : Visitor σ) (s : σ) (told : List Report) :
    ∀ n : Node, v.recording.callsInLine n (s, told) = v.callsInLine n s
  | .text _ => rfl
  | .element name attributes children => by
    unfold callsInLine
    cases InlineKind.ofName? name with
    | none => exact callsOfLine_recording v s told children
    | some kind =>
      dsimp only
      rw [tell_recording, callsOfLine_recording v _ _ children]
      rfl

theorem callsOfLine_recording (v : Visitor σ) (s : σ) (told : List Report) :
    ∀ ns : List Node, v.recording.callsOfLine ns (s, told) = v.callsOfLine ns s
  | [] => rfl
  | n :: ns => by
    unfold callsOfLine
    rw [callsInLine_recording v s told n, foldl_tell_recording, callsOfLine_recording v _ _ ns]

end

mutual

theorem callsAsBlock_recording (v : Visitor σ) (s : σ) (told : List Report) :
    ∀ n : Node, v.recording.callsAsBlock n (s, told) = v.callsAsBlock n s
  | .text _ => rfl
  | .element name attributes children => by
    unfold callsAsBlock
    cases BlockKind.ofName? name with
    | none => exact callsOfBlocks_recording v s told children
    | some kind =>
      dsimp only
      rw [tell_recording, callsOfContent_recording v _ _ children]
      rfl

theorem callsOfBlocks_recording (v : Visitor σ) (s : σ) (told : List Report) :
    ∀ ns : List Node, v.recording.callsOfBlocks ns (s, told) = v.callsOfBlocks ns s
  | [] => rfl
  | n :: ns => by
    unfold callsOfBlocks
    rw [callsAsBlock_recording v s told n, foldl_tell_recording, callsOfBlocks_recording v _ _ ns]

theorem callsOfContent_recording (v : Visitor σ) (s : σ) (told : List Report) :
    ∀ ns : List Node, v.recording.callsOfContent ns (s, told) = v.callsOfContent ns s
  | [] => rfl
  | n :: ns => by
    unfold callsOfContent
    rw [callsInLine_recording v s told n, callsAsBlock_recording v s told n, foldl_tell_recording,
      foldl_tell_recording, callsOfContent_recording v _ _ ns, callsOfBlocks_recording v _ _ ns]

end

/-- Whether a walk tells every visitor just this, and leaves it as it then is. -/
structure Tells (walk : {σ : Type} → Visitor σ → σ → σ) (calls : {σ : Type} → Visitor σ → σ → List Report) :
    Prop where
  recorded : ∀ {σ : Type} (v : Visitor σ) (s : σ), (walk v.recording (s, [])).2 = calls v s
  state : ∀ {σ : Type} (v : Visitor σ) (s : σ), walk v s = (calls v s).foldl v.tell s

theorem Tells.of_state {walk : {σ : Type} → Visitor σ → σ → σ} {calls : {σ : Type} → Visitor σ → σ → List Report}
    (hstate : ∀ {σ : Type} (v : Visitor σ) (s : σ), walk v s = (calls v s).foldl v.tell s)
    (hrecording : ∀ {σ : Type} (v : Visitor σ) (s : σ), calls v.recording (s, []) = calls v s) :
    Tells walk calls where
  recorded v s := by rw [hstate, foldl_tell_recording, hrecording, List.nil_append]
  state := hstate

theorem tells_visitBlocks (nodes : List Node) :
    Tells (fun v => v.visitBlocks nodes) (fun v => v.callsOfBlocks nodes) := by
  apply Tells.of_state
  . intro σ v s
    unfold visitBlocks
    simp [run_eq, callsOfErrands, callsOfErrand]
  . intro σ v s
    exact callsOfBlocks_recording v s [] nodes

theorem tells_visitContent (children : List Node) :
    Tells (fun v => v.visitContent children) (fun v => v.callsOfContent children) := by
  apply Tells.of_state
  . intro σ v s
    unfold visitContent
    simp [run_eq, callsOfErrands, callsOfErrand]
  . intro σ v s
    exact callsOfContent_recording v s [] children

theorem tells_visitInline (n : Node) : Tells (fun v => v.visitInline n) (fun v => v.callsInLine n) := by
  apply Tells.of_state
  . intro σ v s
    unfold visitInline
    simp [run_eq, callsOfErrands, callsOfErrand, callsOfLine]
  . intro σ v s
    exact callsInLine_recording v s [] n

theorem walk_tells_by_recursion (name : String) (attributes : List Attribute) (nodes : List Node) (n : Node) :
    (∃ walk : {σ : Type} → Visitor σ → σ → σ,
        (∀ {σ : Type} (v : Visitor σ) (s : σ), v.visitDocument (.element name attributes nodes) s = .ok (walk v s))
          ∧ Tells walk fun v => v.callsOfBlocks nodes)
      ∧ Tells (fun v => v.visitBlocks nodes) (fun v => v.callsOfBlocks nodes)
      ∧ Tells (fun v => v.visitContent nodes) (fun v => v.callsOfContent nodes)
      ∧ Tells (fun v => v.visitInline n) (fun v => v.callsInLine n)
      ∧ ∀ {σ : Type} (v : Visitor σ) (s : σ),
          v.callsOfContent nodes s
            =
          v.callsOfLine (nodes.takeWhile Node.isNoBlock) s
            ++ v.callsOfBlocks (nodes.dropWhile Node.isNoBlock)
                ((v.callsOfLine (nodes.takeWhile Node.isNoBlock) s).foldl v.tell s) := by
  refine ⟨?_, tells_visitBlocks nodes, tells_visitContent nodes, tells_visitInline n, ?_⟩
  . exact ⟨fun v => v.visitBlocks nodes, fun v s => rfl, tells_visitBlocks nodes⟩
  . intro σ v s
    exact callsOfContent_eq v nodes s

end Visitor

end NoteMarkup
