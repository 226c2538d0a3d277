import NoteMarkup.Proofs.LayoutFree

/-!
This module contains the layout of XML in which every block is on a line of its own: where it stands, how deep lines
are indented, and that the same XML is written without it otherwise.
-/

namespace NoteMarkup

namespace Report

def depth (before : List Report) : Nat :=
  before.foldl depthBehind 1

def HoldBlock (reports : List Report) : Prop :=
  ∃ before block behind, reports = before ++ .blockStart block :: behind ∧ Nested before

theorem Nested.foldl_depthBehind {reports : List Report} (h : Nested reports) (depth : Nat) :
    reports.foldl depthBehind depth = depth := by
  induction h generalizing depth with
  | nil => rfl
  | text content hbehind ih => exact ih depth
  | element h hinside hbehind ihinside ihbehind =>
    have hdepth := depthBehind_of_ending? h depth
    rw [List.foldl_cons, List.foldl_append, List.foldl_cons, hdepth.1, ihinside, hdepth.2, ihbehind]

theorem Line.isInline {line : List Report} (h : Line line) :
    ∀ block, .blockStart block ∉ line ∧ .blockEnd block ∉ line := by
  intro block
  induction h with
  | nil => simp
  | text content hbehind ih => simp [ih]
  | element element hinside hbehind ihinside ihbehind => simp [ihinside, ihbehind]

theorem holdBlock_iff {line blocks : List Report} (hline : Line line) (hblocks : Blocks blocks) :
    HoldBlock (line ++ blocks) ↔ blocks ≠ [] := by
  constructor
  . rintro ⟨before, block, behind, heq, -⟩ rfl
    apply (hline.isInline block).1
    rw [← List.append_nil line, heq]
    simp
  . intro hne
    cases hblocks with
    | nil => exact absurd rfl hne
    | block block => exact ⟨line, block, _, rfl, hline.nested⟩

end Report

def newLine (depth : Nat) : String :=
  "\n" ++ String.ofList (List.replicate (2 * depth) ' ')

structure Piece where
  layout : String
  report : Report

namespace Piece

open Report (depthBehind Line Nested HoldBlock)

def written (p : Piece) : String :=
  p.layout ++ p.report.written

def bare (r : Report) : Piece :=
  ⟨"", r⟩

/-- The pieces of blocks at a depth: each block begins a line, and ends on one if there is a block in it. -/
inductive Blocks : Nat → List Piece → Prop
  | nil (depth : Nat) : Blocks depth []
  | block {depth : Nat} (block : Block) {line : List Report} {blocks behind : List Piece} (hline : Line line)
      (hblocks : Blocks (depth + 1) blocks) (hbehind : Blocks depth behind) :
      Blocks depth
        (⟨newLine depth, .blockStart block⟩ :: (line.map bare ++ blocks
          ++ ⟨if blocks.isEmpty then "" else newLine depth, .blockEnd block⟩ :: behind))

variable {depth : Nat} {pieces : List Piece}

theorem map_report_bare (reports : List Report) : (reports.map bare).map report = reports := by
  simp [Function.comp_def, bare]

theorem Blocks.reports (h : Blocks depth pieces) : Report.Blocks (pieces.map report) := by
  induction h with
  | nil depth => exact .nil
  | block block hline hblocks hbehind ihblocks ihbehind =>
    simp only [List.map_cons, List.map_append, map_report_bare, List.append_assoc]
    exact .block block hline ihblocks ihbehind

theorem append_cons_cases {α : Type} {x y : α} {first second before after : List α}
    (h : first ++ y :: second = before ++ x :: after) :
    (∃ right, first = before ++ x :: right)
      ∨ (before = first ∧ x = y)
      ∨ (∃ left, before = first ++ y :: left ∧ second = left ++ x :: after) := by
  rcases List.append_eq_append_iff.mp h with ⟨more, rfl, hmore⟩ | ⟨more, rfl, hmore⟩
  . cases more with
    | nil =>
      cases hmore
      exact .inr (.inl ⟨by simp, rfl⟩)
    | cons m more =>
      cases hmore
      exact .inr (.inr ⟨more, rfl, rfl⟩)
  . cases more with
    | nil =>
      cases hmore
      exact .inr (.inl ⟨by simp, rfl⟩)
    | cons m more =>
      cases hmore
      exact .inl ⟨more, rfl⟩

theorem exists_of_append_eq {α : Type} {x : α} {first second before after : List α} (hx : x ∉ first)
    (h : first ++ second = before ++ x :: after) : ∃ left, before = first ++ left ∧ second = left ++ x :: after := by
  rcases List.append_eq_append_iff.mp h with ⟨more, hbefore, hsecond⟩ | ⟨more, rfl, hmore⟩
  . exact ⟨more, hbefore, hsecond⟩
  . cases more with
    | nil => exact ⟨[], by simp, hmore.symm⟩
    | cons m more =>
      cases hmore
      simp at hx

theorem split_cases {α : Type} {start ending x : α} {line blocks behind before after : List α} (hx : x ∉ line)
    (h : start :: (line ++ blocks ++ ending :: behind) = before ++ x :: after) :
    (before = [] ∧ x = start)
      ∨ (∃ left right, blocks = left ++ x :: right ∧ before = start :: (line ++ left))
      ∨ (before = start :: (line ++ blocks) ∧ x = ending)
      ∨ (∃ left, behind = left ++ x :: after ∧ before = start :: (line ++ blocks ++ ending :: left)) := by
  cases before with
  | nil =>
    cases h
    exact .inl ⟨rfl, rfl⟩
  | cons b before =>
    rw [List.cons_append, List.cons.injEq] at h
    rcases h with ⟨rfl, h⟩
    rcases append_cons_cases h with ⟨right, hinside⟩ | ⟨rfl, rfl⟩ | ⟨left, rfl, hbehind⟩
    . rcases exists_of_append_eq hx hinside with ⟨left, rfl, hblocks⟩
      exact .inr (.inl ⟨left, right, hblocks, rfl⟩)
    . exact .inr (.inr (.inl ⟨rfl, rfl⟩))
    . exact .inr (.inr (.inr ⟨left, hbehind, rfl⟩))

theorem not_mem_line {line : List Report} (hline : Line line) (layout : String) (block : Block) :
    ⟨layout, .blockStart block⟩ ∉ line.map bare
      ∧ ⟨layout, .blockEnd block⟩ ∉ line.map bare := by
  have hno := hline.isInline block
  simp only [List.mem_map, bare, Piece.mk.injEq, not_exists, not_and]
  constructor
  . rintro r hr - rfl
    exact hno.1 hr
  . rintro r hr - rfl
    exact hno.2 hr

theorem Blocks.layout_of_blockStart (h : Blocks depth pieces) {before after : List Piece} {layout : String}
    {block : Block} (hsplit : pieces = before ++ ⟨layout, .blockStart block⟩ :: after) :
    layout = newLine ((before.map report).foldl depthBehind depth) := by
  induction h generalizing before after with
  | nil depth => simp at hsplit
  | @block depth own line blocks behind hline hblocks hbehind ihblocks ihbehind =>
    have hnested := hblocks.reports.nested
    rcases split_cases (not_mem_line hline layout block).1 hsplit with
      ⟨rfl, heq⟩ | ⟨left, right, hleft, rfl⟩ | ⟨-, heq⟩ | ⟨left, hleft, rfl⟩
    . cases heq
      rfl
    . rw [ihblocks hleft]
      simp only [List.map_cons, List.map_append, map_report_bare, List.foldl_cons, List.foldl_append, depthBehind,
        hline.nested.foldl_depthBehind]
    . cases heq
    . rw [ihbehind hleft]
      simp only [List.map_cons, List.map_append, map_report_bare, List.foldl_cons, List.foldl_append, depthBehind,
        hline.nested.foldl_depthBehind, hnested.foldl_depthBehind, Nat.add_sub_cancel]

theorem Blocks.layout_of_blockEnd (h : Blocks depth pieces) {before after : List Piece} {layout : String}
    {block : Block} (hsplit : pieces = before ++ ⟨layout, .blockEnd block⟩ :: after) :
    ∃ outer startLayout inside,
      before = outer ++ ⟨startLayout, .blockStart block⟩ :: inside
        ∧ Nested (inside.map report)
        ∧ (HoldBlock (inside.map report) → layout = startLayout)
        ∧ (¬ HoldBlock (inside.map report) → layout = "") := by
  induction h generalizing before after with
  | nil depth => simp at hsplit
  | @block depth own line blocks behind hline hblocks hbehind ihblocks ihbehind =>
    rcases split_cases (not_mem_line hline layout block).2 hsplit with
      ⟨-, heq⟩ | ⟨left, right, hleft, rfl⟩ | ⟨rfl, heq⟩ | ⟨left, hleft, rfl⟩
    . cases heq
    . rcases ihblocks hleft with ⟨outer, startLayout, inside, rfl, hinside⟩
      exact ⟨⟨newLine depth, .blockStart own⟩ :: (line.map bare ++ outer), startLayout, inside, by simp, hinside⟩
    . cases heq
      refine ⟨[], newLine depth, line.map bare ++ blocks, rfl, ?_, ?_, ?_⟩
      all_goals rw [List.map_append, map_report_bare]
      . exact hline.nested.append hblocks.reports.nested
      . rw [Report.holdBlock_iff hline hblocks.reports]
        intro hne
        have hblocks : blocks ≠ [] := by simpa using hne
        simp [hblocks]
      . rw [Report.holdBlock_iff hline hblocks.reports]
        intro hnil
        have hblocks : blocks = [] := by simpa using hnil
        simp [hblocks]
    . rcases ihbehind hleft with ⟨outer, startLayout, inside, rfl, hinside⟩
      exact ⟨⟨newLine depth, .blockStart own⟩ :: (line.map bare ++ blocks ++
        ⟨if blocks.isEmpty then "" else newLine depth, .blockEnd own⟩ :: outer), startLayout, inside, by simp, hinside⟩

theorem Blocks.layout_of_mem (h : Blocks depth pieces) :
    ∀ p ∈ pieces, p.layout = ""
      ∨ (∃ depth, p.layout = newLine depth) ∧ ∃ block, p.report = .blockStart block ∨ p.report = .blockEnd block := by
  induction h with
  | nil depth => simp
  | @block depth own line blocks behind hline hblocks hbehind ihblocks ihbehind =>
    intro p hp
    simp only [List.mem_cons, List.mem_append, List.mem_map] at hp
    rcases hp with rfl | (⟨r, -, rfl⟩ | hp) | rfl | hp
    . exact .inr ⟨⟨depth, rfl⟩, own, .inl rfl⟩
    . exact .inl rfl
    . exact ihblocks p hp
    . by_cases hempty : blocks.isEmpty
      . exact .inl (by simp [hempty])
      . exact .inr ⟨⟨depth, by simp [hempty]⟩, own, .inr rfl⟩
    . exact ihbehind p hp

end Piece

namespace XmlBuilder

open Report (Line)

theorem lineStart_eq (depth : Nat) : lineStart true depth = newLine depth := by
  have hspaces : String.join (List.replicate depth "  ") = String.ofList (List.replicate (2 * depth) ' ') := by
    rw [← String.toList_inj, String.toList_join, String.toList_ofList]
    induction depth with
    | zero => rfl
    | succ depth ih =>
      rw [List.replicate_succ, List.flatMap_cons, ih]
      rfl
  unfold lineStart newLine
  rw [if_pos rfl, hspaces]

theorem foldl_line {line : List Report} (h : Line line) (pretty : Bool) (b : XmlBuilder) :
    line.foldl (visitor pretty).tell b = { b with written := b.written ++ String.join (line.map Report.written) } := by
  induction h generalizing b with
  | nil => simp
  | text content hbehind ih =>
    rw [List.foldl_cons, ih]
    simp [Visitor.tell, visitor, Report.written, String.append_assoc]
  | element element hinside hbehind ihinside ihbehind =>
    rw [List.foldl_cons, List.foldl_append, List.foldl_cons, ihinside, ihbehind]
    simp [Visitor.tell, visitor, Report.written, String.append_assoc]

theorem exists_pieces {reports : List Report} (h : Report.Blocks reports) (written : String) (flag : Bool)
    (outer : List Bool) :
    ∃ pieces,
      Piece.Blocks (outer.length + 1) pieces
        ∧ pieces.map Piece.report = reports
        ∧ reports.foldl (visitor true).tell ⟨written, flag :: outer⟩
          = ⟨written ++ String.join (pieces.map Piece.written), (flag || !pieces.isEmpty) :: outer⟩ := by
  induction h generalizing written flag outer with
  | nil => exact ⟨[], .nil _, rfl, by simp⟩
  | @block block line blocks behind hline hblocks hbehind ihblocks ihbehind =>
    let startTag := newLine (outer.length + 1) ++ (Report.blockStart block).written
    rcases ihblocks (written ++ startTag ++ String.join (line.map Report.written)) false (true :: outer) with
      ⟨inner, hinner, hreports, hfold⟩
    let endLayout := if inner.isEmpty then "" else newLine (outer.length + 1)
    let before := written ++ startTag ++ String.join (line.map Report.written) ++ String.join (inner.map Piece.written)
    rcases ihbehind (before ++ endLayout ++ (Report.blockEnd block).written) true outer with
      ⟨rest, hrest, hreports', hfold'⟩
    have hstart : (visitor true).tell ⟨written, flag :: outer⟩ (.blockStart block)
        = ⟨written ++ startTag, false :: true :: outer⟩ := by
      simp [Visitor.tell, visitor, Report.written, lineStart_eq, startTag]
    have hend : (visitor true).tell ⟨before, (false || !inner.isEmpty) :: true :: outer⟩ (.blockEnd block)
        = ⟨before ++ endLayout ++ (Report.blockEnd block).written, true :: outer⟩ := by
      cases hempty : inner.isEmpty <;> simp [Visitor.tell, visitor, Report.written, lineStart_eq, endLayout, hempty]
    refine ⟨_, .block block hline hinner hrest, ?_, ?_⟩
    . simp only [List.map_cons, List.map_append, Piece.map_report_bare, hreports, hreports', List.append_assoc]
    . rw [List.foldl_cons, List.foldl_append, List.foldl_append, List.foldl_cons, hstart, foldl_line hline, hfold, hend,
        hfold']
      simp [Piece.written, Piece.bare, startTag, endLayout, before, Function.comp_def, String.append_assoc]

theorem written_tell_compact (b : XmlBuilder) (r : Report) :
    ((visitor false).tell b r).written = b.written ++ r.written := by
  cases r <;> simp [Visitor.tell, visitor, Report.written, lineStart, String.append_assoc]

theorem written_foldl_compact (reports : List Report) (b : XmlBuilder) :
    (reports.foldl (visitor false).tell b).written = b.written ++ String.join (reports.map Report.written) := by
  induction reports generalizing b with
  | nil => simp
  | cons r reports ih =>
    rw [List.foldl_cons, ih, written_tell_compact]
    simp [String.append_assoc]

theorem start_pretty : start true = ⟨declaration ++ "\n<root>", [false]⟩ := by
  have hroot : "\n<root>" = "\n" ++ "<root>" := by decide
  rw [hroot, ← String.append_assoc]
  rfl

theorem finish_compact (b : XmlBuilder) : b.finish false = b.written ++ "</root>" := by
  simp [finish, lineStart]

theorem finish_pretty (written : String) (flag : Bool) (outer : List Bool) :
    finish true ⟨written, flag :: outer⟩ = written ++ (if flag then "\n" else "") ++ "</root>\n" := by
  cases flag <;> simp [finish, lineStart, String.append_assoc]

end XmlBuilder

namespace XmlLayout

open Text XmlReader

theorem isLayout_newLine (depth : Nat) : IsLayout (newLine depth).toList := by
  intro c hc
  simp only [newLine, String.toList_append, String.toList_ofList, List.mem_append, List.mem_replicate] at hc
  rcases hc with hc | ⟨-, rfl⟩
  . exact .inl (by simpa using hc)
  . exact .inr rfl

theorem kept_declaration : Kept XmlBuilder.declaration.toList := by
  have hchars : XmlBuilder.declaration.toList
      = '<' :: ("?xml version=\"1.0\" encoding=\"utf-8\"?".toList ++ ['>']) := by decide
  rw [hchars]
  apply kept_tag
  . decide
  . simp

theorem outside_pieces {pieces : List Piece}
    (h : ∀ p ∈ pieces, IsLayout p.layout.toList ∧ Kept p.report.written.toList) (rest : List Char) :
    outside ((String.join (pieces.map Piece.written)).toList ++ rest)
      =
    (String.join ((pieces.map Piece.report).map Report.written)).toList ++ outside rest := by
  induction pieces with
  | nil => rfl
  | cons p pieces ih =>
    rw [List.forall_mem_cons] at h
    simp only [List.map_cons, String.join_cons, Piece.written, String.toList_append, List.append_assoc]
    rw [outside_layout h.1.1, h.1.2, ih h.2]

theorem isLayout_lineEnd : IsLayout "\n".toList := by
  simp [IsLayout]

theorem withoutLayout_document {pieces : List Piece}
    (h : ∀ p ∈ pieces, IsLayout p.layout.toList ∧ Kept p.report.written.toList) :
    withoutLayout
        (XmlBuilder.declaration ++ "\n<root>" ++ String.join (pieces.map Piece.written)
          ++ (if pieces.isEmpty then "" else "\n") ++ "</root>\n")
      =
    XmlBuilder.declaration ++ "<root>" ++ String.join ((pieces.map Piece.report).map Report.written) ++ "</root>" := by
  have hstart : "\n<root>" = "\n" ++ XmlBuilder.startTag "root" [] := by decide
  have hend : "</root>\n" = XmlBuilder.endTag "root" ++ "\n" := by decide
  have hroot : XmlBuilder.startTag "root" [] = "<root>" ∧ XmlBuilder.endTag "root" = "</root>" := by decide
  have hlast : IsLayout (if pieces.isEmpty then "" else "\n").toList := by
    split
    . simp [IsLayout]
    . exact isLayout_lineEnd
  have hbehind : outside "\n".toList = [] := outside_layout isLayout_lineEnd []
  rw [← String.toList_inj, hstart, hend, ← hroot.1, ← hroot.2]
  simp only [withoutLayout, String.toList_ofList, String.toList_append, List.append_assoc]
  rw [kept_declaration, outside_layout isLayout_lineEnd, kept_startTag (by decide) (by simp), outside_pieces h,
    outside_layout hlast, kept_endTag (by decide), hbehind, List.append_nil]

end XmlLayout

/-- Whether the layout in front of the reports of a walk is what it should be: a block begins a line, indented for the
elements around it; it ends on a line that is indented as the one it begins if a block is reported directly in it, and
right behind what is in it otherwise; there is layout in front of nothing else. -/
structure LaidOut (pieces : List Piece) : Prop where
  blockStart : ∀ before layout block after, pieces = before ++ ⟨layout, .blockStart block⟩ :: after →
    layout = newLine (Report.depth (before.map Piece.report))
  blockEnd : ∀ before layout block after, pieces = before ++ ⟨layout, .blockEnd block⟩ :: after →
    ∃ outer startLayout inside,
      before = outer ++ ⟨startLayout, .blockStart block⟩ :: inside
        ∧ Report.Nested (inside.map Piece.report)
        ∧ (Report.HoldBlock (inside.map Piece.report) → layout = startLayout)
        ∧ (¬ Report.HoldBlock (inside.map Piece.report) → layout = "")
  elsewhere : ∀ p ∈ pieces, p.layout ≠ "" → ∃ block, p.report = .blockStart block ∨ p.report = .blockEnd block

theorem Piece.Blocks.laidOut {pieces : List Piece} (h : Blocks 1 pieces) : LaidOut pieces where
  blockStart _ _ _ _ hsplit := h.layout_of_blockStart hsplit
  blockEnd _ _ _ _ hsplit := h.layout_of_blockEnd hsplit
  elsewhere p hp hne := ((h.layout_of_mem p hp).resolve_left hne).2

namespace Node

open XmlReader (IsAttributeName)

theorem pretty_xml_adds_layout (name : String) (attributes : List Attribute) {children : List Node}
    (h : ∀ element ∈ inlinesAll children, ∀ a ∈ element.attributes, IsAttributeName a.name) :
    ∃ log compact pretty pieces,
      (Visitor.logging (fun _ => false) (fun _ => false)).visitDocument (.element name attributes children) #[]
          = .ok log
        ∧ toXml (.element name attributes children) false = .ok compact
        ∧ toXml (.element name attributes children) true = .ok pretty
        ∧ XmlLayout.withoutLayout pretty = compact
        ∧ compact
            = XmlBuilder.declaration ++ "<root>" ++ String.join (log.toList.map Report.written) ++ "</root>"
        ∧ pretty
            = XmlBuilder.declaration ++ "\n<root>" ++ String.join (pieces.map Piece.written)
              ++ (if pieces.isEmpty then "" else "\n") ++ "</root>\n"
        ∧ pieces.map Piece.report = log.toList
        ∧ LaidOut pieces := by
  rcases XmlBuilder.exists_pieces (blocks_reportsOfBlocks children) (XmlBuilder.declaration ++ "\n<root>") false []
    with ⟨pieces, hblocks, hreports, hfold⟩
  have hkept : ∀ p ∈ pieces, XmlLayout.IsLayout p.layout.toList ∧ XmlLayout.Kept p.report.written.toList := by
    intro p hp
    constructor
    . rcases hblocks.layout_of_mem p hp with hlayout | ⟨⟨depth, hlayout⟩, -⟩
      . simp [hlayout, XmlLayout.IsLayout]
      . rw [hlayout]
        exact XmlLayout.isLayout_newLine depth
    . apply XmlLayout.kept_written
      intro element helement
      apply h element
      apply mem_inlinesAll_of_reportsOfBlocks children
      rw [← hreports, ← helement]
      exact List.mem_map_of_mem hp
  have hcompact : toXml (.element name attributes children) false
      = .ok (XmlBuilder.declaration ++ "<root>" ++ String.join ((reportsOfBlocks children).map Report.written)
          ++ "</root>") := by
    rw [toXml_eq, XmlBuilder.finish_compact, XmlBuilder.written_foldl_compact]
    rfl
  have hpretty : toXml (.element name attributes children) true
      = .ok (XmlBuilder.declaration ++ "\n<root>" ++ String.join (pieces.map Piece.written)
          ++ (if pieces.isEmpty then "" else "\n") ++ "</root>\n") := by
    rw [toXml_eq, XmlBuilder.start_pretty, hfold, XmlBuilder.finish_pretty]
    cases pieces.isEmpty <;> rfl
  refine ⟨_, _, _, pieces, Visitor.log_eq name attributes children, hcompact, hpretty, ?_, rfl, rfl, hreports,
    hblocks.laidOut⟩
  rw [XmlLayout.withoutLayout_document hkept, hreports]

def indented : List Node :=
  [.element "text" [⟨"list", "a\n<b>"⟩]
    [.text " \n</root> ", .element "a" [⟨"href", "> \n"⟩] [.text "]]> "], .element "quote" [] [.element "h1" [] []],
      .element "hr" [] []]]

theorem indented_xml_adds_layout :
    (∀ element ∈ inlinesAll indented, ∀ a ∈ element.attributes, IsAttributeName a.name)
      ∧ ∃ log compact pretty pieces,
          (Visitor.logging (fun _ => false) (fun _ => false)).visitDocument (.element "notes" [] indented) #[] = .ok log
            ∧ toXml (.element "notes" [] indented) false = .ok compact
            ∧ toXml (.element "notes" [] indented) true = .ok pretty
            ∧ XmlLayout.withoutLayout pretty = compact
            ∧ compact
                = XmlBuilder.declaration ++ "<root>" ++ String.join (log.toList.map Report.written) ++ "</root>"
            ∧ pretty
                = XmlBuilder.declaration ++ "\n<root>" ++ String.join (pieces.map Piece.written)
                  ++ (if pieces.isEmpty then "" else "\n") ++ "</root>\n"
            ∧ pieces.map Piece.report = log.toList
            ∧ LaidOut pieces := by
  have h : ∀ element ∈ inlinesAll indented, ∀ a ∈ element.attributes, IsAttributeName a.name := by
    decide
  exact ⟨h, pretty_xml_adds_layout "notes" [] h⟩

end Node

end NoteMarkup
