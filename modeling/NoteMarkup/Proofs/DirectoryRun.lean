import NoteMarkup.Proofs.OutputPaths
import NoteMarkup.Proofs.Writing
import NoteMarkup.Proofs.Run

/-!
This module contains what a run over a directory leaves in its files. A file that is read and converted has its
output in its place at the end, unless a file behind it that differs in its extension only has put its own
there.
-/

namespace NoteMarkup.Command

open FileTree

theorem Session.convertFile_eq_ok_iff {s : Session} {p : Path} {settings : Settings} {output : String} :
    s.convertFile p settings = .ok output ↔
      ∃ html, s.files.contents? p = some (.text html) ∧ convert html settings = .ok output := by
  unfold convertFile FileTree.read
  rcases s.files.contents? p with _ | ⟨html | _⟩ <;> simp

theorem Session.convertFile_congr {s s' : Session} {p : Path} (settings : Settings) {output : String}
    (h : s.files.contents? p = s'.files.contents? p) :
    s.convertFile p settings = .ok output ↔ s'.convertFile p settings = .ok output := by
  rw [convertFile_eq_ok_iff, convertFile_eq_ok_iff, h]

def BatchSettings.outputOf (t : BatchSettings) (relative : Path) : String :=
  outputPath t.outDir relative t.settings.format.extension

def BatchSettings.converted (t : BatchSettings) (files : FileTree) (relative : Path) : Except RunError String :=
  Session.convertFile { files } (t.directory ++ relative) t.settings

theorem Batch.step_cases {t : BatchSettings} (h : t.toStdout = false) (b : Batch) (relative : Path) :
    (∃ output, t.converted b.session.files relative = .ok output ∧
        b.session.files.write (t.outputOf relative) output = .ok (b.step t relative).session.files) ∨
      ((b.step t relative).session.files = b.session.files ∧
        ∀ output, t.converted b.session.files relative = .ok output →
          ∃ e, b.session.files.write (t.outputOf relative) output = .error e ∧
            .err s!"  ✗ {relative.written} - {e.message}" ∈ (b.step t relative).session.printed) := by
  have hconverted (output : String) : t.converted b.session.files relative = .ok output ↔
      b.session.convertFile (t.directory ++ relative) t.settings = .ok output :=
    Session.convertFile_congr t.settings rfl
  simp only [hconverted, BatchSettings.outputOf]
  unfold step
  rcases b.session.convertFile (t.directory ++ relative) t.settings with e | output
  . simp [fail, Session.printError]
  . simp only [h, Session.write]
    rcases hwrite : b.session.files.write (outputPath t.outDir relative t.settings.format.extension) output
      with e | files
    . right
      simp [fail, Session.printError, bind, Except.bind, hwrite]
    . left
      simp [succeed, Session.print, bind, Except.bind, pure, Except.pure, hwrite]

theorem Session.printed_write {s s' : Session} {path content : String} (h : s.write path content = .ok s') :
    s'.printed = s.printed := by
  unfold write at h
  rcases hwrite : s.files.write path content with e | files
  . simp [hwrite, bind, Except.bind] at h
  . simp only [hwrite, bind, Except.bind, pure, Except.pure, Except.ok.injEq] at h
    rw [← h]

theorem Batch.mem_printed_step {t : BatchSettings} {b : Batch} {line : Line} (relative : Path)
    (h : line ∈ b.session.printed) : line ∈ (b.step t relative).session.printed := by
  unfold step
  split
  . simp [fail, Session.printError, h]
  . split
    . simp [succeed, Session.print, h]
    . dsimp only
      split
      . simp [fail, Session.printError, h]
      . next session hwrite => simp [succeed, Session.print, Session.printed_write hwrite, h]

theorem Batch.mem_printed_foldl {t : BatchSettings} {b : Batch} {line : Line} (rest : List Path)
    (h : line ∈ b.session.printed) : line ∈ (rest.foldl (Batch.step t) b).session.printed := by
  induction rest generalizing b with
  | nil => exact h
  | cons q rest ih => exact ih (mem_printed_step q h)

namespace BatchSettings

variable (t : BatchSettings)

/-- Nothing is in the way of the output for a file: nothing in the tree that a run starts from, and none of the
outputs that the run puts there. -/
structure Unobstructed (start : FileTree) (entries : List Path) (p : Path) : Prop where
  room : start.LeavesRoom (t.outputOf p)
  apart : ∀ q ∈ entries, ∀ output, t.converted start q = .ok output →
    location (t.outputOf p) ∉ around (t.outputOf q) ∧ location (t.outputOf q) ∉ around (t.outputOf p)

/-- A tree in which a run is under way: it has the files that the run reads as they were at the start. -/
structure Underway (start : FileTree) (entries : List Path) (files : FileTree) : Prop where
  inputs : ∀ q ∈ entries, files.contents? (t.directory ++ q) = start.contents? (t.directory ++ q)
  directory : files.isDirectory t.directory

variable {t} {start files files' : FileTree} {entries : List Path} {p q : Path}

theorem Underway.converted_iff (h : t.Underway start entries files) (hq : q ∈ entries) {output : String} :
    t.converted files q = .ok output ↔ t.converted start q = .ok output :=
  Session.convertFile_congr t.settings (h.inputs q hq)

theorem ne_nil_of_converted (hfile : start.isFile t.directory = false) {output : String}
    (h : t.converted start p = .ok output) : p ≠ [] := by
  rintro rfl
  obtain ⟨html, hcontents, -⟩ := Session.convertFile_eq_ok_iff.1 h
  rw [List.append_nil] at hcontents
  simp [isFile, hcontents] at hfile

theorem Underway.wrote (h : t.Underway start entries files) (hentries : ∀ q ∈ entries, q.Found)
    (hp : p.Found) (hne : p ≠ []) {content : String} (hwrote : files.Wrote files' (t.outputOf p) content) :
    t.Underway start entries files' := by
  have hname : ∀ name ∈ (location (t.outputOf p)).getLast?, isHtmlName name = false :=
    (location_outputPath t.settings.format hp hne hwrote.not_around).2
  refine ⟨fun q hq => ?_, (hwrote.directories _).2 (.inl h.directory)⟩
  rw [← h.inputs q hq, hwrote.contents, if_neg]
  intro heq
  rw [← heq] at hname
  rcases List.eq_nil_or_concat' q with rfl | ⟨front, name, rfl⟩
  . have hnot := hwrote.not_directory
    rw [← heq, List.append_nil, h.directory] at hnot
    cases hnot
  . have hhtml := (hentries _ hq).html name (by simp)
    rw [hname name (by simp [← List.append_assoc])] at hhtml
    cases hhtml

theorem location_eq_iff (hp : p.Found) (hq : q.Found) (hpne : p ≠ []) (hqne : q ≠ [])
    (hpplace : location (t.outputOf p) ∉ around (t.outputOf p))
    (hqplace : location (t.outputOf q) ∉ around (t.outputOf q)) :
    location (t.outputOf p) = location (t.outputOf q) ↔ p.withoutExtension = q.withoutExtension := by
  have hplocation := (location_outputPath t.settings.format hp hpne hpplace).1
  have hqlocation := (location_outputPath t.settings.format hq hqne hqplace).1
  rw [outputOf, outputOf, hplocation, hqlocation, List.append_cancel_left_eq,
    outputParts_eq_iff t.settings.format hp hq]

/-- What is in the place of the output for a file once another file has been cleaned. -/
def leftOf (t : BatchSettings) (start : FileTree) (p : Path) (held : Option Contents) (q : Path) :
    Option Contents :=
  match t.converted start q with
  | .ok output => if q.withoutExtension = p.withoutExtension then some (.text output) else held
  | .error _ => held

theorem Underway.step_own (hstdout : t.toStdout = false) (hp : p ∈ entries) {b : Batch}
    (h : t.Underway start entries b.session.files) {output : String} (hconverted : t.converted start p = .ok output) :
    b.session.files.Wrote (b.step t p).session.files (t.outputOf p) output ∨
      ((∃ e : FileError, .err s!"  ✗ {p.written} - {e.message}" ∈ (b.step t p).session.printed) ∧
        ¬ (b.session.files.LeavesRoom (t.outputOf p) ∧ location (t.outputOf p) ∉ around (t.outputOf p))) := by
  rcases Batch.step_cases hstdout b p with ⟨output', hconverted', hwrite⟩ | ⟨-, hfails⟩
  . rw [h.converted_iff hp, hconverted] at hconverted'
    cases hconverted'
    exact .inl (write_ok hwrite)
  . obtain ⟨e, hfails, hsaid⟩ := hfails output ((h.converted_iff hp).2 hconverted)
    refine .inr ⟨⟨e, hsaid⟩, fun ⟨hroom, hplace⟩ => ?_⟩
    obtain ⟨files', hwrite⟩ := exists_write output hroom hplace
    rw [hfails] at hwrite
    cases hwrite

section Run

variable (hstdout : t.toStdout = false) (hentries : ∀ q ∈ entries, q.Found)
  (hfile : start.isFile t.directory = false)

include hstdout hentries hfile

theorem Underway.step {b : Batch} (h : t.Underway start entries b.session.files) (hq : q ∈ entries) :
    t.Underway start entries (b.step t q).session.files := by
  rcases Batch.step_cases hstdout b q with ⟨output, hconverted, hwrite⟩ | ⟨hsame, -⟩
  . rw [h.converted_iff hq] at hconverted
    exact h.wrote hentries (hentries q hq) (ne_nil_of_converted hfile hconverted) (write_ok hwrite)
  . rwa [hsame]

theorem Underway.foldl {rest : List Path} (hrest : ∀ q ∈ rest, q ∈ entries) {b : Batch}
    (h : t.Underway start entries b.session.files) :
    t.Underway start entries (rest.foldl (Batch.step t) b).session.files := by
  induction rest generalizing b with
  | nil => exact h
  | cons q rest ih =>
    simp only [List.mem_cons, forall_eq_or_imp] at hrest
    exact ih hrest.2 (h.step hstdout hentries hfile hrest.1)

theorem Unobstructed.foldl (hfree : t.Unobstructed start entries p) {rest : List Path}
    (hrest : ∀ q ∈ rest, q ∈ entries) {b : Batch} (h : t.Underway start entries b.session.files)
    (hroom : b.session.files.LeavesRoom (t.outputOf p)) :
    (rest.foldl (Batch.step t) b).session.files.LeavesRoom (t.outputOf p) := by
  induction rest generalizing b with
  | nil => exact hroom
  | cons q rest ih =>
    simp only [List.mem_cons, forall_eq_or_imp] at hrest
    apply ih hrest.2 (h.step hstdout hentries hfile hrest.1)
    rcases Batch.step_cases hstdout b q with ⟨output, hconverted, hwrite⟩ | ⟨hsame, -⟩
    . rw [h.converted_iff hrest.1] at hconverted
      obtain ⟨hpath, hother⟩ := hfree.apart q hrest.1 output hconverted
      exact hroom.wrote (write_ok hwrite) hother hpath
    . rwa [hsame]

theorem Underway.step_holds (hp : p ∈ entries) (hpne : p ≠ []) (hq : q ∈ entries) {b : Batch}
    (h : t.Underway start entries b.session.files) (hholds : b.session.files.Holds (t.outputOf p)) :
    (b.step t q).session.files.Holds (t.outputOf p) ∧
      (b.step t q).session.files.contents? (location (t.outputOf p)) =
        t.leftOf start p (b.session.files.contents? (location (t.outputOf p))) q := by
  rcases Batch.step_cases hstdout b q with ⟨output, hconverted, hwrite⟩ | ⟨hsame, hfails⟩
  . rw [h.converted_iff hq] at hconverted
    have hwrote := write_ok hwrite
    have hplaces := location_eq_iff (hentries p hp) (hentries q hq) hpne
      (ne_nil_of_converted hfile hconverted) hholds.not_around hwrote.not_around
    refine ⟨hholds.wrote hwrote, ?_⟩
    simp only [hwrote.contents, hplaces, leftOf, hconverted]
    grind
  . rw [hsame]
    refine ⟨hholds, ?_⟩
    unfold leftOf
    split
    . next output hconverted =>
      split
      . next hequal =>
        -- the output goes to the same path, where there is room for it
        have hpath : t.outputOf q = t.outputOf p :=
          (outputPath_eq_iff t.settings.format (hentries q hq) (hentries p hp)).2 hequal
        obtain ⟨files', hwrite⟩ := exists_write output hholds.room hholds.not_around
        obtain ⟨e, hfails, -⟩ := hfails output ((h.converted_iff hq).2 hconverted)
        rw [hpath, hwrite] at hfails
        cases hfails
      . rfl
    . rfl

theorem Underway.foldl_holds (hp : p ∈ entries) (hpne : p ≠ []) {rest : List Path}
    (hrest : ∀ q ∈ rest, q ∈ entries) {b : Batch} (h : t.Underway start entries b.session.files)
    (hholds : b.session.files.Holds (t.outputOf p)) :
    (rest.foldl (Batch.step t) b).session.files.contents? (location (t.outputOf p)) =
      rest.foldl (t.leftOf start p) (b.session.files.contents? (location (t.outputOf p))) := by
  induction rest generalizing b with
  | nil => rfl
  | cons q rest ih =>
    simp only [List.mem_cons, forall_eq_or_imp] at hrest
    obtain ⟨hholds', hplace⟩ := h.step_holds hstdout hentries hfile hp hpne hrest.1 hholds
    have hbehind := ih hrest.2 (h.step hstdout hentries hfile hrest.1) hholds'
    rw [hplace] at hbehind
    exact hbehind

end Run

theorem foldl_leftOf_eq {held : Option Contents} {rest : List Path}
    (h : ∀ q ∈ rest, q.withoutExtension = p.withoutExtension →
      ∀ output, t.converted start q = .ok output → held = some (.text output)) :
    rest.foldl (t.leftOf start p) held = held := by
  induction rest with
  | nil => rfl
  | cons q rest ih =>
    simp only [List.mem_cons, forall_eq_or_imp] at h
    have hq : t.leftOf start p held q = held := by
      unfold leftOf
      split
      . next output hconverted =>
        split
        . next hequal => exact (h.1 hequal output hconverted).symm
        . rfl
      . rfl
    rw [List.foldl_cons, hq, ih h.2]

theorem foldl_leftOf_eq_iff {output : String} {rest : List Path} (hp : p.Found)
    (hrest : ∀ q ∈ rest, q.Found) (hnodup : (p :: rest).Nodup) :
    rest.foldl (t.leftOf start p) (some (.text output)) = some (.text output) ↔
      ∀ q ∈ rest, q.withoutExtension = p.withoutExtension →
        ∀ output', t.converted start q = .ok output' → output' = output := by
  constructor
  . intro h q hq hequal output' hconverted
    obtain ⟨front, behind, rfl⟩ := List.append_of_mem hq
    -- of the files with one stem, no third one comes behind
    have hlast : behind.foldl (t.leftOf start p) (some (.text output')) = some (.text output') := by
      apply foldl_leftOf_eq
      intro r hr hequal'
      have hsame : q = r := hp.eq_of_withoutExtension (hrest q hq) (hrest r (by simp [hr])) hequal.symm
        hequal'.symm (by grind) (by grind)
      grind
    rw [List.foldl_append, List.foldl_cons] at h
    have hleft (held : Option Contents) : t.leftOf start p held q = some (.text output') := by
      simp [leftOf, hconverted, hequal]
    rw [hleft, hlast] at h
    simpa using h
  . intro h
    apply foldl_leftOf_eq
    intro q hq hequal output' hconverted
    rw [h q hq hequal output' hconverted]

end BatchSettings

namespace Environment

def batchSettings (env : Environment) (a : Arguments) (settings : Settings) (directory : Path) :
    BatchSettings where
  settings := settings
  directory := directory
  outDir := joinPaths env.workingDirectory (settings.outDir.getD usualOutDir)
  toStdout := a.stdout

theorem runOnDirectory_session (env : Environment) {a : Arguments} (settings : Settings) (path : String)
    (directory : Path) (hstdout : a.stdout = false) :
    ∃ b : Batch, b.session.files = env.files ∧
      let ended := (htmlEntries env.files directory (fileName? path)).foldl
        (Batch.step (env.batchSettings a settings directory)) b
      let after := (env.runOnDirectory a settings path directory).session
      after.files = ended.session.files ∧ ∀ line ∈ ended.session.printed, line ∈ after.printed := by
  unfold runOnDirectory
  split
  . next hnone =>
    exact ⟨{ session := env.start }, rfl, by simp [hnone, finish, start, Session.print]⟩
  . let entries := htmlEntries env.files directory (fileName? path)
    let opened := (env.start.print "🧹 Cleaning HTML files...").print s!"Found {entries.length} files"
    refine ⟨{ session := opened }, rfl, ?_⟩
    simp only [batchSettings, hstdout]
    refine ⟨rfl, fun line hline => ?_⟩
    simp [Session.print]
    exact .inl (.inl hline)

section Output

variable (env : Environment) (a : Arguments) (settings : Settings) (path : String) (directory : Path)
  (hstdout : a.stdout = false) (hnamed : env.files.Named)
  (hdirectory : env.files.isDirectory directory) (hfile : env.files.isFile directory = false)

include hstdout hnamed hdirectory hfile

theorem contents?_output (before behind : List Path) {p : Path} {output : String}
    (hsplit : htmlEntries env.files directory (fileName? path) = before ++ p :: behind)
    (hconverted : (env.batchSettings a settings directory).converted env.files p = .ok output) :
    let t := env.batchSettings a settings directory
    let after := (env.runOnDirectory a settings path directory).session
    after.files.contents? (location (t.outputOf p)) = behind.foldl (t.leftOf env.files p) (some (.text output)) ∨
      ((∃ e : FileError, .err s!"  ✗ {p.written} - {e.message}" ∈ after.printed) ∧
        ¬ t.Unobstructed env.files (before ++ p :: behind) p) := by
  intro t after
  obtain ⟨b, hb, hafter, hprinted⟩ := env.runOnDirectory_session settings path directory hstdout
  rw [hsplit, List.foldl_append, List.foldl_cons] at hafter hprinted
  have hentries : ∀ q ∈ before ++ p :: behind, q.Found := by
    rw [← hsplit]
    exact fun q hq => found_of_mem_htmlEntries hnamed hq
  have hp : p ∈ before ++ p :: behind := by simp
  have hbefore : ∀ q ∈ before, q ∈ before ++ p :: behind := fun q hq => by simp [hq]
  have hbehind : ∀ q ∈ behind, q ∈ before ++ p :: behind := fun q hq => by simp [hq]
  have hstart : t.Underway env.files (before ++ p :: behind) b.session.files := by
    rw [hb]
    exact ⟨fun q _ => rfl, hdirectory⟩
  have hthere := hstart.foldl hstdout hentries hfile hbefore
  have hpast := hthere.step hstdout hentries hfile hp
  rcases hthere.step_own hstdout hp hconverted with hwrote | ⟨⟨e, hsaid⟩, hno⟩
  . left
    have hown := hwrote.contents (location (t.outputOf p))
    have hplace := hpast.foldl_holds hstdout hentries hfile hp
      (BatchSettings.ne_nil_of_converted hfile hconverted) hbehind hwrote.holds
    rw [if_pos rfl] at hown
    rw [hown, ← hafter] at hplace
    exact hplace
  . right
    refine ⟨⟨e, hprinted _ (Batch.mem_printed_foldl behind hsaid)⟩, fun hfree => hno ⟨?_, ?_⟩⟩
    . exact hfree.foldl hstdout hentries hfile hbefore hstart (hb ▸ hfree.room)
    . exact (hfree.apart p hp output hconverted).1

end Output

/-- Two files are written to one path if and only if they differ in their extensions at most. Where a file is
converted, and nothing is in the way of its output or no failure to write it is reported, its output is at its
path after the run if and only if no file behind it that is written to the same path is converted to something
else. -/
theorem output_kept_iff (env : Environment) (a : Arguments) (settings : Settings) (path : String)
    (directory : Path) (hstdout : a.stdout = false) (hnamed : env.files.Named)
    (hdirectory : env.files.isDirectory directory) (hfile : env.files.isFile directory = false) :
    let t := env.batchSettings a settings directory
    let entries := htmlEntries env.files directory (fileName? path)
    let after := (env.runOnDirectory a settings path directory).session
    (∀ p ∈ entries, ∀ q ∈ entries,
        t.outputOf p = t.outputOf q ↔ p.withoutExtension = q.withoutExtension) ∧
      ∀ before p behind output, entries = before ++ p :: behind →
        t.converted env.files p = .ok output →
        (t.Unobstructed env.files entries p ∨
          ∀ e : FileError, .err s!"  ✗ {p.written} - {e.message}" ∉ after.printed) →
        (after.files.contents? (location (t.outputOf p)) = some (.text output) ↔
          ∀ q ∈ behind, t.outputOf q = t.outputOf p →
            ∀ output', t.converted env.files q = .ok output' → output' = output) := by
  intro t entries after
  have hentries : ∀ q ∈ entries, q.Found := fun q hq => found_of_mem_htmlEntries hnamed hq
  have hpaths : ∀ p ∈ entries, ∀ q ∈ entries,
      t.outputOf p = t.outputOf q ↔ p.withoutExtension = q.withoutExtension :=
    fun p hp q hq => outputPath_eq_iff settings.format (hentries p hp) (hentries q hq)
  refine ⟨hpaths, fun before p behind output hsplit hconverted hfree => ?_⟩
  have hp : p ∈ entries := by simp [hsplit]
  have hbehind : ∀ q ∈ behind, q ∈ entries := fun q hq => by simp [hsplit, hq]
  have hnodup : (p :: behind).Nodup := by
    have hall : entries.Nodup := nodup_htmlEntries env.files directory (fileName? path)
    rw [hsplit] at hall
    exact (List.nodup_append.1 hall).2.1
  rcases contents?_output env a settings path directory hstdout hnamed hdirectory hfile before behind hsplit
    hconverted with hplace | ⟨⟨e, hsaid⟩, hin⟩
  . rw [hplace,
      BatchSettings.foldl_leftOf_eq_iff (hentries p hp) (fun q hq => hentries q (hbehind q hq)) hnodup]
    refine forall₂_congr fun q hq => ?_
    rw [hpaths q (hbehind q hq) p hp]
  . rcases hfree with hfree | hsilent
    . exact absurd (hsplit ▸ hfree) hin
    . exact absurd hsaid (hsilent e)

theorem convert_markup (html : String) (pretty : Bool) (outDir : Option String) (o : CleaningOptions) :
    convert html ⟨.markup, pretty, outDir, o⟩ =
      .ok (Event.markupOf .standard (Outline.cleaned o (SourceEvent.ofNodes (Html.readPage html).shown)).events) := by
  unfold convert Html.parse Node.fragment
  simp only [Outline.clean_eq]

section Rivals

def rivals : Environment where
  workingDirectory := "/"
  stdin := .bytes
  files := ⟨[(["in", "a.htm"], .text "<p>one</p>"), (["in", "a.html"], .text "<p>two</p>")], []⟩

def rivalSettings : BatchSettings :=
  rivals.batchSettings {} ⟨.markup, false, none, {}⟩ ["in"]

theorem rivals_named : rivals.files.Named := by
  unfold FileTree.Named
  decide +kernel

theorem rivals_entries : htmlEntries rivals.files ["in"] (fileName? "/in") = [["a.htm"], ["a.html"]] := by
  have hbelow : rivals.files.below ["in"] = [[], ["a.htm"], ["a.html"]] := by
    unfold FileTree.below
    rw [List.mergeSort_of_pairwise]
    . decide +kernel
    . decide +kernel
  rw [htmlEntries, hbelow]
  decide +kernel

theorem rivals_converted :
    rivalSettings.converted rivals.files ["a.htm"] = .ok "<text><![CDATA[one]]></text>" ∧
      rivalSettings.converted rivals.files ["a.html"] = .ok "<text><![CDATA[two]]></text>" := by
  simp only [BatchSettings.converted, Session.convertFile_eq_ok_iff]
  refine ⟨⟨"<p>one</p>", by decide +kernel, ?_⟩, "<p>two</p>", by decide +kernel, ?_⟩
  . refine (convert_markup _ _ _ _).trans ?_
    rw [Except.ok.injEq]
    decide +kernel
  . refine (convert_markup _ _ _ _).trans ?_
    rw [Except.ok.injEq]
    decide +kernel

theorem rivals_unobstructed {p : Path} (hp : p ∈ [["a.htm"], ["a.html"]]) :
    rivalSettings.Unobstructed rivals.files [["a.htm"], ["a.html"]] p := by
  have hpath : rivalSettings.outputOf p = "/cleaned/a.xml" := by
    revert p
    decide +kernel
  have hapart : ∀ q ∈ [["a.htm"], ["a.html"]], location "/cleaned/a.xml" ∉ around (rivalSettings.outputOf q) ∧
      location (rivalSettings.outputOf q) ∉ around "/cleaned/a.xml" := by
    decide +kernel
  refine ⟨⟨?_, ?_⟩, fun q hq _ _ => ?_⟩
  . rw [hpath]
    decide +kernel
  . rw [hpath]
    decide +kernel
  . rw [hpath]
    exact hapart q hq

/-- Both files are converted, and are written to one path, where only the output for the second one is left. -/
theorem first_rival_lost :
    let after := (rivals.runOnDirectory {} ⟨.markup, false, none, {}⟩ "/in" ["in"]).session
    htmlEntries rivals.files ["in"] (fileName? "/in") = [["a.htm"], ["a.html"]] ∧
      rivalSettings.outputOf ["a.htm"] = rivalSettings.outputOf ["a.html"] ∧
      rivalSettings.converted rivals.files ["a.htm"] = .ok "<text><![CDATA[one]]></text>" ∧
      rivalSettings.converted rivals.files ["a.html"] = .ok "<text><![CDATA[two]]></text>" ∧
      after.files.contents? (location (rivalSettings.outputOf ["a.htm"])) =
        some (.text "<text><![CDATA[two]]></text>") := by
  intro after
  have hsame : rivalSettings.outputOf ["a.htm"] = rivalSettings.outputOf ["a.html"] := by decide +kernel
  refine ⟨rivals_entries, hsame, rivals_converted.1, rivals_converted.2, ?_⟩
  rw [hsame]
  rcases contents?_output rivals {} _ "/in" ["in"] rfl rivals_named (by decide +kernel) (by decide +kernel)
    [["a.htm"]] [] rivals_entries rivals_converted.2 with hplace | ⟨-, hin⟩
  . exact hplace
  . exact absurd (rivals_unobstructed (by simp)) hin

theorem second_rival_kept :
    let after := (rivals.runOnDirectory {} ⟨.markup, false, none, {}⟩ "/in" ["in"]).session
    after.files.contents? (location (rivalSettings.outputOf ["a.html"])) =
        some (.text "<text><![CDATA[two]]></text>") ∧
      after.files.contents? (location (rivalSettings.outputOf ["a.htm"])) ≠
        some (.text "<text><![CDATA[one]]></text>") := by
  intro after
  obtain ⟨-, hkept⟩ := output_kept_iff rivals {} ⟨.markup, false, none, {}⟩ "/in" ["in"] rfl rivals_named
    (by decide +kernel) (by decide +kernel)
  have hsecond := hkept [["a.htm"]] ["a.html"] [] _ rivals_entries rivals_converted.2
    (.inl (rivals_entries ▸ rivals_unobstructed (by simp)))
  have hfirst := hkept [] ["a.htm"] [["a.html"]] _ rivals_entries rivals_converted.1
    (.inl (rivals_entries ▸ rivals_unobstructed (by simp)))
  refine ⟨hsecond.2 (by simp), fun hleft => ?_⟩
  have hequal := hfirst.1 hleft ["a.html"] (by simp) (by decide +kernel) _ rivals_converted.2
  exact absurd hequal (by decide)

end Rivals

end Environment

end NoteMarkup.Command
