import NoteMarkup.Proofs.FilePaths

/-!
This module contains the paths that a run over a directory writes to. The extension of a file is lost on the
way there, and nothing else is: two files are written to the same path if and only if they differ in their
extensions at most.
-/

namespace NoteMarkup.Command

theorem splitExtension_append {stem ext : String} (hstem : stem ≠ "") (hext : '.' ∉ ext.toList)
    (hne : stem ++ "." ++ ext ≠ "..") : splitExtension (stem ++ "." ++ ext) = (stem, some ext) := by
  have hdots : ∀ c ∈ ext.toList.reverse, (c != '.') = true := by
    intro c hc
    simp only [bne_iff_ne, ne_eq]
    rintro rfl
    exact hext (List.mem_reverse.1 hc)
  have hreversed : (stem ++ "." ++ ext).toList.reverse = ext.toList.reverse ++ '.' :: stem.toList.reverse := by
    simp
  have hbehind : stem.toList.reverse ≠ [] := by simpa using hstem
  obtain ⟨c, cs, hcs⟩ := List.exists_cons_of_ne_nil hbehind
  have hof : String.ofList (c :: cs).reverse = stem := by
    rw [← hcs, List.reverse_reverse, String.ofList_toList]
  simp only [splitExtension, hreversed, List.dropWhile_append_of_pos hdots,
    List.takeWhile_append_of_pos hdots, hcs]
  simp [hof, hne, - List.reverse_cons]

theorem eq_of_splitExtension {name stem ext : String} (h : splitExtension name = (stem, some ext)) :
    name = stem ++ "." ++ ext ∧ stem ≠ "" ∧ '.' ∉ ext.toList := by
  have hsplit : name.toList.reverse.takeWhile (· != '.') ++ name.toList.reverse.dropWhile (· != '.') =
      name.toList.reverse := List.takeWhile_append_dropWhile
  have hbefore : (name.toList.reverse.takeWhile (· != '.')).all (· != '.') := List.all_takeWhile
  have hat := List.head?_dropWhile_not (· != '.') name.toList.reverse
  unfold splitExtension at h
  dsimp only at h
  generalize name.toList.reverse.takeWhile (· != '.') = front at *
  rcases hdrop : name.toList.reverse.dropWhile (· != '.') with _ | ⟨dot, _ | ⟨c, cs⟩⟩
  . simp [hdrop] at h
  . simp [hdrop] at h
  . rw [hdrop] at hsplit hat
    simp only [hdrop] at h
    split at h
    . simp at h
    . simp only [Prod.mk.injEq, Option.some.injEq] at h
      obtain ⟨rfl, rfl⟩ := h
      have hdot : dot = '.' := by simpa using hat
      refine ⟨?_, by simp, ?_⟩
      . rw [← String.toList_inj, ← List.reverse_inj, ← hsplit, hdot]
        simp
      . intro hmem
        simpa using List.all_eq_true.1 hbefore '.' (by simpa using hmem)

theorem eq_of_withExtension {name stem ext : String} (extension : String)
    (h : splitExtension name = (stem, some ext)) :
    withExtension extension name = if stem = "." then ".." else stem ++ "." ++ extension := by
  unfold withExtension
  grind

def SplitsAsHtml (name stem : String) : Prop :=
  ∃ ext ∈ ["html", "htm"], splitExtension name = (stem, some ext)

theorem exists_of_isHtmlName {name : String} (h : isHtmlName name) : ∃ stem, SplitsAsHtml name stem := by
  unfold isHtmlName at h
  rcases hsplit : splitExtension name with ⟨stem, ext⟩
  rw [hsplit, Bool.or_eq_true, beq_iff_eq, beq_iff_eq] at h
  rcases h with rfl | rfl
  . exact ⟨stem, "html", by simp, hsplit⟩
  . exact ⟨stem, "htm", by simp, hsplit⟩

namespace OutputForm

theorem extension_facts (f : OutputForm) :
    2 < f.extension.length ∧ f.extension ≠ "html" ∧ f.extension ≠ "htm" ∧
      '.' ∉ f.extension.toList ∧ '/' ∉ f.extension.toList := by
  cases f <;> decide

theorem length_output (f : OutputForm) (stem : String) : 2 < (stem ++ "." ++ f.extension).length := by
  have hlength := f.extension_facts.1
  rw [String.length_append]
  omega

theorem output_ne (f : OutputForm) (stem : String) : stem ++ "." ++ f.extension ≠ ".." := by
  intro h
  have hlength := f.length_output stem
  rw [h] at hlength
  exact absurd hlength (by decide)

theorem not_isHtmlName_output (f : OutputForm) {stem : String} (hstem : stem ≠ "") :
    isHtmlName (stem ++ "." ++ f.extension) = false := by
  obtain ⟨-, hhtml, hhtm, hdot, -⟩ := f.extension_facts
  simp [isHtmlName, splitExtension_append hstem hdot (f.output_ne stem), hhtml, hhtm]

theorem isName_output (f : OutputForm) {name stem : String} (hname : IsName name)
    (h : SplitsAsHtml name stem) : IsName (stem ++ "." ++ f.extension) := by
  obtain ⟨ext, -, hsplit⟩ := h
  obtain ⟨heq, -, -⟩ := eq_of_splitExtension hsplit
  have hlength := f.length_output stem
  refine ⟨?_, ?_, f.output_ne stem, ?_⟩
  . intro h
    simp [h] at hlength
  . intro h
    exact absurd (h ▸ hlength) (by decide)
  . have hslash := hname.no_slash
    rw [heq] at hslash
    have hext := f.extension_facts.2.2.2.2
    simp_all

end OutputForm

def Path.withoutExtension (p : Path) : Path :=
  p.dropLast ++ p.getLast?.toList.map fun name => (splitExtension name).1

def outputParts (relative : Path) (f : OutputForm) : Path :=
  relative.dropLast ++ relative.getLast?.toList.map (withExtension f.extension)

/-- A path that a run over a directory may find: its parts are names, and the last one, if there is any, has an
extension of the files that are cleaned. -/
structure Path.Found (p : Path) : Prop where
  names : ∀ part ∈ p, IsName part
  html : ∀ name ∈ p.getLast?, isHtmlName name

section Found

variable (f : OutputForm) {p q : Path}

theorem Path.Found.cases (h : p.Found) :
    p = [] ∨ ∃ front name stem, p = front ++ [name] ∧ SplitsAsHtml name stem ∧
      (∀ part ∈ front, IsName part) ∧ IsName name ∧ p.withoutExtension = front ++ [stem] ∧
      outputParts p f = front ++ [if stem = "." then ".." else stem ++ "." ++ f.extension] := by
  rcases List.eq_nil_or_concat' p with rfl | ⟨front, name, rfl⟩
  . exact .inl rfl
  . obtain ⟨stem, hsplit⟩ := exists_of_isHtmlName (h.html name (by simp))
    have hnames := h.names
    simp only [List.mem_append, List.mem_singleton] at hnames
    refine .inr ⟨front, name, stem, rfl, hsplit, fun part hmem => hnames part (.inl hmem),
      hnames name (.inr rfl), ?_, ?_⟩
    all_goals
      obtain ⟨ext, -, hsplit⟩ := hsplit
      simp [withoutExtension, outputParts, hsplit, eq_of_withExtension f.extension hsplit]

theorem outputParts_plain (h : p.Found) : ∀ part ∈ outputParts p f, part ≠ "" ∧ '/' ∉ part.toList := by
  rcases h.cases f with rfl | ⟨front, name, stem, rfl, hsplit, hfront, hname, -, houtput⟩
  . simp [outputParts]
  . rw [houtput]
    intro part hmem
    rcases List.mem_append.1 hmem with hmem | hmem
    . exact ⟨(hfront part hmem).not_empty, (hfront part hmem).no_slash⟩
    . rw [List.mem_singleton.1 hmem]
      split
      . decide
      . exact ⟨(f.isName_output hname hsplit).not_empty, (f.isName_output hname hsplit).no_slash⟩

theorem outputParts_eq_iff (hp : p.Found) (hq : q.Found) :
    outputParts p f = outputParts q f ↔ p.withoutExtension = q.withoutExtension := by
  have hnil : outputParts [] f = [] ∧ Path.withoutExtension [] = [] := ⟨rfl, rfl⟩
  rcases hp.cases f with rfl | ⟨front, name, stem, -, -, -, -, hpstem, hpout⟩
  . rcases hq.cases f with rfl | ⟨front', name', stem', -, -, -, -, hqstem, hqout⟩
    . simp
    . simp [hqstem, hqout, hnil]
  . rcases hq.cases f with rfl | ⟨front', name', stem', -, -, -, -, hqstem, hqout⟩
    . simp [hpstem, hpout, hnil]
    . rw [hpstem, hqstem, hpout, hqout]
      have hdots := f.output_ne stem
      have hdots' := f.output_ne stem'
      have hlast : (if stem = "." then ".." else stem ++ "." ++ f.extension) =
          (if stem' = "." then ".." else stem' ++ "." ++ f.extension) ↔ stem = stem' := by
        grind [String.append_left_inj]
      simp [hlast]

theorem outputPath_eq_iff {outDir : String} (hp : p.Found) (hq : q.Found) :
    outputPath outDir p f.extension = outputPath outDir q f.extension ↔
      p.withoutExtension = q.withoutExtension := by
  have hpplain := outputParts_plain f hp
  have hqplain := outputParts_plain f hq
  rw [← outputParts_eq_iff f hp hq]
  constructor
  . intro h
    exact written_injective hpplain hqplain (joinPaths_injective (startsWith_slash_written hpplain)
      (startsWith_slash_written hqplain) h)
  . intro h
    change joinPaths outDir (outputParts p f).written = joinPaths outDir (outputParts q f).written
    rw [h]

theorem writtenParts_outputPath (outDir : String) (h : p.Found) (hne : outputParts p f ≠ []) :
    writtenParts (outputPath outDir p f.extension) = baseParts outDir ++ outputParts p f := by
  have hplain := outputParts_plain f h
  change writtenParts (joinPaths outDir (outputParts p f).written) = _
  rw [writtenParts_joinPaths (startsWith_slash_written hplain),
    writtenParts_written hne fun part hmem => (hplain part hmem).2]

theorem location_outputPath {outDir : String} (h : p.Found) (hne : p ≠ [])
    (hplace : location (outputPath outDir p f.extension) ∉ around (outputPath outDir p f.extension)) :
    location (outputPath outDir p f.extension) = (baseParts outDir).foldl Path.next [] ++ outputParts p f ∧
      ∀ name ∈ (location (outputPath outDir p f.extension)).getLast?, isHtmlName name = false := by
  rcases h.cases f with rfl | ⟨front, name, stem, rfl, hsplit, hfront, hname, -, houtput⟩
  . exact absurd rfl hne
  . have hparts := writtenParts_outputPath f outDir h (by simp [houtput])
    generalize outputPath outDir (front ++ [name]) f.extension = path at *
    rw [houtput, ← List.append_assoc] at hparts
    by_cases hdot : stem = "."
    . -- the two dots lead back to a directory on the way
      have hback : location path = (parent path).dropLast := by
        rw [location_eq, hparts, if_pos hdot, List.getLast?_concat]
        rfl
      rw [hback] at hplace
      exact absurd (mem_around_of_front (List.dropLast_prefix _) (parent_mem_around path)) hplace
    . rw [if_neg hdot] at hparts houtput
      have houtputs : ∀ part ∈ front ++ [stem ++ "." ++ f.extension], IsName part := by
        intro part hmem
        rcases List.mem_append.1 hmem with hmem | hmem
        . exact hfront part hmem
        . exact List.mem_singleton.1 hmem ▸ f.isName_output hname hsplit
      have hlocation : location path = (baseParts outDir).foldl Path.next [] ++
          (front ++ [stem ++ "." ++ f.extension]) := by
        rw [location, hparts, List.append_assoc, List.foldl_append, Path.foldl_next_of_isName _ houtputs]
      obtain ⟨ext, -, hsplit⟩ := hsplit
      refine ⟨?_, ?_⟩
      . rw [hlocation, houtput]
      . rw [hlocation, ← List.append_assoc, List.getLast?_concat]
        intro name hlast
        cases hlast
        exact f.not_isHtmlName_output (eq_of_splitExtension hsplit).2.1

theorem Path.Found.exists_extension (h : p.Found) : ∃ ext ∈ ["html", "htm"],
    p = p.withoutExtension.dropLast ++ p.withoutExtension.getLast?.toList.map (· ++ "." ++ ext) := by
  rcases h.cases .xml with rfl | ⟨front, name, stem, rfl, ⟨ext, hext, hsplit⟩, -, -, hstem, -⟩
  . exact ⟨"html", by simp, rfl⟩
  . refine ⟨ext, hext, ?_⟩
    rw [hstem, (eq_of_splitExtension hsplit).1]
    simp

theorem Path.Found.eq_of_withoutExtension {r : Path} (hp : p.Found) (hq : q.Found) (hr : r.Found)
    (hpq : p.withoutExtension = q.withoutExtension) (hpr : p.withoutExtension = r.withoutExtension)
    (hneq : p ≠ q) (hner : p ≠ r) : q = r := by
  obtain ⟨ext, hext, heq⟩ := hp.exists_extension
  obtain ⟨ext', hext', heq'⟩ := hq.exists_extension
  obtain ⟨ext'', hext'', heq''⟩ := hr.exists_extension
  rw [← hpq] at heq'
  rw [← hpr] at heq''
  have htwo : ext = ext' ∨ ext = ext'' ∨ ext' = ext'' := by
    simp only [List.mem_pair] at hext hext' hext''
    grind
  rcases htwo with rfl | rfl | rfl
  . exact absurd (heq.trans heq'.symm) hneq
  . exact absurd (heq.trans heq''.symm) hner
  . exact heq'.trans heq''.symm

end Found

namespace FileTree

def Named (t : FileTree) : Prop :=
  ∀ p ∈ t.files.map (·.1) ++ t.directories, ∀ part ∈ p, IsName part

theorem mem_of_mem_upTo {p q : Path} (h : q ∈ upTo p) : q <+: p := by
  induction p generalizing q with
  | nil => simp_all [upTo]
  | cons part rest ih =>
    simp only [upTo, List.mem_cons, List.mem_map] at h
    rcases h with rfl | ⟨front, hfront, rfl⟩
    . exact List.nil_prefix
    . simpa using ih hfront

theorem Named.below {t : FileTree} (h : t.Named) {directory p : Path} (hp : p ∈ t.below directory) :
    ∀ part ∈ p, IsName part := by
  simp only [FileTree.below, List.mem_mergeSort, List.mem_eraseDups, List.mem_flatMap, List.mem_map,
    List.mem_filter] at hp
  obtain ⟨_, ⟨r, ⟨hr, -⟩, rfl⟩, hup⟩ := hp
  intro part hpart
  apply h r hr
  apply List.mem_of_mem_drop
  apply (mem_of_mem_upTo hup).subset hpart

end FileTree

theorem found_of_mem_htmlEntries {files : FileTree} {directory p : Path} {name : Option String}
    (h : files.Named) (hp : p ∈ htmlEntries files directory name) : p.Found := by
  obtain ⟨hbelow, hhtml⟩ := List.mem_filter.1 hp
  refine ⟨h.below hbelow, fun name hname => ?_⟩
  rw [Option.mem_def.1 hname] at hhtml
  simpa using hhtml

theorem nodup_eraseDups (ps : List Path) : ps.eraseDups.Nodup := by
  induction hlength : ps.length using Nat.strongRecOn generalizing ps with
  | _ n ih =>
    cases ps with
    | nil => simp
    | cons p ps =>
      rw [List.eraseDups_cons, List.nodup_cons]
      have hshorter := List.length_filter_le (fun q => !q == p) ps
      refine ⟨by simp, ih _ ?_ _ rfl⟩
      rw [← hlength, List.length_cons]
      omega

theorem nodup_htmlEntries (files : FileTree) (directory : Path) (name : Option String) :
    (htmlEntries files directory name).Nodup :=
  ((List.mergeSort_perm _ _).nodup_iff.2 (nodup_eraseDups _)).filter _

end NoteMarkup.Command
