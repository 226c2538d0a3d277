import NoteMarkup.Proofs.FilePaths

/-!
This module contains what writing a file does to a tree of files: the file is in its place afterwards, every
other file is as it was, and there are no more directories than those on the way to it.
-/

namespace NoteMarkup.Command.FileTree

structure Wrote (t t' : FileTree) (path content : String) : Prop where
  contents : ∀ q, t'.contents? q = if q = location path then some (.text content) else t.contents? q
  directories : ∀ q, t'.isDirectory q ↔ t.isDirectory q ∨ q ∈ around path
  not_file : ∀ q ∈ around path, t.isFile q = false
  not_directory : t.isDirectory (location path) = false
  not_around : location path ∉ around path

/-- Nothing of the tree is in the way of a file that is written: no file stands where a directory is needed,
and no directory in its place. -/
structure LeavesRoom (t : FileTree) (path : String) : Prop where
  around : ∀ q ∈ around path, t.isFile q = false
  location : t.isDirectory (location path) = false

theorem isDirectory_iff (t : FileTree) (q : Path) :
    t.isDirectory q ↔
      q = [] ∨ q ∈ t.directories ∨ ∃ p ∈ t.files.map (·.1), q <+: p ∧ q.length < p.length := by
  simp [isDirectory, or_assoc]

theorem isFile_congr {t t' : FileTree} (h : t'.files = t.files) (q : Path) : t'.isFile q = t.isFile q := by
  simp [isFile, contents?, h]

section Making

variable {t t' : FileTree} {p p' : Path}

theorem makeAndEnter_ok {part : String} (h : t.makeAndEnter p part = .ok (t', p')) :
    t.isFile p = false ∧ t'.files = t.files ∧ p' = p.next part := by
  unfold makeAndEnter at h
  unfold Path.next
  grind

theorem exists_makeAndEnter {part : String} (haround : ∀ q, q <+: p → t.isDirectory q)
    (hp : t.isFile p = false) (hnext : t.isFile (p.next part) = false) :
    ∃ t', t.makeAndEnter p part = .ok (t', p.next part) ∧ t'.files = t.files ∧
      ∀ q, t'.isDirectory q ↔ t.isDirectory q ∨ q = p.next part := by
  unfold makeAndEnter
  unfold Path.next at hnext ⊢
  rw [if_neg (by simp [hp])]
  by_cases hplain : part.isEmpty || part == "."
  . rw [if_pos hplain, if_pos hplain]
    exact ⟨t, rfl, rfl, by grind⟩
  . rw [if_neg hplain] at hnext
    rw [if_neg hplain, if_neg hplain]
    by_cases habove : part == ".."
    . rw [if_pos habove, if_pos habove]
      exact ⟨t, rfl, rfl, by grind [List.dropLast_prefix]⟩
    . rw [if_neg habove] at hnext
      rw [if_neg habove, if_neg habove]
      by_cases hthere : t.isDirectory (p ++ [part])
      . rw [if_pos (by simp [hthere])]
        exact ⟨t, rfl, rfl, by grind⟩
      . rw [if_neg (by simp [hthere, hnext])]
        refine ⟨_, rfl, rfl, ?_⟩
        simp only [isDirectory_iff, List.mem_append, List.mem_singleton]
        grind

theorem not_isFile_of_foldlM {parts : List String}
    (h : parts.foldlM (fun (t, p) part => makeAndEnter t p part) (t, p) = .ok (t', p')) :
    t'.files = t.files ∧ (t.isFile p' = false → ∀ q ∈ Path.passed p parts, t.isFile q = false) := by
  induction parts generalizing t p with
  | nil =>
    cases h
    simp [Path.passed]
  | cons part rest ih =>
    rw [List.foldlM_cons] at h
    rcases hmade : t.makeAndEnter p part with e | ⟨made, entered⟩
    . simp [hmade, bind, Except.bind] at h
    . obtain ⟨hp, hfiles, rfl⟩ := makeAndEnter_ok hmade
      simp only [hmade, bind, Except.bind] at h
      obtain ⟨hrest, hpassed⟩ := ih h
      refine ⟨hrest.trans hfiles, fun hend q hq => ?_⟩
      simp only [Path.passed, List.mem_cons] at hq
      rcases hq with rfl | hq
      . exact hp
      . rw [← isFile_congr hfiles]
        exact hpassed (by rwa [isFile_congr hfiles]) q hq

theorem exists_foldlM {parts : List String} (haround : ∀ q, q <+: p → t.isDirectory q)
    (hpassed : ∀ q ∈ Path.passed p parts, t.isFile q = false) :
    ∃ t', parts.foldlM (fun (t, p) part => makeAndEnter t p part) (t, p) =
        .ok (t', parts.foldl Path.next p) ∧
      t'.files = t.files ∧ ∀ q, t'.isDirectory q ↔ t.isDirectory q ∨ q ∈ Path.passed p parts := by
  induction parts generalizing t p with
  | nil =>
    refine ⟨t, rfl, rfl, fun q => ?_⟩
    simp only [Path.passed, List.mem_singleton]
    grind [List.prefix_refl]
  | cons part rest ih =>
    simp only [Path.passed, List.mem_cons, forall_eq_or_imp] at hpassed
    obtain ⟨hp, hrest⟩ := hpassed
    obtain ⟨made, hmade, hfiles, hdirectories⟩ :=
      exists_makeAndEnter haround hp (hrest _ (Path.start_mem_passed _ _))
    have haround' : ∀ q, q <+: p.next part → made.isDirectory q := by
      intro q hq
      rw [hdirectories]
      have hpassed : Path.passed p [part] = [p, p.next part] := rfl
      rcases Path.mem_passed_of_front hq (hpassed ▸ List.mem_pair.2 (.inr rfl)) with
        hfront | hmem
      . exact .inl (haround q hfront)
      . rcases List.mem_pair.1 (hpassed ▸ hmem) with rfl | rfl
        . exact .inl (haround q List.prefix_rfl)
        . exact .inr rfl
    obtain ⟨t', hok, hsame, hall⟩ := ih haround' fun q hq => by
      rw [isFile_congr hfiles]
      exact hrest q hq
    refine ⟨t', ?_, hsame.trans hfiles, fun q => ?_⟩
    . simp only [List.foldlM_cons, hmade]
      exact hok
    . rw [hall, hdirectories, Path.passed, List.mem_cons]
      have hstart := Path.start_mem_passed (p.next part) rest
      have hself := haround p List.prefix_rfl
      grind

theorem exists_makeDirectory {path : String} (h : ∀ q ∈ around path, t.isFile q = false) :
    ∃ made, t.makeDirectory (writtenParts path).dropLast = .ok (made, parent path) ∧
      made.files = t.files ∧ ∀ q, made.isDirectory q ↔ t.isDirectory q ∨ q ∈ around path := by
  have hroot : ∀ q : Path, q <+: [] → t.isDirectory q := by
    intro q hq
    rw [List.prefix_nil.1 hq]
    rfl
  obtain ⟨made, hok, hfiles, hdirectories⟩ := exists_foldlM hroot h
  have hparent : made.isFile (parent path) = false := by
    rw [isFile_congr hfiles]
    exact h _ (parent_mem_around path)
  refine ⟨made, ?_, hfiles, hdirectories⟩
  rw [parent] at hparent ⊢
  simp [makeDirectory, hok, bind, Except.bind, hparent]

theorem not_isFile_of_makeDirectory {path : String} {made : FileTree × Path}
    (h : t.makeDirectory (writtenParts path).dropLast = .ok made) :
    ∀ q ∈ around path, t.isFile q = false := by
  unfold makeDirectory at h
  simp only [bind, Except.bind] at h
  split at h
  . cases h
  . next entered hok =>
    obtain ⟨hfiles, hpassed⟩ := not_isFile_of_foldlM hok
    apply hpassed
    rw [← isFile_congr hfiles]
    grind

end Making

def replaced (t : FileTree) (p : Path) (content : String) : FileTree :=
  { t with files := t.files.filter (·.1 != p) ++ [(p, .text content)] }

theorem contents?_replaced (t : FileTree) (p q : Path) (content : String) :
    (t.replaced p content).contents? q = if q = p then some (.text content) else t.contents? q := by
  unfold contents? replaced
  rw [List.find?_append, List.find?_filter]
  by_cases hq : q = p
  . subst hq
    have hnone : t.files.find? (fun f => decide (f.1 != q ∧ f.1 == q)) = none := by simp
    rw [hnone]
    simp
  . have hsame : (fun f : Path × Contents => decide (f.1 != p ∧ f.1 == q)) = fun f => f.1 == q := by
      funext f
      grind
    rw [hsame]
    grind

theorem isDirectory_replaced (t : FileTree) (p q : Path) (content : String) :
    (t.replaced p content).isDirectory q ↔ t.isDirectory q ∨ (q <+: p ∧ q.length < p.length) := by
  simp only [isDirectory_iff, replaced, List.map_append, List.mem_append, List.mem_map, List.mem_filter,
    List.map_cons, List.map_nil, List.mem_singleton]
  grind

theorem enter?_eq {t : FileTree} {p : Path} (part : String) (h : t.isDirectory p) :
    t.enter? p part = some (p.next part) := by
  unfold enter? Path.next
  grind

theorem mem_around_of_location {path : String} {q : Path} (hq : q <+: location path)
    (hlength : q.length < (location path).length) : q ∈ around path := by
  rw [location_eq] at hq hlength
  have hpassed (part : String) : Path.passed (parent path) [part] = [parent path, (parent path).next part] := rfl
  have hparent : ∀ r, r <+: parent path → r ∈ around path :=
    fun r hr => mem_around_of_front hr (parent_mem_around path)
  rcases Path.mem_passed_of_front hq (hpassed _ ▸ List.mem_pair.2 (.inr rfl)) with hfront | hmem
  . exact hparent q hfront
  . rcases List.mem_pair.1 (hpassed _ ▸ hmem) with rfl | rfl
    . exact hparent _ List.prefix_rfl
    . omega

theorem write_eq {t made : FileTree} {path content : String}
    (hmade : t.makeDirectory (writtenParts path).dropLast = .ok (made, parent path))
    (hparent : made.isDirectory (parent path)) :
    t.write path content =
      if made.isDirectory (location path) then .error .isDirectory
      else .ok (made.replaced (location path) content) := by
  simp only [write, hmade, bind, Except.bind, enter?_eq _ hparent, ← location_eq]
  rfl

theorem write_ok {t t' : FileTree} {path content : String} (h : t.write path content = .ok t') :
    t.Wrote t' path content := by
  have hfree : ∀ q ∈ around path, t.isFile q = false := by
    rcases hmade : t.makeDirectory (writtenParts path).dropLast with e | made
    . simp [write, hmade, bind, Except.bind] at h
    . exact not_isFile_of_makeDirectory hmade
  obtain ⟨made, hmade, hfiles, hdirectories⟩ := exists_makeDirectory hfree
  rw [write_eq hmade ((hdirectories _).2 (.inr (parent_mem_around path)))] at h
  split at h
  . cases h
  . next hlocation =>
    cases h
    rw [hdirectories, not_or] at hlocation
    refine ⟨fun q => ?_, fun q => ?_, hfree, by simpa using hlocation.1, hlocation.2⟩
    . rw [contents?_replaced]
      simp [contents?, hfiles]
    . rw [isDirectory_replaced, hdirectories]
      have haround := @mem_around_of_location path q
      grind

theorem exists_write {t : FileTree} {path : String} (content : String) (hroom : t.LeavesRoom path)
    (happart : location path ∉ around path) : ∃ t', t.write path content = .ok t' := by
  obtain ⟨made, hmade, hfiles, hdirectories⟩ := exists_makeDirectory hroom.around
  rw [write_eq hmade ((hdirectories _).2 (.inr (parent_mem_around path))), if_neg]
  . exact ⟨_, rfl⟩
  . rw [hdirectories]
    rintro (hthere | hmem)
    . simp [hroom.location] at hthere
    . exact happart hmem

structure Holds (t : FileTree) (path : String) : Prop where
  file : t.isFile (location path)
  around : ∀ q ∈ around path, t.isDirectory q
  room : t.LeavesRoom path
  not_around : Command.location path ∉ Command.around path

section Wrote

variable {t t' : FileTree} {path other content : String}

theorem LeavesRoom.wrote (h : t.LeavesRoom path) (hwrote : t.Wrote t' other content)
    (hother : Command.location other ∉ Command.around path)
    (hpath : Command.location path ∉ Command.around other) : t'.LeavesRoom path := by
  refine ⟨fun q hq => ?_, ?_⟩
  . have hne : q ≠ Command.location other := fun heq => hother (heq ▸ hq)
    have hnone := h.around q hq
    simpa [isFile, hwrote.contents, hne] using hnone
  . rw [Bool.eq_false_iff, ne_eq, hwrote.directories, not_or]
    exact ⟨by simp [h.location], hpath⟩

theorem Wrote.holds (h : t.Wrote t' path content) : t'.Holds path := by
  refine ⟨by simp [isFile, h.contents], fun q hq => (h.directories q).2 (.inr hq), ?_, h.not_around⟩
  exact LeavesRoom.wrote ⟨h.not_file, h.not_directory⟩ h h.not_around h.not_around

theorem Holds.wrote (h : t.Holds path) (hwrote : t.Wrote t' other content) : t'.Holds path := by
  have hother : Command.location other ∉ Command.around path := by
    intro hmem
    have hnot := hwrote.not_directory
    rw [h.around _ hmem] at hnot
    cases hnot
  have hpath : Command.location path ∉ Command.around other := by
    intro hmem
    have hnot := hwrote.not_file _ hmem
    rw [h.file] at hnot
    cases hnot
  refine ⟨?_, fun q hq => (hwrote.directories q).2 (.inl (h.around q hq)),
    h.room.wrote hwrote hother hpath, h.not_around⟩
  have hfile := h.file
  unfold isFile at hfile ⊢
  rw [hwrote.contents]
  split
  . rfl
  . exact hfile

end Wrote

end NoteMarkup.Command.FileTree
