import NoteMarkup.Command.Run
import Mathlib.Data.List.Basic

/-!
This module contains what a written path says about places in a tree: the place that it leads to, the
places on its way, and how it is put together from a directory and a path behind it.
-/

namespace NoteMarkup

theorem Text.pieces_of_forall {p : Char → Bool} {cs : List Char} (h : ∀ c ∈ cs, p c = false) :
    pieces p cs = [cs] := by
  induction cs with
  | nil => rfl
  | cons c cs ih =>
    simp only [List.mem_cons, forall_eq_or_imp] at h
    simp [pieces, h.1, ih h.2]

theorem Text.pieces_ne_nil (p : Char → Bool) (cs : List Char) : pieces p cs ≠ [] := by
  fun_cases pieces p cs <;> simp

theorem Text.pieces_append_cons {p : Char → Bool} {c : Char} (h : p c) (as bs : List Char) :
    pieces p (as ++ c :: bs) = pieces p as ++ pieces p bs := by
  induction as with
  | nil => simp [pieces, h]
  | cons a as ih =>
    by_cases ha : p a
    . simp [pieces, ha, ih]
    . rcases hpieces : pieces p as with _ | ⟨piece, rest⟩
      . exact absurd hpieces (pieces_ne_nil p as)
      . simp [pieces, ha, ih, hpieces]

namespace Command

structure IsName (part : String) : Prop where
  not_empty : part ≠ ""
  not_here : part ≠ "."
  not_above : part ≠ ".."
  no_slash : '/' ∉ part.toList

instance (part : String) : Decidable (IsName part) :=
  decidable_of_iff (part ≠ "" ∧ part ≠ "." ∧ part ≠ ".." ∧ '/' ∉ part.toList)
    ⟨fun ⟨h₁, h₂, h₃, h₄⟩ => ⟨h₁, h₂, h₃, h₄⟩, fun ⟨h₁, h₂, h₃, h₄⟩ => ⟨h₁, h₂, h₃, h₄⟩⟩

theorem writtenParts_of_no_slash {part : String} (h : '/' ∉ part.toList) : writtenParts part = [part] := by
  have hnone : ∀ c ∈ part.toList, (c == '/') = false := by
    intro c hc
    simp only [beq_eq_false_iff_ne, ne_eq]
    rintro rfl
    exact h hc
  simp [writtenParts, Text.pieces_of_forall hnone]

theorem writtenParts_empty : writtenParts "" = [""] := rfl

theorem writtenParts_append_slash (front behind : String) :
    writtenParts (front ++ "/" ++ behind) = writtenParts front ++ writtenParts behind := by
  have hslash : ("/" : String).toList = ['/'] := rfl
  simp [writtenParts, hslash, Text.pieces_append_cons]

theorem Path.written_cons {p : Path} (part : String) (h : p ≠ []) :
    Path.written (part :: p) = part ++ "/" ++ Path.written p :=
  String.intercalate_cons_of_ne_nil h

theorem writtenParts_written {p : Path} (hne : p ≠ []) (h : ∀ part ∈ p, '/' ∉ part.toList) :
    writtenParts p.written = p := by
  induction p with
  | nil => exact absurd rfl hne
  | cons part rest ih =>
    simp only [List.mem_cons, forall_eq_or_imp] at h
    by_cases hrest : rest = []
    . subst hrest
      simpa [Path.written] using writtenParts_of_no_slash h.1
    . rw [Path.written_cons part hrest, writtenParts_append_slash, writtenParts_of_no_slash h.1,
        ih hrest h.2, List.singleton_append]

def baseParts (base : String) : List String :=
  if base.isEmpty then []
  else if base.endsWith "/" then (writtenParts base).dropLast
  else writtenParts base

theorem exists_append_slash {base : String} (h : base.endsWith "/") : ∃ front, base = front ++ "/" := by
  have hsuffix : ("/" : String).toList <:+ base.toSlice.copy.toList := String.Slice.endsWith_string_iff.1 h
  rw [String.copy_toSlice] at hsuffix
  obtain ⟨front, hfront⟩ := hsuffix
  refine ⟨String.ofList front, ?_⟩
  rw [← String.toList_inj]
  simp [← hfront]

theorem writtenParts_joinPaths {base path : String} (h : path.startsWith "/" = false) :
    writtenParts (joinPaths base path) = baseParts base ++ writtenParts path := by
  unfold joinPaths baseParts
  rw [h, Bool.false_or]
  split
  . simp
  . split
    . next hslash =>
      obtain ⟨front, rfl⟩ := exists_append_slash hslash
      have hbase : writtenParts (front ++ "/") = writtenParts front ++ [""] := by
        have happend := writtenParts_append_slash front ""
        rwa [String.append_empty, writtenParts_empty] at happend
      rw [writtenParts_append_slash, hbase, List.dropLast_concat]
    . rw [writtenParts_append_slash]

section Written

variable {p q : Path} (hp : ∀ part ∈ p, part ≠ "" ∧ '/' ∉ part.toList)

include hp

theorem startsWith_slash_written : p.written.startsWith "/" = false := by
  by_cases hne : p = []
  . subst hne
    rfl
  . rw [Bool.eq_false_iff, ne_eq, String.startsWith_string_iff]
    rintro ⟨behind, hbehind⟩
    -- the path would begin with an empty part
    have hwritten : p.written = "" ++ "/" ++ String.ofList behind := by
      rw [← String.toList_inj]
      simp [← hbehind]
    have hparts := writtenParts_written hne fun part hmem => (hp part hmem).2
    rw [hwritten, writtenParts_append_slash, writtenParts_empty] at hparts
    exact (hp "" (by simp [← hparts])).1 rfl

theorem eq_nil_of_written_eq_empty (h : p.written = "") : p = [] := by
  by_contra hne
  have hparts := writtenParts_written hne fun part hmem => (hp part hmem).2
  rw [h, writtenParts_empty] at hparts
  exact (hp "" (by simp [← hparts])).1 rfl

theorem written_injective (hq : ∀ part ∈ q, part ≠ "" ∧ '/' ∉ part.toList) (h : p.written = q.written) :
    p = q := by
  by_cases hpn : p = []
  . subst hpn
    exact (eq_nil_of_written_eq_empty hq h.symm).symm
  . by_cases hqn : q = []
    . subst hqn
      exact eq_nil_of_written_eq_empty hp h
    . rw [← writtenParts_written hpn fun part hmem => (hp part hmem).2, h,
        writtenParts_written hqn fun part hmem => (hq part hmem).2]

end Written

theorem joinPaths_injective {base path path' : String} (h : path.startsWith "/" = false)
    (h' : path'.startsWith "/" = false) (heq : joinPaths base path = joinPaths base path') :
    path = path' := by
  unfold joinPaths at heq
  rw [h, h', Bool.false_or] at heq
  split at heq
  . exact heq
  . split at heq
    . exact String.append_right_inj _ |>.1 heq
    . exact String.append_right_inj _ |>.1 heq

namespace Path

def next (p : Path) (part : String) : Path :=
  if part.isEmpty || part == "." then p else if part == ".." then p.dropLast else p ++ [part]

def passed (p : Path) : List String → List Path
  | [] => [p]
  | part :: rest => p :: passed (p.next part) rest

theorem next_of_isName {part : String} (p : Path) (h : IsName part) : p.next part = p ++ [part] := by
  simp [next, h.not_empty, h.not_here, h.not_above]

theorem foldl_next_of_isName {parts : List String} (p : Path) (h : ∀ part ∈ parts, IsName part) :
    parts.foldl next p = p ++ parts := by
  induction parts generalizing p with
  | nil => simp
  | cons part rest ih =>
    simp only [List.mem_cons, forall_eq_or_imp] at h
    rw [List.foldl_cons, next_of_isName p h.1, ih _ h.2, List.append_assoc, List.singleton_append]

theorem start_mem_passed (p : Path) (parts : List String) : p ∈ passed p parts := by
  cases parts <;> simp [passed]

theorem end_mem_passed (p : Path) (parts : List String) : parts.foldl next p ∈ passed p parts := by
  induction parts generalizing p with
  | nil => simp [passed]
  | cons part rest ih => simp [passed, ih]

theorem mem_passed_of_front {p q r : Path} {parts : List String} (hqr : q <+: r)
    (hr : r ∈ passed p parts) : q <+: p ∨ q ∈ passed p parts := by
  induction parts generalizing p with
  | nil =>
    simp only [passed, List.mem_singleton] at hr
    exact .inl (hr ▸ hqr)
  | cons part rest ih =>
    simp only [passed, List.mem_cons] at hr ⊢
    rcases hr with rfl | hr
    . exact .inl hqr
    . rcases ih hr with hfront | hmem
      . unfold next at hfront
        split at hfront
        . exact .inl hfront
        . split at hfront
          . exact .inl (hfront.trans (List.dropLast_prefix p))
          . next hplain habove =>
            rcases List.prefix_concat_iff.1 hfront with heq | hfront
            . have hnext : p.next part = q := by
                rw [heq, next, if_neg hplain, if_neg habove]
              exact .inr (.inr (hnext ▸ start_mem_passed _ _))
            . exact .inl hfront
      . exact .inr (.inr hmem)

end Path

def location (path : String) : Path :=
  (writtenParts path).foldl Path.next []

/-- The places on the way to where a file is written, in which directories are made. -/
def around (path : String) : List Path :=
  Path.passed [] (writtenParts path).dropLast

def parent (path : String) : Path :=
  (writtenParts path).dropLast.foldl Path.next []

theorem parent_mem_around (path : String) : parent path ∈ around path :=
  Path.end_mem_passed _ _

theorem mem_around_of_front {path : String} {q r : Path} (hqr : q <+: r) (hr : r ∈ around path) :
    q ∈ around path := by
  rcases Path.mem_passed_of_front hqr hr with hnil | hmem
  . rw [List.prefix_nil.1 hnil]
    exact Path.start_mem_passed _ _
  . exact hmem

theorem writtenParts_ne_nil (path : String) : writtenParts path ≠ [] := by
  simp [writtenParts, Text.pieces_ne_nil]

theorem location_eq (path : String) :
    location path = (parent path).next ((writtenParts path).getLast?.getD "") := by
  unfold location parent
  obtain ⟨front, last, hparts⟩ :=
    (List.eq_nil_or_concat (writtenParts path)).resolve_left (writtenParts_ne_nil path)
  simp [hparts]

end Command

end NoteMarkup
