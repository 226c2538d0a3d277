import NoteMarkup.Json.Printer
import NoteMarkup.Json.Reader

/-!
This module contains that JSON is read back as it was written, with whatever white space a writer puts between the
parts of a value. The values are those without numbers.
-/

namespace NoteMarkup.Json

mutual

def isTextual : Json → Bool
  | .number _ => false
  | .unpaired => false
  | .array items => itemsTextual items
  | .object members => membersTextual members
  | _ => true

def itemsTextual : List Json → Bool
  | [] => true
  | v :: vs => v.isTextual && itemsTextual vs

def membersTextual : List (String × Json) → Bool
  | [] => true
  | (_, v) :: ms => v.isTextual && membersTextual ms

end

theorem itemsTextual_cons_iff {v : Json} {vs : List Json} :
    itemsTextual (v :: vs) ↔ v.isTextual ∧ itemsTextual vs := by
  rw [itemsTextual, Bool.and_eq_true]

theorem membersTextual_cons_iff {name : String} {v : Json} {ms : List (String × Json)} :
    membersTextual ((name, v) :: ms) ↔ v.isTextual ∧ membersTextual ms := by
  rw [membersTextual, Bool.and_eq_true]

/-- The white space of a writer: in front of items, members and closing brackets, by their depth, and behind the colon
of a member. -/
structure Layout where
  line : Nat → List Char
  behindColon : List Char
  isSpace_line : ∀ depth, (line depth).all isSpace
  isSpace_behindColon : behindColon.all isSpace

namespace Layout

mutual

def valueOnto (l : Layout) (depth : Nat) : Json → List Char → List Char
  | .null, rest => "null".toList ++ rest
  | .bool true, rest => "true".toList ++ rest
  | .bool false, rest => "false".toList ++ rest
  | .number n, rest => numberOnto n rest
  | .string s, rest => stringOnto s rest
  | .unpaired, rest => stringOnto "" rest
  | .array [], rest => '[' :: ']' :: rest
  | .array (v :: vs), rest =>
    '[' :: (l.line (depth + 1) ++ l.valueOnto (depth + 1) v
      (l.itemsOnto (depth + 1) vs (l.line depth ++ ']' :: rest)))
  | .object [], rest => '\x7b' :: '\x7d' :: rest
  | .object ((name, v) :: ms), rest =>
    '\x7b' :: (l.line (depth + 1) ++ stringOnto name (':' :: (l.behindColon ++ l.valueOnto (depth + 1) v
      (l.membersOnto (depth + 1) ms (l.line depth ++ '\x7d' :: rest)))))

def itemsOnto (l : Layout) (depth : Nat) : List Json → List Char → List Char
  | [], rest => rest
  | v :: vs, rest => ',' :: (l.line depth ++ l.valueOnto depth v (l.itemsOnto depth vs rest))

def membersOnto (l : Layout) (depth : Nat) : List (String × Json) → List Char → List Char
  | [], rest => rest
  | (name, v) :: ms, rest =>
    ',' :: (l.line depth ++ stringOnto name (':' :: (l.behindColon ++ l.valueOnto depth v
      (l.membersOnto depth ms rest))))

end

def compact : Layout where
  line _ := []
  behindColon := []
  isSpace_line _ := rfl
  isSpace_behindColon := rfl

def pretty : Layout where
  line depth := '\n' :: List.replicate (2 * depth) ' '
  behindColon := [' ']
  isSpace_line depth := by simp [isSpace, List.all_replicate]
  isSpace_behindColon := rfl

mutual

theorem compactOnto_eq (depth : Nat) :
    ∀ (v : Json) (rest : List Char), compactOnto v rest = compact.valueOnto depth v rest
  | .null, _ | .bool true, _ | .bool false, _ | .number _, _ | .string _, _ | .unpaired, _ | .array [], _
  | .object [], _ => rfl
  | .array (v :: vs), rest => by
    rw [compactOnto, valueOnto, compactItemsOnto_eq (depth + 1) vs, compactOnto_eq (depth + 1) v]
    rfl
  | .object ((name, v) :: ms), rest => by
    rw [compactOnto, valueOnto, compactMembersOnto_eq (depth + 1) ms, compactOnto_eq (depth + 1) v]
    rfl

theorem compactItemsOnto_eq (depth : Nat) :
    ∀ (vs : List Json) (rest : List Char), compactItemsOnto vs rest = compact.itemsOnto depth vs rest
  | [], _ => rfl
  | v :: vs, rest => by
    rw [compactItemsOnto, itemsOnto, compactItemsOnto_eq depth vs, compactOnto_eq depth v]
    rfl

theorem compactMembersOnto_eq (depth : Nat) :
    ∀ (ms : List (String × Json)) (rest : List Char),
      compactMembersOnto ms rest = compact.membersOnto depth ms rest
  | [], _ => rfl
  | (name, v) :: ms, rest => by
    rw [compactMembersOnto, membersOnto, compactMembersOnto_eq depth ms, compactOnto_eq depth v]
    rfl

end

mutual

theorem prettyOnto_eq (depth : Nat) :
    ∀ (v : Json) (rest : List Char), prettyOnto depth v rest = pretty.valueOnto depth v rest
  | .null, _ | .bool true, _ | .bool false, _ | .number _, _ | .string _, _ | .unpaired, _ | .array [], _
  | .object [], _ => by simp [prettyOnto, valueOnto]
  | .array (v :: vs), rest => by
    rw [prettyOnto, valueOnto, prettyItemsOnto_eq (depth + 1) vs, prettyOnto_eq (depth + 1) v]
    rfl
  | .object ((name, v) :: ms), rest => by
    rw [prettyOnto, valueOnto, prettyMembersOnto_eq (depth + 1) ms, prettyOnto_eq (depth + 1) v]
    rfl

theorem prettyItemsOnto_eq (depth : Nat) :
    ∀ (vs : List Json) (rest : List Char), prettyItemsOnto depth vs rest = pretty.itemsOnto depth vs rest
  | [], _ => rfl
  | v :: vs, rest => by
    rw [prettyItemsOnto, itemsOnto, prettyItemsOnto_eq depth vs, prettyOnto_eq depth v]
    rfl

theorem prettyMembersOnto_eq (depth : Nat) :
    ∀ (ms : List (String × Json)) (rest : List Char),
      prettyMembersOnto depth ms rest = pretty.membersOnto depth ms rest
  | [], _ => rfl
  | (name, v) :: ms, rest => by
    rw [prettyMembersOnto, membersOnto, prettyMembersOnto_eq depth ms, prettyOnto_eq depth v]
    rfl

end

end Layout

section Strings

theorem stringBody?_escape {letter c : Char} (hu : letter ≠ 'u') (hc : escapedChar? letter = some c)
    (rest : List Char) :
    stringBody? ('\\' :: letter :: rest) =
      (stringBody? rest).map fun (body, rest) => (body.map (c :: ·), rest) := by
  rw [stringBody?, hc]
  . cases stringBody? rest <;> rfl
  . simp [hu]

theorem stringBody?_control {c : Char} (hc : c.toNat < 0x20) (rest : List Char) :
    stringBody? ('\\' :: 'u' :: '0' :: '0' :: Text.hexDigit (c.toNat / 16) :: Text.hexDigit (c.toNat % 16) :: rest) =
      (stringBody? rest).map fun (body, rest) => (body.map (c :: ·), rest) := by
  have hunit : unit? '0' '0' (Text.hexDigit (c.toNat / 16)) (Text.hexDigit (c.toNat % 16)) = some c.toNat := by
    have hzero : Text.hexValue? '0' = some 0 := rfl
    simp only [unit?, hzero, Text.hexValue?_hexDigit _ (show c.toNat / 16 < 16 by omega),
      Text.hexValue?_hexDigit _ (show c.toNat % 16 < 16 by omega)]
    simp
    omega
  have hhigh : isHighHalf c.toNat = false := by simp [isHighHalf]; omega
  have hlow : isLowHalf c.toNat = false := by simp [isLowHalf]; omega
  rw [stringBody?, hunit]
  cases stringBody? rest <;> simp [hhigh, hlow]

theorem stringBody?_plain {c : Char} (hquote : c ≠ '"') (hbackslash : c ≠ '\\') (hspace : ¬ c.toNat < 0x20)
    (rest : List Char) :
    stringBody? (c :: rest) = (stringBody? rest).map fun (body, rest) => (body.map (c :: ·), rest) := by
  rw [stringBody?]
  . cases stringBody? rest <;> simp [hspace, hbackslash]
  . exact hquote
  . simp [hbackslash]
  . simp [hbackslash]

theorem stringBody?_stringChar (c : Char) (rest : List Char) :
    stringBody? (stringChar c ++ rest) = (stringBody? rest).map fun (body, rest) => (body.map (c :: ·), rest) := by
  unfold stringChar
  -- The characters that are escaped by a letter.
  iterate 7
    split
    . next hc => subst hc; exact stringBody?_escape (by decide) rfl rest
  split
  . next hc => exact stringBody?_control hc rest
  . next hquote hbackslash _ _ _ _ _ hspace => exact stringBody?_plain hquote hbackslash hspace rest

theorem stringBody?_flatMap_stringChar (cs rest : List Char) :
    stringBody? (cs.flatMap stringChar ++ '"' :: rest) = some (some cs, rest) := by
  induction cs with
  | nil => rw [List.flatMap_nil, List.nil_append, stringBody?]
  | cons c cs ih => rw [List.flatMap_cons, List.append_assoc, stringBody?_stringChar, ih]; rfl

end Strings

theorem length_stringOnto (s : String) (rest : List Char) :
    (stringOnto s rest).length = (s.toList.flatMap stringChar).length + rest.length + 2 := by
  simp only [stringOnto, List.length_cons, List.length_append]
  omega

section Steps

theorem skipSpace_cons {c : Char} (hc : isSpace c = false) (cs : List Char) : skipSpace (c :: cs) = c :: cs := by
  rw [skipSpace, List.dropWhile_cons_of_neg (by simp [hc])]

variable {gap : List Char} (hgap : gap.all isSpace)

include hgap in
theorem skipSpace_append (cs : List Char) : skipSpace (gap ++ cs) = skipSpace cs := by
  unfold skipSpace
  rw [List.dropWhile_append_of_pos (by simpa using hgap)]

include hgap in
theorem skipSpace_append_cons {c : Char} (hc : isSpace c = false) (cs : List Char) :
    skipSpace (gap ++ c :: cs) = c :: cs := by
  rw [skipSpace_append hgap, skipSpace_cons hc]

include hgap in
theorem value?_append (fuel : Nat) (cs : List Char) : value? fuel (gap ++ cs) = value? fuel cs := by
  cases fuel with
  | zero => rw [value?, value?]
  | succ fuel => rw [value?, value?, skipSpace_append hgap]

include hgap in
theorem itemsFrom?_append (fuel : Nat) (cs : List Char) : itemsFrom? fuel (gap ++ cs) = itemsFrom? fuel cs := by
  cases fuel with
  | zero => rw [itemsFrom?, itemsFrom?]
  | succ fuel => rw [itemsFrom?, itemsFrom?, value?_append hgap]

include hgap in
theorem membersFrom?_append (fuel : Nat) (cs : List Char) : membersFrom? fuel (gap ++ cs) = membersFrom? fuel cs := by
  cases fuel with
  | zero => rw [membersFrom?, membersFrom?]
  | succ fuel => rw [membersFrom?, membersFrom?, skipSpace_append hgap]

include hgap in
theorem value?_array {c : Char} (hc : isSpace c = false) (hend : c ≠ ']') (fuel : Nat) (cs : List Char) :
    value? (fuel + 1) ('[' :: (gap ++ c :: cs)) =
      (itemsFrom? fuel (c :: cs)).map fun (vs, rest) => (.array vs, rest) := by
  rw [value?, skipSpace_cons rfl]
  simp [skipSpace_append_cons hgap hc, hend]

include hgap in
theorem value?_object {c : Char} (hc : isSpace c = false) (hend : c ≠ '\x7d') (fuel : Nat) (cs : List Char) :
    value? (fuel + 1) ('\x7b' :: (gap ++ c :: cs)) =
      (membersFrom? fuel (c :: cs)).map fun (ms, rest) => (ms.elim .unpaired .object, rest) := by
  rw [value?, skipSpace_cons rfl]
  simp [skipSpace_append_cons hgap hc, hend]

variable {fuel : Nat} {cs rest : List Char} {v : Json}

include hgap in
theorem itemsFrom?_last (hv : value? fuel cs = some (v, gap ++ ']' :: rest)) :
    itemsFrom? (fuel + 1) cs = some ([v], rest) := by
  rw [itemsFrom?, hv]
  simp [skipSpace_append_cons hgap (c := ']') rfl]

theorem itemsFrom?_more (hv : value? fuel cs = some (v, ',' :: rest)) :
    itemsFrom? (fuel + 1) cs = (itemsFrom? fuel rest).map fun (vs, rest) => (v :: vs, rest) := by
  rw [itemsFrom?, hv]
  simp only [skipSpace_cons (c := ',') rfl, Option.bind_eq_bind, Option.bind_some]
  cases itemsFrom? fuel rest <;> rfl

include hgap in
theorem membersFrom?_last (name : String) (hv : value? fuel cs = some (v, gap ++ '\x7d' :: rest)) :
    membersFrom? (fuel + 1) (stringOnto name (':' :: cs)) = some (some [(name, v)], rest) := by
  rw [membersFrom?, stringOnto, skipSpace_cons rfl]
  simp [stringBody?_flatMap_stringChar, skipSpace_cons (c := ':') rfl, hv,
    skipSpace_append_cons hgap (c := '\x7d') rfl]

theorem membersFrom?_more (name : String) (hv : value? fuel cs = some (v, ',' :: rest)) :
    membersFrom? (fuel + 1) (stringOnto name (':' :: cs)) =
      (membersFrom? fuel rest).map fun (ms, rest) => (ms.map ((name, v) :: ·), rest) := by
  rw [membersFrom?, stringOnto, skipSpace_cons rfl]
  simp only [stringBody?_flatMap_stringChar, skipSpace_cons (c := ':') rfl, hv, skipSpace_cons (c := ',') rfl,
    Option.bind_eq_bind, Option.bind_some, Option.map_some, String.ofList_toList]
  rcases membersFrom? fuel rest with _ | ⟨_ | ms, rest⟩ <;> rfl

end Steps

namespace Layout

variable (l : Layout)

theorem exists_valueOnto {v : Json} (hv : v.isTextual) (depth : Nat) (rest : List Char) :
    ∃ c cs, l.valueOnto depth v rest = c :: cs ∧ isSpace c = false ∧ c ≠ ']' := by
  cases v with
  | number n => simp [isTextual] at hv
  | unpaired => simp [isTextual] at hv
  | null => exact ⟨_, _, by rw [valueOnto]; rfl, rfl, by decide⟩
  | bool b => cases b <;> exact ⟨_, _, by rw [valueOnto]; rfl, rfl, by decide⟩
  | string s => exact ⟨_, _, by rw [valueOnto, stringOnto], rfl, by decide⟩
  | array items => cases items <;> exact ⟨_, _, by rw [valueOnto], rfl, by decide⟩
  | object members => cases members <;> exact ⟨_, _, by rw [valueOnto], rfl, by decide⟩

mutual

theorem length_le_valueOnto (depth : Nat) :
    ∀ (v : Json) (rest : List Char), rest.length ≤ (l.valueOnto depth v rest).length
  | .null, _ | .bool true, _ | .bool false, _ => by rw [valueOnto, List.length_append]; exact Nat.le_add_left _ _
  | .array [], _ | .object [], _ => by simp only [valueOnto, List.length_cons]; omega
  | .string _, _ | .unpaired, _ => by rw [valueOnto, length_stringOnto]; omega
  | .number _, _ => by simp [valueOnto, numberOnto]; omega
  | .array (v :: vs), rest => by
    have hvs := length_le_itemsOnto (depth + 1) vs (l.line depth ++ ']' :: rest)
    have hv := length_le_valueOnto (depth + 1) v (l.itemsOnto (depth + 1) vs (l.line depth ++ ']' :: rest))
    simp only [valueOnto, List.length_cons, List.length_append] at hvs ⊢
    omega
  | .object ((name, v) :: ms), rest => by
    have hms := length_le_membersOnto (depth + 1) ms (l.line depth ++ '\x7d' :: rest)
    have hv := length_le_valueOnto (depth + 1) v (l.membersOnto (depth + 1) ms (l.line depth ++ '\x7d' :: rest))
    simp only [valueOnto, length_stringOnto, List.length_cons, List.length_append] at hms ⊢
    omega

theorem length_le_itemsOnto (depth : Nat) :
    ∀ (vs : List Json) (rest : List Char), rest.length ≤ (l.itemsOnto depth vs rest).length
  | [], _ => by simp [itemsOnto]
  | v :: vs, rest => by
    have hvs := length_le_itemsOnto depth vs rest
    have hv := length_le_valueOnto depth v (l.itemsOnto depth vs rest)
    simp only [itemsOnto, List.length_cons, List.length_append]
    omega

theorem length_le_membersOnto (depth : Nat) :
    ∀ (ms : List (String × Json)) (rest : List Char), rest.length ≤ (l.membersOnto depth ms rest).length
  | [], _ => by simp [membersOnto]
  | (name, v) :: ms, rest => by
    have hms := length_le_membersOnto depth ms rest
    have hv := length_le_valueOnto depth v (l.membersOnto depth ms rest)
    simp only [membersOnto, length_stringOnto, List.length_cons, List.length_append]
    omega

end

theorem length_lt_itemsOnto (depth : Nat) (vs : List Json) (close rest : List Char) :
    rest.length < (l.itemsOnto depth vs (close ++ ']' :: rest)).length := by
  have hle := l.length_le_itemsOnto depth vs (close ++ ']' :: rest)
  rw [List.length_append, List.length_cons] at hle
  omega

theorem length_lt_membersOnto (depth : Nat) (ms : List (String × Json)) (close rest : List Char) :
    rest.length < (l.membersOnto depth ms (close ++ '\x7d' :: rest)).length := by
  have hle := l.length_le_membersOnto depth ms (close ++ '\x7d' :: rest)
  rw [List.length_append, List.length_cons] at hle
  omega

-- The readers take a character at least every second time they come back to each other, hence the factors.
mutual

theorem value?_valueOnto (depth : Nat) (rest : List Char) :
    ∀ (v : Json) (fuel : Nat), v.isTextual → 2 * (l.valueOnto depth v rest).length ≤ fuel + 2 * rest.length →
      value? fuel (l.valueOnto depth v rest) = some (v, rest)
  | .number _, _, hv, _ | .unpaired, _, hv, _ => by simp [isTextual] at hv
  | .null, fuel, _, hfuel | .bool true, fuel, _, hfuel | .bool false, fuel, _, hfuel | .array [], fuel, _, hfuel
  | .object [], fuel, _, hfuel => by
    obtain ⟨fuel, rfl⟩ : ∃ n, fuel = n + 1 := ⟨fuel - 1, by simp [valueOnto] at hfuel; omega⟩
    simp [valueOnto, value?, skipSpace, isSpace]
  | .string s, fuel, _, hfuel => by
    obtain ⟨fuel, rfl⟩ : ∃ n, fuel = n + 1 := ⟨fuel - 1, by simp [valueOnto, stringOnto] at hfuel; omega⟩
    simp [valueOnto, value?, skipSpace, isSpace, stringOnto, stringBody?_flatMap_stringChar]
  | .array (v :: vs), fuel, hv, hfuel => by
    simp only [isTextual] at hv
    rcases itemsTextual_cons_iff.mp hv with ⟨hfirst, -⟩
    have hlt := l.length_lt_itemsOnto (depth + 1) vs (l.line depth) rest
    have hle := l.length_le_valueOnto (depth + 1) v (l.itemsOnto (depth + 1) vs (l.line depth ++ ']' :: rest))
    obtain ⟨c, cs, htext, hc, hend⟩ :=
      l.exists_valueOnto hfirst (depth + 1) (l.itemsOnto (depth + 1) vs (l.line depth ++ ']' :: rest))
    simp only [valueOnto, List.length_cons, @List.length_append _ (l.line (depth + 1))] at hfuel ⊢
    obtain ⟨fuel, rfl⟩ : ∃ n, fuel = n + 1 := ⟨fuel - 1, by omega⟩
    have hitems := itemsFrom?_itemsOnto (depth + 1) (l.isSpace_line depth) rest v vs fuel hv (by omega)
    rw [htext] at hitems ⊢
    rw [value?_array (l.isSpace_line (depth + 1)) hc hend, hitems]
    rfl
  | .object ((name, v) :: ms), fuel, hv, hfuel => by
    simp only [isTextual] at hv
    have hlt := l.length_lt_membersOnto (depth + 1) ms (l.line depth) rest
    have hle := l.length_le_valueOnto (depth + 1) v (l.membersOnto (depth + 1) ms (l.line depth ++ '\x7d' :: rest))
    rw [valueOnto] at hfuel ⊢
    simp only [List.length_cons, List.length_append, length_stringOnto] at hfuel hlt hle
    obtain ⟨fuel, rfl⟩ : ∃ n, fuel = n + 1 := ⟨fuel - 1, by omega⟩
    have hmembers := membersFrom?_membersOnto (depth + 1) (l.isSpace_line depth) rest name v ms fuel hv (by omega)
    rw [stringOnto] at hmembers ⊢
    rw [value?_object (l.isSpace_line (depth + 1)) rfl (by decide), hmembers]
    rfl
termination_by v => sizeOf v

theorem itemsFrom?_itemsOnto (depth : Nat) {close : List Char} (hclose : close.all isSpace) (rest : List Char) :
    ∀ (v : Json) (vs : List Json) (fuel : Nat), itemsTextual (v :: vs) →
      2 * (l.valueOnto depth v (l.itemsOnto depth vs (close ++ ']' :: rest))).length ≤ fuel + 2 * rest.length →
      itemsFrom? fuel (l.valueOnto depth v (l.itemsOnto depth vs (close ++ ']' :: rest))) = some (v :: vs, rest)
  | v, [], fuel, hvs, hfuel => by
    rcases itemsTextual_cons_iff.mp hvs with ⟨hv, -⟩
    have hlt := l.length_lt_itemsOnto depth [] close rest
    have hle := l.length_le_valueOnto depth v (l.itemsOnto depth [] (close ++ ']' :: rest))
    obtain ⟨fuel, rfl⟩ : ∃ n, fuel = n + 1 := ⟨fuel - 1, by omega⟩
    have hfirst := value?_valueOnto depth (l.itemsOnto depth [] (close ++ ']' :: rest)) v fuel hv (by omega)
    rw [itemsOnto] at hfirst ⊢
    exact itemsFrom?_last hclose hfirst
  | v, w :: ws, fuel, hvs, hfuel => by
    rcases itemsTextual_cons_iff.mp hvs with ⟨hv, hws⟩
    have hlt := l.length_lt_itemsOnto depth (w :: ws) close rest
    have hle := l.length_le_valueOnto depth v (l.itemsOnto depth (w :: ws) (close ++ ']' :: rest))
    obtain ⟨fuel, rfl⟩ : ∃ n, fuel = n + 1 := ⟨fuel - 1, by omega⟩
    have hfirst := value?_valueOnto depth (l.itemsOnto depth (w :: ws) (close ++ ']' :: rest)) v fuel hv (by omega)
    rw [itemsOnto] at hfirst hfuel hle ⊢
    simp only [List.length_cons, @List.length_append _ (l.line depth)] at hle
    rw [itemsFrom?_more hfirst, itemsFrom?_append (l.isSpace_line depth),
      itemsFrom?_itemsOnto depth hclose rest w ws fuel hws (by omega)]
    rfl
termination_by v vs => sizeOf (v :: vs)

theorem membersFrom?_membersOnto (depth : Nat) {close : List Char} (hclose : close.all isSpace) (rest : List Char) :
    ∀ (name : String) (v : Json) (ms : List (String × Json)) (fuel : Nat), membersTextual ((name, v) :: ms) →
      2 * (l.valueOnto depth v (l.membersOnto depth ms (close ++ '\x7d' :: rest))).length ≤ fuel + 2 * rest.length →
      membersFrom? fuel (stringOnto name (':' :: (l.behindColon ++
        l.valueOnto depth v (l.membersOnto depth ms (close ++ '\x7d' :: rest))))) = some (some ((name, v) :: ms), rest)
  | name, v, [], fuel, hms, hfuel => by
    rcases membersTextual_cons_iff.mp hms with ⟨hv, -⟩
    have hlt := l.length_lt_membersOnto depth [] close rest
    have hle := l.length_le_valueOnto depth v (l.membersOnto depth [] (close ++ '\x7d' :: rest))
    obtain ⟨fuel, rfl⟩ : ∃ n, fuel = n + 1 := ⟨fuel - 1, by omega⟩
    have hfirst := value?_valueOnto depth (l.membersOnto depth [] (close ++ '\x7d' :: rest)) v fuel hv (by omega)
    rw [membersOnto, ← value?_append l.isSpace_behindColon] at hfirst
    rw [membersOnto, membersFrom?_last hclose name hfirst]
  | name, v, (other, w) :: ws, fuel, hms, hfuel => by
    rcases membersTextual_cons_iff.mp hms with ⟨hv, hws⟩
    have hlt := l.length_lt_membersOnto depth ((other, w) :: ws) close rest
    have hle := l.length_le_valueOnto depth v (l.membersOnto depth ((other, w) :: ws) (close ++ '\x7d' :: rest))
    obtain ⟨fuel, rfl⟩ : ∃ n, fuel = n + 1 := ⟨fuel - 1, by omega⟩
    have hfirst := value?_valueOnto depth (l.membersOnto depth ((other, w) :: ws) (close ++ '\x7d' :: rest)) v fuel hv
      (by omega)
    rw [← value?_append l.isSpace_behindColon] at hfirst
    rw [membersOnto] at hfirst hfuel hle ⊢
    simp only [List.length_cons, List.length_append, length_stringOnto] at hle
    rw [membersFrom?_more name hfirst, membersFrom?_append (l.isSpace_line depth),
      membersFrom?_membersOnto depth hclose rest other w ws fuel hws (by omega)]
    rfl
termination_by _ v ms => sizeOf v + sizeOf ms

end

theorem parse?_valueOnto {v : Json} (hv : v.isTextual) : parse? (String.ofList (l.valueOnto 0 v [])) = some v := by
  have hread := l.value?_valueOnto 0 [] v (2 * (l.valueOnto 0 v []).length + 2) hv (Nat.le_add_right _ _)
  rw [parse?, String.toList_ofList]
  dsimp only
  rw [hread]
  rfl

end Layout

theorem parse?_compact {v : Json} (hv : v.isTextual) : parse? v.compact = some v := by
  rw [compact, Layout.compactOnto_eq 0, Layout.parse?_valueOnto _ hv]

theorem parse?_pretty {v : Json} (hv : v.isTextual) : parse? v.pretty = some v := by
  rw [pretty, Layout.prettyOnto_eq, Layout.parse?_valueOnto _ hv]

end NoteMarkup.Json
