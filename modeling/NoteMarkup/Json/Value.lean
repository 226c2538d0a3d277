import NoteMarkup.Json.Number

/-!
This module contains JSON values. The members of an object are kept in their order, repeated names
included.
-/

namespace NoteMarkup

inductive Json where
  | null
  | bool (b : Bool)
  | number (n : Json.Number)
  | string (s : String)
  /-- A string, or an object with such a string for a name, in which half of a surrogate pair stands alone.
  It is no text, and can only be passed over. -/
  | unpaired
  | array (items : List Json)
  | object (members : List (String × Json))
  deriving Inhabited

mutual

def Json.depth : Json → Nat
  | .array items => Json.depthItems items + 1
  | .object members => Json.depthMembers members + 1
  | _ => 0

def Json.depthItems : List Json → Nat
  | [] => 0
  | v :: vs => max v.depth (Json.depthItems vs)

def Json.depthMembers : List (String × Json) → Nat
  | [] => 0
  | (_, v) :: ms => max v.depth (Json.depthMembers ms)

end

mutual

def Json.isRepresentable : Json → Bool
  | .number n => n.isInRange
  | .unpaired => false
  | .array items => Json.itemsRepresentable items
  | .object members => Json.membersRepresentable members
  | _ => true

def Json.itemsRepresentable : List Json → Bool
  | [] => true
  | v :: vs => v.isRepresentable && Json.itemsRepresentable vs

def Json.membersRepresentable : List (String × Json) → Bool
  | [] => true
  | (_, v) :: ms => v.isRepresentable && Json.membersRepresentable ms

end

namespace Json

def valuesOf (name : String) (members : List (String × Json)) : List Json :=
  (members.filter (·.1 == name)).map (·.2)

/-- The fields of a record that is written as an object, in the order of their names. Other members do not
matter, and a field may be missing but not repeated. -/
def memberFields? (names : List String) (members : List (String × Json)) : Option (List (Option Json)) :=
  names.mapM fun name =>
    match valuesOf name members with
    | [] => some none
    | [v] => some (some v)
    | _ => none

def itemFields? (names : List String) (items : List Json) : Option (List (Option Json)) :=
  if items.length ≤ names.length then
    some (items.map some ++ List.replicate (names.length - items.length) none)
  else
    none

def fields? (names : List String) : Json → Option (List (Option Json))
  | .object members => memberFields? names members
  | .array items => itemFields? names items
  | _ => none

def string? : Json → Option String
  | .string s => some s
  | _ => none

def bool? : Json → Option Bool
  | .bool b => some b
  | _ => none

def items? : Json → Option (List Json)
  | .array items => some items
  | _ => none

def orDefault {α : Type} (default : α) (read? : Json → Option α) : Option Json → Option α
  | none => some default
  | some v => read? v

end Json

end NoteMarkup
