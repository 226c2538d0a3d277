import NoteMarkup.Json.Value
import NoteMarkup.Text.Letter

/-!
This module contains the two ways JSON is written: without any layout, and with every item and member on a
line of its own. Each writer puts the text of a value in front of the text that follows it.
-/

namespace NoteMarkup.Json

def stringChar (c : Char) : List Char :=
  if c = '"' then ['\\', '"']
  else if c = '\\' then ['\\', '\\']
  else if c = '\x08' then ['\\', 'b']
  else if c = '\x0c' then ['\\', 'f']
  else if c = '\n' then ['\\', 'n']
  else if c = '\r' then ['\\', 'r']
  else if c = '\t' then ['\\', 't']
  else if c.toNat < 0x20 then
    ['\\', 'u', '0', '0', Text.hexDigit (c.toNat / 16), Text.hexDigit (c.toNat % 16)]
  else [c]

def stringOnto (s : String) (rest : List Char) : List Char :=
  '"' :: (s.toList.flatMap stringChar ++ '"' :: rest)

def numberOnto (n : Number) (rest : List Char) : List Char :=
  (if n.negative then ['-'] else []) ++ (toString n.digits).toList ++
    (if n.exponent = 0 then [] else 'e' :: (toString n.exponent).toList) ++ rest

mutual

def compactOnto : Json → List Char → List Char
  | .null, rest => "null".toList ++ rest
  | .bool true, rest => "true".toList ++ rest
  | .bool false, rest => "false".toList ++ rest
  | .number n, rest => numberOnto n rest
  | .string s, rest => stringOnto s rest
  | .unpaired, rest => stringOnto "" rest
  | .array [], rest => '[' :: ']' :: rest
  | .array (v :: vs), rest => '[' :: compactOnto v (compactItemsOnto vs (']' :: rest))
  | .object [], rest => '\x7b' :: '\x7d' :: rest
  | .object ((name, v) :: ms), rest =>
    '\x7b' :: stringOnto name (':' :: compactOnto v (compactMembersOnto ms ('\x7d' :: rest)))

def compactItemsOnto : List Json → List Char → List Char
  | [], rest => rest
  | v :: vs, rest => ',' :: compactOnto v (compactItemsOnto vs rest)

def compactMembersOnto : List (String × Json) → List Char → List Char
  | [], rest => rest
  | (name, v) :: ms, rest =>
    ',' :: stringOnto name (':' :: compactOnto v (compactMembersOnto ms rest))

end

def compact (v : Json) : String :=
  String.ofList (compactOnto v [])

def lineOnto (depth : Nat) (rest : List Char) : List Char :=
  '\n' :: (List.replicate (2 * depth) ' ' ++ rest)

mutual

def prettyOnto (depth : Nat) : Json → List Char → List Char
  | .null, rest => "null".toList ++ rest
  | .bool true, rest => "true".toList ++ rest
  | .bool false, rest => "false".toList ++ rest
  | .number n, rest => numberOnto n rest
  | .string s, rest => stringOnto s rest
  | .unpaired, rest => stringOnto "" rest
  | .array [], rest => '[' :: ']' :: rest
  | .array (v :: vs), rest =>
    '[' :: lineOnto (depth + 1) (prettyOnto (depth + 1) v
      (prettyItemsOnto (depth + 1) vs (lineOnto depth (']' :: rest))))
  | .object [], rest => '\x7b' :: '\x7d' :: rest
  | .object ((name, v) :: ms), rest =>
    '\x7b' :: lineOnto (depth + 1) (stringOnto name (':' :: ' ' :: prettyOnto (depth + 1) v
      (prettyMembersOnto (depth + 1) ms (lineOnto depth ('\x7d' :: rest)))))

def prettyItemsOnto (depth : Nat) : List Json → List Char → List Char
  | [], rest => rest
  | v :: vs, rest => ',' :: lineOnto depth (prettyOnto depth v (prettyItemsOnto depth vs rest))

def prettyMembersOnto (depth : Nat) : List (String × Json) → List Char → List Char
  | [], rest => rest
  | (name, v) :: ms, rest =>
    ',' :: lineOnto depth (stringOnto name (':' :: ' ' :: prettyOnto depth v
      (prettyMembersOnto depth ms rest)))

end

def pretty (v : Json) : String :=
  String.ofList (prettyOnto 0 v [])

end NoteMarkup.Json
