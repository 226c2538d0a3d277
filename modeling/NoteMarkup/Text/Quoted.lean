import NoteMarkup.Text.Letter
import NoteMarkup.Text.Visible

/-!
This module contains the quoted form in which error messages show a piece of text: in double quotes, with
everything that would not show on a line written as an escape.
-/

namespace NoteMarkup.Text

def quotedChar (c : Char) : List Char :=
  if c = '"' then ['\\', '"']
  else if c = '\\' then ['\\', '\\']
  else if c = '\t' then ['\\', 't']
  else if c = '\n' then ['\\', 'n']
  else if c = '\r' then ['\\', 'r']
  else if c = '\x00' then ['\\', '0']
  else if isVisible c then [c]
  else ['\\', 'u', '\x7b'] ++ hexDigits c.toNat ++ ['\x7d']

def quoted (s : String) : String :=
  String.ofList (['"'] ++ s.toList.flatMap quotedChar ++ ['"'])

end NoteMarkup.Text
