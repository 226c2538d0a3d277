import NoteMarkup.Html.Reference

/-!
This module contains the declaration of the kind of a document, and which declarations mark documents that
are read by the rules for old ones.
-/

namespace NoteMarkup.Html

structure Doctype where
  name : String := ""
  publicId : Option String := none
  systemId : Option String := none
  isBroken : Bool := false
  deriving DecidableEq, Repr

namespace Doctype

def skipBlanks (cs : List Char) : List Char :=
  cs.dropWhile Text.isAsciiBlank

def identifier? : List Char → Option (String × List Char)
  | '"' :: cs => closed? '"' cs
  | '\x27' :: cs => closed? '\x27' cs
  | _ => none
where
  closed? (quote : Char) (cs : List Char) : Option (String × List Char) :=
    (Text.splitOnce? quote cs).map fun (id, rest) => (String.ofList (id.map visibleChar), rest)

def behindKeyword? (keyword : String) (cs : List Char) : Option (List Char) :=
  if (cs.take keyword.length).map Char.toLower == keyword.toList then some (cs.drop keyword.length) else none

def withIdentifiers (d : Doctype) (cs : List Char) : Doctype :=
  let broken := { d with isBroken := true }
  let cs := skipBlanks cs
  if cs.isEmpty then d
  else
    match behindKeyword? "public" cs, behindKeyword? "system" cs with
    | some cs, _ =>
      match identifier? (skipBlanks cs) with
      | none => broken
      | some (publicId, rest) =>
        let rest := skipBlanks rest
        if rest.isEmpty then { d with publicId := some publicId }
        else
          match identifier? rest with
          | none => broken
          | some (systemId, _) => { d with publicId := some publicId, systemId := some systemId }
    | none, some cs =>
      match identifier? (skipBlanks cs) with
      | none => broken
      | some (systemId, _) => { d with systemId := some systemId }
    | none, none => broken

def read (cs : List Char) : Doctype :=
  let cs := skipBlanks cs
  let name := cs.takeWhile (!Text.isAsciiBlank ·)
  if name.isEmpty then { isBroken := true }
  else
    withIdentifiers { name := String.ofList (name.map fun c => visibleChar c.toLower) }
      (cs.dropWhile (!Text.isAsciiBlank ·))

def oldPublicIds : List String :=
  ["-//w3o//dtd w3 html strict 3.0//en//", "-/w3c/dtd html 4.0 transitional/en", "html"]

def oldSystemIds : List String :=
  ["http:" ++ "//www.ibm.com/data/dtd/v11/ibmxhtml1-transitional.dtd"]

def oldPublicBeginnings : List String :=
  ["-//advasoft ltd//dtd html 3.0 aswedit + extensions//", "-//as//dtd html 3.0 aswedit + extensions//",
    "-//ietf//dtd html 2.0 level 1//", "-//ietf//dtd html 2.0 level 2//",
    "-//ietf//dtd html 2.0 strict level 1//", "-//ietf//dtd html 2.0 strict level 2//",
    "-//ietf//dtd html 2.0 strict//", "-//ietf//dtd html 2.0//", "-//ietf//dtd html 2.1e//",
    "-//ietf//dtd html 3.0//", "-//ietf//dtd html 3.2 final//", "-//ietf//dtd html 3.2//",
    "-//ietf//dtd html 3//", "-//ietf//dtd html level 0//", "-//ietf//dtd html level 1//",
    "-//ietf//dtd html level 2//", "-//ietf//dtd html level 3//", "-//ietf//dtd html strict level 0//",
    "-//ietf//dtd html strict level 1//", "-//ietf//dtd html strict level 2//",
    "-//ietf//dtd html strict level 3//", "-//ietf//dtd html strict//", "-//ietf//dtd html//",
    "-//metrius//dtd metrius presentational//", "-//microsoft//dtd internet explorer 2.0 html strict//",
    "-//microsoft//dtd internet explorer 2.0 html//", "-//microsoft//dtd internet explorer 2.0 tables//",
    "-//microsoft//dtd internet explorer 3.0 html strict//", "-//microsoft//dtd internet explorer 3.0 html//",
    "-//microsoft//dtd internet explorer 3.0 tables//", "-//netscape comm. corp.//dtd html//",
    "-//netscape comm. corp.//dtd strict html//", "-//o'reilly and associates//dtd html 2.0//",
    "-//o'reilly and associates//dtd html extended 1.0//",
    "-//o'reilly and associates//dtd html extended relaxed 1.0//",
    "-//softquad software//dtd hotmetal pro 6.0::19990601::extensions to html 4.0//",
    "-//softquad//dtd hotmetal pro 4.0::19971010::extensions to html 4.0//",
    "-//spyglass//dtd html 2.0 extended//", "-//sq//dtd html 2.0 hotmetal + extensions//",
    "-//sun microsystems corp.//dtd hotjava html//", "-//sun microsystems corp.//dtd hotjava strict html//",
    "-//w3c//dtd html 3 1995-03-24//", "-//w3c//dtd html 3.2 draft//", "-//w3c//dtd html 3.2 final//",
    "-//w3c//dtd html 3.2//", "-//w3c//dtd html 3.2s draft//", "-//w3c//dtd html 4.0 frameset//",
    "-//w3c//dtd html 4.0 transitional//", "-//w3c//dtd html experimental 19960712//",
    "-//w3c//dtd html experimental 970421//", "-//w3c//dtd w3 html//", "-//w3o//dtd w3 html 3.0//",
    "-//webtechs//dtd mozilla html 2.0//", "-//webtechs//dtd mozilla html//"]

/-- Beginnings of public identifiers that mark old documents if there is no system identifier. -/
def loosePublicBeginnings : List String :=
  ["-//w3c//dtd html 4.01 frameset//", "-//w3c//dtd html 4.01 transitional//"]

def isOld (d : Doctype) : Bool :=
  let publicId := d.publicId.map Text.lowercase
  let systemId := d.systemId.map Text.lowercase
  let startsLike := fun (beginnings : List String) => publicId.any fun id => beginnings.any (id.startsWith ·)
  d.isBroken || d.name != "html" || publicId.any oldPublicIds.contains ||
    systemId.any oldSystemIds.contains || startsLike oldPublicBeginnings ||
    (systemId.isNone && startsLike loosePublicBeginnings)

end Doctype

end NoteMarkup.Html
