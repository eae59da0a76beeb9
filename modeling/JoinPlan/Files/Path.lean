import JoinPlan.Text.Split

/-!
# Paths of files

A path is a text with slashes between its parts. Empty parts and parts `.` say
nothing, except a leading slash, which makes the path absolute, and a leading `.`,
which a parent keeps. A path is joined to another one as it is written: nothing in it
is resolved.
-/

namespace JoinPlan.Path

/-- Whether a path starts at the root. -/
def isAbsolute (path : String) : Bool := path.toList.head? == some '/'

/-- A path seen from a base. An absolute path does not depend on the base. -/
def join (base path : String) : String :=
  if isAbsolute path || base.isEmpty then path
  else if base.toList.getLast? = some '/' then base ++ path
  else base ++ "/" ++ path

/-- Whether a part of a path says nothing. -/
def isIdle (part : List Char) : Bool := part.isEmpty || part == ['.']

/-- The start of a path that no parent cuts into, and the rest. -/
def splitStart (cs : List Char) : List Char × List Char :=
  match cs with
  | '/' :: rest => (['/'], rest)
  | ['.'] => (['.'], [])
  | '.' :: '/' :: rest => (['.'], '/' :: rest)
  | _ => ([], cs)

/-- Parts with slashes between them. -/
def joinParts (parts : List (List Char)) : List Char := ['/'].intercalate parts

/-- The path without its last part that says something. The root and the empty path
have no parent. -/
def parent? (path : String) : Option String :=
  let (start, body) := splitStart path.toList
  match (Text.pieces '/' body).reverse.dropWhile isIdle with
  | _ :: before =>
    some (String.ofList (start ++ joinParts (before.dropWhile isIdle).reverse))
  | [] => if start = ['.'] then some "" else none

/-- Whether the name of a file has an extension; a name that only consists of it has
none. -/
def hasExtension (extension name : String) : Bool :=
  let ending := '.' :: extension.toList
  ending.isSuffixOf name.toList && name.toList != ending

end JoinPlan.Path
