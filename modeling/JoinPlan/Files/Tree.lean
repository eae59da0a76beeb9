import JoinPlan.Files.Basic

/-!
# Trees of files

A tree of files as a value, paths through it, and trees built from files at paths. A
path goes down by names and up by `..`, never above the top, and only a directory lets
it pass. Absolute paths lead nowhere.

A file that is added brings the directories on its way. What cannot be added, such as
a file below a file or in the place of a directory, leaves the tree as it is but for
the directories that were made first.
-/

namespace JoinPlan

/-- A file with its text, if it holds text, or a directory with its entries. -/
inductive FileTree where
  | file (text : Option String)
  | directory (entries : List (String × FileTree))

instance : Inhabited FileTree := ⟨.directory []⟩

namespace FileTree

/-- The entries of a directory. -/
def entries? : FileTree → Option (List (String × FileTree))
  | .directory entries => some entries
  | .file _ => none

/-- What stands at the parts of a path, seen from `here`; `above` are the directories
on the way to it, the nearest first. -/
def walk (above : List FileTree) (here : FileTree) : List String → Option FileTree
  | [] => some here
  | part :: rest =>
    match here.entries? with
    | none => none
    | some entries =>
      if part = "" ∨ part = "." then walk above here rest
      else if part = ".." then
        match above with
        | [] => none
        | parent :: above => walk above parent rest
      else
        match entries.lookup part with
        | none => none
        | some child => walk (here :: above) child rest

/-- What stands at a path. -/
def at? (tree : FileTree) (path : String) : Option FileTree :=
  if path.isEmpty || Path.isAbsolute path then none
  else walk [] tree (Text.split '/' path)

/-! ## Building trees -/

/-- What stands at the end of some names, with nothing to resolve in them. -/
def get? : FileTree → List String → Option FileTree
  | tree, [] => some tree
  | .file _, _ :: _ => none
  | .directory entries, name :: rest =>
    match entries.lookup name with
    | some child => get? child rest
    | none => none

/-- Entries with the one of a name changed; a name that is new goes last. -/
def changeEntry (name : String) (change : Option FileTree → FileTree) :
    List (String × FileTree) → List (String × FileTree)
  | [] => [(name, change none)]
  | (other, child) :: rest =>
    if other = name then (name, change (some child)) :: rest
    else (other, child) :: changeEntry name change rest

theorem lookup_changeEntry_self (name : String) (change : Option FileTree → FileTree)
    (entries : List (String × FileTree)) :
    (changeEntry name change entries).lookup name = some (change (entries.lookup name)) := by
  induction entries with
  | nil => simp [changeEntry]
  | cons entry rest ih =>
    obtain ⟨other, child⟩ := entry
    by_cases h : other = name
    · simp [changeEntry, h]
    · have hne : (name == other) = false := by simpa using Ne.symm h
      simp [changeEntry, h, List.lookup_cons, hne, ih]

theorem lookup_changeEntry_of_ne {name other : String} (change : Option FileTree → FileTree)
    (entries : List (String × FileTree)) (h : other ≠ name) :
    (changeEntry name change entries).lookup other = entries.lookup other := by
  have hne : (other == name) = false := by simpa using h
  induction entries with
  | nil => simp [changeEntry, List.lookup_cons, hne]
  | cons entry rest ih =>
    obtain ⟨key, child⟩ := entry
    by_cases hk : key = name
    · simp [changeEntry, hk, List.lookup_cons, hne]
    · simp [changeEntry, hk, List.lookup_cons, ih]

/-- The tree with a node at the end of some names. -/
def put (node : FileTree) : List String → FileTree → FileTree
  | [], _ => node
  | name :: rest, .directory entries =>
    .directory (changeEntry name (fun child => put node rest (child.getD default)) entries)
  | _ :: _, .file text => .file text

/-- Whether an entry may have the name: it takes at most 255 bytes. -/
def isEntryName (name : String) : Bool := name.utf8ByteSize ≤ 255

/-- The tree with the directories along the parts of a path, and the names from the top
to the last of them. A part that cannot be a directory ends the way; what was made
before it stays. -/
def makeWay (tree : FileTree) (here : List String) :
    List String → FileTree × Option (List String)
  | [] => (tree, some here)
  | part :: rest =>
    if part = ".." then
      if here.isEmpty then (tree, none) else makeWay tree here.dropLast rest
    else
      let next := here ++ [part]
      match tree.get? next with
      | some (.directory _) => makeWay tree next rest
      | some (.file _) => (tree, none)
      | none =>
        if isEntryName part then makeWay (put (.directory []) next tree) next rest
        else (tree, none)

/-- The parts of a path that say something. -/
def parts (path : String) : List String :=
  (Text.split '/' path).filter fun part => !part.isEmpty && part != "."

/-- The last part of a path, slashes at its end aside. -/
def lastPart (path : String) : String :=
  (((Text.split '/' path).filter fun part => !part.isEmpty).getLast?).getD ""

/-- Whether a tree can have something at the path. -/
def isUsable (path : String) : Bool := !Path.isAbsolute path && !path.toList.contains '\x00'

/-- The tree with a directory at a path. A dot at its end stands for a directory that
is there already. -/
def addDirectory (tree : FileTree) (path : String) : FileTree :=
  let way := parts path
  (makeWay tree [] (if lastPart path = "." then way.dropLast else way)).1

/-- The tree with a file at a path, in place of a file that is there. A directory is
not replaced. -/
def addFile (tree : FileTree) (path : String) (text : Option String) : FileTree :=
  let last := lastPart path
  match makeWay tree [] (parts path).dropLast with
  | (tree, none) => tree
  | (tree, some here) =>
    if last = "" ∨ last = "." ∨ last = ".." ∨ !isEntryName last then tree
    else
      match tree.get? (here ++ [last]) with
      | some (.directory _) => tree
      | _ => put (.file text) (here ++ [last]) tree

/-- The tree of files at paths, added in order. A path that ends in a slash stands for a
directory. -/
def ofList (files : List (String × Option String)) : FileTree :=
  files.foldl
    (fun tree (path, text) =>
      if !isUsable path then tree
      else if path.toList.getLast? = some '/' then tree.addDirectory path
      else tree.addFile path text)
    default

/-- Access to the files of a tree. -/
def files (tree : FileTree) : Files Id where
  text? := fun path =>
    match tree.at? path with
    | some (.file text) => text
    | _ => none
  list := fun path =>
    match tree.at? path with
    | some (.directory entries) => .names (entries.map Prod.fst)
    | some (.file _) => .unreadable
    | none => .missing

end FileTree

end JoinPlan
