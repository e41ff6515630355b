/-
Module: Containment.Text.Path
Purpose: Paths of files as texts: joining them and comparing what they lead to.
Main exports: Path.join, Path.normalize, Path.parent, Path.ancestry
-/

namespace Containment.Text.Path

/-- Whether a path begins at the top. -/
def isAbsolute (path : String) : Bool :=
  path.toList.head? == some '/'

/-- A path below another one; a path that begins at the top stays as it is. -/
def join (base path : String) : String :=
  if isAbsolute path || base.isEmpty then path
  else if base.toList.getLast? == some '/' then base ++ path
  else base ++ "/" ++ path

/-- One more name on a path: names that lead nowhere do not count, and `..` takes back the name before it,
if there is one; nothing is above the top. -/
def step (top : Bool) (names : List String) (name : String) : List String :=
  if name.isEmpty || name == "." then names
  else if name == ".." then
    match names.getLast? with
    | none => if top then [] else [name]
    | some last => if last == ".." then names ++ [name] else names.dropLast
  else names ++ [name]

/-- The names on a path. -/
def parts (path : String) : List String :=
  ((path.toList.splitOn '/').map String.ofList).foldl (step (isAbsolute path)) []

/-- The text of a path with some names. -/
def ofParts (top : Bool) (names : List String) : String :=
  (if top then "/" else "") ++ "/".intercalate names

/-- The shortest path that leads to the same place. -/
def normalize (path : String) : String :=
  ofParts (isAbsolute path) (parts path)

/-- The directory that a path lies in. -/
def parent (path : String) : String :=
  ofParts (isAbsolute path) (parts path).dropLast

/-- The directories on the way to a path, and the path itself, each as its shortest path. -/
def ancestry (path : String) : List String :=
  let names := parts path
  (List.range (names.length + 1)).map fun n => ofParts (isAbsolute path) (names.take n)

end Containment.Text.Path
