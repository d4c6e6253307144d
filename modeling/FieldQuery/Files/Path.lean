import FieldQuery.Text.Pieces

/-!
# Paths

A path is a text of names between slashes. It is absolute if it starts with a slash. Empty names
and single dots lead nowhere, and two dots lead up.
-/

namespace FieldQuery.Path

def names (path : String) : List String :=
  splitAtChar '/' path

def isAbsolute (path : String) : Bool :=
  path.startsWith "/"

/-- The path that leads from the directory `base` along `path`. -/
def join (base path : String) : String :=
  if isAbsolute path then path
  else if base.isEmpty || base.endsWith "/" then base ++ path
  else base ++ "/" ++ path

/-- A name that leads nowhere. -/
def isIdle (name : String) : Bool :=
  name.isEmpty || name = "."

/-- The names without those at the end that lead nowhere. A dot that is the whole path stays. -/
def dropIdle (names : List String) : List String :=
  match (names.reverse.dropWhile isIdle).reverse with
  | [] => if names.head? = some "." then ["."] else if names.head? = some "" then [""] else []
  | ns => ns

def parent (path : String) : String :=
  let ns := dropIdle (dropIdle (names path)).dropLast
  if isAbsolute path && ns.length ≤ 1 then "/" else "/".intercalate ns

/-- The last name on the path, unless it leads up. -/
def fileName? (path : String) : Option String :=
  ((dropIdle (names path)).getLast?.filter fun n => n ≠ ".." && !isIdle n)

/-- The last name on the path up to its last dot. A dot at its start does not count. -/
def stem (path : String) : String :=
  match fileName? path with
  | none => ""
  | some name =>
    match (splitAtChar '.' name).reverse with
    | _ :: ps =>
      let stem := ".".intercalate ps.reverse
      if stem.isEmpty then name else stem
    | [] => name

end FieldQuery.Path
