import FieldQuery.Files.Error
import FieldQuery.Files.Path
import FieldQuery.Text.Offset

/-!
# Trees of files

A tree holds files and directories by their location: the names that lead to it from the working
directory, or from the root. All spellings of a path to one file lead to one location. Following a
path takes every name in turn, so that a name in the middle has to be a directory even if two dots
come after it.
-/

namespace FieldQuery

/-- The names from the working directory down, `..` for every step above it. Locations below the
root start with a slash instead. -/
abbrev Location := List String

namespace Location

def root : Location := ["/"]

/-- The working directory, the root, and the directories above the working directory. -/
def isBase (l : Location) : Bool :=
  l = root || l.all (· = "..")

def up (l : Location) : Location :=
  if l = root then root else if l.all (· = "..") then l ++ [".."] else l.dropLast

def start (path : String) : Location :=
  if Path.isAbsolute path then root else []

end Location

inductive Entry where
  | file (bytes : ByteArray)
  | directory

structure Files where
  entries : List (Location × Entry) := []

namespace Files

def entry? (fs : Files) (l : Location) : Option Entry :=
  if l.isBase then some .directory else fs.entries.lookup l

/-- The most bytes that a name may have, and those that no path may have. -/
def nameLimit : Nat := 255

def pathLimit : Nat := 4096

/-- The location that the names lead to from `l`. -/
def follow (fs : Files) (l : Location) : List String → Except FileError Location
  | [] => .ok l
  | name :: names =>
    match fs.entry? l with
    | some .directory =>
      if Path.isIdle name then follow fs l names
      else if name = ".." then follow fs l.up names
      else if nameLimit < utf8Length name.toList then .error .nameTooLong
      else if (fs.entry? (l ++ [name])).isSome then follow fs (l ++ [name]) names
      else .error .notFound
    | some (.file _) => .error .notDirectory
    | none => .error .notFound

def locate (fs : Files) (path : String) : Except FileError Location :=
  if path.contains '\x00' then .error .nullInName
  else if pathLimit ≤ utf8Length path.toList then .error .nameTooLong
  else if path.isEmpty then .error .notFound
  else fs.follow (.start path) (Path.names path)

def textAt (fs : Files) (l : Location) : Except FileError String :=
  match fs.entry? l with
  | none => .error .notFound
  | some .directory => .error .isDirectory
  | some (.file bytes) =>
    match String.fromUTF8? bytes with
    | some text => .ok text
    | none => .error .invalidText

def read (fs : Files) (path : String) : Except FileError String := do
  fs.textAt (← fs.locate path)

def has (fs : Files) (path : String) : Bool :=
  (fs.locate path).isOk

def set (fs : Files) (l : Location) (e : Entry) : Files :=
  { entries := (l, e) :: fs.entries.filter fun p => p.1 ≠ l }

/-- The location that names are spelled as, whether it exists or not. -/
def spelledFrom (l : Location) (names : List String) : Location :=
  names.foldl
    (fun l name => if Path.isIdle name then l else if name = ".." then l.up else l ++ [name]) l

def spelled (path : String) : Location :=
  spelledFrom (.start path) (Path.names path)

/-- The tree with a directory at the location, unless something is there. -/
def makeDirectory (fs : Files) (l : Location) : Files :=
  if (fs.entry? l).isSome then fs else fs.set l .directory

/-- The tree with the directories that the path leads through. -/
def makeWay (fs : Files) (path : String) : Files :=
  let names := Path.names path
  (List.range names.length).foldl
    (fun fs n => fs.makeDirectory (spelledFrom (.start path) (names.take n))) fs

/-- The tree with a file of these bytes, in directories that are made if they are not there. -/
def write (fs : Files) (path : String) (bytes : ByteArray) : Files :=
  (fs.makeWay path).set (spelled path) (.file bytes)

/-- The tree without the file. Its directory stays. -/
def remove (fs : Files) (path : String) : Files :=
  { entries := fs.entries.filter fun p => p.1 ≠ spelled path }

end Files

end FieldQuery
