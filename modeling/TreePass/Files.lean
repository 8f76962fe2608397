/-!
Files known by their paths. A path is kept as written up to redundant slashes and points; where it
leads depends on the directory in which it is read.
-/

set_option autoImplicit false
set_option relaxedAutoImplicit false

namespace TreePass

structure Path where
  root : String
  parts : List String
  deriving DecidableEq

namespace Path

def segments (text : List Char) : List String :=
  (text.splitBy fun a b => a != '/' && b != '/').filterMap fun run =>
    if run.head? == some '/' then none else some (String.ofList run)

/-- The path that a text stands for. Exactly two slashes at the beginning are kept. -/
def ofText (text : String) : Path :=
  let chars := text.toList
  let slashes := (chars.takeWhile (· == '/')).length
  ⟨if slashes = 0 then "" else if slashes = 2 then "//" else "/",
    (segments chars).filter (· != ".")⟩

/-- The text of a path; an empty one is a point. -/
def text (path : Path) : String :=
  let text := path.root ++ "/".intercalate path.parts
  if text.isEmpty then "." else text

def parent (path : Path) : Path := { path with parts := path.parts.dropLast }

/-- Whether a path does not depend on the current directory. -/
def isAbsolute (path : Path) : Bool := !path.root.isEmpty

end Path

abbrev Place := List String

/-- What opening a file gives. -/
inductive Content
  | bytes (data : List UInt8)
  /-- The file cannot be opened. -/
  | locked
  deriving DecidableEq

/-- Files and directories by their places, and the current directory. A directory has no
content. -/
structure Files where
  current : Place
  entries : List (Place × Option (List UInt8))
  /-- Files that cannot be opened. -/
  locked : List Place := []

namespace Files

def file? (files : Files) (place : Place) : Option Content :=
  if files.locked.contains place then some .locked
  else ((files.entries.lookup place).bind id).map .bytes

def isDirectory (files : Files) (place : Place) : Bool :=
  place.isPrefixOf files.current ||
    (files.entries.any fun (other, content) =>
      place.isPrefixOf other && (place != other || content.isNone)) ||
    files.locked.any fun other => place.isPrefixOf other && place != other

def start (files : Files) (path : Path) : Place :=
  if path.isAbsolute then [] else files.current

/-- Follows the parts of a path through existing directories. -/
def walk (files : Files) : Place → List String → Option Place
  | place, [] => some place
  | place, part :: rest =>
    if !files.isDirectory place then none
    else if part = ".." then walk files place.dropLast rest
    else walk files (place ++ [part]) rest

def read? (files : Files) (path : Path) : Option Content :=
  (files.walk (files.start path) path.parts).bind files.file?

/-- The place of a path by its parts alone, whether or not it exists. -/
def resolve (files : Files) (path : Path) : Place :=
  path.parts.foldl (fun place part => if part = ".." then place.dropLast else place ++ [part])
    (files.start path)

def ancestors (place : Place) : List Place :=
  ((List.range (place.length + 1)).map place.take).reverse

def projectFile : String := "pyproject.toml"

/-- The content of the nearest project file at a directory or above it. -/
def nearestProject? (files : Files) (directory : Path) : Option Content :=
  (ancestors (files.resolve directory)).findSome? fun place =>
    files.file? (place ++ [projectFile])

end Files

end TreePass
