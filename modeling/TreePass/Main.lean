import TreePass.CommandLine.Run

/-!
The command line program. It reads the named source file and the project files above it, carries
out the request and prints what it reports.
-/

set_option autoImplicit false
set_option relaxedAutoImplicit false

namespace TreePass.CommandLine

def usageText : String :=
  "usage: exprflow [-h] [--version] [-v] \x7bshow,symbols\x7d path [--function NAME]\n" ++
    "  [--no-warn-unknown] [--no-warn-shadow] [--config [KEY=VALUE ...]] [--unique]"

def placeText (place : Place) : String := "/" ++ "/".intercalate place

def isDirectoryAt (place : Place) : IO Bool := do
  let location := (← IO.currentDir) / placeText place
  location.isDir

def contentOf (place : Place) : IO (Option Content) := do
  try
    let bytes ← IO.FS.readBinFile (placeText place)
    return some (.bytes bytes.toList)
  catch _ =>
    let location := (← IO.currentDir) / placeText place
    return if (← location.pathExists) && !(← isDirectoryAt place) then some .locked else none

/-- The files that a request may read: the source file, the directories on the way to it, and the
project files above it. -/
def filesFor (request : Request) : IO Files := do
  let here := Path.ofText (← IO.currentDir).toString
  let outside : Files := { current := here.parts, entries := [] }
  let source := outside.resolve request.path
  let mut entries : List (Place × Option (List UInt8)) := []
  let mut locked : List Place := []
  for count in List.range (request.path.parts.length + 1) do
    let place := outside.resolve { request.path with parts := request.path.parts.take count }
    if ← isDirectoryAt place then entries := (place, none) :: entries
  let projects := (Files.ancestors (outside.resolve request.path.parent)).map
    (· ++ [Files.projectFile])
  for place in source :: projects do
    match ← contentOf place with
    | some (.bytes data) => entries := (place, some data) :: entries
    | some .locked => locked := place :: locked
    | none => pure ()
  return { outside with entries := entries, locked := locked }

def Escape.message : Escape → String
  | .fault f => f.message
  | .read e => e.message
  | .markup u => "closing tag '" ++ u.name ++ "' doesn't match any open tag"

def runOnFiles (request : Request) : IO UInt32 := do
  match run (← filesFor request) request with
  | .ok report =>
    for line in report.lines do
      IO.println line
    return report.exit.toUInt32
  | .error escape =>
    IO.eprintln escape.message
    return 1

end TreePass.CommandLine

def main (args : List String) : IO UInt32 := do
  match TreePass.CommandLine.request args with
  | .ok request => TreePass.CommandLine.runOnFiles request
  | .error .version =>
    IO.println TreePass.CommandLine.versionText
    return 0
  | .error .help =>
    IO.println TreePass.CommandLine.usageText
    return 0
  | .error .usage =>
    IO.eprintln TreePass.CommandLine.usageText
    return 2
