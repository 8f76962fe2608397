import TreePass.CommandLine.Request
import TreePass.Console.Log
import TreePass.Console.Table
import TreePass.Outline
import TreePass.Pass
import TreePass.Settings.KeyValue
import TreePass.Settings.Load
import TreePass.Source.Function
import TreePass.Text.Utf8

/-!
Carrying out requests. A run loads the settings, then the function, and prints its outline or its
variables; whatever goes wrong with a file or a setting is reported as an error.
-/

set_option autoImplicit false
set_option relaxedAutoImplicit false

namespace TreePass.CommandLine

/-- What a run leaves behind: an exit code and the lines it printed. -/
structure Report where
  exit : Nat
  lines : List String

/-- What ends a run without a report. -/
inductive Escape
  | fault (f : Fault)
  | read (e : Source.ReadError)
  | markup (u : Console.Markup.Unmatched)

def printed (lines : Except Console.Markup.Unmatched (List String)) :
    Except Escape (List String) :=
  match lines with
  | .ok lines => .ok lines
  | .error unmatched => .error (.markup unmatched)

/-- What libraries give: texts that they write, and the characters that they know by name. -/
structure Library where
  /-- What stands below the first line of a report about fields. -/
  details : Invalid → String := fun _ => ""
  /-- What is said about a text that does not follow the grammar. -/
  complaint : String → String := fun _ => ""
  characters : Source.CharacterNames := fun _ => none

def failure (message : String) : Except Escape Report := do
  let lines ← printed (Console.Entry.lines ⟨.error, message⟩)
  return ⟨1, lines⟩

namespace Request

/-- The flag values that a request sets itself. -/
def overrides (request : Request) : Except Settings.MissingEquals Table := do
  let given ← Settings.keyValues request.config
  let given :=
    if request.silenceUnknown then given.put Flag.unknownCallee.key (.bool false) else given
  return if request.silenceShadow then given.put Flag.localShadow.key (.bool false) else given

/-- The settings of a request, or the message of an error in them. -/
def settings (request : Request) (files : Files) (library : Library) :
    Except Escape (Except String Settings) :=
  match request.overrides with
  | .error missing => .ok (.error missing.message)
  | .ok overrides =>
    match Settings.load (files.nearestProject? request.path.parent) overrides with
    | .ok settings => .ok (.ok settings)
    | .error .notTable => .error (.fault .missingMember)
    | .error .notMapping => .error (.fault .wrongOperand)
    | .error (.invalid report) => .ok (.error (report.headline ++ library.details report))
    | .error e => .ok (.error e.message)

def function? (request : Request) (files : Files) (library : Library) :
    Except Escape (Except String Function) :=
  match files.read? request.path with
  | none => .ok (.error ("Path not found: " ++ request.path.text))
  | some .locked => .error (.fault (.raised ("Permission denied: '" ++ request.path.text ++ "'")))
  | some (.bytes data) =>
    let located (message : String) : String := request.path.text ++ ": " ++ message
    match Text.Utf8.decode data with
    | .error malformed => .ok (.error (located malformed.message))
    | .ok text =>
      let source := String.ofList (Text.Utf8.unifyNewlines text.toList)
      match Function.read library.characters source request.function [] with
      | .ok fn => .ok (.ok fn)
      | .error .grammar =>
        .ok (.error ("Cannot parse " ++ request.path.text ++ library.complaint source))
      | .error (.unsupported construct detail) =>
        .ok (.error (located (Source.ReadError.unsupported construct detail).message))
      | .error (.noFunction name) =>
        .ok (.error (located (Source.ReadError.noFunction name).message))
      | .error e => .error (.read e)

end Request

/-- What is printed about an annotated function, before the last message. -/
abbrev Picture := Except Console.Markup.Unmatched (List String)

/-- The outline of a function. An integer with too many digits cannot be written. -/
def outline (fn : Function) (scope : Scope) : Action Unit (Picture × Option String) := do
  if fn.params.holdsLong || fn.body.holdsLong then
    Action.fail (.raised ("Exceeds the limit (" ++ toString Number.Numeral.maxDigits ++
      " digits) for integer string conversion; " ++
      "use sys.set_int_max_str_digits() to increase the limit"))
  let tree ← Outline.ofFunction (Outline.functionLabel fn scope) fn
  return (tree.lines, none)

def symbolColumns : List Console.Column :=
  [{ header := "#", alignRight := true }, { header := "Symbol" }, { header := "Locally bound" }]

def symbolList (fn : Function) (scope : Scope) (flags : Flags) (unique : Bool) :
    Action Unit (Picture × Option String) := do
  let names ← collectSymbols fn flags unique
  let table : Console.Table := {
    title := "Symbols in " ++ fn.name.getD "None"
    columns := symbolColumns
    rows := names.zipIdx.map fun (name, index) =>
      [toString (index + 1), name, if scope.isBound name then "yes" else ""] }
  return (table.lines, some (toString names.length ++ " symbol(s) found."))

def work (request : Request) (settings : Settings) (fn : Function) :
    Action Unit (Picture × Option String) := do
  let fn ← settings.policy.annotate (← fn.plant)
  let scope := fn.scope.getD Scope.empty
  match request.command with
  | .outline => outline fn scope
  | .symbols => symbolList fn scope settings.flags request.unique

def entryLines (threshold : Int) : List Console.Entry → Except Escape (List String)
  | [] => .ok []
  | entry :: rest => do
    let (first, _) ←
      match (Console.Item.entry entry).print threshold with
      | .ok result => .ok result
      | .error unmatched => .error (.markup unmatched)
    return first ++ (← entryLines threshold rest)

/-- The report of a request on a function: notes, the picture, and the last message. -/
def report (request : Request) (settings : Settings) (fn : Function) : Except Escape Report := do
  let threshold := if request.verbose then Console.Level.debug.rank else Console.standardThreshold
  match (work request settings fn).run (Store.initial ()) with
  | (.error fault, _) => throw (.fault fault)
  | (.ok (picture, message), store) =>
    let notes := store.notes.toList.map fun note => (⟨.debug, note.message⟩ : Console.Entry)
    let before ← entryLines threshold notes
    let lines ← printed picture
    let after ← entryLines threshold (message.toList.map fun text => ⟨.info, text⟩)
    return ⟨0, before ++ lines ++ after⟩

/-- Carries out a request. Of an error in the settings only the first line is kept. -/
def run (files : Files) (request : Request) (library : Library := {}) : Except Escape Report := do
  match ← request.settings files library with
  | .error message =>
    let report ← failure ("Invalid configuration: " ++ message)
    return { report with lines := report.lines.take 1 }
  | .ok settings =>
    match ← request.function? files library with
    | .error message => failure message
    | .ok fn => report request settings fn

def versionText : String := "exprflow 0.1.0"

end TreePass.CommandLine
