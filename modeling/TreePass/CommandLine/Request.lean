import TreePass.CommandLine.Word
import TreePass.Files

/-!
Requests: what a command line asks for. The words before the command are general switches; all
words after it belong to the command.
-/

set_option autoImplicit false
set_option relaxedAutoImplicit false

namespace TreePass.CommandLine

inductive Command
  /-- Print its outline. -/
  | outline
  /-- List its variables. -/
  | symbols
  deriving DecidableEq

/-- A request that can be carried out. -/
structure Request where
  verbose : Bool := false
  command : Command
  path : Path
  function : Option String := none
  silenceUnknown : Bool := false
  silenceShadow : Bool := false
  config : List String := []
  unique : Bool := false

inductive GeneralAction
  | help | version | verbose
  deriving DecidableEq

inductive CommandAction
  | help | function | silenceUnknown | silenceShadow | config | unique
  deriving DecidableEq

def generalSwitches : List (Switch GeneralAction) :=
  [⟨.help, ["-h", "--help"], .none⟩, ⟨.version, ["--version"], .none⟩,
    ⟨.verbose, ["-v", "--verbose"], .none⟩]

def commonSwitches : List (Switch CommandAction) :=
  [⟨.help, ["-h", "--help"], .none⟩, ⟨.function, ["--function"], .one⟩,
    ⟨.silenceUnknown, ["--no-warn-unknown"], .none⟩,
    ⟨.silenceShadow, ["--no-warn-shadow"], .none⟩, ⟨.config, ["--config"], .many⟩]

namespace Command

def ofText? : String → Option Command
  | "show" => some outline
  | "symbols" => some symbols
  | _ => none

def switches : Command → List (Switch CommandAction)
  | outline => commonSwitches
  | symbols => commonSwitches ++ [⟨.unique, ["--unique"], .none⟩]

end Command

structure Progress where
  path : Option Path := none
  function : Option String := none
  silenceUnknown : Bool := false
  silenceShadow : Bool := false
  config : List String := []
  unique : Bool := false
  /-- Whether a word had no meaning. -/
  stray : Bool := false

namespace Progress

def apply (progress : Progress) (action : CommandAction) (args : List String) :
    Except Ending Progress :=
  match action with
  | .help => .error .help
  | .function => .ok { progress with function := args.head? }
  | .silenceUnknown => .ok { progress with silenceUnknown := true }
  | .silenceShadow => .ok { progress with silenceShadow := true }
  | .config => .ok { progress with config := args }
  | .unique => .ok { progress with unique := true }

def strayed (progress : Progress) : Progress := { progress with stray := true }

def applyLetters (progress : Progress) (found : List (Switch CommandAction)) (remain : Bool) :
    Except Ending Progress := do
  let progress ← found.foldlM (fun p s => p.apply s.action []) progress
  return if remain then progress.strayed else progress

end Progress

inductive Expecting
  | anything
  /-- Right after the path a divider has no effect. -/
  | afterPath
  /-- After a divider only operands follow. -/
  | path
  /-- The argument of a switch. -/
  | argument (action : CommandAction)
  /-- More arguments of a switch. -/
  | arguments (action : CommandAction) (before : List String)

/-- Ends the list of arguments of a switch. -/
def settle (progress : Progress) : Expecting → Except Ending Progress
  | .anything | .afterPath => .ok progress
  | .path => .ok progress.strayed
  | .argument _ => .error .usage
  | .arguments action before => progress.apply action before

def follow (switches : List (Switch CommandAction)) :
    Progress → Expecting → List (Word CommandAction) → Except Ending Progress
  | progress, expecting, [] => settle progress expecting
  | progress, expecting, word :: rest =>
    match word, expecting with
    | .operand text, .argument action => do
      follow switches (← progress.apply action [text]) .anything rest
    | .operand text, .arguments action before =>
      follow switches progress (.arguments action (before ++ [text])) rest
    | .operand text, _ =>
      if progress.path.isSome then follow switches progress.strayed .anything rest
      else follow switches { progress with path := some (Path.ofText text) } .afterPath rest
    | .divider, .afterPath => follow switches progress .anything rest
    | .divider, expecting => do
      let progress ← settle progress expecting
      if progress.path.isSome then follow switches progress.strayed .anything rest
      else follow switches progress .path rest
    | .unknown _, expecting => do
      follow switches (← settle progress expecting).strayed .anything rest
    | .switch found attached, expecting => do
      let progress ← settle progress expecting
      match attached, found.arity with
      | .equals _, .none => .error .usage
      | .equals text, _ => do
        follow switches (← progress.apply found.action [text]) .anything rest
      | .joined text, _ => do
        let (more, remain) ← Word.letters switches text.toList
        follow switches (← progress.applyLetters (found :: more) remain) .anything rest
      | .nothing, .none => do
        follow switches (← progress.apply found.action []) .anything rest
      | .nothing, .one => follow switches progress (.argument found.action) rest
      | .nothing, .many => follow switches progress (.arguments found.action []) rest

def commandRequest (command : Command) (verbose stray : Bool) (texts : List String) :
    Except Ending Request := do
  let switches := command.switches
  let progress ← follow switches {} .anything (← Word.ofTexts switches texts)
  match progress.path with
  | none => throw .usage
  | some path =>
    if stray || progress.stray then throw .usage
    return {
      verbose := verbose
      command := command
      path := path
      function := progress.function
      silenceUnknown := progress.silenceUnknown
      silenceShadow := progress.silenceShadow
      config := progress.config
      unique := progress.unique }

/-- Carries out general switches: whether the run is verbose after them. -/
def applyGeneral (verbose : Bool) : List GeneralAction → Except Ending Bool
  | [] => .ok verbose
  | .help :: _ => .error .help
  | .version :: _ => .error .version
  | .verbose :: rest => applyGeneral true rest

/-- Goes through the words before the command, of which the texts are given too. -/
def followGeneral (verbose stray : Bool) :
    List (Word GeneralAction × String) → Except Ending Request
  | [] => .error .usage
  | (word, _) :: rest =>
    match word with
    | .operand text =>
      match Command.ofText? text with
      | some command => commandRequest command verbose stray (rest.map (·.2))
      | none => .error .usage
    | .divider => .error .usage
    | .unknown _ => followGeneral verbose true rest
    | .switch found attached =>
      match attached with
      | .nothing => do followGeneral (← applyGeneral verbose [found.action]) stray rest
      | .equals _ => .error .usage
      | .joined text => do
        let (more, remain) ← Word.letters generalSwitches text.toList
        let verbose ← applyGeneral verbose ((found :: more).map Switch.action)
        followGeneral verbose (stray || remain) rest

def request (texts : List String) : Except Ending Request := do
  let words ← Word.ofTexts generalSwitches texts
  followGeneral false false (words.zip texts)

end TreePass.CommandLine
