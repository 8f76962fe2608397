import TreePass.Proofs.CommandLine.Reporting
import TreePass.Proofs.Settings.Precedence
import TreePass.Proofs.Source.Mentions

/-!
How requests end where no project file is in reach. A request succeeds exactly if its items are
settings and the function it asks for can be found, read and shown. Most other requests end with an
error message, but not all: an error message may be no marked text, and some functions and files
lead to faults that nothing catches.
-/

set_option autoImplicit false
set_option relaxedAutoImplicit false

namespace TreePass

open Console.Markup

namespace CommandLine

private theorem exists_failure {message : String}
    (prints : Prints (Console.Level.error.sign ++ message)) :
    ∃ lines, failure message = .ok ⟨1, lines⟩ := by
  obtain ⟨lines, shown⟩ : ∃ lines, Console.Entry.lines ⟨.error, message⟩ = .ok lines :=
    Console.Entry.exists_lines prints
  exact ⟨lines, by rw [failure, shown]; rfl⟩

private theorem failure_of_unmatched {message : String} {unmatched : Unmatched}
    (broken : lines (Console.Level.error.sign ++ message) = .error unmatched) :
    failure message = .error (.markup unmatched) := by
  have entry : Console.Entry.lines ⟨.error, message⟩ = .error unmatched := by
    rw [Console.Entry.lines, broken]
    rfl
  rw [failure, entry]
  rfl

namespace Request

variable (request : Request) (files : Files) (library : Library)

def fields : Table := Table.putAll [] (Table.putAll [] request.ownEntries)

/-- The items of a request are settings: each is divided into a key and a value, every key is that
of a flag, and the value that decides on a flag stands for a truth value. -/
structure Valid : Prop where
  divided : ∀ item ∈ request.config, '=' ∈ item.toList
  known : request.KeysKnown []
  coercible : ∀ flag, ∃ on, request.Effective [] flag on

/-- Whether a request asks for a definition; without a name it asks for any. -/
def asksFor (definition : Source.Definition) : Bool :=
  match request.function with
  | some name => definition.name == name
  | none => true

def HoldsSource (source : String) : Prop :=
  ∃ data text, files.read? request.path = some (.bytes data) ∧
    Text.Utf8.decode data = .ok text ∧
    source = String.ofList (Text.Utf8.unifyNewlines text.toList)

def Finds (definition : Source.Definition) : Prop :=
  ∃ source statements, request.HoldsSource files source ∧ Source.parse source = .ok statements ∧
    (Source.definitions statements).find? request.asksFor = some definition

def Reads (fn : Function) : Prop :=
  ∃ definition, request.Finds files definition ∧
    Function.ofDefinition library.characters definition Environment.standard = .ok fn

/-- A request that is carried out: its items are settings, and it reads a function, of which it can
print what it is asked for. -/
def Succeeds : Prop :=
  request.Valid ∧ ∃ fn, request.Reads files library fn ∧
    (request.command = .outline → fn.holdsLong = false)

/-- The error messages that requests end with. -/
inductive Fails : String → Prop
  | item {item : String}
      (first : request.config.find? (fun item => !item.toList.contains '=') = some item) :
      Fails ("Invalid configuration: " ++ (Settings.MissingEquals.mk item).message)
  | fields {report : Invalid} (divided : ∀ item ∈ request.config, '=' ∈ item.toList)
      (refused : Flags.ofFields request.fields = .error report) :
      Fails ("Invalid configuration: " ++ (report.headline ++ library.details report))
  | missing (valid : request.Valid) (absent : files.read? request.path = none) :
      Fails ("Path not found: " ++ request.path.text)
  | garbled (valid : request.Valid) {data : List UInt8} {malformed : Text.Utf8.Malformed}
      (found : files.read? request.path = some (.bytes data))
      (undecodable : Text.Utf8.decode data = .error malformed) :
      Fails (request.path.text ++ ": " ++ malformed.message)
  | grammar (valid : request.Valid) {source : String} (holds : request.HoldsSource files source)
      (broken : Source.parse source = .error .grammar) :
      Fails ("Cannot parse " ++ request.path.text ++ library.complaint source)
  | nowhere (valid : request.Valid) {source : String} {statements : List Source.Statement}
      (holds : request.HoldsSource files source) (parsed : Source.parse source = .ok statements)
      (none_asked : ∀ d ∈ Source.definitions statements, request.asksFor d = false) :
      Fails (request.path.text ++ ": " ++ (Source.ReadError.noFunction request.function).message)
  | unsupported (valid : request.Valid) {definition : Source.Definition} {construct : String}
      {detail : Option String} (finds : request.Finds files definition)
      (refused : Source.Reading.definition library.characters definition =
        .error (.unsupported construct detail)) :
      Fails (request.path.text ++ ": " ++
        (Source.ReadError.unsupported construct detail).message)

/-- The ends of requests that are neither success nor an error message. -/
inductive Crashes : Escape → Prop
  | locked (valid : request.Valid) (found : files.read? request.path = some .locked) :
      Crashes (.fault (.raised ("Permission denied: '" ++ request.path.text ++ "'")))
  | mixed (valid : request.Valid) {source : String} (holds : request.HoldsSource files source)
      (joined : Source.parse source = .error .mixedStrings) : Crashes (.read .mixedStrings)
  | literal (valid : request.Valid) {definition : Source.Definition}
      (finds : request.Finds files definition)
      (valueless : Source.Reading.definition library.characters definition = .error .literal) :
      Crashes (.read .literal)
  | long (valid : request.Valid) {fn : Function} (reads : request.Reads files library fn)
      (command : request.command = .outline) (long : fn.holdsLong = true) :
      Crashes (.fault tooLong)
  | message {text : String} (fails : request.Fails files library text) {unmatched : Unmatched}
      (broken : lines (Console.Level.error.sign ++ text) = .error unmatched) :
      Crashes (.markup unmatched)

variable {request files library}

private theorem items_cases : request.Valid ∨
    (∃ item, request.config.find? (fun item => !item.toList.contains '=') = some item) ∨
    ∃ report, (∀ item ∈ request.config, '=' ∈ item.toList) ∧
      Flags.ofFields request.fields = .error report := by
  match first : request.config.find? fun item => !item.toList.contains '=' with
  | some item => exact .inr (.inl ⟨item, first⟩)
  | none =>
    have divided : ∀ item ∈ request.config, '=' ∈ item.toList := by simpa using first
    match taken : Flags.ofFields request.fields with
    | .error report => exact .inr (.inr ⟨report, divided, rfl⟩)
    | .ok flags =>
      obtain ⟨known, valid⟩ := Flags.ofFields_eq_ok_iff.mp taken
      refine .inl ⟨divided, (request.known_putAll []).mp known, fun flag => ?_⟩
      obtain ⟨on, coerced, -⟩ := valid flag
      exact ⟨on, effective_eq_ok_iff.mp ((request.coerced_putAll [] flag).symm.trans coerced)⟩

section

variable (alone : files.nearestProject? request.path.parent = none)

include alone

private theorem load_own : Settings.load (files.nearestProject? request.path.parent)
      (Table.putAll [] request.ownEntries) =
    (Settings.validated (Flags.ofFields request.fields)).map fun flags => ⟨flags, {}⟩ := by
  rw [alone, Settings.load_none]
  rfl

private theorem settings_of_valid (valid : request.Valid) :
    ∃ settings, request.settings files library = .ok (.ok settings) := by
  have given (flag : Flag) : ∃ on, Flags.coerced request.fields flag = .ok on := by
    obtain ⟨on, effective⟩ := valid.coercible flag
    exact ⟨on, (request.coerced_putAll [] flag).trans (effective_eq_ok_iff.mpr effective)⟩
  obtain ⟨callee, first⟩ := given .unknownCallee
  obtain ⟨shadow, second⟩ := given .localShadow
  have clean : Flags.issues request.fields = [] :=
    Flags.issues_eq_nil_iff.mpr ⟨(request.known_putAll []).mpr valid.known, given⟩
  have loaded := load_own alone
  rw [Flags.ofFields_of_clean clean first second] at loaded
  refine ⟨⟨⟨.bool callee, .bool shadow⟩, {}⟩, ?_⟩
  simp only [settings, request.overrides_of_divided valid.divided, loaded]
  rfl

private theorem settings_of_refused {report : Invalid}
    (divided : ∀ item ∈ request.config, '=' ∈ item.toList)
    (refused : Flags.ofFields request.fields = .error report) :
    request.settings files library = .ok (.error (report.headline ++ library.details report)) := by
  have loaded := load_own alone
  rw [refused] at loaded
  simp only [settings, request.overrides_of_divided divided, loaded]
  rfl

end

private theorem settings_of_bare {item : String}
    (first : request.config.find? (fun item => !item.toList.contains '=') = some item) :
    request.settings files library = .ok (.error (Settings.MissingEquals.mk item).message) := by
  simp only [settings, request.overrides_of_bare first]

variable (request files) in
private theorem file_cases : files.read? request.path = none ∨ files.read? request.path =
    some .locked ∨ (∃ data malformed, files.read? request.path = some (.bytes data) ∧
      Text.Utf8.decode data = .error malformed) ∨ ∃ source, request.HoldsSource files source := by
  match found : files.read? request.path with
  | none => exact .inl rfl
  | some .locked => exact .inr (.inl rfl)
  | some (.bytes data) =>
    match decoded : Text.Utf8.decode data with
    | .error malformed => exact .inr (.inr (.inl ⟨data, malformed, rfl, decoded⟩))
    | .ok text => exact .inr (.inr (.inr ⟨_, data, text, found, decoded, rfl⟩))

private theorem parse_cases (source : String) : Source.parse source = .error .grammar ∨
    Source.parse source = .error .mixedStrings ∨
      ∃ statements, Source.parse source = .ok statements := by
  unfold Source.parse
  split
  · exact .inl rfl
  · split
    · exact .inl rfl
    · split
      · exact .inr (.inl rfl)
      · exact .inr (.inr ⟨_, rfl⟩)

private theorem findDefinition_eq {source : String} {statements : List Source.Statement}
    (parsed : Source.parse source = .ok statements) :
    Source.findDefinition source request.function =
      match (Source.definitions statements).find? request.asksFor with
      | some definition => .ok definition
      | none => .error (.noFunction request.function) := by
  have asks : request.asksFor = fun d => match request.function with
      | some name => d.name == name
      | none => true := rfl
  cases given : request.function with
  | none =>
    simp only [Source.findDefinition, parsed, asks, given, bind, Except.bind]
    cases (Source.definitions statements).find? fun _ => true <;> rfl
  | some name =>
    simp only [Source.findDefinition, parsed, asks, given, bind, Except.bind]
    cases (Source.definitions statements).find? fun d => d.name == name <;> rfl

private theorem source_cases {source : String} (holds : request.HoldsSource files source) :
    Source.parse source = .error .grammar ∨ Source.parse source = .error .mixedStrings ∨
    (∃ statements, Source.parse source = .ok statements ∧
      ∀ d ∈ Source.definitions statements, request.asksFor d = false) ∨
    (∃ definition, request.Finds files definition ∧
      ∃ e, Source.Reading.definition library.characters definition = .error e ∧
        Source.Reading.IsRefusal e) ∨
    ∃ fn, request.Reads files library fn := by
  rcases parse_cases source with broken | mixed | ⟨statements, parsed⟩
  · exact .inl broken
  · exact .inr (.inl mixed)
  match found : (Source.definitions statements).find? request.asksFor with
  | none => exact .inr (.inr (.inl ⟨statements, parsed, by simpa using found⟩))
  | some definition =>
    have finds : request.Finds files definition := ⟨source, statements, holds, parsed, found⟩
    have gives : Source.Reading.Gives
        (Source.Reading.BuildsParts library.characters False definition)
        (Source.Reading.definition library.characters definition) :=
      Source.Reading.definition_builds definition False.elim
    match parts : Source.Reading.definition library.characters definition with
    | .error e =>
      rw [parts] at gives
      cases gives with
      | error refusal => exact .inr (.inr (.inr (.inl ⟨definition, finds, e, parts, refusal⟩)))
    | .ok parts' => exact .inr (.inr (.inr (.inr ⟨_, definition, finds, by
        rw [Function.ofDefinition, parts]; rfl⟩)))

private theorem read_of_parse_error {source : String} {e : Source.ReadError}
    (broken : Source.parse source = .error e) (name : Option String) :
    Function.read library.characters source name [] = .error e := by
  simp only [Function.read, Source.findDefinition, broken, bind, Except.bind]

private theorem read_of_none {source : String} {statements : List Source.Statement}
    (parsed : Source.parse source = .ok statements)
    (none_asked : ∀ d ∈ Source.definitions statements, request.asksFor d = false) :
    Function.read library.characters source request.function [] =
      .error (.noFunction request.function) := by
  have found : (Source.definitions statements).find? request.asksFor = none := by
    simpa using none_asked
  simp only [Function.read, findDefinition_eq parsed, found, bind, Except.bind]

private theorem exists_read_of_finds {definition : Source.Definition}
    (finds : request.Finds files definition) : ∃ source, request.HoldsSource files source ∧
      Function.read library.characters source request.function [] =
        Function.ofDefinition library.characters definition Environment.standard := by
  obtain ⟨source, statements, holds, parsed, found⟩ := finds
  refine ⟨source, holds, ?_⟩
  simp only [Function.read, findDefinition_eq parsed, found, bind, Except.bind, List.nil_append]

private theorem ofDefinition_of_refusal {definition : Source.Definition} {e : Source.ReadError}
    (refused : Source.Reading.definition library.characters definition = .error e)
    (env : Environment) :
    Function.ofDefinition library.characters definition env = .error e := by
  rw [Function.ofDefinition, refused]
  rfl

private theorem function_of_source {source : String} (holds : request.HoldsSource files source) :
    request.function? files library =
      match Function.read library.characters source request.function [] with
      | .ok fn => .ok (.ok fn)
      | .error .grammar =>
        .ok (.error ("Cannot parse " ++ request.path.text ++ library.complaint source))
      | .error (.unsupported construct detail) => .ok (.error (request.path.text ++ ": " ++
          (Source.ReadError.unsupported construct detail).message))
      | .error (.noFunction name) => .ok (.error (request.path.text ++ ": " ++
          (Source.ReadError.noFunction name).message))
      | .error e => .error (.read e) := by
  obtain ⟨data, text, found, decoded, rfl⟩ := holds
  cases read : Function.read library.characters
      (String.ofList (Text.Utf8.unifyNewlines text.toList)) request.function [] with
  | ok fn => simp only [function?, found, decoded, read]
  | error e => cases e <;> simp only [function?, found, decoded, read]

private theorem function_of_uncaught {source : String} (holds : request.HoldsSource files source)
    {e : Source.ReadError}
    (read : Function.read library.characters source request.function [] = .error e)
    (uncaught : e = .mixedStrings ∨ e = .literal) :
    request.function? files library = .error (.read e) := by
  rcases uncaught with rfl | rfl <;> simp only [function_of_source holds, read]

private theorem run_of_settings {message : String}
    (refused : request.settings files library = .ok (.error message)) :
    run files request library = (failure ("Invalid configuration: " ++ message)).map fun report =>
      { report with lines := report.lines.take 1 } := by
  simp only [run, refused, bind, Except.bind]
  cases failure ("Invalid configuration: " ++ message) <;> rfl

section

variable (alone : files.nearestProject? request.path.parent = none)

include alone

private theorem run_of_reads (valid : request.Valid) {fn : Function}
    (reads : request.Reads files library fn) :
    fn.Legible ∧ ∃ settings, run files request library = report request settings fn := by
  obtain ⟨definition, finds, converted⟩ := reads
  obtain ⟨source, holds, same⟩ := exists_read_of_finds finds
  have read := same.trans converted
  obtain ⟨settings, loaded⟩ : ∃ settings, request.settings files library = .ok (.ok settings) :=
    settings_of_valid alone valid
  refine ⟨Function.legible_of_read read, settings, ?_⟩
  simp only [run, loaded, function_of_source holds, read, bind, Except.bind]

private theorem run_of_escape (valid : request.Valid) {e : Escape}
    (escaped : request.function? files library = .error e) :
    run files request library = .error e := by
  obtain ⟨settings, loaded⟩ : ∃ settings, request.settings files library = .ok (.ok settings) :=
    settings_of_valid alone valid
  simp only [run, loaded, escaped, bind, Except.bind]

private theorem run_of_message (valid : request.Valid) {message : String}
    (refused : request.function? files library = .ok (.error message)) :
    run files request library = failure message := by
  obtain ⟨settings, loaded⟩ : ∃ settings, request.settings files library = .ok (.ok settings) :=
    settings_of_valid alone valid
  simp only [run, loaded, refused, bind, Except.bind]

private theorem run_of_fails {text : String} (fails : request.Fails files library text) :
    run files request library = failure text ∨
      run files request library = (failure text).map fun report =>
        { report with lines := report.lines.take 1 } := by
  cases fails with
  | item first => exact .inr (run_of_settings (settings_of_bare first))
  | fields divided refused =>
    exact .inr (run_of_settings (settings_of_refused alone divided refused))
  | missing valid absent =>
    exact .inl (run_of_message alone valid (by simp only [function?, absent]))
  | garbled valid found undecodable =>
    exact .inl (run_of_message alone valid (by simp only [function?, found, undecodable]))
  | grammar valid holds broken =>
    have read : Function.read library.characters _ request.function [] = _ :=
      read_of_parse_error broken request.function
    exact .inl (run_of_message alone valid (by simp only [function_of_source holds, read]))
  | nowhere valid holds parsed none_asked =>
    have read : Function.read library.characters _ request.function [] = _ :=
      read_of_none parsed none_asked
    exact .inl (run_of_message alone valid (by simp only [function_of_source holds, read]))
  | unsupported valid finds refused =>
    obtain ⟨source, holds, same⟩ := exists_read_of_finds finds
    have read := same.trans (ofDefinition_of_refusal refused _)
    exact .inl (run_of_message alone valid (by simp only [function_of_source holds, read]))

private theorem exists_run_of_succeeds (succeeds : request.Succeeds files library) :
    ∃ lines, run files request library = .ok ⟨0, lines⟩ := by
  obtain ⟨valid, fn, reads, short⟩ := succeeds
  obtain ⟨legible, settings, ran⟩ : fn.Legible ∧
      ∃ settings, run files request library = report request settings fn :=
    run_of_reads alone valid reads
  rw [ran]
  exact exists_report legible short

private theorem exists_run_of_fails {text : String} (fails : request.Fails files library text)
    (prints : Prints (Console.Level.error.sign ++ text)) :
    ∃ lines, run files request library = .ok ⟨1, lines⟩ := by
  obtain ⟨lines, failed⟩ := exists_failure prints
  rcases run_of_fails alone fails with ran | ran
  · exact ⟨lines, ran.trans failed⟩
  · exact ⟨lines.take 1, by rw [ran, failed]; rfl⟩

private theorem run_of_crashes {e : Escape} (crashes : request.Crashes files library e) :
    run files request library = .error e := by
  cases crashes with
  | locked valid found =>
    exact run_of_escape alone valid (by simp only [function?, found])
  | mixed valid holds joined =>
    exact run_of_escape alone valid
      (function_of_uncaught holds (read_of_parse_error joined _) (.inl rfl))
  | literal valid finds valueless =>
    obtain ⟨source, holds, same⟩ := exists_read_of_finds finds
    have read := same.trans (ofDefinition_of_refusal valueless _)
    exact run_of_escape alone valid (function_of_uncaught holds read (.inr rfl))
  | @long valid fn reads command long =>
    obtain ⟨legible, settings, ran⟩ : fn.Legible ∧
        ∃ settings, run files request library = report request settings fn :=
      run_of_reads alone valid reads
    rw [ran]
    exact report_of_long legible command long
  | message fails broken =>
    have failed := failure_of_unmatched broken
    rcases run_of_fails alone fails with ran | ran
    · exact ran.trans failed
    · rw [ran, failed]
      rfl

end

variable (request files library) in
private theorem ends_cases : request.Succeeds files library ∨
    (∃ text, request.Fails files library text ∧ Prints (Console.Level.error.sign ++ text)) ∨
    ∃ e, request.Crashes files library e := by
  have fails {text : String} (failing : request.Fails files library text) :
      request.Succeeds files library ∨
        (∃ text, request.Fails files library text ∧
          Prints (Console.Level.error.sign ++ text)) ∨
        ∃ e, request.Crashes files library e := by
    match printed : lines (Console.Level.error.sign ++ text) with
    | .ok shown => exact .inr (.inl ⟨text, failing, shown, printed⟩)
    | .error unmatched => exact .inr (.inr ⟨_, .message failing printed⟩)
  rcases request.items_cases with valid | ⟨item, first⟩ | ⟨report, divided, refused⟩
  · rcases request.file_cases files with absent | locked | ⟨data, malformed, found, bad⟩ |
      ⟨source, holds⟩
    · exact fails (.missing valid absent)
    · exact .inr (.inr ⟨_, .locked valid locked⟩)
    · exact fails (.garbled valid found bad)
    rcases source_cases holds with broken | mixed | ⟨statements, parsed, none_asked⟩ |
      ⟨definition, finds, e, refused, refusal⟩ | ⟨fn, reads⟩
    · exact fails (.grammar valid holds broken)
    · exact .inr (.inr ⟨_, .mixed valid holds mixed⟩)
    · exact fails (.nowhere valid holds parsed none_asked)
    · rcases refusal with ⟨construct, detail, rfl⟩ | rfl
      · exact fails (.unsupported valid finds refused)
      · exact .inr (.inr ⟨_, .literal valid finds refused⟩)
    by_cases bad : request.command = .outline ∧ fn.holdsLong = true
    · exact .inr (.inr ⟨_, .long valid reads bad.1 bad.2⟩)
    · exact .inl ⟨valid, fn, reads, fun command => by simpa [command] using bad⟩
  · exact fails (.item first)
  · exact fails (.fields divided refused)

private theorem ends_of_report (alone : files.nearestProject? request.path.parent = none)
    {report : Report} (ran : run files request library = .ok report) :
    (report.exit = 0 ∧ request.Succeeds files library) ∨
      (report.exit = 1 ∧ ∃ text, request.Fails files library text ∧
        Prints (Console.Level.error.sign ++ text)) := by
  rcases request.ends_cases files library with succeeds | ⟨text, fails, prints⟩ | ⟨e, crashes⟩
  · obtain ⟨lines, done⟩ := exists_run_of_succeeds alone succeeds
    obtain rfl := Except.ok.inj (done.symm.trans ran)
    exact .inl ⟨rfl, succeeds⟩
  · obtain ⟨lines, done⟩ := exists_run_of_fails alone fails prints
    obtain rfl := Except.ok.inj (done.symm.trans ran)
    exact .inr ⟨rfl, text, fails, prints⟩
  · cases (run_of_crashes alone crashes).symm.trans ran

/-- A file with one function, in which a character is written by its name. -/
def oneFunction : Files where
  current := []
  entries := [(["good.py"],
    some ("def f(x): return x + '\\N\x7bBULLET\x7d'".toList.map fun c => c.toNat.toUInt8))]

/-- A file with a function that returns a text whose last escape is cut off. -/
def cutEscape : Files where
  current := []
  entries := [(["bad.py"], some ("def f(): return '\\u12'".toList.map fun c => c.toNat.toUInt8))]

/-- The request to list the variables of the function in the first file. -/
def listsGood : Request := { command := .symbols, path := ⟨"", ["good.py"]⟩ }

/-- The request to outline the function in the second file. -/
def showsBad : Request := { command := .outline, path := ⟨"", ["bad.py"]⟩ }

def isDone : Except Escape Report → Bool
  | .ok ⟨0, _⟩ => true
  | _ => false

private theorem exists_of_isDone {ran : Except Escape Report} (done : isDone ran = true) :
    ∃ lines, ran = .ok ⟨0, lines⟩ := by
  unfold isDone at done
  split at done
  · exact ⟨_, rfl⟩
  · cases done

/-- Whether a run was ended by a literal without a value. -/
def isValueless : Except Escape Report → Bool
  | .error (.read .literal) => true
  | _ => false

private theorem eq_of_isValueless {ran : Except Escape Report}
    (valueless : isValueless ran = true) : ran = .error (.read .literal) := by
  unfold isValueless at valueless
  split at valueless
  · rfl
  · cases valueless

private theorem isValueless_cutEscape : isValueless (run cutEscape showsBad) =
    true := by decide +kernel

end Request

end CommandLine

end TreePass
