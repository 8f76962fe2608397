import TreePass.CommandLine.Run
import TreePass.Proofs.Analysing.Collecting
import TreePass.Proofs.Outlining.Labels
import TreePass.Proofs.Source.Locals

/-!
Reports on functions. A function that has been read is always reported on, unless its outline would
have to show an integer that is too long: its notes, its outline and its list of variables print.
-/

set_option autoImplicit false
set_option relaxedAutoImplicit false

namespace TreePass

open Console.Markup
open Source.Reading (Known)

namespace Node

private theorem holdsLong_bare (node : Expr) : node.bare.holdsLong = node.holdsLong := by
  induction node using Node.induction with
  | atomic | symbol | primitive => rfl
  | pairlist tag params ih =>
    simp only [bare, holdsLong]
    induction params with
    | nil => rfl
    | cons p rest ihr =>
      have later := ihr fun q h => ih q (List.mem_cons_of_mem _ h)
      obtain ⟨name, d | d⟩ := p
      · exact later
      · simp only [bareParams, paramsHoldLong, later, ih (name, some d) List.mem_cons_self d rfl]
  | call tag callee args ihc iha =>
    simp only [bare, holdsLong, ihc]
    congr 1
    induction args with
    | nil => rfl
    | cons a rest ihr =>
      obtain ⟨name, a⟩ := a
      simp only [bareArgs, argsHoldLong, iha (name, a) List.mem_cons_self,
        ihr fun b h => iha b (List.mem_cons_of_mem _ h)]

private theorem holdsLong_eq_of_bare {node other : Expr} (same : other.bare = node.bare) :
    other.holdsLong = node.holdsLong := by
  rw [← holdsLong_bare other, same, holdsLong_bare]

private theorem known_of_written {root : Expr} (written : ∀ n ∈ root.nodes, n.Written) :
    ∀ name ∈ root.names, Known name := by
  intro name listed
  obtain ⟨n, member, own⟩ := List.mem_flatMap.mp listed
  have here := written n member
  cases n with
  | atomic | call => cases own
  | primitive => cases here
  | symbol tag text =>
    obtain rfl : name = text := by simpa [ownNames, symbolName?, paramNames?] using own
    exact here
  | pairlist tag params =>
    have declared : name ∈ params.map (·.1) := by
      simpa [ownNames, symbolName?, paramNames?] using own
    obtain ⟨p, given, rfl⟩ := List.mem_map.mp declared
    exact .inl (here p given)

end Node

namespace Function

def holdsLong (fn : Function) : Bool := fn.params.holdsLong || fn.body.holdsLong

structure Legible (fn : Function) : Prop where
  list : fn.params.isPairlist = true
  title : ∀ text ∈ fn.name, Source.IsWord text
  params : ∀ name ∈ fn.params.names, Known name
  body : ∀ name ∈ fn.body.names, Known name
  declared : ∀ name ∈ fn.params.paramNames?.getD [], Source.IsWord name

private theorem read_eq_ok_iff {characters : Source.CharacterNames} {source : String}
    {name : Option String} {names : Environment} {fn : Function} :
    read characters source name names = .ok fn ↔
      ∃ definition, Source.findDefinition source name = .ok definition ∧
        ofDefinition characters definition (names ++ Environment.standard) = .ok fn :=
  Source.Reading.bind_eq_ok

theorem legible_of_read {characters : Source.CharacterNames} {source : String}
    {name : Option String} {names : Environment} {fn : Function}
    (readOk : read characters source name names = .ok fn) : fn.Legible := by
  obtain ⟨title, inParams, inBody⟩ := written_of_read readOk
  obtain ⟨definition, -, converted⟩ := read_eq_ok_iff.mp readOk
  obtain ⟨list, -⟩ := Source.images_of_definition converted
  obtain ⟨⟨params, body⟩, -, made⟩ := Source.Reading.bind_eq_ok.mp converted
  obtain rfl := Except.ok.inj made
  refine ⟨list, title, Node.known_of_written inParams, Node.known_of_written inBody, ?_⟩
  intro name listed
  have here := inParams params params.self_mem_nodes
  cases params with
  | atomic | symbol | primitive | call => cases list
  | pairlist tag params =>
    obtain ⟨p, given, rfl⟩ := List.mem_map.mp listed
    exact here p given

private theorem Legible.plain_title {fn : Function} (legible : fn.Legible) :
    (fn.name.getD "None").toList.all isPlain = true := by
  cases title : fn.name with
  | none => decide
  | some text => exact (legible.title text title).plain

structure Resembles (other fn : Function) : Prop where
  params : other.params.bare = fn.params.bare
  body : other.body.bare = fn.body.bare
  name : other.name = fn.name

variable {fn other : Function}

theorem Resembles.legible (resembles : other.Resembles fn) (legible : fn.Legible) :
    other.Legible where
  list := by
    rw [← Node.isPairlist_bare, resembles.params, Node.isPairlist_bare]
    exact legible.list
  title := by
    rw [resembles.name]
    exact legible.title
  params := by
    rw [Node.names_eq_of_bare resembles.params]
    exact legible.params
  body := by
    rw [Node.names_eq_of_bare resembles.body]
    exact legible.body
  declared := by
    rw [← Node.paramNames?_bare, resembles.params, Node.paramNames?_bare]
    exact legible.declared

private theorem Resembles.holdsLong_eq (resembles : other.Resembles fn) :
    other.holdsLong = fn.holdsLong := by
  rw [holdsLong, holdsLong, Node.holdsLong_eq_of_bare resembles.params,
    Node.holdsLong_eq_of_bare resembles.body]

variable {σ : Type}

private theorem plant_resembles (fn : Function) (s : Store σ) :
    fn.plant.Ends s fun out _ => out.Resembles fn := by
  obtain ⟨out, s', ran, params, body⟩ := fn.plant_ends s
  refine .of_run ran ⟨params, body, ?_⟩
  obtain ⟨params, s₁, -, ran⟩ := Action.run_bind_eq_ok.mp ran
  obtain ⟨body, s₂, -, ran⟩ := Action.run_bind_eq_ok.mp ran
  obtain ⟨rfl, -⟩ := Action.ok_inj ran
  rfl

end Function

structure Prepared (policy : Policy) (fn out : Function) (after : Store Unit) : Prop where
  ran : ∃ planted before, fn.plant.run (Store.initial ()) = (.ok planted, before) ∧
    (policy.annotate planted).run before = (.ok out, after)
  resembles : out.Resembles fn
  notes : ∀ note ∈ after.notes, note.Lists Known fn.name

private theorem exists_prepared (policy : Policy) {fn : Function} (legible : fn.Legible) :
    ∃ out after, Prepared policy fn out after := by
  obtain ⟨planted, before, ran, alike⟩ := fn.plant_resembles (Store.initial ())
  have legible' := alike.legible legible
  obtain ⟨out, after, ran', annotated⟩ := policy.annotate_ends legible'.list before
  refine ⟨out, after, ⟨planted, before, ran, ran'⟩, ⟨annotated.params.trans alike.params,
    annotated.body.trans alike.body, annotated.name.trans alike.name⟩, fun note listed => ?_⟩
  have planting : (fn.plant : Action Unit Function).Notes (Note.Lists Known fn.name) :=
    fn.notes_plant
  have annotating : (policy.annotate planted : Action Unit Function).Notes
      (Note.Lists Known fn.name) := by
    rw [← alike.name]
    exact Policy.notes_annotate legible'.params legible'.body
  refine (((planting.of_run ran).trans (annotating.of_run ran')) note listed).resolve_left ?_
  exact Array.not_mem_empty note

namespace CommandLine

variable {policy : Policy} {fn out : Function} {after : Store Unit}

/-- What a picture that prints, and the message after it, leave behind. -/
structure Shown (fn : Function) (result : Picture × Option String) (after : Store Unit) : Prop where
  picture : ∃ lines, result.1 = .ok lines
  message : ∀ text ∈ result.2, Whole text.toList
  notes : ∀ note ∈ after.notes, note.Lists Known fn.name

def tooLong : Fault :=
  .raised ("Exceeds the limit (" ++ toString Number.Numeral.maxDigits ++
    " digits) for integer string conversion; " ++
    "use sys.set_int_max_str_digits() to increase the limit")

private theorem run_outline_of_long (long : out.holdsLong = true) (scope : Scope) :
    (outline out scope).run after = (.error tooLong, after) := by
  have holds : (out.params.holdsLong || out.body.holdsLong) = true := long
  simp only [outline, holds, ↓reduceIte]
  rfl

private theorem outline_ends (prepared : Prepared policy fn out after) (legible : fn.Legible)
    (short : fn.holdsLong = false) (scope : Scope) :
    (outline out scope).Ends after (Shown fn) := by
  obtain ⟨planted, before, -, ran⟩ := prepared.ran
  have legible' := prepared.resembles.legible legible
  have holds : (out.params.holdsLong || out.body.holdsLong) = false :=
    prepared.resembles.holdsLong_eq.trans short
  have label : Prints (Outline.functionLabel out scope) :=
    Outline.prints_functionLabel scope legible'.plain_title fun name listed =>
      (legible'.declared name listed).plain
  simp only [outline, holds, Bool.false_eq_true, ↓reduceIte]
  refine Action.Ends.bind (Outline.ofFunction_prints ran label) ?_
  rintro tree _ ⟨rfl, printed⟩
  exact Action.ends_pure ⟨printed, by simp, prepared.notes⟩

private theorem symbolList_ends (prepared : Prepared policy fn out after) (legible : fn.Legible)
    (scope : Scope) (flags : Flags) (unique : Bool) :
    (symbolList out scope flags unique).Ends after (Shown fn) := by
  have legible' := prepared.resembles.legible legible
  obtain ⟨names, s, ran, -⟩ := collectSymbols_ends legible'.list flags unique after
  have noted := (notes_collectSymbols legible'.params legible'.body flags unique).of_run ran
  refine Action.ends_bind_of_run ran (Action.ends_pure ⟨?_, ?_, ?_⟩)
  · exact Console.Table.exists_lines ((Whole.of_plain (by decide)).strings
      (.of_plain legible'.plain_title)).clear.prints
  · intro text counted
    obtain rfl := Option.some.inj counted
    exact (Console.Markup.Whole.of_number names.length).strings (.of_plain (by decide))
  · rw [prepared.resembles.name] at noted
    exact fun note listed => (noted note listed).elim (prepared.notes note) id

def workOn (request : Request) (settings : Settings) (out : Function) :
    Action Unit (Picture × Option String) :=
  match request.command with
  | .outline => outline out (out.scope.getD Scope.empty)
  | .symbols => symbolList out (out.scope.getD Scope.empty) settings.flags request.unique

variable {request : Request} {settings : Settings}

private theorem run_work (prepared : Prepared settings.policy fn out after) :
    (work request settings fn).run (Store.initial ()) =
      (workOn request settings out).run after := by
  obtain ⟨planted, before, ran, ran'⟩ := prepared.ran
  rw [work, Action.run_bind_of_ok ran, Action.run_bind_of_ok ran']
  rfl

private theorem exists_entryLines (threshold : Int) {entries : List Console.Entry}
    (each : ∀ entry ∈ entries, Whole entry.message.toList) :
    ∃ lines, entryLines threshold entries = .ok lines := by
  induction entries with
  | nil => exact ⟨[], rfl⟩
  | cons entry rest ih =>
    obtain ⟨own, printed⟩ := Console.Entry.exists_lines_of_whole (each entry List.mem_cons_self)
    obtain ⟨later, below⟩ := ih fun other listed => each other (List.mem_cons_of_mem entry listed)
    by_cases shown : threshold ≤ entry.level.rank
    · refine ⟨own ++ later, ?_⟩
      simp only [entryLines, Console.Item.print, shown, ↓reduceIte, printed, below]
      rfl
    · refine ⟨[] ++ later, ?_⟩
      simp only [entryLines, Console.Item.print, shown, ↓reduceIte, below]
      rfl

theorem exists_report (legible : fn.Legible)
    (short : request.command = .outline → fn.holdsLong = false) :
    ∃ lines, report request settings fn = .ok ⟨0, lines⟩ := by
  obtain ⟨out, after, prepared⟩ := exists_prepared settings.policy legible
  obtain ⟨result, final, ran, shown⟩ :
      (workOn request settings out).Ends after (Shown fn) := by
    unfold workOn
    cases command : request.command with
    | outline => exact outline_ends prepared legible (short command) _
    | symbols => exact symbolList_ends prepared legible _ _ _
  obtain ⟨picture, message⟩ := result
  obtain ⟨lines, rfl⟩ := shown.picture
  have worked := (run_work prepared).trans ran
  have noting : ∀ entry ∈ final.notes.toList.map fun note =>
      (⟨.debug, note.message⟩ : Console.Entry), Whole entry.message.toList := by
    simp only [List.forall_mem_map, Array.mem_toList_iff]
    exact fun note listed => (shown.notes note listed).whole legible.title
  have saying : ∀ entry ∈ message.toList.map fun text => (⟨.info, text⟩ : Console.Entry),
      Whole entry.message.toList := by
    simp only [List.forall_mem_map, Option.mem_toList]
    exact shown.message
  obtain ⟨first, noted⟩ := exists_entryLines
    (if request.verbose then Console.Level.debug.rank else Console.standardThreshold) noting
  obtain ⟨last, said⟩ := exists_entryLines
    (if request.verbose then Console.Level.debug.rank else Console.standardThreshold) saying
  refine ⟨first ++ lines ++ last, ?_⟩
  simp only [report, worked, bind, Except.bind, noted, said, printed]
  rfl

theorem report_of_long (legible : fn.Legible) (command : request.command = .outline)
    (long : fn.holdsLong = true) : report request settings fn = .error (.fault tooLong) := by
  obtain ⟨out, after, prepared⟩ := exists_prepared settings.policy legible
  have ran : (workOn request settings out).run after = (.error tooLong, after) := by
    rw [workOn, command]
    exact run_outline_of_long (prepared.resembles.holdsLong_eq.trans long) _
  simp only [report, run_work prepared, ran]
  rfl

end CommandLine

end TreePass
