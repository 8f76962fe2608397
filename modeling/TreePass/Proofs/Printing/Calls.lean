import TreePass.Proofs.Printing.Operations

/-!
How the grammar reads calls and subscripts whose arguments and items are operands.
-/

set_option autoImplicit false
set_option relaxedAutoImplicit false

namespace TreePass.Source.Grammar

def commas (lists : List (List Token)) : List Token := [Token.mark ","].intercalate lists

private theorem commas_cons_cons (first second : List Token) (more : List (List Token))
    (rest : List Token) :
    commas (first :: second :: more) ++ rest =
      first ++ .mark "," :: (commas (second :: more) ++ rest) := by
  simp [commas, List.intercalate_cons_cons]

private theorem commas_singleton (tokens : List Token) : commas [tokens] = tokens :=
  List.intercalate_singleton

private theorem length_le_commas {lists : List (List Token)} {tokens : List Token}
    (listed : tokens ∈ lists) : tokens.length ≤ (commas lists).length := by
  induction lists with
  | nil => cases listed
  | cons first more ih =>
    cases more with
    | nil =>
      obtain rfl := List.mem_singleton.mp listed
      rw [commas_singleton]
    | cons second others =>
      have shape := commas_cons_cons first second others []
      rw [List.append_nil, List.append_nil] at shape
      rw [shape, List.length_append, List.length_cons]
      rcases List.mem_cons.mp listed with rfl | later
      · omega
      · have small := ih later
        omega

private theorem length_lists_le (lists : List (List Token)) :
    lists.length ≤ (commas lists).length + 1 := by
  induction lists with
  | nil => exact Nat.zero_le _
  | cons first more ih =>
    cases more with
    | nil => simp
    | cons second others =>
      have shape := commas_cons_cons first second others []
      rw [List.append_nil, List.append_nil] at shape
      rw [shape, List.length_append]
      simp only [List.length_cons] at ih ⊢
      omega

private theorem plain_commas {lists : List (List Token)}
    (plain : ∀ tokens ∈ lists, tokens.all isPlain = true) :
    (commas lists).all isPlain = true := by
  induction lists with
  | nil => rfl
  | cons first more ih =>
    have one := plain first List.mem_cons_self
    have others := ih fun tokens member => plain tokens (List.mem_cons_of_mem _ member)
    cases more with
    | nil => rwa [commas_singleton]
    | cons second left =>
      have shape := commas_cons_cons first second left []
      rw [List.append_nil, List.append_nil] at shape
      rw [shape, List.all_append, List.all_cons, one, others]
      rfl

structure Argument where
  name : Option String
  tokens : List Token
  term : Term

namespace Argument

def written (arg : Argument) : List Token :=
  match arg.name with
  | none => arg.tokens
  | some name => .word name :: .mark "=" :: arg.tokens

def passed (arg : Argument) : Passing × Term :=
  match arg.name with
  | none => (.positional, arg.term)
  | some name => (.keyword name, arg.term)

def phase (arg : Argument) : ArgumentPhase :=
  match arg.name with
  | none => .positional
  | some _ => .named

structure Sound (arg : Argument) : Prop where
  named : ∀ name ∈ arg.name, name ∉ Token.keywords
  operand : Operand arg.tokens arg.term

/-- Arguments without names come before those with names. -/
def Ordered : ArgumentPhase → List Argument → Prop
  | _, [] => True
  | phase, arg :: rest =>
    phase ≠ .mappings ∧ (arg.name = none → phase = .positional) ∧ Ordered arg.phase rest

private theorem length_le_written (arg : Argument) : arg.tokens.length ≤ arg.written.length := by
  obtain ⟨name | name, tokens, term⟩ := arg
  · exact Nat.le_refl _
  · simp only [written, List.length_cons]
    omega

private theorem plain_written {arg : Argument} (sound : arg.Sound) : arg.written.all isPlain =
    true := by
  obtain ⟨name | name, tokens, term⟩ := arg
  · exact sound.operand.plain
  · have plain := sound.operand.plain
    simpa [written, isPlain] using plain

variable {g : Level} {rest : List Token}

private theorem argument_eq {tokens : List Token} (begins : Begins tokens) (closes : Closes rest) :
    argument g .positional (tokens ++ rest) =
      (namedExpression g >>= fun value =>
        pure (ArgumentPhase.positional, Passing.positional, value)) (tokens ++ rest) := by
  cases begins with
  | parenthesis | number => rfl
  | @word text atom more next =>
    have unbound : ∀ t ∈ (more ++ rest).head?, isBinding t = false := by
      cases more with
      | nil => cases closes <;> simp [isBinding]
      | cons t left => exact next
    rw [argument, bind_of_run (ahead_run _)]
    refine congrFun ?_ _
    rw [List.cons_append]
    generalize more ++ rest = after at unbound
    split
    · rename_i same
      cases (List.cons.inj same).1
    · rename_i same
      cases (List.cons.inj same).1
    · rename_i same
      rw [(List.cons.inj same).2] at unbound
      have binding := unbound _ rfl
      cases binding
    · rfl

theorem argument_run {arg : Argument} (sound : arg.Sound) (closes : Closes rest)
    (ran : g.expression (arg.tokens ++ rest) = some (arg.term, rest)) {phase : ArgumentPhase}
    (noMappings : phase ≠ .mappings) (ordered : arg.name = none → phase = .positional) :
    argument g phase (arg.written ++ rest) = some ((arg.phase, arg.passed), rest) := by
  obtain ⟨name | name, tokens, term⟩ := arg
  · obtain rfl := ordered rfl
    have begins := sound.operand.begins
    have value := namedExpression_run (.operand begins) closes ran
    change argument g .positional (tokens ++ rest) = _
    rw [argument_eq begins closes, bind_of_run value]
    rfl
  · have accepted : (!Token.keywords.contains name) = true := by
      simpa using sound.named name rfl
    have next : (if phase = .mappings then ArgumentPhase.mappings else .named) = .named :=
      if_neg noMappings
    change (require (!Token.keywords.contains name) >>= fun _ => _) _ = _
    rw [accepted]
    change (g.expression >>= fun value => pure ((if phase = .mappings then
      ArgumentPhase.mappings else .named), Passing.keyword name, value)) (tokens ++ rest) = _
    rw [next, bind_of_run ran]
    rfl

end Argument

section Calls

variable {g : Level} {rest : List Token}

private theorem Argument.Sound.noClosing {arg : Argument} (sound : arg.Sound) (more : List Token) :
    nextIsMark ")" (arg.written ++ more) = some (false, arg.written ++ more) := by
  obtain ⟨name | name, tokens, term⟩ := arg
  · exact sound.operand.begins.nextIsMark (by decide) more
  · rfl

private theorem argumentsFrom_run {args : List Argument} {phase : ArgumentPhase}
    (ordered : Argument.Ordered phase args) (sound : ∀ arg ∈ args, arg.Sound)
    (reads : ∀ arg ∈ args, ∀ rest, Closes rest →
      g.expression (arg.tokens ++ rest) = some (arg.term, rest))
    {fuel : Nat} (enough : args.length < fuel) :
    argumentsFrom g fuel phase (commas (args.map Argument.written) ++ .mark ")" :: rest) =
      some (args.map Argument.passed, .mark ")" :: rest) := by
  induction args generalizing phase fuel with
  | nil =>
    obtain ⟨fuel, rfl⟩ : ∃ less, fuel = less + 1 := ⟨fuel - 1, by omega⟩
    rfl
  | cons arg more ih =>
    obtain ⟨fuel, rfl⟩ : ∃ less, fuel = less + 1 := ⟨fuel - 1, by omega⟩
    obtain ⟨noMappings, ordered, later⟩ := ordered
    have first {rest : List Token} (closes : Closes rest) :
        argument g phase (arg.written ++ rest) = some ((arg.phase, arg.passed), rest) :=
      Argument.argument_run (sound arg List.mem_cons_self) closes
        (reads arg List.mem_cons_self rest closes) noMappings ordered
    have noEnd (more : List Token) :
        nextIsMark ")" (arg.written ++ more) = some (false, arg.written ++ more) :=
      (sound arg List.mem_cons_self).noClosing more
    cases more with
    | nil =>
      rw [List.map_cons, List.map_nil, commas_singleton, argumentsFrom, bind_of_run (noEnd _),
        if_neg Bool.false_ne_true, bind_of_run (first (.parenthesis rest))]
      rfl
    | cons second others =>
      have after := ih later (fun arg member => sound arg (List.mem_cons_of_mem _ member))
        (fun arg member => reads arg (List.mem_cons_of_mem _ member))
        (show (second :: others).length < fuel by simp only [List.length_cons] at enough ⊢; omega)
      have comma (more : List Token) : optionalMark "," (.mark "," :: more) = some (true, more) :=
        rfl
      rw [List.map_cons, List.map_cons, commas_cons_cons, argumentsFrom, bind_of_run (noEnd _),
        if_neg Bool.false_ne_true, bind_of_run (first (.comma _))]
      change (optionalMark "," >>= fun _ => _) _ = _
      rw [bind_of_run (comma _), if_pos rfl]
      rw [List.map_cons] at after
      rw [bind_of_run after]
      rfl

private theorem optionalMark_comma (more : List Token) :
    optionalMark "," (.mark "," :: more) = some (true, more) := rfl

theorem arguments_run {args : List Argument} (ordered : Argument.Ordered .positional args)
    (sound : ∀ arg ∈ args, arg.Sound)
    (reads : ∀ arg ∈ args, ∀ rest, Closes rest →
      g.expression (arg.tokens ++ rest) = some (arg.term, rest)) :
    arguments g (commas (args.map Argument.written) ++ .mark ")" :: rest) =
      some (args.map Argument.passed, rest) := by
  cases args with
  | nil => rfl
  | cons arg more =>
    obtain ⟨noMappings, ordered, later⟩ := ordered
    have noEnd (more : List Token) :
        optionalMark ")" (arg.written ++ more) = some (false, arg.written ++ more) :=
      bind_of_run ((sound arg List.mem_cons_self).noClosing more)
    have first {rest : List Token} (closes : Closes rest) :
        argument g .positional (arg.written ++ rest) = some ((arg.phase, arg.passed), rest) :=
      Argument.argument_run (sound arg List.mem_cons_self) closes
        (reads arg List.mem_cons_self rest closes) noMappings ordered
    cases more with
    | nil =>
      have closes := Closes.parenthesis rest
      rw [List.map_cons, List.map_nil, commas_singleton, arguments, bind_of_run (noEnd _),
        if_neg Bool.false_ne_true, bind_of_run (first closes)]
      rfl
    | cons second others =>
      have few := length_lists_le ((second :: others).map Argument.written)
      have after : argumentsFrom g
          ((commas ((second :: others).map Argument.written) ++ .mark ")" :: rest).length + 1)
          arg.phase (commas ((second :: others).map Argument.written) ++ .mark ")" :: rest) =
          some ((second :: others).map Argument.passed, .mark ")" :: rest) := by
        refine argumentsFrom_run later (fun arg member => sound arg (List.mem_cons_of_mem _ member))
          (fun arg member => reads arg (List.mem_cons_of_mem _ member)) ?_
        simp only [List.length_map, List.length_append, List.length_cons] at few ⊢
        omega
      have closes : Closes (.mark "," :: (commas ((second :: others).map Argument.written) ++
        .mark ")" :: rest)) := .comma _
      rw [List.map_cons] at after closes
      rw [List.map_cons, List.map_cons, commas_cons_cons, arguments, bind_of_run (noEnd _),
        if_neg Bool.false_ne_true, bind_of_run (first closes)]
      change (nextIsClause >>= fun _ => _) _ = _
      rw [bind_of_run closes.nextIsClause, if_neg Bool.false_ne_true,
        bind_of_run (optionalMark_comma _), if_pos rfl]
      rw [bind_of_run (ahead_run _), bind_of_run after]
      rfl

end Calls

section Subscripts

variable {g : Level} {rest : List Token}

private theorem index_run {tokens : List Token} {term : Term} (begins : Begins tokens)
    (closes : Closes rest) (ran : g.expression (tokens ++ rest) = some (term, rest)) :
    index g (tokens ++ rest) = some (.item term, rest) := by
  have noSlice : nextIsMark ":" rest = some (false, rest) := by
    cases closes <;> rfl
  have value := namedExpression_run (.operand begins) closes ran
  rw [index, bind_of_run (begins.nextIsMark (by decide) rest), if_neg Bool.false_ne_true,
    bind_of_run (begins.optionalMark (by decide) rest), if_neg Bool.false_ne_true,
    bind_of_run value, bind_of_run noSlice]
  rfl

private theorem itemsUntil_run {items : List (List Token × Term)}
    (begins : ∀ item ∈ items, Begins item.1) (reads : ∀ item ∈ items, ∀ rest, Closes rest →
      g.expression (item.1 ++ rest) = some (item.2, rest)) {fuel : Nat}
    (enough : items.length < fuel) :
    itemsUntil (nextIsMark "]") (index g) fuel
        (commas (items.map Prod.fst) ++ .mark "]" :: rest) =
      some (items.map fun item => .item item.2, .mark "]" :: rest) := by
  induction items generalizing fuel with
  | nil =>
    obtain ⟨fuel, rfl⟩ : ∃ less, fuel = less + 1 := ⟨fuel - 1, by omega⟩
    rfl
  | cons item more ih =>
    obtain ⟨fuel, rfl⟩ : ∃ less, fuel = less + 1 := ⟨fuel - 1, by omega⟩
    have starts := begins item List.mem_cons_self
    have first {rest : List Token} (closes : Closes rest) :
        index g (item.1 ++ rest) = some (.item item.2, rest) :=
      index_run starts closes (reads item List.mem_cons_self rest closes)
    have noEnd (more : List Token) :
        nextIsMark "]" (item.1 ++ more) = some (false, item.1 ++ more) :=
      starts.nextIsMark (by decide) more
    cases more with
    | nil =>
      rw [List.map_cons, List.map_nil, commas_singleton, itemsUntil, bind_of_run (noEnd _),
        if_neg Bool.false_ne_true, bind_of_run (first (.bracket rest))]
      rfl
    | cons second others =>
      have after := ih (fun item member => begins item (List.mem_cons_of_mem _ member))
        (fun item member => reads item (List.mem_cons_of_mem _ member))
        (show (second :: others).length < fuel by simp only [List.length_cons] at enough ⊢; omega)
      rw [List.map_cons, List.map_cons, commas_cons_cons, itemsUntil, bind_of_run (noEnd _),
        if_neg Bool.false_ne_true, bind_of_run (first (.comma _)),
        bind_of_run (optionalMark_comma _), if_pos rfl]
      rw [List.map_cons] at after
      rw [bind_of_run after]
      rfl

private theorem indices_run {items : List (List Token × Term)} (some_ : items ≠ [])
    (begins : ∀ item ∈ items, Begins item.1)
    (reads : ∀ item ∈ items, ∀ rest, Closes rest →
      g.expression (item.1 ++ rest) = some (item.2, rest)) :
    indices g (commas (items.map Prod.fst) ++ .mark "]" :: rest) =
      some (items.map fun item => .item item.2, rest) := by
  have noEnd : nextIsMark "]" (commas (items.map Prod.fst) ++ .mark "]" :: rest) =
      some (false, commas (items.map Prod.fst) ++ .mark "]" :: rest) := by
    cases items with
    | nil => exact absurd rfl some_
    | cons item more =>
      have starts := begins item List.mem_cons_self
      cases more with
      | nil =>
        rw [List.map_cons, List.map_nil, commas_singleton]
        exact starts.nextIsMark (by decide) _
      | cons second others =>
        rw [List.map_cons, List.map_cons, commas_cons_cons]
        exact starts.nextIsMark (by decide) _
  have few := length_lists_le (items.map Prod.fst)
  have all : listUntil (nextIsMark "]") (index g)
      (commas (items.map Prod.fst) ++ .mark "]" :: rest) =
      some (items.map fun item => .item item.2, .mark "]" :: rest) := by
    refine itemsUntil_run begins reads ?_
    simp only [List.length_map, List.length_append, List.length_cons] at few ⊢
    omega
  have allowed (tokens : List Token) : require (!false) tokens = some ((), tokens) := rfl
  rw [indices, bind_of_run noEnd, bind_of_run (allowed _), bind_of_run all]
  rfl

end Subscripts

namespace Operand

variable {tokens : List Token} {term : Term}

theorem call (operand : Operand tokens term) (args : List Argument)
    (ordered : Argument.Ordered .positional args) (sound : ∀ arg ∈ args, arg.Sound) :
    Operand (tokens ++ .mark "(" :: (commas (args.map Argument.written) ++ [.mark ")"]))
      (.call term (args.map Argument.passed)) := by
  refine operand.extended (by simp) ?_ (fun _ => Term.noConfusion) ?_
  · have plain : (commas (args.map Argument.written)).all isPlain = true := by
      refine plain_commas fun written listed => ?_
      obtain ⟨arg, member, rfl⟩ := List.mem_map.mp listed
      exact Argument.plain_written (sound arg member)
    rw [List.all_append, plain]
    rfl
  · intro depth deep rest
    rw [List.length_append] at deep
    obtain ⟨depth, rfl⟩ : ∃ below, depth = below + 1 := ⟨depth - 1, by omega⟩
    have reads : ∀ arg ∈ args, ∀ rest, Closes rest →
        (Level.ofDepth (depth + 1)).expression (arg.tokens ++ rest) = some (arg.term, rest) := by
      intro arg member rest closes
      have small := length_le_commas (List.mem_map_of_mem (f := Argument.written) member)
      have smaller := arg.length_le_written
      exact (sound arg member).operand.whole.expression depth (by omega) rest closes
    have ran : arguments (.ofDepth (depth + 1))
        (commas (args.map Argument.written) ++ .mark ")" :: rest) =
        some (args.map Argument.passed, rest) := arguments_run ordered sound reads
    have shape : commas (args.map Argument.written) ++ [.mark ")"] ++ rest =
        commas (args.map Argument.written) ++ .mark ")" :: rest := by
      simp
    rw [List.cons_append, follow_eq, if_neg (by decide), if_pos rfl, shape, bind_of_run ran]
    rfl

theorem subscript (operand : Operand tokens term) (items : List (List Token × Term))
    (some_ : items ≠ []) (operands : ∀ item ∈ items, Operand item.1 item.2) :
    Operand (tokens ++ .mark "[" :: (commas (items.map Prod.fst) ++ [.mark "]"]))
      (.subscript term (items.map fun item => .item item.2)) := by
  refine operand.extended (by simp) ?_ (fun _ => Term.noConfusion) ?_
  · have plain : (commas (items.map Prod.fst)).all isPlain = true := by
      refine plain_commas fun tokens listed => ?_
      obtain ⟨item, member, rfl⟩ := List.mem_map.mp listed
      exact (operands item member).plain
    rw [List.all_append, plain]
    rfl
  · intro depth deep rest
    rw [List.length_append] at deep
    obtain ⟨depth, rfl⟩ : ∃ below, depth = below + 1 := ⟨depth - 1, by omega⟩
    have reads : ∀ item ∈ items, ∀ rest, Closes rest →
        (Level.ofDepth (depth + 1)).expression (item.1 ++ rest) = some (item.2, rest) := by
      intro item member rest closes
      have small := length_le_commas (List.mem_map_of_mem (f := Prod.fst) member)
      exact (operands item member).whole.expression depth (by omega) rest closes
    have ran : indices (.ofDepth (depth + 1))
        (commas (items.map Prod.fst) ++ .mark "]" :: rest) =
        some (items.map fun item => .item item.2, rest) :=
      indices_run some_ (fun item member => (operands item member).begins) reads
    have shape : commas (items.map Prod.fst) ++ [.mark "]"] ++ rest =
        commas (items.map Prod.fst) ++ .mark "]" :: rest := by
      simp
    rw [List.cons_append, follow_eq, if_neg (by decide), if_neg (by decide), shape,
      bind_of_run ran]
    rfl

end Operand

end TreePass.Source.Grammar
