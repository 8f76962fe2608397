import TreePass.Source.Grammar.Expression

/-!
How the grammar reads operands: expressions that no operator beside them can take apart, which are
those that the rule for primaries reads. What follows an operand is any rest that does not extend
it.
-/

set_option autoImplicit false
set_option relaxedAutoImplicit false

namespace TreePass.Source.Grammar

variable {α β : Type}

theorem bind_of_run {parser : Parser α} {next : α → Parser β} {tokens rest : List Token} {value : α}
    (ran : parser tokens = some (value, rest)) : (parser >>= next) tokens = next value rest := by
  change (parser tokens).bind _ = _
  rw [ran]
  rfl

theorem ahead_run (tokens : List Token) : ahead tokens = some (tokens, tokens) := rfl

def follower : Parser (Option String) := do
  match ← ahead with
  | .mark text :: _ => return if [".", "(", "["].contains text then some text else none
  | _ => return none

def follow (g : Level) (value : Term) (text : String) : Parser Term := do
  advance
  if text = "." then return .member value (← name)
  else if text = "(" then return .call value (← arguments g)
  else return .subscript value (← indices g)

private theorem primary_eq (g : Level) : primary g = atom g >>= extend follower (follow g) := rfl

theorem follow_eq (g : Level) (value : Term) (text : String) (mark : Token) (rest : List Token) :
    follow g value text (mark :: rest) =
      (if text = "." then name >>= fun member => pure (.member value member)
        else if text = "(" then arguments g >>= fun args => pure (.call value args)
        else indices g >>= fun items => pure (.subscript value items) : Parser Term) rest := rfl

theorem extend_run (test : Parser (Option β)) (step : α → β → Parser α) (value : α)
    (tokens : List Token) :
    extend test step value tokens = extendWhile test step tokens.length value tokens := rfl

theorem extendWhile_stop {test : Parser (Option β)} {step : α → β → Parser α}
    {tokens : List Token} (stop : test tokens = some (none, tokens)) (fuel : Nat) (value : α) :
    extendWhile test step fuel value tokens = some (value, tokens) := by
  cases fuel with
  | zero => rfl
  | succ fuel =>
    rw [extendWhile, bind_of_run stop]
    rfl

theorem extendWhile_step {test : Parser (Option β)} {step : α → β → Parser α} {b : β}
    {tokens rest : List Token} {value value' : α} (found : test tokens = some (some b, tokens))
    (ran : step value b tokens = some (value', rest)) (fuel : Nat) :
    extendWhile test step (fuel + 1) value tokens = extendWhile test step fuel value' rest := by
  rw [extendWhile, bind_of_run found]
  exact bind_of_run ran

def isBinding : Token → Bool
  | .mark text => text == ":=" || text == "="
  | _ => false

/-- How an operand begins: with a parenthesis, a number, or a word that is a name or a constant and
is given no value. -/
inductive Begins : List Token → Prop
  | parenthesis (more : List Token) : Begins (.mark "(" :: more)
  | number (text : String) (more : List Token) : Begins (.number text :: more)
  | word {text : String} (atom : text ∈ Token.keywords → text ∈ Term.constants)
    {more : List Token} (next : ∀ t ∈ more.head?, isBinding t = false) :
    Begins (.word text :: more)

/-- Where an expression ends: a closing bracket, a comma or the end of the line comes next. -/
inductive Closes : List Token → Prop
  | parenthesis (rest : List Token) : Closes (.mark ")" :: rest)
  | bracket (rest : List Token) : Closes (.mark "]" :: rest)
  | comma (rest : List Token) : Closes (.mark "," :: rest)
  | line (rest : List Token) : Closes (.newline :: rest)

def isPlain : Token → Bool
  | .string _ | .formatted _ => false
  | _ => true

/-- The tokens of an operand, whatever follows them: a rest that begins with a point or a bracket
extends the operand. A level of nesting for each token is enough. -/
structure Operand (tokens : List Token) (term : Term) : Prop where
  begins : Begins tokens
  plain : tokens.all isPlain = true
  unstarred : ∀ value, term ≠ .starred value
  primary : ∀ depth, tokens.length ≤ depth → ∀ rest, ∃ fuel, rest.length ≤ fuel ∧
    Grammar.primary (.ofDepth depth) (tokens ++ rest) =
      extendWhile follower (follow (.ofDepth depth)) fuel term rest

structure Whole (tokens : List Token) (term : Term) : Prop where
  plain : tokens.all isPlain = true
  unstarred : ∀ value, term ≠ .starred value
  expression : ∀ depth, tokens.length ≤ depth → ∀ rest, Closes rest →
    Grammar.expression (.ofDepth depth) (tokens ++ rest) = some (term, rest)

namespace Begins

variable {tokens : List Token}

theorem append (begins : Begins tokens) {rest : List Token}
    (next : ∀ t ∈ rest.head?, isBinding t = false) : Begins (tokens ++ rest) := by
  cases begins with
  | parenthesis more => exact .parenthesis _
  | number text more => exact .number _ _
  | @word text atom more first =>
    refine .word atom ?_
    cases more with
    | nil => exact next
    | cons t left => exact first

theorem nextIsMark (begins : Begins tokens) {text : String} (other : text ≠ "(")
    (rest : List Token) :
    Grammar.nextIsMark text (tokens ++ rest) = some (false, tokens ++ rest) := by
  cases begins with
  | parenthesis more =>
    have differs : ("(" == text) = false := beq_eq_false_iff_ne.mpr (Ne.symm other)
    change some ("(" == text, _) = _
    rw [differs]
  | number => rfl
  | word => rfl

theorem nextIsWord (begins : Begins tokens) {text : String} (keyword : text ∈ Token.keywords)
    (other : text ∉ Term.constants) (rest : List Token) :
    Grammar.nextIsWord text (tokens ++ rest) = some (false, tokens ++ rest) := by
  cases begins with
  | parenthesis more => rfl
  | number => rfl
  | @word found atom more next =>
    have differs : (found == text) = false := by
      rw [beq_eq_false_iff_ne]
      rintro rfl
      exact other (atom keyword)
    change some (found == text, _) = _
    rw [differs]

theorem optionalMark (begins : Begins tokens) {text : String} (other : text ≠ "(")
    (rest : List Token) :
    Grammar.optionalMark text (tokens ++ rest) = some (false, tokens ++ rest) :=
  bind_of_run (begins.nextIsMark other rest)

theorem optionalWord (begins : Begins tokens) {text : String} (keyword : text ∈ Token.keywords)
    (other : text ∉ Term.constants) (rest : List Token) :
    Grammar.optionalWord text (tokens ++ rest) = some (false, tokens ++ rest) :=
  bind_of_run (begins.nextIsWord keyword other rest)

theorem nextIsExpression (begins : Begins tokens) (rest : List Token) :
    Grammar.nextIsExpression (tokens ++ rest) = some (true, tokens ++ rest) := by
  cases begins with
  | parenthesis more => rfl
  | number => rfl
  | @word found atom more next =>
    have accepted : (!Token.keywords.contains found ||
        ["False", "None", "True", "await", "lambda", "not"].contains found) = true := by
      by_cases keyword : found ∈ Token.keywords
      · have constant := atom keyword
        simp only [Term.constants, List.mem_cons, List.not_mem_nil, or_false] at constant
        rcases constant with rfl | rfl | rfl <;> decide
      · simp [keyword]
    change some (!Token.keywords.contains found ||
        ["False", "None", "True", "await", "lambda", "not"].contains found, _) = _
    rw [accepted]

end Begins

namespace Operand

variable {tokens : List Token} {term : Term}

theorem run_primary (operand : Operand tokens term) {depth : Nat} (deep : tokens.length ≤ depth)
    {rest : List Token} (stop : follower rest = some (none, rest)) :
    Grammar.primary (.ofDepth depth) (tokens ++ rest) = some (term, rest) := by
  obtain ⟨fuel, -, ran⟩ := operand.primary depth deep rest
  rw [ran, extendWhile_stop stop]

theorem extended (operand : Operand tokens term) {text : String} {more : List Token}
    {longer : Term} (mark : text ∈ [".", "(", "["])
    (plain : more.all isPlain = true) (unstarred : ∀ value, longer ≠ .starred value)
    (step : ∀ depth, tokens.length + more.length + 1 ≤ depth → ∀ rest,
      follow (.ofDepth depth) term text (.mark text :: more ++ rest) = some (longer, rest)) :
    Operand (tokens ++ .mark text :: more) longer where
  begins := operand.begins.append fun t first => by
    obtain rfl : .mark text = t := Option.some.inj first
    simp only [List.mem_cons, List.not_mem_nil, or_false] at mark
    rcases mark with rfl | rfl | rfl <;> rfl
  plain := by simp [operand.plain, plain, isPlain]
  unstarred := unstarred
  primary depth deep rest := by
    rw [List.length_append, List.length_cons] at deep
    obtain ⟨fuel, enough, ran⟩ := operand.primary depth (by omega) (.mark text :: more ++ rest)
    have found : follower (.mark text :: more ++ rest) =
        some (some text, .mark text :: more ++ rest) := by
      simp only [List.mem_cons, List.not_mem_nil, or_false] at mark
      rcases mark with rfl | rfl | rfl <;> rfl
    cases fuel with
    | zero => simp at enough
    | succ fuel =>
      refine ⟨fuel, ?_, ?_⟩
      · simp only [List.cons_append, List.length_cons, List.length_append] at enough
        omega
      · rw [List.append_assoc, ran, extendWhile_step found (step depth (by omega) rest)]

theorem member (operand : Operand tokens term) {name : String}
    (named : name ∉ Token.keywords) :
    Operand (tokens ++ [.mark ".", .word name]) (.member term name) := by
  refine operand.extended (by simp) (by simp [isPlain]) (fun _ => Term.noConfusion) ?_
  intro depth _ rest
  have read : Grammar.name (.word name :: rest) = some (name, rest) := by
    have accepted : (!Token.keywords.contains name) = true := by simpa using named
    change (require (!Token.keywords.contains name) >>= fun _ => _) _ = _
    rw [accepted]
    rfl
  rw [List.cons_append, List.singleton_append, follow_eq, if_pos rfl, bind_of_run read]
  rfl

end Operand

inductive Leads : List Token → Prop
  | operand {tokens : List Token} (begins : Begins tokens) : Leads tokens
  | sign {text : String} (sign : text ∈ ["-", "+", "~"]) (more : List Token) :
    Leads (.mark text :: more)
  | negation {more : List Token} (begins : Begins more) : Leads (.word "not" :: more)

namespace Closes

variable {rest : List Token}

theorem follower (closes : Closes rest) : Grammar.follower rest = some (none, rest) := by
  cases closes <;> rfl

theorem nextIsClause (closes : Closes rest) : Grammar.nextIsClause rest = some (false, rest) := by
  cases closes <;> rfl

private theorem noWalrus (closes : Closes rest) : nextIsMark ":=" rest = some (false, rest) := by
  cases closes <;> rfl

end Closes

section Enclosed

variable {g : Level} {tokens rest : List Token} {term : Term}

private theorem namedExpression_eq (leads : Leads tokens) (closes : Closes rest) :
    namedExpression g (tokens ++ rest) =
      (g.expression >>= fun value => do
        require (!(← nextIsMark ":="))
        return value) (tokens ++ rest) := by
  have atWord {text : String} {more : List Token}
      (next : ∀ t ∈ (more ++ rest).head?, isBinding t = false) :
      namedExpression g (.word text :: (more ++ rest)) =
        (g.expression >>= fun value => do
          require (!(← nextIsMark ":="))
          return value) (.word text :: (more ++ rest)) := by
    rw [namedExpression, bind_of_run (ahead_run _)]
    refine congrFun ?_ _
    generalize more ++ rest = after at next
    split
    · rename_i same
      rw [(List.cons.inj same).2] at next
      have binding := next _ rfl
      cases binding
    · rfl
  cases leads with
  | operand begins =>
    cases begins with
    | parenthesis | number => rfl
    | @word text atom more next =>
      refine atWord ?_
      cases more with
      | nil => cases closes <;> simp [isBinding]
      | cons t left => exact next
  | sign sign more => rfl
  | negation begins =>
    cases begins with
    | parenthesis | number | word => rfl

theorem namedExpression_run (leads : Leads tokens) (closes : Closes rest)
    (ran : g.expression (tokens ++ rest) = some (term, rest)) :
    namedExpression g (tokens ++ rest) = some (term, rest) := by
  rw [namedExpression_eq leads closes, bind_of_run ran, bind_of_run closes.noWalrus]
  rfl

private theorem starNamedExpression_run (leads : Leads tokens) (closes : Closes rest)
    (ran : g.expression (tokens ++ rest) = some (term, rest)) :
    starNamedExpression g (tokens ++ rest) = some (term, rest) := by
  have noStar : optionalMark "*" (tokens ++ rest) = some (false, tokens ++ rest) := by
    cases leads with
    | operand begins => exact begins.optionalMark (by decide) rest
    | sign sign more =>
      simp only [List.mem_cons, List.not_mem_nil, or_false] at sign
      rcases sign with rfl | rfl | rfl <;> rfl
    | negation begins => rfl
  rw [starNamedExpression, bind_of_run noStar]
  exact namedExpression_run leads closes ran

private theorem parenthesised_run (leads : Leads tokens)
    (unstarred : ∀ value, term ≠ .starred value)
    (ran : g.expression (tokens ++ .mark ")" :: rest) = some (term, .mark ")" :: rest)) :
    parenthesised g (.mark "(" :: (tokens ++ .mark ")" :: rest)) = some (.group term, rest) := by
  have opened : mark "(" (.mark "(" :: (tokens ++ .mark ")" :: rest)) =
      some ((), tokens ++ .mark ")" :: rest) := rfl
  have noEnd : optionalMark ")" (tokens ++ .mark ")" :: rest) =
      some (false, tokens ++ .mark ")" :: rest) := by
    cases leads with
    | operand begins => exact begins.optionalMark (by decide) _
    | sign sign more =>
      simp only [List.mem_cons, List.not_mem_nil, or_false] at sign
      rcases sign with rfl | rfl | rfl <;> rfl
    | negation begins => rfl
  have noYield : nextIsWord "yield" (tokens ++ .mark ")" :: rest) =
      some (false, tokens ++ .mark ")" :: rest) := by
    cases leads with
    | operand begins => exact begins.nextIsWord (by decide) (by decide) _
    | sign sign more => rfl
    | negation begins => rfl
  have inner := starNamedExpression_run leads (.parenthesis rest) ran
  rw [parenthesised, bind_of_run opened, bind_of_run noEnd, if_neg Bool.false_ne_true,
    bind_of_run noYield, if_neg Bool.false_ne_true, bind_of_run inner]
  cases term with
  | starred value => exact absurd rfl (unstarred value)
  | _ => rfl

end Enclosed

namespace Operand

variable {tokens : List Token} {term : Term}

private theorem ofAtom (begins : Begins tokens) (plain : tokens.all isPlain = true)
    (unstarred : ∀ value, term ≠ .starred value)
    (read : ∀ depth, tokens.length ≤ depth → ∀ rest,
      atom (.ofDepth depth) (tokens ++ rest) = some (term, rest)) : Operand tokens term where
  begins := begins
  plain := plain
  unstarred := unstarred
  primary depth deep rest := by
    refine ⟨rest.length, Nat.le_refl _, ?_⟩
    rw [primary_eq, bind_of_run (read depth deep rest)]
    rfl

theorem name {text : String} (accepted : text ∈ Token.keywords → text ∈ Term.constants) :
    Operand [.word text] (.name text) := by
  refine ofAtom (.word accepted (by simp)) (by simp [isPlain]) (fun _ => Term.noConfusion) ?_
  intro depth _ rest
  have allowed : (!Token.keywords.contains text || Term.constants.contains text) = true := by
    by_cases keyword : text ∈ Token.keywords
    · simp [accepted keyword]
    · simp [keyword]
  change (require (!Token.keywords.contains text || Term.constants.contains text) >>= fun _ => _)
    _ = _
  rw [allowed]
  rfl

theorem number {text : String} (whole : numberTerm text = .integer text) :
    Operand [.number text] (.integer text) := by
  refine ofAtom (.number text []) (by simp [isPlain]) (fun _ => Term.noConfusion) ?_
  intro depth _ rest
  rw [← whole]
  rfl

theorem group (whole : Whole tokens term) (leads : Leads tokens) :
    Operand (.mark "(" :: (tokens ++ [.mark ")"])) (.group term) := by
  refine ofAtom (.parenthesis _) ?_ (fun _ => Term.noConfusion) ?_
  · simp [whole.plain, isPlain]
  · intro depth deep rest
    simp only [List.length_cons, List.length_append] at deep
    obtain ⟨depth, rfl⟩ : ∃ below, depth = below + 1 := ⟨depth - 1, by omega⟩
    have ran := whole.expression depth (by omega) _ (.parenthesis rest)
    have shape : .mark "(" :: (tokens ++ [.mark ")"]) ++ rest =
        .mark "(" :: (tokens ++ .mark ")" :: rest) := by
      simp
    rw [shape]
    exact parenthesised_run leads whole.unstarred ran

end Operand

end TreePass.Source.Grammar
