import TreePass.Proofs.Source.Spelling
import TreePass.Source.Grammar.Expression
import Mathlib

/-!
What parsers do to words. A parser only takes tokens away, so the words it leaves are words it was
given, and every name in the syntax it returns is one of them. One triple for each rule of the
grammar of expressions says so; the levels of nesting follow by induction.
-/

set_option autoImplicit false
set_option relaxedAutoImplicit false
set_option mvcgen.warning false

namespace TreePass.Source.Grammar

open Std.Do
open Spelled (spelled)

variable {α β : Type}

/-- Every word among the tokens is one that the lexer accepts. Words in the fields of formatted
strings do not count. -/
def Words (tokens : List Token) : Prop := ∀ text, .word text ∈ tokens → IsWord text

abbrev Passes (p : Parser α) : Prop :=
  ⦃fun tokens => ⌜Words tokens⌝⦄ p ⦃⇓? _ => fun tokens => ⌜Words tokens⌝⦄

/-- A parser that leaves words when it is given words, and returns syntax in which every name is
a word. -/
abbrev Spells [Spelled α] (p : Parser α) : Prop :=
  ⦃fun tokens => ⌜Words tokens⌝⦄ p ⦃⇓? a => fun tokens => ⌜Words tokens ∧ spelled a⌝⦄

theorem words_nil : Words [] := fun _ member => nomatch member

@[simp]
theorem words_cons {token : Token} {rest : List Token} :
    Words (token :: rest) ↔ (∀ text, token = .word text → IsWord text) ∧ Words rest := by
  simp only [Words, List.mem_cons, or_imp, forall_and, eq_comm]

@[simp]
theorem Words.tail {tokens : List Token} (words : Words tokens) : Words tokens.tail :=
  fun text member => words text (List.mem_of_mem_tail member)

@[simp]
theorem Words.drop {tokens : List Token} (words : Words tokens) (count : Nat) :
    Words (tokens.drop count) :=
  fun text member => words text (List.mem_of_mem_drop member)

theorem of_triple {p : Parser α} {P : List Token → Prop} {Q : α → List Token → Prop}
    (triple : ⦃fun tokens => ⌜P tokens⌝⦄ p ⦃⇓? a => fun tokens => ⌜Q a tokens⌝⦄)
    {tokens rest : List Token} {a : α} (given : P tokens)
    (found : p tokens = some (a, rest)) : Q a rest := by
  have reached : (wp⟦p tokens⟧ (fun out => ⌜Q out.1 out.2⌝, ExceptConds.true)).down :=
    triple tokens given
  rw [found] at reached
  exact reached

@[spec]
theorem ahead_spec :
    ⦃fun tokens => ⌜Words tokens⌝⦄ ahead ⦃⇓? a => fun tokens => ⌜Words tokens ∧ Words a⌝⦄ := by
  mvcgen [ahead]

@[spec]
theorem refuse_spec {Q : PostCond α (.arg (List Token) (.except PUnit .pure))} :
    ⦃fun _ => Q.2.1 ()⦄ (refuse : Parser α) ⦃Q⦄ := fun _ refused => refused

@[spec]
theorem require_spec (test : Bool) : Passes (require test) := by
  mvcgen [require]

@[spec]
theorem advance_spec : Passes advance := by
  mvcgen [advance]
  exact Words.tail ‹_›

@[spec]
theorem nextIsMark_spec (text : String) : Passes (nextIsMark text) := by
  mvcgen [nextIsMark]
  all_goals simp_all

@[spec]
theorem nextIsWord_spec (text : String) : Passes (nextIsWord text) := by
  mvcgen [nextIsWord]
  all_goals simp_all

@[spec]
theorem mark_spec (text : String) : Passes (mark text) := by
  mvcgen [mark]

@[spec]
theorem word_spec (text : String) : Passes (word text) := by
  mvcgen [word]

@[spec]
theorem optionalMark_spec (text : String) : Passes (optionalMark text) := by
  mvcgen [optionalMark]

@[spec]
theorem optionalWord_spec (text : String) : Passes (optionalWord text) := by
  mvcgen [optionalWord]

@[spec]
theorem name_spec : Spells name := by
  mvcgen [name]
  all_goals simp_all

@[spec]
theorem newline_spec : Passes newline := by
  mvcgen [newline]
  simp_all

@[spec]
theorem indent_spec : Passes indent := by
  mvcgen [indent]
  simp_all

@[spec]
theorem dedent_spec : Passes dedent := by
  mvcgen [dedent]
  simp_all

@[spec]
theorem atEnd_spec : Passes atEnd := by
  mvcgen [atEnd]
  simp_all

section Repetition

variable [Spelled α]

private theorem repeatWhile_spec {test : Parser Bool} {step : Parser α} (tested : Passes test)
    (stepped : Spells step) (fuel : Nat) : Spells (repeatWhile test step fuel) := by
  induction fuel with
  | zero =>
    mvcgen [repeatWhile]
    simp_all
  | succ fuel ih =>
    mvcgen [repeatWhile, tested, stepped, ih]
    all_goals simp_all

@[spec]
theorem manyWhile_spec {test : Parser Bool} {step : Parser α} (tested : Passes test)
    (stepped : Spells step) : Spells (manyWhile test step) := by
  have repeated := repeatWhile_spec tested stepped
  mvcgen [manyWhile, repeated]
  simp_all

private theorem extendWhile_spec {test : Parser (Option β)} {step : α → β → Parser α}
    (tested : Passes test) (stepped : ∀ a b, spelled a → Spells (step a b)) (fuel : Nat) {a : α}
    (holds : spelled a) : Spells (extendWhile test step fuel a) := by
  induction fuel generalizing a with
  | zero =>
    mvcgen [extendWhile]
  | succ fuel ih =>
    mvcgen [extendWhile, tested, stepped, ih]
    all_goals simp_all

@[spec]
theorem extend_spec {test : Parser (Option β)} {step : α → β → Parser α}
    (tested : Passes test) (stepped : ∀ a b, spelled a → Spells (step a b)) {a : α}
    (holds : spelled a) : Spells (extend test step a) := by
  have extended := extendWhile_spec tested stepped
  mvcgen [extend, extended]
  all_goals simp_all

private theorem itemsUntil_spec {closed : Parser Bool} {item : Parser α} (tested : Passes closed)
    (stepped : Spells item) (fuel : Nat) : Spells (itemsUntil closed item fuel) := by
  induction fuel with
  | zero => mvcgen [itemsUntil]
  | succ fuel ih =>
    mvcgen [itemsUntil, tested, stepped, ih]
    all_goals simp_all

@[spec]
theorem listUntil_spec {closed : Parser Bool} {item : Parser α} (tested : Passes closed)
    (stepped : Spells item) : Spells (listUntil closed item) := by
  have items := itemsUntil_spec tested stepped
  mvcgen [listUntil, items]
  simp_all

@[spec]
theorem commaList_spec {item : Parser α} (stepped : Spells item) : Spells (commaList item) := by
  mvcgen [commaList, stepped]
  all_goals simp_all

end Repetition

@[simp]
theorem spelled_numberTerm (text : String) : (numberTerm text).Spelled := by
  dsimp only [numberTerm]
  split_ifs <;> simp

/-- The rules of a level return syntax in which every name is a word. -/
structure Level.Spells (g : Level) : Prop where
  expression : Grammar.Spells g.expression
  disjunction : Grammar.Spells g.disjunction
  inversion : Grammar.Spells g.inversion
  bitOr : Grammar.Spells g.bitOr
  factor : Grammar.Spells g.factor
  primary : Grammar.Spells g.primary

attribute [spec] Level.Spells.expression Level.Spells.disjunction Level.Spells.inversion
  Level.Spells.bitOr Level.Spells.factor Level.Spells.primary

@[spec]
theorem nextIsClause_spec : Passes nextIsClause := by
  mvcgen [nextIsClause]
  all_goals simp_all

@[spec]
theorem starTarget_spec {primary : Parser Term} (spells : Spells primary) :
    Spells (starTarget primary) := by
  mvcgen [starTarget, spells]
  all_goals simp_all

@[spec]
theorem loopTargets_spec {primary : Parser Term} (spells : Spells primary) :
    Spells (loopTargets primary) := by
  mvcgen [loopTargets, spells]
  all_goals simp_all

section Rules

variable {g : Level} (spells : g.Spells)

include spells

@[spec]
theorem namedExpression_spec : Spells (namedExpression g) := by
  mvcgen [namedExpression]
  all_goals simp_all

@[spec]
theorem starNamedExpression_spec : Spells (starNamedExpression g) := by
  mvcgen [starNamedExpression]
  all_goals simp_all

@[spec]
theorem starExpression_spec : Spells (starExpression g) := by
  mvcgen [starExpression]
  all_goals simp_all

omit spells in
@[spec]
theorem nextIsExpression_spec : Passes nextIsExpression := by
  mvcgen [nextIsExpression]
  all_goals simp_all

@[spec]
theorem starExpressions_spec : Spells (starExpressions g) := by
  mvcgen [starExpressions]
  all_goals simp_all

@[spec]
theorem yieldExpression_spec : Spells (yieldExpression g) := by
  mvcgen [yieldExpression]
  all_goals simp_all

@[spec]
theorem yieldOrExpressions_spec : Spells (yieldOrExpressions g) := by
  mvcgen [yieldOrExpressions]
  all_goals simp_all

@[spec]
theorem clause_spec : Spells (clause g) := by
  mvcgen [clause]
  all_goals simp_all

@[spec]
theorem clauses_spec (element : Term) : Spells (clauses g element) := by
  mvcgen [clauses]
  all_goals simp_all

@[spec]
theorem sequenceRest_spec (close : String) {first : Term} (onFirst : first.Spelled) :
    Spells (sequenceRest g close first) := by
  mvcgen [sequenceRest]
  all_goals simp_all

@[spec]
theorem parenthesised_spec : Spells (parenthesised g) := by
  mvcgen [parenthesised]
  all_goals simp_all

@[spec]
theorem bracketed_spec : Spells (bracketed g) := by
  mvcgen [bracketed]
  all_goals simp_all

@[spec]
theorem dictEntry_spec : Spells (dictEntry g) := by
  mvcgen [dictEntry]
  all_goals simp_all

@[spec]
theorem dictRest_spec : Spells (dictRest g) := by
  mvcgen [dictRest]
  all_goals simp_all

@[spec]
theorem braced_spec : Spells (braced g) := by
  mvcgen [braced]
  all_goals simp_all

omit spells in
@[spec]
theorem piece_spec : Spells (piece g) := by
  mvcgen [piece]
  all_goals simp_all

omit spells in
@[spec]
theorem nextIsPiece_spec : Passes nextIsPiece := by
  mvcgen [nextIsPiece]
  all_goals simp_all

@[spec]
theorem atom_spec : Spells (atom g) := by
  mvcgen [atom]
  all_goals simp_all

instance : Spelled ArgumentPhase := ⟨fun _ => True⟩
instance : Spelled ParamState := ⟨fun _ => True⟩

omit spells in
@[simp]
theorem spelled_phase (phase : ArgumentPhase) : spelled phase := trivial

omit spells in
@[simp]
theorem spelled_state (state : ParamState) : spelled state := trivial

@[spec]
theorem argument_spec (phase : ArgumentPhase) : Spells (argument g phase) := by
  mvcgen [argument]
  all_goals simp_all

@[spec]
theorem argumentsFrom_spec (fuel : Nat) (phase : ArgumentPhase) :
    Spells (argumentsFrom g fuel phase) := by
  induction fuel generalizing phase with
  | zero => mvcgen [argumentsFrom]
  | succ fuel ih =>
    mvcgen [argumentsFrom, ih]
    all_goals simp_all

@[spec]
theorem arguments_spec : Spells (arguments g) := by
  mvcgen [arguments]
  all_goals simp_all

@[spec]
theorem optionalBefore_spec (marks : List String) : Spells (optionalBefore g marks) := by
  mvcgen [optionalBefore]
  all_goals simp_all

@[spec]
theorem sliceRest_spec {lower : Option Term} (onLower : spelled lower) :
    Spells (sliceRest g lower) := by
  mvcgen [sliceRest]
  all_goals simp_all

@[spec]
theorem index_spec : Spells (index g) := by
  mvcgen [index]
  all_goals simp_all

@[spec]
theorem indices_spec : Spells (indices g) := by
  mvcgen [indices]
  all_goals simp_all

@[spec]
theorem primary_spec : Spells (primary g) := by
  mvcgen [primary]
  all_goals simp_all

@[spec]
theorem awaited_spec : Spells (awaited g) := by
  mvcgen [awaited]
  all_goals simp_all

@[spec]
theorem power_spec : Spells (power g) := by
  mvcgen [power]
  all_goals simp_all

@[spec]
theorem factor_spec : Spells (factor g) := by
  mvcgen [factor]
  all_goals simp_all

omit spells in
@[spec]
theorem binaryChain_spec (operators : List BinaryOp) {operand : Parser Term}
    (inside : Spells operand) : Spells (binaryChain operators operand) := by
  mvcgen [binaryChain, inside]
  all_goals simp_all

@[spec]
theorem bitOr_spec : Spells (bitOr g) := by
  mvcgen [bitOr]
  all_goals simp_all

omit spells in
@[spec]
theorem nextComparison_spec : Passes nextComparison := by
  mvcgen [nextComparison]
  all_goals simp_all

@[spec]
theorem comparisonTail_spec : Spells (comparisonTail g) := by
  mvcgen [comparisonTail]
  · exact Words.drop ‹_› _
  · simp_all

@[spec]
theorem comparison_spec : Spells (comparison g) := by
  mvcgen [comparison]
  all_goals try simp_all
  split <;> simp_all

@[spec]
theorem inversion_spec : Spells (inversion g) := by
  mvcgen [inversion]
  all_goals simp_all

omit spells in
private theorem spelled_foldl_boolean (op : BooleanOp) {first : Term} {rest : List Term}
    (onFirst : first.Spelled) (onRest : spelled rest) :
    (rest.foldl (.boolean op) first).Spelled := by
  induction rest generalizing first with
  | nil => exact onFirst
  | cons term rest ih =>
    rw [Spelled.spelled_cons, Spelled.spelled_term] at onRest
    exact ih (by simp [onFirst, onRest.1]) onRest.2

omit spells in
@[spec]
theorem booleanChain_spec (op : BooleanOp) {operand : Parser Term} (inside : Spells operand) :
    Spells (booleanChain op operand) := by
  mvcgen [booleanChain, inside]
  all_goals simp_all [spelled_foldl_boolean]

@[spec]
theorem disjunction_spec : Spells (disjunction g) := by
  mvcgen [disjunction]
  all_goals simp_all

@[spec]
theorem param_spec (style : ParamStyle) (starred : Bool) :
    Spells (param g style starred) := by
  mvcgen [param]
  all_goals simp_all

@[spec]
theorem paramItem_spec (style : ParamStyle) (state : ParamState) :
    Spells (paramItem g style state) := by
  mvcgen [paramItem]
  all_goals simp_all

@[spec]
theorem paramsFrom_spec (style : ParamStyle) (fuel : Nat) (state : ParamState) :
    Spells (paramsFrom g style fuel state) := by
  induction fuel generalizing state with
  | zero => mvcgen [paramsFrom]
  | succ fuel ih =>
    mvcgen [paramsFrom, ih]
    all_goals simp_all

@[spec]
theorem params_spec (style : ParamStyle) : Spells (params g style) := by
  mvcgen [params]
  all_goals simp_all

@[spec]
theorem lambda_spec : Spells (lambda g) := by
  mvcgen [lambda]
  all_goals simp_all

@[spec]
theorem expression_spec : Spells (expression g) := by
  mvcgen [expression]
  all_goals simp_all

theorem Level.Spells.above : g.above.Spells where
  expression := expression_spec spells
  disjunction := disjunction_spec spells
  inversion := inversion_spec spells
  bitOr := bitOr_spec spells
  factor := factor_spec spells
  primary := primary_spec spells

end Rules

theorem Level.spells_ofDepth (depth : Nat) : (Level.ofDepth depth).Spells := by
  induction depth with
  | zero => constructor <;> exact fun _ _ => trivial
  | succ depth ih => exact ih.above

end TreePass.Source.Grammar
