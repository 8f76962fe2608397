import TreePass.Proofs.Printing.Operands
import TreePass.Proofs.Printing.Scanning

/-!
How the grammar reads operations on operands: each level of precedence hands through what is not its
own, and takes its own operators.
-/

set_option autoImplicit false
set_option relaxedAutoImplicit false

namespace TreePass.Source.Grammar

variable {α : Type}

def nextOperator (operators : List BinaryOp) : Parser (Option BinaryOp) := do
  match ← ahead with
  | .mark text :: _ => return operators.find? fun op => op.text == text
  | _ => return none

def rightOperand (operand : Parser Term) (left : Term) (op : BinaryOp) : Parser Term := do
  advance
  return .binary op left (← operand)

private theorem binaryChain_eq (operators : List BinaryOp) (operand : Parser Term) :
    binaryChain operators operand =
      operand >>= extend (nextOperator operators) (rightOperand operand) := rfl

/-- The operators of each level of precedence below the factors, the closest first. -/
def precedence : List (List BinaryOp) :=
  [[.multiply, .divide, .floorDivide, .modulo, .matrixMultiply], [.add, .subtract],
    [.leftShift, .rightShift], [.bitAnd], [.bitXor], [.bitOr]]

def chains (levels : List (List BinaryOp)) (operand : Parser Term) : Parser Term :=
  levels.foldl (fun inner operators => binaryChain operators inner) operand

private theorem bitOr_eq (g : Level) : bitOr g = chains precedence (factor g) := rfl

/-- What comes after an operation that no arithmetic operator joins to anything. -/
structure EndsSum (rest : List Token) : Prop where
  follower : follower rest = some (none, rest)
  power : nextIsMark "**" rest = some (false, rest)
  operator : ∀ operators, nextOperator operators rest = some (none, rest)

/-- What comes after an operation that no comparison joins to anything, either. -/
structure EndsComparison (rest : List Token) : Prop extends EndsSum rest where
  comparison : nextComparison rest = some (none, rest)

/-- What comes after an operation that no operator joins to anything. -/
structure EndsTest (rest : List Token) : Prop extends EndsComparison rest where
  conjunction : nextIsWord "and" rest = some (false, rest)
  disjunction : nextIsWord "or" rest = some (false, rest)

private theorem nextOperator_mark {text : String}
    (other : ∀ op : BinaryOp, (op.text == text) = false)
    (operators : List BinaryOp) (rest : List Token) :
    nextOperator operators (.mark text :: rest) = some (none, .mark text :: rest) := by
  have absent : (operators.find? fun op => op.text == text) = none := by
    rw [List.find?_eq_none]
    intro op _
    rw [other op]
    exact Bool.false_ne_true
  change some (operators.find? fun op => op.text == text, _) = _
  rw [absent]

private theorem endsSum_word (text : String) (rest : List Token) : EndsSum (.word text :: rest) :=
  ⟨rfl, rfl, fun _ => rfl⟩

private theorem endsSum_comparison (op : CompareOp) (rest : List Token) :
    EndsSum (op.tokens ++ rest) := by
  cases op with
  | isIn | notIn | is | isNot => exact endsSum_word _ _
  | _ => exact ⟨rfl, rfl, fun operators =>
      nextOperator_mark (fun other => by cases other <;> rfl) operators rest⟩

namespace Closes

variable {rest : List Token}

private theorem endsSum (closes : Closes rest) : EndsSum rest where
  follower := closes.follower
  power := by cases closes <;> rfl
  operator operators := by
    cases closes with
    | line more => rfl
    | _ => exact nextOperator_mark (fun op => by cases op <;> rfl) operators _

private theorem endsTest (closes : Closes rest) : EndsTest rest where
  toEndsSum := closes.endsSum
  comparison := by cases closes <;> rfl
  conjunction := by cases closes <;> rfl
  disjunction := by cases closes <;> rfl

end Closes

section Chains

variable {operand : Parser Term} {operators : List BinaryOp} {tokens middle rest : List Token}
  {left right term : Term}

private theorem binaryChain_pass (ran : operand tokens = some (term, rest))
    (stop : nextOperator operators rest = some (none, rest)) :
    binaryChain operators operand tokens = some (term, rest) := by
  rw [binaryChain_eq, bind_of_run ran]
  exact extendWhile_stop stop _ _

private theorem binaryChain_once {op : BinaryOp}
    (found : operators.find? (fun other => other.text == op.text) = some op)
    (ran : operand tokens = some (left, .mark op.text :: middle))
    (ran' : operand middle = some (right, rest))
    (stop : nextOperator operators rest = some (none, rest)) :
    binaryChain operators operand tokens = some (.binary op left right, rest) := by
  have next : nextOperator operators (.mark op.text :: middle) =
      some (some op, .mark op.text :: middle) := by
    change some (operators.find? fun other => other.text == op.text, _) = _
    rw [found]
  have step : rightOperand operand left op (.mark op.text :: middle) =
      some (.binary op left right, rest) := by
    change (operand >>= fun value => pure (Term.binary op left value)) middle = _
    rw [bind_of_run ran']
    rfl
  rw [binaryChain_eq, bind_of_run ran]
  rw [extend_run, List.length_cons, extendWhile_step next step, extendWhile_stop stop]

private theorem chains_pass (levels : List (List BinaryOp))
    (ran : operand tokens = some (term, rest))
    (stop : ∀ operators ∈ levels, nextOperator operators rest = some (none, rest)) :
    chains levels operand tokens = some (term, rest) := by
  induction levels generalizing operand with
  | nil => exact ran
  | cons operators levels ih =>
    exact ih (binaryChain_pass ran (stop operators List.mem_cons_self))
      fun others member => stop others (List.mem_cons_of_mem _ member)

private theorem chains_append (lower upper : List (List BinaryOp)) :
    chains (lower ++ upper) operand = chains upper (chains lower operand) :=
  List.foldl_append

/-- An operator is taken at its own level: the levels below hand both operands through, the levels
above the whole operation. -/
theorem chains_once {op : BinaryOp} {lower upper : List (List BinaryOp)}
    (found : operators.find? (fun other => other.text == op.text) = some op)
    (absent : ∀ others ∈ lower, others.find? (fun other => other.text == op.text) = none)
    (ran : operand tokens = some (left, .mark op.text :: middle))
    (ran' : operand middle = some (right, rest)) (ends : EndsSum rest) :
    chains (lower ++ operators :: upper) operand tokens = some (.binary op left right, rest) := by
  have through : ∀ others ∈ lower, nextOperator others (.mark op.text :: middle) =
      some (none, .mark op.text :: middle) := by
    intro others member
    change some (others.find? fun other => other.text == op.text, _) = _
    rw [absent others member]
  rw [chains_append]
  exact chains_pass upper (binaryChain_once found (chains_pass lower ran through)
    (chains_pass lower ran' fun others _ => ends.operator others) (ends.operator operators))
    fun others _ => ends.operator others

private theorem exists_level (op : BinaryOp) :
    op = .power ∨ op ≠ .power ∧ ∃ lower operators upper, precedence = lower ++ operators :: upper ∧
      operators.find? (fun other => other.text == op.text) = some op ∧
      ∀ others ∈ lower, others.find? (fun other => other.text == op.text) = none := by
  cases op with
  | power => exact Or.inl rfl
  | multiply | divide | floorDivide | modulo | matrixMultiply =>
    exact Or.inr ⟨by decide, [], _, _, rfl, rfl, by decide⟩
  | add | subtract => exact Or.inr ⟨by decide, precedence.take 1, _, _, rfl, rfl, by decide⟩
  | leftShift | rightShift => exact Or.inr ⟨by decide, precedence.take 2, _, _, rfl, rfl, by decide⟩
  | bitAnd => exact Or.inr ⟨by decide, precedence.take 3, _, _, rfl, rfl, by decide⟩
  | bitXor => exact Or.inr ⟨by decide, precedence.take 4, _, _, rfl, rfl, by decide⟩
  | bitOr => exact Or.inr ⟨by decide, precedence.take 5, _, _, rfl, rfl, by decide⟩

end Chains

section Comparisons

def linkTokens (links : List (CompareOp × List Token × Term)) : List Token :=
  links.flatMap fun link => link.1.tokens ++ link.2.1

def linkTerms (links : List (CompareOp × List Token × Term)) : List (CompareOp × Term) :=
  links.map fun link => (link.1, link.2.2)

private theorem length_le_linkTokens {links : List (CompareOp × List Token × Term)}
    {link : CompareOp × List Token × Term} (listed : link ∈ links) :
    link.2.1.length ≤ (linkTokens links).length := by
  induction links with
  | nil => cases listed
  | cons first more ih =>
    rw [linkTokens, List.flatMap_cons, List.length_append, List.length_append]
    rcases List.mem_cons.mp listed with rfl | later
    · omega
    · have small := ih later
      rw [linkTokens] at small
      omega

private theorem length_links_le (links : List (CompareOp × List Token × Term)) :
    links.length ≤ (linkTokens links).length := by
  induction links with
  | nil => exact Nat.zero_le _
  | cons link more ih =>
    have one : 1 ≤ link.1.tokens.length := by cases link.1 <;> decide
    rw [linkTokens] at ih
    rw [linkTokens, List.flatMap_cons, List.length_append, List.length_append, List.length_cons]
    omega

private theorem nextComparison_run (op : CompareOp) {tokens : List Token} (begins : Begins tokens)
    (rest : List Token) :
    nextComparison (op.tokens ++ (tokens ++ rest)) =
      some (some (op, op.tokens.length), op.tokens ++ (tokens ++ rest)) := by
  cases op with
  | is =>
    -- `is` before an operand is no `is not`: no operand begins with a `not`.
    cases begins with
    | parenthesis | number => rfl
    | @word text atom more next =>
      have other : text ≠ "not" := by
        rintro rfl
        revert atom
        decide
      rw [nextComparison, bind_of_run (ahead_run _)]
      simp only [CompareOp.tokens, List.cons_append, List.nil_append, List.cons.injEq,
        Token.word.injEq, other, false_and, imp_self, implies_true, List.length_cons,
        List.length_nil, zero_add]
      rfl
  | _ => rfl

variable {g : Level}

private theorem comparisonTail_run {op : CompareOp} {tokens rest : List Token} {term : Term}
    (begins : Begins tokens) (ran : bitOr g (tokens ++ rest) = some (term, rest)) :
    comparisonTail g (op.tokens ++ (tokens ++ rest)) = some ((op, term), rest) := by
  rw [comparisonTail, bind_of_run (nextComparison_run op begins rest)]
  have dropped : (modify (List.drop op.tokens.length) : Parser Unit)
      (op.tokens ++ (tokens ++ rest)) = some ((), tokens ++ rest) := by
    change some ((), (op.tokens ++ (tokens ++ rest)).drop op.tokens.length) = _
    rw [List.drop_left]
  change ((modify (List.drop op.tokens.length) : Parser Unit) >>= fun _ => _) _ = _
  rw [bind_of_run dropped, bind_of_run ran]
  rfl

def hasComparison : Parser Bool := do return (← nextComparison).isSome

private theorem comparison_eq (g : Level) :
    comparison g = bitOr g >>= fun left => do
      let rest ← manyWhile hasComparison (comparisonTail g)
      return if rest.isEmpty then left else .comparison left rest := rfl

theorem repeatWhile_stop {test : Parser Bool} (step : Parser α) {tokens : List Token}
    (stop : test tokens = some (false, tokens)) (fuel : Nat) :
    repeatWhile test step fuel tokens = some ([], tokens) := by
  cases fuel with
  | zero => rfl
  | succ fuel =>
    rw [repeatWhile, bind_of_run stop]
    rfl

theorem repeatWhile_step {test : Parser Bool} {step : Parser α} {tokens middle rest : List Token}
    {value : α} {values : List α} {fuel : Nat} (found : test tokens = some (true, tokens))
    (ran : step tokens = some (value, middle))
    (later : repeatWhile test step fuel middle = some (values, rest)) :
    repeatWhile test step (fuel + 1) tokens = some (value :: values, rest) := by
  rw [repeatWhile, bind_of_run found, if_pos rfl, bind_of_run ran, bind_of_run later]
  rfl

theorem manyWhile_run (test : Parser Bool) (step : Parser α) (tokens : List Token) :
    manyWhile test step tokens = repeatWhile test step tokens.length tokens := rfl

private theorem hasComparison_stop {rest : List Token} (ends : EndsComparison rest) :
    hasComparison rest = some (false, rest) := by
  rw [hasComparison, bind_of_run ends.comparison]
  rfl

private theorem comparison_pass {tokens rest : List Token} {term : Term}
    (ends : EndsComparison rest)
    (ran : bitOr g tokens = some (term, rest)) : comparison g tokens = some (term, rest) := by
  rw [comparison_eq, bind_of_run ran]
  have stop := repeatWhile_stop (comparisonTail g) (hasComparison_stop ends) rest.length
  rw [← manyWhile_run] at stop
  rw [bind_of_run stop]
  rfl

private theorem comparisons_run {links : List (CompareOp × List Token × Term)} {rest : List Token}
    (ends : EndsComparison rest)
    (reads : ∀ link ∈ links, Begins link.2.1 ∧ ∀ rest, EndsSum rest →
      bitOr g (link.2.1 ++ rest) = some (link.2.2, rest)) {fuel : Nat}
    (enough : links.length ≤ fuel) :
    repeatWhile hasComparison (comparisonTail g) fuel (linkTokens links ++ rest) =
      some (linkTerms links, rest) := by
  induction links generalizing fuel with
  | nil => exact repeatWhile_stop _ (hasComparison_stop ends) fuel
  | cons link links ih =>
    obtain ⟨op, tokens, term⟩ := link
    obtain ⟨fuel, rfl⟩ : ∃ less, fuel = less + 1 := by
      rw [List.length_cons] at enough
      exact ⟨fuel - 1, by omega⟩
    obtain ⟨begins, reads_⟩ := reads _ List.mem_cons_self
    have next : EndsSum (linkTokens links ++ rest) := by
      cases links with
      | nil => exact ends.toEndsSum
      | cons other more =>
        rw [linkTokens, List.flatMap_cons, List.append_assoc, List.append_assoc]
        exact endsSum_comparison _ _
    have shape : linkTokens ((op, tokens, term) :: links) ++ rest =
        op.tokens ++ (tokens ++ (linkTokens links ++ rest)) := by
      rw [linkTokens, List.flatMap_cons, List.append_assoc, List.append_assoc, linkTokens]
    have found : hasComparison (op.tokens ++ (tokens ++ (linkTokens links ++ rest))) =
        some (true, op.tokens ++ (tokens ++ (linkTokens links ++ rest))) := by
      rw [hasComparison, bind_of_run (nextComparison_run op begins _)]
      rfl
    rw [shape]
    exact repeatWhile_step found (comparisonTail_run begins (reads_ _ next))
      (ih (fun link member => reads link (List.mem_cons_of_mem _ member))
        (by rw [List.length_cons] at enough; omega))

end Comparisons

section Booleans

variable {operand : Parser Term} {tokens middle rest : List Token} {left right term : Term}

private theorem booleanChain_eq (op : BooleanOp) (operand : Parser Term) :
    booleanChain op operand = operand >>= fun first => do
      let rest ← manyWhile (nextIsWord op.text) (word op.text >>= fun _ => operand)
      return rest.foldl (.boolean op) first := rfl

private theorem booleanChain_pass {op : BooleanOp} (ran : operand tokens = some (term, rest))
    (stop : nextIsWord op.text rest = some (false, rest)) :
    booleanChain op operand tokens = some (term, rest) := by
  have none_ := repeatWhile_stop (word op.text >>= fun _ => operand) stop rest.length
  rw [← manyWhile_run] at none_
  rw [booleanChain_eq, bind_of_run ran, bind_of_run none_]
  rfl

private theorem booleanChain_once {op : BooleanOp}
    (ran : operand tokens = some (left, .word op.text :: middle))
    (ran' : operand middle = some (right, rest))
    (stop : nextIsWord op.text rest = some (false, rest)) :
    booleanChain op operand tokens = some (.boolean op left right, rest) := by
  have found : nextIsWord op.text (.word op.text :: middle) =
      some (true, .word op.text :: middle) := by
    change some (op.text == op.text, _) = _
    rw [beq_self_eq_true]
  have taken : word op.text (.word op.text :: middle) = some ((), middle) := by
    rw [word, bind_of_run found]
    rfl
  have step : (word op.text >>= fun _ => operand) (.word op.text :: middle) =
      some (right, rest) := by
    rw [bind_of_run taken, ran']
  have one := repeatWhile_step found step
    (repeatWhile_stop (word op.text >>= fun _ => operand) stop middle.length)
  have many : manyWhile (nextIsWord op.text) (word op.text >>= fun _ => operand)
      (.word op.text :: middle) = some ([right], rest) := by
    rw [manyWhile_run]
    exact one
  rw [booleanChain_eq, bind_of_run ran, bind_of_run many]
  rfl

end Booleans

section Ladder

variable {g : Level} {tokens rest : List Token} {term : Term}

private theorem inversion_run (noNot : optionalWord "not" tokens = some (false, tokens))
    (ran : comparison g tokens = some (term, rest)) : inversion g tokens = some (term, rest) := by
  rw [inversion, bind_of_run noNot]
  exact ran

private theorem disjunction_pass (ends : EndsTest rest)
    (ran : inversion g tokens = some (term, rest)) : disjunction g tokens = some (term, rest) :=
  booleanChain_pass (booleanChain_pass ran ends.conjunction) ends.disjunction

private theorem expression_run (noLambda : nextIsWord "lambda" tokens = some (false, tokens))
    (closes : Closes rest) (ran : disjunction g tokens = some (term, rest)) :
    expression g tokens = some (term, rest) := by
  have noCondition : optionalWord "if" rest = some (false, rest) := by
    cases closes <;> rfl
  rw [expression, bind_of_run noLambda, if_neg Bool.false_ne_true, bind_of_run ran,
    bind_of_run noCondition]
  rfl

end Ladder

namespace Operand

variable {tokens tokens' rest : List Token} {term term' : Term} {depth : Nat}

private theorem run_awaited (operand : Operand tokens term) (deep : tokens.length ≤ depth)
    (stop : follower rest = some (none, rest)) :
    awaited (.ofDepth depth) (tokens ++ rest) = some (term, rest) := by
  rw [awaited, bind_of_run (operand.begins.optionalWord (by decide) (by decide) rest)]
  exact operand.run_primary deep stop

private theorem run_power (operand : Operand tokens term) (deep : tokens.length ≤ depth)
    (stop : follower rest = some (none, rest))
    (noPower : nextIsMark "**" rest = some (false, rest)) :
    power (.ofDepth depth) (tokens ++ rest) = some (term, rest) := by
  have other : optionalMark "**" rest = some (false, rest) := bind_of_run noPower
  rw [power, bind_of_run (operand.run_awaited deep stop), bind_of_run other]
  rfl

private theorem factor_eq_power (operand : Operand tokens term) (g : Level) (rest : List Token) :
    factor g (tokens ++ rest) = power g (tokens ++ rest) := by
  have noSign {text : String} (other : text ≠ "(") := operand.begins.optionalMark other rest
  rw [factor, bind_of_run (noSign (by decide)), if_neg Bool.false_ne_true,
    bind_of_run (noSign (by decide)), if_neg Bool.false_ne_true,
    bind_of_run (noSign (by decide)), if_neg Bool.false_ne_true]

private theorem run_factor (operand : Operand tokens term) (deep : tokens.length ≤ depth)
    (stop : follower rest = some (none, rest))
    (noPower : nextIsMark "**" rest = some (false, rest)) :
    factor (.ofDepth depth) (tokens ++ rest) = some (term, rest) := by
  rw [operand.factor_eq_power, operand.run_power deep stop noPower]

private theorem run_bitOr (operand : Operand tokens term) (deep : tokens.length ≤ depth)
    (ends : EndsSum rest) : bitOr (.ofDepth depth) (tokens ++ rest) = some (term, rest) := by
  rw [bitOr_eq]
  exact chains_pass _ (operand.run_factor deep ends.follower ends.power)
    fun operators _ => ends.operator operators

private theorem run_inversion (operand : Operand tokens term) (deep : tokens.length ≤ depth)
    (ends : EndsComparison rest) :
    inversion (.ofDepth depth) (tokens ++ rest) = some (term, rest) :=
  inversion_run (operand.begins.optionalWord (by decide) (by decide) rest)
    (comparison_pass ends (operand.run_bitOr deep ends.toEndsSum))

theorem whole (operand : Operand tokens term) : Whole tokens term where
  plain := operand.plain
  unstarred := operand.unstarred
  expression _ deep rest closes :=
    expression_run (operand.begins.nextIsWord (by decide) (by decide) rest) closes
      (disjunction_pass closes.endsTest
        (operand.run_inversion deep closes.endsTest.toEndsComparison))

private theorem run_binary (operand : Operand tokens term) (operand' : Operand tokens' term')
    (op : BinaryOp) (deep : tokens.length + tokens'.length + 1 ≤ depth) (ends : EndsSum rest) :
    bitOr (.ofDepth depth) (tokens ++ .mark op.text :: (tokens' ++ rest)) =
      some (.binary op term term', rest) := by
  have stop : follower (.mark op.text :: (tokens' ++ rest)) =
      some (none, .mark op.text :: (tokens' ++ rest)) := by
    cases op <;> rfl
  rcases exists_level op with rfl | ⟨other, lower, operators, upper, level, found, absent⟩
  · obtain ⟨depth, rfl⟩ : ∃ below, depth = below + 1 := ⟨depth - 1, by omega⟩
    have left : awaited (.ofDepth (depth + 1)) (tokens ++ .mark "**" :: (tokens' ++ rest)) =
        some (term, .mark "**" :: (tokens' ++ rest)) := operand.run_awaited (by omega) stop
    have right : factor (.ofDepth depth) (tokens' ++ rest) = some (term', rest) :=
      operand'.run_factor (by omega) ends.follower ends.power
    have ran : factor (.ofDepth (depth + 1)) (tokens ++ .mark "**" :: (tokens' ++ rest)) =
        some (.binary .power term term', rest) := by
      have taken : optionalMark "**" (.mark "**" :: (tokens' ++ rest)) =
          some (true, tokens' ++ rest) := rfl
      rw [operand.factor_eq_power, power, bind_of_run left, bind_of_run taken, if_pos rfl]
      exact bind_of_run right
    rw [bitOr_eq]
    exact chains_pass _ ran fun operators _ => ends.operator operators
  · have noPower : nextIsMark "**" (.mark op.text :: (tokens' ++ rest)) =
        some (false, .mark op.text :: (tokens' ++ rest)) := by
      cases op with
      | power => exact absurd rfl other
      | _ => rfl
    rw [bitOr_eq, level]
    exact chains_once found absent (operand.run_factor (by omega) stop noPower)
      (operand'.run_factor (by omega) ends.follower ends.power) ends

end Operand

namespace Whole

variable {tokens tokens' : List Token} {term term' : Term}

theorem binary (operand : Operand tokens term) (operand' : Operand tokens' term')
    (op : BinaryOp) : Whole (tokens ++ .mark op.text :: tokens') (.binary op term term') where
  plain := by simp [operand.plain, operand'.plain, isPlain]
  unstarred _ := Term.noConfusion
  expression depth deep rest closes := by
    rw [List.length_append, List.length_cons] at deep
    have ran := operand.run_binary operand' op (by omega) closes.endsSum
    rw [List.append_assoc, List.cons_append]
    exact expression_run (operand.begins.nextIsWord (by decide) (by decide) _) closes
      (disjunction_pass closes.endsTest
        (inversion_run (operand.begins.optionalWord (by decide) (by decide) _)
          (comparison_pass closes.endsTest.toEndsComparison ran)))

theorem boolean (operand : Operand tokens term) (operand' : Operand tokens' term')
    (op : BooleanOp) : Whole (tokens ++ .word op.text :: tokens') (.boolean op term term') where
  plain := by simp [operand.plain, operand'.plain, isPlain]
  unstarred _ := Term.noConfusion
  expression depth deep rest closes := by
    rw [List.length_append, List.length_cons] at deep
    have ends := closes.endsTest
    have left : inversion (.ofDepth depth) (tokens ++ .word op.text :: (tokens' ++ rest)) =
        some (term, .word op.text :: (tokens' ++ rest)) :=
      operand.run_inversion (by omega) ⟨endsSum_word _ _, by cases op <;> rfl⟩
    have right : inversion (.ofDepth depth) (tokens' ++ rest) = some (term', rest) :=
      operand'.run_inversion (by omega) ends.toEndsComparison
    have ran : disjunction (.ofDepth depth) (tokens ++ .word op.text :: (tokens' ++ rest)) =
        some (.boolean op term term', rest) := by
      cases op with
      | and =>
        exact booleanChain_pass (booleanChain_once left right ends.conjunction) ends.disjunction
      | or =>
        exact booleanChain_once (booleanChain_pass left rfl)
          (booleanChain_pass right ends.conjunction) ends.disjunction
    rw [List.append_assoc, List.cons_append]
    exact expression_run (operand.begins.nextIsWord (by decide) (by decide) _) closes ran

theorem comparison (operand : Operand tokens term) (links : List (CompareOp × List Token × Term))
    (some_ : links ≠ []) (operands : ∀ link ∈ links, Operand link.2.1 link.2.2) :
    Whole (tokens ++ linkTokens links) (.comparison term (linkTerms links)) where
  plain := by
    have links_ : (linkTokens links).all isPlain = true := by
      rw [linkTokens, List.all_flatMap, List.all_eq_true]
      intro link listed
      rw [List.all_append, (operands link listed).plain, Bool.and_true]
      cases link.1 <;> rfl
    rw [List.all_append, operand.plain, links_]
    rfl
  unstarred _ := Term.noConfusion
  expression depth deep rest closes := by
    rw [List.length_append] at deep
    have ends := closes.endsTest
    have next : EndsSum (linkTokens links ++ rest) := by
      cases links with
      | nil => exact absurd rfl some_
      | cons link more =>
        rw [linkTokens, List.flatMap_cons, List.append_assoc, List.append_assoc]
        exact endsSum_comparison _ _
    have left : bitOr (.ofDepth depth) (tokens ++ (linkTokens links ++ rest)) =
        some (term, linkTokens links ++ rest) := operand.run_bitOr (by omega) next
    have reads : ∀ link ∈ links, Begins link.2.1 ∧ ∀ rest, EndsSum rest →
        bitOr (.ofDepth depth) (link.2.1 ++ rest) = some (link.2.2, rest) := by
      intro link listed
      have small := length_le_linkTokens listed
      exact ⟨(operands link listed).begins, fun rest ends =>
        (operands link listed).run_bitOr (by omega) ends⟩
    have many : manyWhile hasComparison (comparisonTail (.ofDepth depth))
        (linkTokens links ++ rest) = some (linkTerms links, rest) := by
      rw [manyWhile_run]
      refine comparisons_run ends.toEndsComparison reads ?_
      rw [List.length_append]
      exact Nat.le_add_right_of_le (length_links_le links)
    have ran : Grammar.comparison (.ofDepth depth) (tokens ++ (linkTokens links ++ rest)) =
        some (.comparison term (linkTerms links), rest) := by
      rw [comparison_eq, bind_of_run left, bind_of_run many]
      cases links with
      | nil => exact absurd rfl some_
      | cons link more => rfl
    rw [List.append_assoc]
    exact expression_run (operand.begins.nextIsWord (by decide) (by decide) _) closes
      (disjunction_pass ends
        (inversion_run (operand.begins.optionalWord (by decide) (by decide) _) ran))

theorem unary (operand : Operand tokens term) (op : UnaryOp) :
    Whole (op.tokens ++ tokens) (.unary op term) where
  plain := by
    rw [List.all_append, operand.plain, Bool.and_true]
    cases op <;> rfl
  unstarred _ := Term.noConfusion
  expression depth deep rest closes := by
    have one : op.tokens.length = 1 := by cases op <;> rfl
    rw [List.length_append, one] at deep
    obtain ⟨depth, rfl⟩ : ∃ below, depth = below + 1 := ⟨depth - 1, by omega⟩
    have ends := closes.endsTest
    have inner : factor (.ofDepth depth) (tokens ++ rest) = some (term, rest) :=
      operand.run_factor (by omega) ends.follower ends.power
    have joined (op : UnaryOp) : (factor (.ofDepth depth) >>= fun value =>
        pure (Term.unary op value)) (tokens ++ rest) = some (.unary op term, rest) := by
      rw [bind_of_run inner]
      rfl
    have atSign {text : String} (noNot : optionalWord "not" (.mark text :: (tokens ++ rest)) =
          some (false, .mark text :: (tokens ++ rest)))
        (ran : factor (.ofDepth (depth + 1)) (.mark text :: (tokens ++ rest)) =
          some (.unary op term, rest)) :
        Grammar.expression (.ofDepth (depth + 1)) (.mark text :: (tokens ++ rest)) =
          some (.unary op term, rest) := by
      have sum : bitOr (.ofDepth (depth + 1)) (.mark text :: (tokens ++ rest)) =
          some (.unary op term, rest) :=
        chains_pass precedence ran fun operators _ => ends.operator operators
      exact expression_run rfl closes (disjunction_pass ends
        (inversion_run noNot (comparison_pass ends.toEndsComparison sum)))
    cases op with
    | minus => exact atSign rfl (joined .minus)
    | plus => exact atSign rfl (joined .plus)
    | bitInvert => exact atSign rfl (joined .bitInvert)
    | not =>
      have inner : inversion (.ofDepth depth) (tokens ++ rest) = some (term, rest) :=
        operand.run_inversion (by omega) ends.toEndsComparison
      have ran : inversion (.ofDepth (depth + 1)) (.word "not" :: (tokens ++ rest)) =
          some (.unary .not term, rest) := by
        change (inversion (.ofDepth depth) >>= fun value => pure (Term.unary .not value))
          (tokens ++ rest) = _
        rw [bind_of_run inner]
        rfl
      exact expression_run rfl closes (disjunction_pass ends ran)

end Whole

end TreePass.Source.Grammar
