import TreePass.Proofs.Source.Parsing
import TreePass.Source.Grammar.Statement
import Mathlib

/-!
Words through the grammar of patterns and statements, up to whole texts: every name in a parsed text
is a word among its tokens.
-/

set_option autoImplicit false
set_option relaxedAutoImplicit false
set_option mvcgen.warning false

namespace TreePass.Source.Grammar

open Std.Do
open Spelled (spelled)

section Patterns

@[spec]
theorem dottedName_spec : Passes dottedName := by
  mvcgen [dottedName]
  all_goals simp_all

@[spec]
theorem captureName_spec : Passes captureName := by
  mvcgen [captureName]
  all_goals simp_all

@[spec]
theorem signedNumber_spec : Passes signedNumber := by
  mvcgen [signedNumber]
  all_goals try simp_all
  exact Words.drop ‹_› 3

@[spec]
theorem literalPattern_spec (g : Level) : Passes (literalPattern? g) := by
  mvcgen [literalPattern?]
  all_goals simp_all

@[spec]
theorem starPattern_spec : Passes starPattern := by
  mvcgen [starPattern]
  all_goals simp_all

variable {inner : Parser Unit} (inside : Passes inner)

include inside

@[spec]
theorem sequenceItem_spec : Passes (sequenceItem inner) := by
  mvcgen [sequenceItem, inside]

@[spec]
theorem mappingItem_spec (g : Level) : Passes (mappingItem g inner) := by
  mvcgen [mappingItem, inside]

@[spec]
theorem classItems_spec (fuel : Nat) (named : Bool) : Passes (classItems inner fuel named) := by
  induction fuel generalizing named with
  | zero => mvcgen [classItems]
  | succ fuel ih =>
    mvcgen [classItems, inside, ih]
    all_goals simp_all

@[spec]
theorem namePattern_spec : Passes (namePattern inner) := by
  mvcgen [namePattern, inside]
  all_goals simp_all

@[spec]
theorem closedPattern_spec (g : Level) : Passes (closedPattern g inner) := by
  mvcgen [closedPattern, inside]
  all_goals simp_all

@[spec]
theorem patternOver_spec (g : Level) : Passes (patternOver g inner) := by
  mvcgen [patternOver, inside]
  all_goals simp_all

end Patterns

@[spec]
theorem pattern_spec (g : Level) (depth : Nat) : Passes (pattern g depth) := by
  induction depth with
  | zero => exact fun _ _ => trivial
  | succ depth ih => exact patternOver_spec ih g

@[spec]
theorem casePattern_spec (g : Level) : Passes (casePattern g) := by
  mvcgen [casePattern]
  all_goals simp_all


section Small
variable {g : Level} (spells : g.Spells)

@[spec]
theorem nextAugmented_spec : Passes nextAugmented := by
  mvcgen [nextAugmented]
  all_goals simp_all

@[spec]
theorem importedModule_spec : Passes importedModule := by
  mvcgen [importedModule]
  all_goals simp_all

@[spec]
theorem importedName_spec : Passes importedName := by
  mvcgen [importedName]
  all_goals simp_all

@[spec]
theorem nextIsDots_spec : Passes nextIsDots := by
  mvcgen [nextIsDots]

@[spec]
theorem importFrom_spec : Passes importFrom := by
  mvcgen [importFrom]
  all_goals simp_all

include spells

@[spec]
theorem assignmentChain_spec (fuel : Nat) {target : Term} (onTarget : target.Spelled) :
    Spells (assignmentChain g fuel target) := by
  induction fuel generalizing target with
  | zero => mvcgen [assignmentChain]
  | succ fuel ih =>
    mvcgen [assignmentChain, ih]
    all_goals simp_all

@[spec]
theorem expressionStatement_spec : Spells (expressionStatement g) := by
  mvcgen [expressionStatement]
  all_goals simp_all

@[spec]
theorem deletion_spec : Passes (deletion g) := by
  mvcgen [deletion]
  all_goals simp_all

@[spec]
theorem typeParams_spec : Passes (typeParams g) := by
  mvcgen [typeParams]
  all_goals simp_all

@[spec]
theorem keywordStatement_spec (text : String) : Spells (keywordStatement g text) := by
  mvcgen [keywordStatement]
  all_goals simp_all

@[spec]
theorem typeAlias_spec : Spells (typeAlias g) := by
  mvcgen [typeAlias]
  all_goals simp_all

@[spec]
theorem small_spec : Spells (small g) := by
  mvcgen [small]
  all_goals simp_all

@[spec]
theorem line_spec : Spells (line g) := by
  mvcgen [line]
  all_goals simp_all

end Small

section Compound

variable {block : Parser (List Statement)} (inside : Spells block)

include inside

@[spec]
theorem suite_spec : Spells (suite block) := by
  mvcgen [suite, inside]

@[spec]
theorem elseSuite_spec : Spells (elseSuite block) := by
  mvcgen [elseSuite, inside]
  all_goals simp_all

variable {g : Level} (spells : g.Spells)

include spells

@[spec]
theorem alternative_spec (fuel : Nat) : Spells (alternative g block fuel) := by
  induction fuel with
  | zero => mvcgen [alternative]
  | succ fuel ih =>
    mvcgen [alternative, inside, ih]
    all_goals simp_all

@[spec]
theorem conditional_spec : Spells (conditional g block) := by
  mvcgen [conditional]
  all_goals simp_all

@[spec]
theorem whileLoop_spec : Spells (whileLoop g block) := by
  mvcgen [whileLoop]
  all_goals simp_all

@[spec]
theorem forLoop_spec (asynchronous : Bool) : Spells (forLoop g block asynchronous) := by
  mvcgen [forLoop]
  all_goals simp_all

@[spec]
theorem definition_spec (asynchronous : Bool) (decorators : List Term) :
    Spells (definition g block asynchronous decorators) := by
  mvcgen [definition]
  all_goals simp_all

@[spec]
theorem classDefinition_spec : Spells (classDefinition g block) := by
  mvcgen [classDefinition]
  all_goals simp_all

omit inside in
@[spec]
theorem withItem_spec : Passes (withItem g) := by
  mvcgen [withItem]
  all_goals simp_all

omit inside spells in
@[spec]
theorem orElse_spec {first second : Parser Unit} (onFirst : Passes first)
    (onSecond : Passes second) : Passes (first <|> second) := by
  intro tokens words
  change (wp⟦(first tokens <|> second tokens : Option (Unit × List Token))⟧
    (fun out => ⌜Words out.2⌝, ExceptConds.true)).down
  cases found : first tokens with
  | none => exact onSecond tokens words
  | some out => exact of_triple onFirst words found

@[spec]
theorem withStatement_spec : Spells (withStatement g block) := by
  mvcgen [withStatement]
  all_goals simp_all

@[spec]
theorem handler_spec : Spells (handler g block) := by
  mvcgen [handler]
  all_goals simp_all

@[spec]
theorem tryStatement_spec : Spells (tryStatement g block) := by
  mvcgen [tryStatement]
  all_goals simp_all

@[spec]
theorem case_spec : Passes (case g block) := by
  mvcgen [case]
  all_goals simp_all

omit inside in
@[spec]
theorem matchHead_spec : Passes (matchHead g) := by
  mvcgen [matchHead]
  all_goals simp_all

@[spec]
theorem matchBody_spec : Spells (matchBody g block) := by
  mvcgen [matchBody]
  all_goals simp_all

@[spec]
theorem decorated_spec : Spells (decorated g block) := by
  mvcgen [decorated]
  all_goals simp_all

@[spec]
theorem asynchronous_spec : Spells (asynchronous g block) := by
  mvcgen [asynchronous]
  all_goals simp_all

@[spec]
theorem statement_spec : Spells (statement g block) := by
  mvcgen [statement]
  all_goals try simp_all
  exact of_triple (matchHead_spec spells) (‹Words _ ∧ Words _›).2 ‹_›

@[spec]
theorem blockOver_spec : Spells (blockOver g block) := by
  mvcgen [blockOver]
  all_goals simp_all

end Compound

private theorem block_spells {g : Level} (spells : g.Spells) (depth : Nat) : Spells
    (block g depth) := by
  induction depth with
  | zero => exact fun _ _ => trivial
  | succ depth ih => exact blockOver_spec ih spells

theorem spelled_module {tokens : List Token} {statements : List Statement} (words : Words tokens)
    (parsed : module tokens = some statements) : spelled statements := by
  obtain ⟨⟨_, rest⟩, run, rfl⟩ := Option.map_eq_some_iff.mp parsed
  have rules := Level.spells_ofDepth (Token.weights tokens + 1)
  have inner := block_spells rules (Token.weights tokens + 1)
  refine (of_triple (Q := fun statements rest => Words rest ∧ spelled statements) ?_ words run).2
  mvcgen [inner]
  all_goals simp_all

end TreePass.Source.Grammar
