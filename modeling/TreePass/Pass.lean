import TreePass.Scoping.Analysis

/-!
Passes over functions and expressions. The result of a transformation is annotated again, so that
passes can follow one another.
-/

set_option autoImplicit false
set_option relaxedAutoImplicit false

namespace TreePass

/-- What a pass is given beside the function or expression it runs over. -/
structure Pass (σ : Type) where
  config : Config (Handler σ)
  flags : Flags := {}
  topdown : Value := .none
  params : Table := []

namespace Pass

variable {σ : Type}

def requireMode (pass : Pass σ) (expected : Mode) : Action σ Unit :=
  if pass.config.mode = expected then pure ()
  else Action.fail (.modeMismatch pass.config.mode expected)

def traversal (pass : Pass σ) (env : Option Environment) : Traversal σ :=
  ⟨pass.config, pass.flags, env, pass.params⟩

def ensureAnnotated (fn : Function) (policy : Option Policy) : Action σ Function :=
  match fn.scope, policy with
  | some _, none => pure fn
  | _, _ => (policy.getD {}).annotate fn

def analyseFunction (pass : Pass σ) (fn : Function) (policy : Option Policy) :
    Action σ Entries := do
  pass.requireMode .analyse
  let fn ← ensureAnnotated fn policy
  Action.note (.analysing fn.name)
  (pass.traversal fn.env).analyse pass.topdown (fn.scope.getD Scope.empty) fn.body

/-- Transforms the body of a function and annotates the result from scratch. -/
def transformFunction (pass : Pass σ) (fn : Function) (policy : Option Policy) :
    Action σ Function := do
  pass.requireMode .transform
  let fn ← ensureAnnotated fn policy
  Action.note (.transforming fn.name)
  let body ← (pass.traversal fn.env).transform pass.topdown (fn.scope.getD Scope.empty) fn.body
  (policy.getD {}).annotate { fn with body := body, scope := none }

def analyseExpr (pass : Pass σ) (env : Option Environment) (expr : Expr) : Action σ Entries := do
  pass.requireMode .analyse
  (pass.traversal env).analyse pass.topdown Scope.empty expr

def transformExpr (pass : Pass σ) (env : Option Environment) (expr : Expr) : Action σ Expr := do
  pass.requireMode .transform
  (pass.traversal env).transform pass.topdown Scope.empty expr

end Pass

def symbolCollector {σ : Type} : Config (Handler σ) :=
  (Config.standard .analyse).install .symbol fun node _ =>
    match node.symbolName? with
    | some name => pure (.map [(some "symbols", .ofNames [name])])
    | none => Action.fail .missingMember

def firstSeen (names : List String) : List String :=
  names.foldl (fun seen name => if seen.contains name then seen else seen ++ [name]) []

/-- The variables of a function in the order of a traversal, or each of them once. -/
def collectSymbols {σ : Type} (fn : Function) (flags : Flags) (unique : Bool) :
    Action σ (List String) := do
  let pass : Pass σ := { config := symbolCollector, flags := flags }
  let found ← pass.analyseFunction fn none
  let names := Policy.texts ((found.lookup (some "symbols")).map Value.items |>.getD [])
  return if unique then firstSeen names else names

end TreePass
