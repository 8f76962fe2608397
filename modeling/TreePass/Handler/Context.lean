import TreePass.Handler.Config
import TreePass.Merge

/-!
What a handler is told about a visit, and what the standard handlers do with it.
-/

set_option autoImplicit false
set_option relaxedAutoImplicit false

namespace TreePass

/-- The circumstances of one handler call. -/
structure Context (σ : Type) where
  mode : Mode
  /-- What the enclosing nodes passed down. -/
  topdown : Value
  /-- The results of the children, in an analysis. -/
  bottomup : Option (List Value)
  /-- The scope in force. -/
  scope : Value
  flags : Flags
  env : Option Environment
  /-- Extra named parameters of the traversal. -/
  params : Table
  /-- Runs the rest of the chain on a node. -/
  next : Option (Expr → Action σ Value)
  /-- The visit that a skip ends; only topdown handlers have one. -/
  visit : Option Nat

/-- A handler turns a node and its circumstances into a result. -/
abbrev Handler (σ : Type) := Expr → Context σ → Action σ Value

namespace Context

variable {σ : Type}

def skip (ctx : Context σ) (value : Value) : Action σ Value :=
  match ctx.visit with
  | some visit => Action.fail (.skip visit value)
  | none => Action.fail .skipUnavailable

/-- Runs the rest of the chain; at its end there is nothing to run. -/
def callNext (ctx : Context σ) (node : Expr) : Action σ Value :=
  match ctx.next with
  | some next => next node
  | none => Action.fail .wrongOperand

end Context

/-- The bound test of whatever is stored as a scope; only scopes have one. -/
def Value.isBound (scope : Value) (name : String) : Except Fault Bool :=
  match scope with
  | .scope s => .ok (s.isBound name)
  | _ => .error .missingMember

namespace Standard

variable {σ : Type}

def run (handler : Standard) : Handler σ := fun node ctx =>
  match handler with
  | keepNode => pure (.node node)
  | emptyAnalysis => pure (.map [])
  | mergeAnalysis => do
    let merged ← Action.ofExcept (mergeResults (ctx.bottomup.getD []))
    return .map merged.entries
  | passTopdown => pure ctx.topdown

end Standard

namespace Link

variable {σ : Type}

def run : Link (Handler σ) → Handler σ
  | standard handler => handler.run
  | installed handler => handler

end Link

end TreePass
