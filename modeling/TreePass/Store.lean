import TreePass.Fault

/-!
The store behind a traversal: the metadata tables of all nodes, the counters that keep new nodes,
scopes and visits apart, and the record of warnings and notes.
-/

set_option autoImplicit false
set_option relaxedAutoImplicit false

namespace TreePass

/-- A diagnostic that does not stop a traversal. -/
inductive Warning
  | unknownCallee (name : String)
  | localShadow (name : String)
  deriving DecidableEq

namespace Warning

def message : Warning → String
  | unknownCallee name =>
    "Could not resolve the function '" ++ name ++ "'; only generic handlers apply."
  | localShadow name =>
    "'" ++ name ++ "' may be bound locally; target-specific handlers for it were not applied."

def flag : Warning → Flag
  | unknownCallee _ => .unknownCallee
  | localShadow _ => .localShadow

end Warning

/-- A detail worth a line in a verbose log. -/
inductive Note
  | skipped (kind : Kind)
  | suppressed (name : String)
  | notFound (name : String)
  | dispatch (identity : Identity)
  | scopeOf (name : Option String) (assigned bound : NameSet)
  | nestedScope (assigned bound : NameSet)
  | analysing (name : Option String)
  | transforming (name : Option String)
  deriving DecidableEq

namespace Note

def nameOrAnonymous (name : Option String) : String :=
  match name with
  | some "" | none => "<anonymous>"
  | some text => text

def setsText (assigned bound : NameSet) : String :=
  "assigned=" ++ Text.Quoted.nameList assigned ++ " bound=" ++ Text.Quoted.nameList bound

def message : Note → String
  | skipped kind => "Skipped " ++ kind.label ++ " subtree"
  | suppressed name =>
    "Target dispatch for '" ++ name ++ "' suppressed by a possible local binding"
  | notFound name => "Callee '" ++ name ++ "' not found in the environment"
  | dispatch identity => "Target dispatch for " ++ identity.description
  | scopeOf name assigned bound =>
    "Scope of " ++ nameOrAnonymous name ++ ": " ++ setsText assigned bound
  | nestedScope assigned bound => "Nested scope: " ++ setsText assigned bound
  | analysing name => "Analysing " ++ nameOrAnonymous name
  | transforming name => "Rewriting " ++ nameOrAnonymous name

end Note

/-- The state of a traversal. A node's tag is the index of its metadata table; `user` is what
handlers keep for themselves. -/
structure Store (σ : Type) where
  tables : Array Table
  scopes : Nat
  visits : Nat
  warnings : Array Warning
  notes : Array Note
  user : σ

namespace Store

variable {σ : Type}

/-- A store without nodes. Scope zero is the empty scope. -/
def initial (user : σ) : Store σ := ⟨#[], 1, 0, #[], #[], user⟩

def table (s : Store σ) (tag : Tag) : Table := s.tables[tag]?.getD []

/-- Adds a node with its metadata; its tag is the number of nodes before it. -/
def push (s : Store σ) (table : Table) : Store σ := { s with tables := s.tables.push table }

def update (s : Store σ) (tag : Tag) (change : Table → Table) : Store σ :=
  { s with tables := s.tables.modify tag change }

/-- Nothing is ever given up: later stores have at least as many nodes, scopes and visits. -/
structure Grows (before after : Store σ) : Prop where
  tables : before.tables.size ≤ after.tables.size
  scopes : before.scopes ≤ after.scopes
  visits : before.visits ≤ after.visits

theorem Grows.refl (s : Store σ) : Grows s s :=
  ⟨Nat.le_refl _, Nat.le_refl _, Nat.le_refl _⟩

theorem Grows.trans {a b c : Store σ} (first : Grows a b) (second : Grows b c) : Grows a c :=
  ⟨Nat.le_trans first.tables second.tables, Nat.le_trans first.scopes second.scopes,
    Nat.le_trans first.visits second.visits⟩

theorem grows_push (s : Store σ) (table : Table) : Grows s (s.push table) :=
  ⟨by simp [push], Nat.le_refl _, Nat.le_refl _⟩

theorem grows_update (s : Store σ) (tag : Tag) (change : Table → Table) :
    Grows s (s.update tag change) :=
  ⟨by simp [update], Nat.le_refl _, Nat.le_refl _⟩

end Store

end TreePass
