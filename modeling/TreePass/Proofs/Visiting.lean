import TreePass.Traversal
import TreePass.Proofs.Copying

/-!
The steps of a visit, one by one: reading the scope in force, finding a target, running a chain and
taking up a skip.
-/

set_option autoImplicit false
set_option relaxedAutoImplicit false

namespace TreePass

variable {σ ρ : Type}

/-- The stamp of a node: what is stored as its scope, unless that is empty. -/
def Store.stamp? (s : Store σ) (node : Expr) : Option Value :=
  match (s.table node.tag).find? Node.scopeKey with
  | some .none => none
  | found => found

@[simp] theorem Node.run_scope? (node : Expr) (s : Store σ) :
    node.scope?.run s = (.ok (s.stamp? node), s) := by
  have read : (node.metadata? scopeKey).run s =
      (.ok ((s.table node.tag).find? scopeKey), s) := rfl
  rw [scope?, Action.run_bind_of_ok read, Store.stamp?]
  cases (s.table node.tag).find? scopeKey with
  | none => rfl
  | some found => cases found <;> rfl

namespace Action

variable {α : Type} {action : Action σ α} {s s' : Store σ} {visit : Nat}

theorem run_catchSkip_of_ok {a : α} (ran : action.run s = (.ok a, s')) :
    (catchSkip visit action).run s = (.ok (.done a), s') := by
  simp only [catchSkip, ran]

theorem run_catchSkip_of_skip {value : Value}
    (ran : action.run s = (.error (.skip visit value), s')) :
    (catchSkip visit action).run s = (.ok (.skipped value), s') := by
  simp only [catchSkip, ran, ↓reduceIte]

end Action

namespace Traversal

variable (t : Traversal σ)

@[simp] theorem run_scopeAt (node : Expr) (inherited : Value) (s : Store σ) :
    (scopeAt node inherited).run s = (.ok ((s.stamp? node).getD inherited), s) := by
  rw [scopeAt, Action.run_bind_of_ok (Node.run_scope? node s)]
  rfl

theorem resolve_of_no_targets (none_given : t.config.hasTargets = false) (callee : Expr)
    (scope : Value) : t.resolve callee scope = pure none := by
  simp only [resolve, none_given, Bool.false_eq_true, ↓reduceIte]

theorem run_warn (warning : Warning) (s : Store σ) :
    (t.warn warning).run s = (.ok (), { s with
      warnings := s.warnings ++ (if t.flags.isOn warning.flag then #[warning] else #[]) }) := by
  unfold warn
  split_ifs
  · rw [Action.run_warn, Array.push_eq_append]
  · rw [Action.run_pure, Array.append_empty]

/-- Only a registered object is dispatched to; nothing but a note is left behind. -/
theorem run_dispatch (identity : Identity) (s : Store σ) : ∃ notes,
    (t.dispatch identity).run s =
      (.ok (if t.config.isRegistered identity then some identity else none),
        { s with notes := notes }) := by
  unfold dispatch
  split_ifs
  · exact ⟨_, rfl⟩
  · exact ⟨s.notes, rfl⟩

/-- A call of a variable that is bound in the scope in force has no target. The warning is due when
the environment knows a registered object of that name. -/
theorem run_resolve_of_bound (targets : t.config.hasTargets = true) (tag : Tag) {name : String}
    {scope : Value} (bound : scope.isBound name = .ok true) (s : Store σ) : ∃ notes,
    (t.resolve (.symbol tag name) scope).run s = (.ok none, { s with
      notes := notes
      warnings := s.warnings ++ (if (t.lookup name).any t.config.isRegistered &&
        t.flags.isOn .localShadow then #[.localShadow name] else #[]) }) := by
  simp only [resolve, targets, ↓reduceIte, bound]
  rw [Action.run_bind_of_ok (Action.run_ofExcept_ok true s)]
  have registered : ((t.lookup name).map t.config.isRegistered).getD false =
      (t.lookup name).any t.config.isRegistered := by
    cases t.lookup name <;> rfl
  rw [registered]
  cases (t.lookup name).any t.config.isRegistered with
  | false =>
    refine ⟨s.notes, ?_⟩
    simp only [Bool.false_and, Bool.false_eq_true, ↓reduceIte, Array.append_empty]
    rfl
  | true =>
    refine ⟨s.notes.push (.suppressed name), ?_⟩
    simp only [↓reduceIte, Bool.true_and]
    rw [Action.run_bind_of_ok (Action.run_note (.suppressed name) s),
      Action.run_bind_of_ok (t.run_warn (.localShadow name) _)]
    rfl

theorem resolve_of_bound_ends (tag : Tag) {name : String} {scope : Value}
    (bound : scope.isBound name = .ok true) (s : Store σ) :
    (t.resolve (.symbol tag name) scope).Ends s fun target _ => target = none := by
  cases targets : t.config.hasTargets with
  | false =>
    rw [t.resolve_of_no_targets targets]
    exact Action.ends_pure rfl
  | true =>
    obtain ⟨notes, ran⟩ := t.run_resolve_of_bound targets tag bound s
    exact .of_run ran rfl

theorem run_resolve_of_unknown (targets : t.config.hasTargets = true) (tag : Tag) {name : String}
    {scope : Value} (free : scope.isBound name = .ok false) (unknown : t.lookup name = none)
    (s : Store σ) : ∃ notes,
    (t.resolve (.symbol tag name) scope).run s = (.ok none, { s with
      notes := notes
      warnings := s.warnings ++
        (if t.flags.isOn .unknownCallee then #[.unknownCallee name] else #[]) }) := by
  refine ⟨s.notes.push (.notFound name), ?_⟩
  simp only [resolve, targets, ↓reduceIte, free, unknown]
  rw [Action.run_bind_of_ok (Action.run_ofExcept_ok false s)]
  simp only [Bool.false_eq_true, ↓reduceIte]
  rw [Action.run_bind_of_ok (Action.run_note (.notFound name) s),
    Action.run_bind_of_ok (t.run_warn (.unknownCallee name) _)]
  rfl

theorem resolve_of_known (targets : t.config.hasTargets = true) (tag : Tag) {name : String}
    {scope : Value} (free : scope.isBound name = .ok false) {identity : Identity}
    (known : t.lookup name = some identity) (s : Store σ) :
    (t.resolve (.symbol tag name) scope).run s = (t.dispatch identity).run s := by
  simp only [resolve, targets, ↓reduceIte, free, known]
  rw [Action.run_bind_of_ok (Action.run_ofExcept_ok false s)]
  rfl

end Traversal

end TreePass
