import TreePass.Proofs.Dispatch.Configuration
import TreePass.Proofs.Visiting

/-!
What a call is aimed at, and which warning is due at it, said from the callee, the environment, the
scope in force and what was installed. Looking for the target of a call finds exactly that.
-/

set_option autoImplicit false
set_option relaxedAutoImplicit false

namespace TreePass

/-- Whether a scope binds a name; what is no scope binds none. -/
def Value.binds (scope : Value) (name : String) : Bool :=
  match scope with
  | .scope s => s.isBound name
  | _ => false

private theorem Value.binds_of_isBound {scope : Value} {name : String} {answer : Bool}
    (asked : scope.isBound name = .ok answer) : scope.binds name = answer := by
  cases scope with
  | scope s => exact Except.ok.inj asked
  | _ => cases asked

/-- A traversal by the history of its configuration. -/
structure Setup (σ : Type) where
  mode : Mode
  installs : List (Install (Handler σ))
  flags : Flags
  env : Option Environment
  params : Table

namespace Setup

variable {σ : Type} (setup : Setup σ)

def traversal : Traversal σ :=
  ⟨Config.built setup.mode setup.installs, setup.flags, setup.env, setup.params⟩

@[simp] theorem traversal_flags : setup.traversal.flags = setup.flags := rfl

theorem isRegistered_eq : setup.traversal.config.isRegistered = isTargeted setup.installs :=
  funext fun identity => Config.built_isRegistered setup.mode setup.installs identity

theorem hasTargets_eq : setup.traversal.config.hasTargets = anyTargeted setup.installs :=
  Config.built_hasTargets setup.mode setup.installs

theorem forall_link {property : Handler σ → Prop}
    (installed : ∀ i ∈ setup.installs, property i.added)
    (standard : ∀ handler : Standard, property handler.run) (slot : Slot)
    (target : Option Identity) :
    ∀ link ∈ setup.traversal.config.fullChain slot target, property link.run := by
  have ofInstalled {link : Link (Handler σ)} {select : Install (Handler σ) → Option (Handler σ)}
      (selects : ∀ i h, select i = some h → i.added = h)
      (listed : link ∈ (setup.installs.filterMap select).map Link.installed) :
      property link.run := by
    obtain ⟨h, selected, rfl⟩ := List.mem_map.mp listed
    obtain ⟨i, given, found⟩ := List.mem_filterMap.mp selected
    exact selects i h found ▸ installed i given
  intro link member
  rw [traversal, Config.built_fullChain, List.mem_append] at member
  rcases member with ofTarget | generic
  · cases target with
    | none => cases ofTarget
    | some identity =>
      exact ofInstalled (fun i h => Install.added_of_forTarget? slot identity) ofTarget
  · rcases List.mem_append.mp generic with ofSlot | last
    · exact ofInstalled (fun i h => Install.added_of_forSlot? slot) ofSlot
    · rw [List.mem_singleton.mp last]
      exact standard _

/-- The object a call is aimed at: the one a direct reference refers to, or the one a variable names
in the environment unless the scope in force binds that name. -/
def aim (scope : Value) : Expr → Option Identity
  | .call _ (.primitive _ ref) _ => some ref
  | .call _ (.symbol _ name) _ => if scope.binds name then none else setup.traversal.lookup name
  | _ => none

/-- The warning due at a call of a variable, if its flag is on. A name that the scope in force binds
may shadow an object with handlers of its own; a name that is neither bound nor in the environment
is unknown, which matters only where some object has handlers of its own. -/
def diagnosis (scope : Value) : Expr → Option Warning
  | .call _ (.symbol _ name) _ =>
    if scope.binds name then
      if (setup.traversal.lookup name).any (isTargeted setup.installs) &&
        setup.flags.isOn .localShadow then some (.localShadow name) else none
    else
      if (setup.traversal.lookup name).isNone && anyTargeted setup.installs &&
        setup.flags.isOn .unknownCallee then some (.unknownCallee name) else none
  | _ => none

structure Resolved (scope : Value) (node : Expr) (s : Store σ) (target : Option Identity)
    (s' : Store σ) : Prop where
  target : target = (setup.aim scope node).filter (isTargeted setup.installs)
  warnings : s'.warnings = s.warnings ++ (setup.diagnosis scope node).toArray
  tables : s'.tables = s.tables

variable {setup}

private theorem isTargeted_eq_false (none_given : anyTargeted setup.installs = false)
    (identity : Identity) : isTargeted setup.installs identity = false := by
  simp only [anyTargeted, List.any_eq_false] at none_given
  simp only [isTargeted, List.any_eq_false, beq_iff_eq]
  intro i member same
  exact none_given i member (by rw [same]; rfl)

theorem resolved_of_no_targets (none_given : anyTargeted setup.installs = false) (scope : Value)
    (node : Expr) (s : Store σ) : setup.Resolved scope node s none s where
  target := by
    cases setup.aim scope node with
    | none => rfl
    | some identity => rw [Option.filter, isTargeted_eq_false none_given identity]; rfl
  warnings := by
    have silent : setup.diagnosis scope node = none := by
      unfold diagnosis
      split
      · rename_i name _
        have shadowed : (setup.traversal.lookup name).any (isTargeted setup.installs) = false := by
          cases setup.traversal.lookup name with
          | none => rfl
          | some identity => exact isTargeted_eq_false none_given identity
        simp [shadowed, none_given]
      · rfl
    simp [silent]
  tables := rfl

private theorem resolved_of_dispatch {scope : Value} {node : Expr} {identity : Identity}
    {s s' : Store σ} {target : Option Identity} (aimed : setup.aim scope node = some identity)
    (silent : setup.diagnosis scope node = none)
    (ran : (setup.traversal.dispatch identity).run s = (.ok target, s')) :
    setup.Resolved scope node s target s' := by
  obtain ⟨notes, dispatched⟩ := setup.traversal.run_dispatch identity s
  rw [dispatched] at ran
  obtain ⟨found, rfl⟩ := Action.ok_inj ran
  refine ⟨?_, by simp [silent], rfl⟩
  rw [← found, aimed, isRegistered_eq, Option.filter]

theorem resolve_resolved {tag : Tag} {callee : Expr} {args : List (Option String × Expr)}
    {scope : Value} {s s' : Store σ} {target : Option Identity}
    (ran : (setup.traversal.resolve callee scope).run s = (.ok target, s')) :
    setup.Resolved scope (.call tag callee args) s target s' := by
  cases given : anyTargeted setup.installs with
  | false =>
    have nothing := setup.hasTargets_eq.trans given
    rw [Traversal.resolve_of_no_targets _ nothing] at ran
    obtain ⟨rfl, rfl⟩ := Action.ok_inj ran
    exact resolved_of_no_targets given scope _ s
  | true =>
    have targets := setup.hasTargets_eq.trans given
    cases callee with
    | atomic | pairlist | call =>
      simp only [Traversal.resolve, targets, ↓reduceIte] at ran
      obtain ⟨rfl, rfl⟩ := Action.ok_inj ran
      exact ⟨rfl, by simp [diagnosis], rfl⟩
    | primitive tag' ref =>
      simp only [Traversal.resolve, targets, ↓reduceIte] at ran
      exact resolved_of_dispatch rfl rfl ran
    | symbol tag' name =>
      cases asked : scope.isBound name with
      | error fault =>
        simp only [Traversal.resolve, targets, ↓reduceIte, asked] at ran
        rw [Action.run_bind_of_error (rfl : (Action.ofExcept (.error fault)).run s = _)] at ran
        cases ran
      | ok bound =>
        have binds := Value.binds_of_isBound asked
        cases bound with
        | true =>
          obtain ⟨notes, resolved⟩ := setup.traversal.run_resolve_of_bound targets tag' asked s
          rw [resolved] at ran
          obtain ⟨rfl, rfl⟩ := Action.ok_inj ran
          refine ⟨by simp [aim, binds], ?_, rfl⟩
          simp only [diagnosis, binds, ↓reduceIte, isRegistered_eq, traversal_flags]
          split_ifs <;> rfl
        | false =>
          cases known : setup.traversal.lookup name with
          | some identity =>
            rw [setup.traversal.resolve_of_known targets tag' asked known] at ran
            refine resolved_of_dispatch (by simp [aim, binds, known]) ?_ ran
            simp [diagnosis, binds, known]
          | none =>
            obtain ⟨notes, resolved⟩ :=
              setup.traversal.run_resolve_of_unknown targets tag' asked known s
            rw [resolved] at ran
            obtain ⟨rfl, rfl⟩ := Action.ok_inj ran
            refine ⟨by simp [aim, binds, known], ?_, rfl⟩
            cases flag : setup.flags.isOn .unknownCallee <;>
              simp [diagnosis, binds, known, given, flag]

end Setup

end TreePass
