import TreePass.Proofs.Turns.Visits

/-!
Handlers that take up no faults. Such a handler follows a routine: it ends with a value, raises a
fault, changes the store and goes on with what it saw there, or runs the rest of its chain and goes
on with the answer. A fault that one handler of such a chain raises is what the chain ends with, at
once and as it was raised.
-/

set_option autoImplicit false
set_option relaxedAutoImplicit false

namespace TreePass

variable {σ : Type}

/-- What is left to do for a handler that takes up no faults. -/
inductive Routine (σ : Type)
  | finish (value : Value)
  | raise (fault : Fault)
  | act (change : Store σ → Store σ) (grows : ∀ s, Store.Grows s (change s))
      (rest : Store σ → Routine σ)
  | next (node : Expr) (rest : Value → Routine σ)

namespace Routine

/-- Carries out a routine, given what runs the rest of the chain. -/
def run (next : Expr → Action σ Value) : Routine σ → Action σ Value
  | .finish value => pure value
  | .raise fault => Action.fail fault
  | .act change grows rest => do
    let seen ← (⟨fun s => (.ok s, change s), grows⟩ : Action σ (Store σ))
    (rest seen).run next
  | .next node rest => do
    let value ← next node
    (rest value).run next

end Routine

/-- A handler that follows a routine, and so takes up no faults of the rest of its chain. -/
def Handler.Candid (handler : Handler σ) : Prop :=
  ∃ routine : Expr → Context σ → Routine σ, ∀ node ctx,
    handler node ctx = (routine node { ctx with next := none }).run ctx.callNext

def follow (ctx : Context σ) : List (Expr → Context σ → Routine σ) → Expr → Action σ Value
  | [], _ => Action.fail .wrongOperand
  | routine :: below, node => (routine node { ctx with next := none }).run (follow ctx below)

/-- A handler raises a fault: it does so itself, or a handler that it called further down does. The
stores are those before what is left of the routine and at the fault. -/
inductive Raises (ctx : Context σ) : List (Expr → Context σ → Routine σ) → Routine σ → Store σ →
    Fault → Store σ → Prop
  | raise {below : List (Expr → Context σ → Routine σ)} {fault : Fault} {s : Store σ} :
      Raises ctx below (.raise fault) s fault s
  | act {below : List (Expr → Context σ → Routine σ)} {change : Store σ → Store σ}
      {grows : ∀ s, Store.Grows s (change s)} {rest : Store σ → Routine σ} {fault : Fault}
      {s after : Store σ} (later : Raises ctx below (rest s) (change s) fault after) :
      Raises ctx below (.act change grows rest) s fault after
  /-- There is nothing further down to call. -/
  | atEnd {node : Expr} {rest : Value → Routine σ} {s : Store σ} :
      Raises ctx [] (.next node rest) s .wrongOperand s
  | called {routine : Expr → Context σ → Routine σ}
      {below : List (Expr → Context σ → Routine σ)} {node : Expr} {rest : Value → Routine σ}
      {fault : Fault} {s after : Store σ}
      (down : Raises ctx below (routine node { ctx with next := none }) s fault after) :
      Raises ctx (routine :: below) (.next node rest) s fault after
  | answered {below : List (Expr → Context σ → Routine σ)} {node : Expr}
      {rest : Value → Routine σ} {value : Value} {fault : Fault} {s s₁ after : Store σ}
      (answer : (follow ctx below node).run s = (.ok value, s₁))
      (later : Raises ctx below (rest value) s₁ fault after) :
      Raises ctx below (.next node rest) s fault after

variable {ctx : Context σ}

theorem Raises.run {below : List (Expr → Context σ → Routine σ)} {routine : Routine σ}
    {s after : Store σ} {fault : Fault} (raises : Raises ctx below routine s fault after) :
    (routine.run (follow ctx below)).run s = (.error fault, after) := by
  induction raises with
  | raise => rfl
  | act _ ih => exact ih
  | atEnd => rfl
  | called _ ih => exact Action.run_bind_of_error ih
  | answered answer _ ih => exact (Action.run_bind_of_ok answer).trans ih

private theorem raises_of_run {below : List (Expr → Context σ → Routine σ)} {routine : Routine σ}
    {s after : Store σ} {fault : Fault}
    (ran : (routine.run (follow ctx below)).run s = (.error fault, after)) :
    Raises ctx below routine s fault after := by
  -- A call goes on further down the chain, with a routine of its own; all else goes on in this one.
  induction below generalizing routine s after fault with
  | nil =>
    induction routine generalizing s with
    | finish value => cases ran
    | raise =>
      obtain ⟨given, rfl⟩ := Prod.mk.inj ran
      obtain rfl := Except.error.inj given
      exact .raise
    | act change grows rest ih => exact .act (ih s ran)
    | next node rest =>
      obtain ⟨given, rfl⟩ := Prod.mk.inj ran
      obtain rfl := Except.error.inj given
      exact .atEnd
  | cons first below ih =>
    induction routine generalizing s with
    | finish value => cases ran
    | raise =>
      obtain ⟨given, rfl⟩ := Prod.mk.inj ran
      obtain rfl := Except.error.inj given
      exact .raise
    | act change grows rest later => exact .act (later s ran)
    | next node rest later =>
      cases answer : (follow ctx (first :: below) node).run s with
      | mk outcome s₁ =>
        cases outcome with
        | ok value =>
          have continued := (Action.run_bind_of_ok answer).symm.trans ran
          exact .answered answer (later value continued)
        | error raised =>
          have failed := (Action.run_bind_of_error answer).symm.trans ran
          obtain ⟨given, rfl⟩ := Prod.mk.inj failed
          obtain rfl := Except.error.inj given
          exact .called (ih answer)

namespace Traversal

def Follow (chain : List (Link (Handler σ))) (routines : List (Expr → Context σ → Routine σ)) :
    Prop :=
  List.Forall₂ (fun link routine => ∀ node ctx, link.run node ctx =
    (routine node { ctx with next := none }).run ctx.callNext) chain routines

private theorem follow_of_candid {chain : List (Link (Handler σ))}
    (candid : ∀ link ∈ chain, Handler.Candid link.run) : ∃ routines, Follow chain routines := by
  induction chain with
  | nil => exact ⟨[], .nil⟩
  | cons link rest ih =>
    obtain ⟨routine, own⟩ := candid link List.mem_cons_self
    obtain ⟨routines, others⟩ := ih fun l member => candid l (List.mem_cons_of_mem _ member)
    exact ⟨routine :: routines, .cons own others⟩

private theorem invoke_eq_follow {chain : List (Link (Handler σ))}
    {routines : List (Expr → Context σ → Routine σ)} (follows : Follow chain routines)
    (ctx : Context σ) (node : Expr) : invoke ctx chain node = follow ctx routines node := by
  induction follows generalizing node with
  | nil => rfl
  | @cons link routine rest routines own others ih =>
    cases others with
    | nil => exact own node _
    | cons second others =>
      have below := funext ih
      refine (own node { ctx with next := some (invoke ctx (_ :: _)) }).trans ?_
      rw [follow, ← below]
      rfl

variable (t : Traversal σ)

/-- In a turn whose handlers follow routines, one of them raised the fault, and this was all. -/
def Raised (turn : Turn σ) (fault : Fault) (after : Store σ) : Prop :=
  ∃ first below, Follow (t.config.fullChain turn.slot turn.target) (first :: below) ∧
    Raises turn.ctx below (first turn.given { turn.ctx with next := none }) turn.before fault after

def Candid (turn : Turn σ) : Prop :=
  ∀ link ∈ t.config.fullChain turn.slot turn.target, Handler.Candid link.run

variable {t}

private theorem fullChain_ne_nil (slot : Slot) (target : Option Identity) :
    t.config.fullChain slot target ≠ [] := by
  simp [Config.fullChain, Config.chain]

theorem ending_eq_error_iff {turn : Turn σ} (candid : t.Candid turn) {fault : Fault}
    {after : Store σ} :
    t.ending turn = (.error fault, after) ↔ t.Raised turn fault after := by
  constructor
  · intro ended
    obtain ⟨routines, follows⟩ := follow_of_candid candid
    rw [ending, invoke_eq_follow follows] at ended
    cases routines with
    | nil => exact absurd (List.forall₂_nil_right_iff.mp follows) (fullChain_ne_nil _ _)
    | cons first below => exact ⟨first, below, follows, raises_of_run ended⟩
  · rintro ⟨first, below, follows, raises⟩
    rw [ending, invoke_eq_follow follows]
    exact raises.run

end Traversal

end TreePass
