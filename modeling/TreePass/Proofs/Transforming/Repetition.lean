import TreePass.Proofs.Scoping.Structure
import TreePass.Proofs.Transforming.Isolation
import TreePass.Proofs.Transforming.Reproduction

/-!
Passes without handlers of their own. Such a pass gives back its function: structure, name,
environment and metadata, however often it is repeated. It annotates the result from scratch, and
with the policy that it is given itself: a function that was annotated with another policy keeps its
scopes only if that policy is given again, or if both policies see the same scopes in it.
-/

set_option autoImplicit false
set_option relaxedAutoImplicit false

namespace TreePass

variable {σ : Type}

namespace Function

/-- A function carried over from one store to another: the scopes apart, it is the same. -/
structure Carried (fn : Function) (before : Store σ) (out : Function) (after : Store σ) : Prop where
  same : out.SameStructure fn
  env : out.env = fn.env
  name : out.name = fn.name
  live : fn.Live before → out.Live after
  others : fn.Live before → out.otherMetadata after = fn.otherMetadata before

theorem Carried.refl (fn : Function) (s : Store σ) : fn.Carried s fn s :=
  ⟨.refl fn, rfl, rfl, id, fun _ => rfl⟩

theorem Carried.trans {a b c : Function} {s s₁ s₂ : Store σ} (first : a.Carried s b s₁)
    (second : b.Carried s₁ c s₂) : a.Carried s c s₂ where
  same := second.same.trans first.same
  env := second.env.trans first.env
  name := second.name.trans first.name
  live live := second.live (first.live live)
  others live := (second.others (first.live live)).trans (first.others live)

/-- Replacing the body by a copy carries a function over; the parameters are those it had. -/
theorem carried_of_copied_body {fn : Function} {body : Expr} {s s' : Store σ}
    (same : body.bare = fn.body.bare) (copied : Node.Copied s s' fn.body.nodes body.nodes) :
    fn.Carried s { fn with body := body, scope := none } s' where
  same := ⟨rfl, same⟩
  env := rfl
  name := rfl
  live := by
    intro live n member
    rcases List.mem_append.mp member with inParams | inBody
    · exact Nat.lt_of_lt_of_le (live n (List.mem_append_left _ inParams)) copied.frame.size
    · exact (copied.fresh.new n inBody).2
  others := by
    intro live
    have ofParams : ∀ n ∈ fn.params.nodes, s'.table n.tag = s.table n.tag := by
      intro n member
      exact copied.frame.table n.tag (live n (List.mem_append_left _ member)) List.not_mem_nil
    have ofBody := copied.carries fun n member => live n (List.mem_append_right _ member)
    have kept := congrArg (List.map (Table.without Node.scopeKey)) ofBody
    simp only [List.map_map] at kept
    simp only [otherMetadata, nodes, List.map_append]
    refine congrArg₂ (· ++ ·) (List.map_congr_left fun n member => ?_) kept
    rw [ofParams n member]

end Function

theorem Policy.Annotated.carried {policy : Policy} {fn out : Function} {before after : Store σ}
    (annotated : policy.Annotated fn before out after) : fn.Carried before out after where
  same := annotated.sameStructure
  env := annotated.env
  name := annotated.name
  live _ := annotated.live
  others := annotated.otherMetadata_eq

namespace Pass

/-- Passes that follow one another, each with the policy that it is given. -/
def inTurn : List (Pass σ × Option Policy) → Function → Action σ Function
  | [], fn => pure fn
  | (pass, given) :: rest, fn => do
    let out ← pass.transformFunction fn given
    inTurn rest out

variable {pass : Pass σ}

private theorem ensureAnnotated_carries {fn : Function} (list : fn.params.isPairlist = true)
    (given : Option Policy) (s : Store σ) :
    (ensureAnnotated fn given).Ends s fun out s' => fn.Carried s out s' := by
  rcases ensureAnnotated_cases (σ := σ) fn given with ⟨-, -, same⟩ | same
  · rw [same]
    exact Action.ends_pure (.refl fn s)
  · rw [same]
    exact ((given.getD {}).annotate_ends list s).mono fun out s' annotated => annotated.carried

private theorem standard_pass_carries (standard : pass.config = .standard .transform)
    {fn : Function} (list : fn.params.isPairlist = true) (given : Option Policy) (s : Store σ) :
    (pass.transformFunction fn given).Ends s fun out s' =>
      fn.Carried s out s' ∧ out.annotation s' =
        (some ((given.getD {}).setsOf [fn.literal]), ((given.getD {}).stampsOf fn).map some) := by
  have checked : pass.requireMode .transform = (pure () : Action σ Unit) := by
    rw [requireMode, standard]
    rfl
  rw [transformFunction, checked]
  refine Action.ends_bind_of_run (Action.run_pure () s) ?_
  refine Action.Ends.bind (ensureAnnotated_carries list given s) ?_
  intro prepared s₁ carried
  refine Action.ends_bind_of_run (Action.run_note _ s₁) ?_
  refine Action.Ends.bind (Traversal.visit_copies standard prepared.body _ _ _) ?_
  rintro body s₂ ⟨bare, copied⟩
  -- Nothing was copied by leaving a note on the way.
  have noted := (Store.Frame.refl [] s₁).withNotes (s₁.notes.push (.transforming prepared.name))
  have rebuilt := carried.trans
    (Function.carried_of_copied_body bare ((Node.Copied.of_frame noted).append copied))
  refine (Policy.annotation_ends rebuilt.same list s₂).mono ?_
  rintro out s₃ ⟨shown, annotated⟩
  exact ⟨rebuilt.trans annotated.carried, shown⟩

private theorem inTurn_carries (earlier : List (Pass σ × Option Policy)) {given : Option Policy}
    (standard : ∀ p ∈ earlier ++ [(pass, given)], p.1.config = .standard .transform)
    {fn : Function} (list : fn.params.isPairlist = true) (s : Store σ) :
    (inTurn (earlier ++ [(pass, given)]) fn).Ends s fun out s' =>
      fn.Carried s out s' ∧ out.annotation s' =
        (some ((given.getD {}).setsOf [fn.literal]), ((given.getD {}).stampsOf fn).map some) := by
  induction earlier generalizing fn s with
  | nil =>
    refine Action.Ends.bind
      (standard_pass_carries (standard (pass, given) List.mem_cons_self) list given s) ?_
    intro out s₁ carried
    exact Action.ends_pure carried
  | cons first rest ih =>
    refine Action.Ends.bind
      (standard_pass_carries (standard first List.mem_cons_self) list first.2 s) ?_
    rintro mid s₁ ⟨carried, -⟩
    refine (ih (fun p listed => standard p (List.mem_cons_of_mem first listed))
      (carried.same.isPairlist list) s₁).mono ?_
    rintro out s₂ ⟨again, shown⟩
    rw [Policy.setsOf_literal_congr _ carried.same, Policy.stampsOf_congr _ carried.same] at shown
    exact ⟨carried.trans again, shown⟩

end Pass

/-- Any number of passes without handlers of their own give back the annotated function that they
start from: its structure, environment, name and metadata. Its scope and stamps are those of the
policy given to the last pass, the standard one if none is given; so they are the ones it had
whenever that is the policy it was annotated with, whatever was given to the passes before. -/
theorem standard_passes_keep_function (policy : Policy) (fn : Function)
    (list : fn.params.isPairlist = true) (earlier : List (Pass σ × Option Policy))
    (last : Pass σ) (given : Option Policy)
    (standard : ∀ p ∈ earlier ++ [(last, given)], p.1.config = .standard .transform)
    (s : Store σ) :
    (policy.annotate fn).Ends s fun out s₁ =>
      (Pass.inTurn (earlier ++ [(last, given)]) out).Ends s₁ fun again s₂ =>
        again.SameStructure out ∧ again.env = out.env ∧ again.name = out.name ∧
        again.otherMetadata s₂ = out.otherMetadata s₁ ∧
        (∀ s₃ : Store σ, ((given.getD {}).annotate fn).Ends s₃ fun told s₄ =>
          again.annotation s₂ = told.annotation s₄) ∧
        (given.getD {} = policy → again.annotation s₂ = out.annotation s₁) := by
  refine (Policy.annotation_ends (.refl fn) list s).mono ?_
  rintro out s₁ ⟨shownOut, annotated⟩
  have same := annotated.sameStructure
  refine (Pass.inTurn_carries earlier standard (same.isPairlist list) s₁).mono ?_
  rintro again s₂ ⟨carried, shown⟩
  rw [Policy.setsOf_literal_congr _ same, Policy.stampsOf_congr _ same] at shown
  refine ⟨carried.same, carried.env, carried.name, carried.others annotated.live, ?_, ?_⟩
  · intro s₃
    refine (Policy.annotation_ends (.refl fn) list s₃).mono ?_
    rintro told s₄ ⟨shownTold, -⟩
    rw [shown, shownTold]
  · intro given_is
    rw [shown, shownOut, given_is]

def assignPolicy : Policy := { assignmentForms := ["assign"] }

/-- A function with the body `assign(x, 1)`. -/
def assigningCall : Function where
  params := .pairlist 0 []
  body := .call 1 (.symbol 2 "assign") [(none, .symbol 3 "x"), (none, .atomic 4 (.int 1))]
  name := some "fn"

/-- The last of three passes is given the policy again and keeps the scope in which `x` is bound,
which the two before it do not see. -/
theorem standard_passes_keep_function_assigningCall :
    assigningCall.params.isPairlist = true ∧
    (assignPolicy.annotate assigningCall).Ends (Store.initial ()) fun out s₁ =>
      let pass : Pass Unit := { config := .standard .transform }
      (Pass.inTurn [(pass, none), (pass, some {}), (pass, some assignPolicy)] out).Ends s₁
        fun again s₂ =>
          again.SameStructure out ∧ again.name = some "fn" ∧
          again.annotation s₂ = out.annotation s₁ := by
  refine ⟨rfl, ?_⟩
  let pass : Pass Unit := { config := .standard .transform }
  let earlier : List (Pass Unit × Option Policy) := [(pass, none), (pass, some {})]
  have standard : ∀ p ∈ earlier ++ [(pass, some assignPolicy)],
      p.1.config = .standard .transform := by simp [earlier, pass]
  obtain ⟨out, s₁, ran, passed⟩ := standard_passes_keep_function assignPolicy assigningCall rfl
    earlier pass (some assignPolicy) standard (Store.initial ())
  refine ⟨out, s₁, ran, passed.mono ?_⟩
  rintro again s₂ ⟨same, -, name, -, -, kept⟩
  exact ⟨same, name.trans (Policy.annotated_of_run ran).name, kept rfl⟩

/-- Without a policy of its own the pass annotates with the standard one, for which `assign` is a
call like any other: `x` is bound before the pass and not after it. -/
theorem standard_pass_forgets_policy :
    (assignPolicy.annotate assigningCall).Ends (Store.initial ()) fun out s₁ =>
      (({ config := .standard .transform } : Pass Unit).transformFunction out none).Ends s₁
        fun again s₂ =>
          out.annotation s₁ = (some (["x"], ["x"]), List.replicate 5 (some (["x"], ["x"]))) ∧
          again.annotation s₂ = (some ([], []), List.replicate 5 (some ([], []))) := by
  refine (Policy.annotation_ends (.refl assigningCall) rfl (Store.initial ())).mono ?_
  rintro out s₁ ⟨shown, annotated⟩
  have same := annotated.sameStructure
  refine (Pass.standard_pass_carries rfl (same.isPairlist rfl) none s₁).mono ?_
  rintro again s₂ ⟨-, shownAgain⟩
  rw [Policy.setsOf_literal_congr _ same, Policy.stampsOf_congr _ same] at shownAgain
  rw [shown, shownAgain]
  decide +kernel

end TreePass
