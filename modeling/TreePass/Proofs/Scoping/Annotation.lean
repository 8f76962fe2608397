import TreePass.Pass
import TreePass.Proofs.Scoping.Stamping

/-!
Annotating a function gives a copy with the same structure. Every position of the copy carries the
scope of the stack of functions it stands in, where the function itself is at the bottom of every
stack.
-/

set_option autoImplicit false
set_option relaxedAutoImplicit false

namespace TreePass

/-- The parts of a function. -/
def Function.literal (fn : Function) : Literal := (some fn.params, fn.body)

/-- The nodes of a function, those of its parameters first. -/
def Function.nodes (fn : Function) : List Expr := fn.params.nodes ++ fn.body.nodes

def Function.Live {σ : Type} (fn : Function) (s : Store σ) : Prop :=
  ∀ n ∈ fn.nodes, n.tag < s.tables.size

namespace Policy

variable {σ : Type} (policy : Policy)

/-- The nodes of a function, each with the stack of functions it stands in. -/
def placement (fn : Function) : List (Expr × List Literal) :=
  policy.standing [fn.literal] fn.params ++ policy.standing [fn.literal] fn.body

theorem placement_fst (fn : Function) : (policy.placement fn).map Prod.fst = fn.nodes := by
  rw [placement, List.map_append, standing_fst, standing_fst, Function.nodes]

/-- What annotating a function comes to: the function is copied, and then the copy is stamped. -/
structure Annotated (fn : Function) (before : Store σ) (out : Function) (after : Store σ) :
    Prop where
  params : out.params.bare = fn.params.bare
  body : out.body.bare = fn.body.bare
  env : out.env = fn.env
  name : out.name = fn.name
  scope : ∃ info : Scope, out.scope = some info ∧ info.Fits policy [out.literal]
  written : ∃ copied : Store σ, Node.Copied before copied fn.nodes out.nodes ∧
    Stamping policy copied after (policy.placement out)

theorem Annotated.table_eq {policy : Policy} {fn out : Function} {before after : Store σ}
    (annotated : policy.Annotated fn before out after) {tag : Tag}
    (old : tag < before.tables.size) : after.table tag = before.table tag := by
  obtain ⟨copy, copied, stamping⟩ := annotated.written
  rw [stamping.frame.table tag (Nat.lt_of_lt_of_le old copied.frame.size),
    copied.frame.table tag old List.not_mem_nil]
  -- Only nodes of the copy are stamped, and they are all new.
  intro placed
  obtain ⟨p, member, rfl⟩ := List.mem_map.mp placed
  have listed : p.1 ∈ out.nodes := policy.placement_fst out ▸ List.mem_map_of_mem member
  exact absurd old (Nat.not_lt.mpr (copied.fresh.new p.1 listed).1)

theorem Annotated.live {policy : Policy} {fn out : Function} {before after : Store σ}
    (annotated : policy.Annotated fn before out after) : out.Live after := by
  intro n member
  obtain ⟨copy, copied, stamping⟩ := annotated.written
  exact Nat.lt_of_lt_of_le (copied.fresh.new n member).2 stamping.frame.size

theorem annotate_ends {fn : Function} (list : fn.params.isPairlist = true) (s : Store σ) :
    (policy.annotate fn).Ends s (policy.Annotated fn s) := by
  refine Action.Ends.bind (fn.params.clone_ends s) ?_
  rintro params s₁ ⟨bareParams, copiedParams⟩
  refine Action.Ends.bind (fn.body.clone_ends s₁) ?_
  rintro body s₂ ⟨bareBody, copiedBody⟩
  have copied := copiedParams.append copiedBody
  obtain ⟨names, declared⟩ : ∃ names, params.paramNames? = some names := by
    have isList : params.isPairlist = true := by
      rw [← Node.isPairlist_bare, bareParams, Node.isPairlist_bare]
      exact list
    cases params with
    | pairlist tag params => exact ⟨_, rfl⟩
    | atomic | symbol | primitive | call => cases isList
  refine Action.Ends.bind (policy.collect_ends params body declared [] s₂) ?_
  rintro info s₃ ⟨made, -, -, frame⟩
  have fits : info.Fits policy [(some params, body)] := by
    constructor
    · rw [made]
      rfl
    · simp only [made, boundBy, Literal.names, Option.bind_some, declared, Option.getD_some]
      rfl
  refine Action.ends_bind_of_run (Action.run_note _ s₃) ?_
  have separate : Separate s₂ (params.nodes ++ body.nodes) :=
    ⟨copied.fresh.nodup, fun n h => (copied.fresh.new n h).2⟩
  have separate' := separate.later frame.size
  refine Action.Ends.bind (policy.stamp_ends params info _ _ fits
    (separate'.left.later (Nat.le_refl _))) ?_
  intro _ s₄ stampingParams
  refine Action.Ends.bind (policy.stamp_ends body info _ _ fits
    (separate'.right.later stampingParams.frame.size)) ?_
  intro _ s₅ stampingBody
  let out : Function := { fn with params := params, body := body, scope := some info }
  have places := policy.placement_fst out
  have stamping := stampingParams.append stampingBody (separate'.placed_distinct places)
    (separate'.placed_live places)
  have stamping' : Stamping policy s₂ s₅ (policy.placement out) :=
    .of_frame (frame.withNotes _) stamping (separate.placed_live places)
  exact Action.ends_pure ⟨bareParams, bareBody, rfl, rfl, ⟨info, rfl, fits⟩, s₂, copied, stamping'⟩

theorem isPairlist_of_collect {policy : Policy} {params body : Expr} {enclosing : NameSet}
    {info : Scope} {s after : Store σ}
    (ran : (policy.collect params body enclosing).run s = (.ok info, after)) :
    params.isPairlist = true := by
  obtain ⟨assigned, s₁, -, ran⟩ := Action.run_bind_eq_ok.mp ran
  cases params with
  | pairlist => rfl
  | atomic | symbol | primitive | call => cases ran

theorem isPairlist_of_annotate {policy : Policy} {fn out : Function} {s after : Store σ}
    (ran : (policy.annotate fn).run s = (.ok out, after)) : fn.params.isPairlist = true := by
  obtain ⟨params, s₁, cloned, ran⟩ := Action.run_bind_eq_ok.mp ran
  obtain ⟨body, s₂, -, ran⟩ := Action.run_bind_eq_ok.mp ran
  obtain ⟨info, s₃, collected, -⟩ := Action.run_bind_eq_ok.mp ran
  rw [← Node.isPairlist_bare, ← (Node.copied_of_clone cloned).1, Node.isPairlist_bare]
  exact isPairlist_of_collect collected

theorem annotated_of_run {policy : Policy} {fn out : Function} {s after : Store σ}
    (ran : (policy.annotate fn).run s = (.ok out, after)) : policy.Annotated fn s out after := by
  obtain ⟨out', after', ran', annotated⟩ := policy.annotate_ends (isPairlist_of_annotate ran) s
  obtain ⟨rfl, rfl⟩ := Action.ok_inj (ran'.symm.trans ran)
  exact annotated

end Policy

theorem Pass.annotate_of_transformFunction {σ : Type} {pass : Pass σ} {fn out : Function}
    {given : Option Policy} {s after : Store σ}
    (ran : (pass.transformFunction fn given).run s = (.ok out, after)) :
    ∃ result s', s.tables.size ≤ s'.tables.size ∧
      ((given.getD {}).annotate result).run s' = (.ok out, after) := by
  obtain ⟨_, s₁, checked, ran⟩ := Action.run_bind_eq_ok.mp ran
  obtain ⟨prepared, s₂, annotated, ran⟩ := Action.run_bind_eq_ok.mp ran
  obtain ⟨_, s₃, noted, ran⟩ := Action.run_bind_eq_ok.mp ran
  obtain ⟨body, s₄, transformed, ran⟩ := Action.run_bind_eq_ok.mp ran
  have := Action.size_le_of_run checked
  have := Action.size_le_of_run annotated
  have := Action.size_le_of_run noted
  have := Action.size_le_of_run transformed
  exact ⟨_, s₄, by omega, ran⟩

end TreePass
