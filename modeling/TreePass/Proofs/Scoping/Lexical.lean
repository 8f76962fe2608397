import TreePass.Proofs.Scoping.Annotation
import TreePass.Proofs.Tables

/-!
Annotation computes lexical scoping: the stamp of every position holds exactly the names that the
innermost function around it assigns, and exactly the names that some function around it assigns or
declares. The names a function assigns are those bound by calls in its reach, so a call that binds
a name out of reach of its function, as in the callee of another call, can be missed.
-/

set_option autoImplicit false
set_option relaxedAutoImplicit false

namespace TreePass

/-- A scope that holds exactly the names that a stack of functions assigns and binds. -/
structure Scope.Holds (policy : Policy) (scope : Scope) (stack : List Literal) : Prop where
  assigned : ∀ name, name ∈ scope.assigned ↔
    ∃ literal ∈ stack.head?, literal.Assigns policy name
  bound : ∀ name, name ∈ scope.bound ↔
    ∃ literal ∈ stack, literal.Assigns policy name ∨ name ∈ literal.names

theorem Scope.Fits.holds {policy : Policy} {scope : Scope} {stack : List Literal}
    (fits : scope.Fits policy stack) : scope.Holds policy stack where
  assigned name := by
    rw [fits.assigned]
    cases stack with
    | nil => simp [Policy.assignedBy]
    | cons literal outer => simp [Policy.mem_assignedBy]
  bound name := by
    rw [fits.bound, Policy.mem_boundBy]

def Scope.sets (scope : Scope) : NameSet × NameSet := (scope.assigned, scope.bound)

/-- The names of the scope stamped on a node. -/
def Store.stampSets? {σ : Type} (s : Store σ) (node : Expr) : Option (NameSet × NameSet) :=
  match s.stamp? node with
  | some (.scope scope) => some scope.sets
  | _ => none

private theorem Scope.Holds.assigned_subset {policy : Policy} {scope : Scope} {stack : List Literal}
    (holds : scope.Holds policy stack) : scope.assigned ⊆ scope.bound := by
  intro name member
  obtain ⟨literal, innermost, assigns⟩ := (holds.assigned name).mp member
  exact (holds.bound name).mpr ⟨literal, List.mem_of_mem_head? innermost, Or.inl assigns⟩

theorem Scope.Holds.bound_subset {policy : Policy} {outer inner : Scope}
    {stack stack' : List Literal} (holds : outer.Holds policy stack)
    (holds' : inner.Holds policy stack') (below : stack <:+ stack') :
    outer.bound ⊆ inner.bound := by
  intro name member
  obtain ⟨literal, placed, binds⟩ := (holds.bound name).mp member
  exact (holds'.bound name).mpr ⟨literal, below.subset placed, binds⟩

namespace Policy

variable {σ : Type} (policy : Policy)

theorem Annotated.stamp_fits {policy : Policy} {fn out : Function} {before after : Store σ}
    (annotated : policy.Annotated fn before out after) {p : Expr × List Literal}
    (placed : p ∈ policy.placement out) :
    ∃ scope : Scope, after.stamp? p.1 = some (.scope scope) ∧ scope.Fits policy p.2 := by
  obtain ⟨copied, -, stamping⟩ := annotated.written
  obtain ⟨scope, fits, wrote⟩ := stamping.stamped p placed
  refine ⟨scope, ?_, fits⟩
  simp only [Store.stamp?, wrote, Table.find?_put_self]

theorem Annotated.stamp_holds {policy : Policy} {fn out : Function} {before after : Store σ}
    (annotated : policy.Annotated fn before out after) {p : Expr × List Literal}
    (placed : p ∈ policy.placement out) :
    ∃ scope : Scope, after.stamp? p.1 = some (.scope scope) ∧ scope.Holds policy p.2 := by
  obtain ⟨scope, stamped, fits⟩ := annotated.stamp_fits placed
  exact ⟨scope, stamped, fits.holds⟩

theorem standing_subset_placement {fn : Function} {p : Expr × List Literal}
    (placed : p ∈ policy.placement fn) : policy.standing p.2 p.1 ⊆ policy.placement fn := by
  intro q below
  rcases List.mem_append.mp placed with inParams | inBody
  · exact List.mem_append_left _ (standing_subset inParams below)
  · exact List.mem_append_right _ (standing_subset inBody below)

theorem mem_placement_of_below {fn : Function} {p : Expr × List Literal}
    (placed : p ∈ policy.placement fn) {n : Expr} (below : n ∈ p.1.nodes) :
    ∃ stack, p.2 <:+ stack ∧ (n, stack) ∈ policy.placement fn := by
  obtain ⟨stack, standing⟩ := exists_standing below
  exact ⟨stack, suffix_of_standing standing, policy.standing_subset_placement placed standing⟩

/-- Annotating a function gives a copy of the same structure whose nodes are all different. The
function's own scope and the stamp of every position hold exactly what lexical scoping gives; what
is assigned is bound, and below a position at least as much is bound as at it. -/
theorem annotate_computes_lexical_scoping (fn : Function) (list : fn.params.isPairlist = true)
    (s : Store σ) :
    ∃ out after, (policy.annotate fn).run s = (.ok out, after) ∧
      (out.params.bare = fn.params.bare ∧ out.body.bare = fn.body.bare ∧
        out.env = fn.env ∧ out.name = fn.name) ∧
      ((policy.placement out).map Prod.fst = out.nodes ∧ (out.nodes.map Node.tag).Nodup) ∧
      (∃ info : Scope, out.scope = some info ∧ info.Holds policy [out.literal]) ∧
      ∀ p ∈ policy.placement out, ∃ info : Scope,
        after.stamp? p.1 = some (.scope info) ∧ info.Holds policy p.2 ∧
        info.assigned ⊆ info.bound ∧
        ∀ n ∈ p.1.nodes, ∃ inner : Scope,
          after.stamp? n = some (.scope inner) ∧ info.bound ⊆ inner.bound := by
  obtain ⟨out, after, ran, annotated⟩ := policy.annotate_ends list s
  obtain ⟨info, own, fits⟩ := annotated.scope
  obtain ⟨_, copied, _⟩ := annotated.written
  refine ⟨out, after, ran, ⟨annotated.params, annotated.body, annotated.env, annotated.name⟩,
    ⟨policy.placement_fst out, copied.fresh.nodup⟩, ⟨info, own, fits.holds⟩, ?_⟩
  intro p placed
  obtain ⟨scope, stamped, holds⟩ := annotated.stamp_holds placed
  refine ⟨scope, stamped, holds, holds.assigned_subset, ?_⟩
  intro n below
  obtain ⟨stack, further, placed'⟩ := policy.mem_placement_of_below placed below
  obtain ⟨inner, stamped', holds'⟩ := annotated.stamp_holds placed'
  exact ⟨inner, stamped', holds.bound_subset holds' further⟩

/-- A function of `a` with the body `{ x <- a; function(b) b + x }`. -/
def nestedLiteral : Function where
  params := .pairlist 0 [("a", none)]
  body := .call 1 (.symbol 2 "\x7b") [
    (none, .call 3 (.symbol 4 "<-") [(none, .symbol 5 "x"), (none, .symbol 6 "a")]),
    (none, .call 7 (.symbol 8 "function") [(none, .pairlist 9 [("b", none)]),
      (none, .call 10 (.symbol 11 "+") [(none, .symbol 12 "b"), (none, .symbol 13 "x")])])]

/-- Inside the nested literal its parameter is bound beside the names of the function around it, of
which it assigns none itself. -/
theorem annotate_computes_lexical_scoping_nestedLiteral :
    nestedLiteral.params.isPairlist = true ∧
    ∃ out after, (({} : Policy).annotate nestedLiteral).run (Store.initial ()) =
      (.ok out, after) ∧ out.body.bare = nestedLiteral.body.bare ∧
      (∀ p ∈ ({} : Policy).placement out, ∃ info : Scope,
        after.stamp? p.1 = some (.scope info) ∧ info.Holds {} p.2) ∧
      after.stampSets? out.body = some (["x"], ["a", "x"]) ∧
      ∃ n ∈ out.nodes, n.symbolName? = some "b" ∧
        after.stampSets? n = some ([], ["a", "b", "x"]) := by
  obtain ⟨out, after, ran, ⟨_, body, _⟩, _, _, stamped⟩ :=
    ({} : Policy).annotate_computes_lexical_scoping nestedLiteral rfl (Store.initial ())
  have computed :
      ((({} : Policy).annotate nestedLiteral).run (Store.initial ())).1.toOption.any fun out =>
        let after := ((({} : Policy).annotate nestedLiteral).run (Store.initial ())).2
        decide (after.stampSets? out.body = some (["x"], ["a", "x"])) &&
          out.nodes.any fun n => decide (n.symbolName? = some "b" ∧
            after.stampSets? n = some ([], ["a", "b", "x"])) := by decide +kernel
  rw [ran] at computed
  simp only [Except.toOption, Option.any_some, Bool.and_eq_true, decide_eq_true_eq,
    List.any_eq_true] at computed
  refine ⟨rfl, out, after, ran, body, fun p placed => ?_, computed⟩
  obtain ⟨info, stamp, holds, _⟩ := stamped p placed
  exact ⟨info, stamp, holds⟩

/-- Where a call binds a name, the name is bound exactly when a function around the call declares
it or has some call in reach that binds it; so it is bound when the call itself is in reach of the
innermost function around it. -/
theorem bound_at_binding_iff (fn : Function) (list : fn.params.isPairlist = true) (s : Store σ) :
    ∃ out after, (policy.annotate fn).run s = (.ok out, after) ∧
      ∀ p ∈ policy.placement out, ∀ name, policy.boundName? p.1 = some name →
        ∃ info : Scope, after.stamp? p.1 = some (.scope info) ∧
          (name ∈ info.bound ↔ ∃ literal ∈ p.2, name ∈ literal.names ∨
            ∃ c, literal.Reaches policy c ∧ policy.boundName? c = some name) ∧
          ((∃ literal ∈ p.2.head?, literal.Reaches policy p.1) → name ∈ info.assigned) := by
  obtain ⟨out, after, ran, annotated⟩ := policy.annotate_ends list s
  refine ⟨out, after, ran, ?_⟩
  intro p placed name binds
  obtain ⟨info, stamped, holds⟩ := annotated.stamp_holds placed
  refine ⟨info, stamped, ?_, ?_⟩
  · simp only [holds.bound name, Literal.Assigns, or_comm]
  · rintro ⟨literal, innermost, reaches⟩
    exact (holds.assigned name).mpr ⟨literal, innermost, p.1, reaches, binds⟩

/-- A function of no parameters whose body is the assignment `x <- 1`. -/
def plainAssignment : Function where
  params := .pairlist 0 []
  body := .call 1 (.symbol 2 "<-") [(none, .symbol 3 "x"), (none, .atomic 4 (.int 1))]

theorem bound_at_binding_iff_plainAssignment :
    plainAssignment.params.isPairlist = true ∧
    ∃ out after, (({} : Policy).annotate plainAssignment).run (Store.initial ()) =
      (.ok out, after) ∧ ∃ info : Scope,
        after.stamp? out.body = some (.scope info) ∧ "x" ∈ info.assigned := by
  obtain ⟨out, after, ran, each⟩ :=
    ({} : Policy).bound_at_binding_iff plainAssignment rfl (Store.initial ())
  obtain ⟨given, -⟩ := Prod.mk.inj ran
  have body : out.body =
      .call 4 (.symbol 1 "<-") [(none, .symbol 2 "x"), (none, .atomic 3 (.int 1))] :=
    congrArg Function.body (Except.ok.inj given).symm
  have root : (out.body, [out.literal]) ∈ ({} : Policy).placement out := by
    refine List.mem_append_right _ ?_
    rw [body]
    exact List.mem_cons_self
  obtain ⟨info, stamped, -, assigned⟩ := each _ root "x" (by rw [body]; rfl)
  refine ⟨rfl, out, after, ran, info, stamped, assigned ⟨out.literal, rfl, Or.inr ?_⟩⟩
  change ({} : Policy).Reaches out.body out.body
  rw [body]
  exact .here rfl

/-- No binding is missed: wherever a call binds a name, and neither the call nor one above it
evaluates elsewhere, the name is bound. -/
def MissesNothing (out : Function) (after : Store σ) : Prop :=
  ∀ n ∈ out.nodes, ∀ name, policy.boundName? n = some name →
    (∀ m ∈ out.nodes, n ∈ m.nodes → m.isCallTo policy.nseFunctions = false) →
    ∃ info : Scope, after.stamp? n = some (.scope info) ∧ name ∈ info.bound

/-- A function of no parameters whose body calls the result of the assignment `x <- 1`. -/
def calledAssignment : Function where
  params := .pairlist 0 []
  body := .call 1 (.call 2 (.symbol 3 "<-") [(none, .symbol 4 "x"), (none, .atomic 5 (.int 1))]) []

/-- An assignment in the callee of a call is missed. -/
theorem annotate_misses_called_assignment :
    ∃ out after, (({} : Policy).annotate calledAssignment).run (Store.initial ()) =
      (.ok out, after) ∧ ¬ ({} : Policy).MissesNothing out after := by
  refine ⟨_, _, rfl, ?_⟩
  intro nothing
  -- The assignment is the third of the six nodes of the copy.
  have missed := nothing
    (.call 4 (.symbol 1 "<-") [(none, .symbol 2 "x"), (none, .atomic 3 (.int 1))])
    (List.mem_cons_of_mem _ (List.mem_cons_of_mem _ List.mem_cons_self)) "x" rfl ?_
  · obtain ⟨info, stamped, bound⟩ := missed
    change some (Value.scope ⟨1, [], []⟩) = _ at stamped
    cases stamped
    cases bound
  · intro m member _
    change m ∈ [_, _, _, _, _, _] at member
    simp only [List.mem_cons, List.not_mem_nil, or_false] at member
    rcases member with rfl | rfl | rfl | rfl | rfl | rfl <;> rfl

end Policy

end TreePass
