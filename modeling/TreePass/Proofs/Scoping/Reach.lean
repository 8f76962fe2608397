import TreePass.Scoping.Analysis
import TreePass.Proofs.Positions

/-!
What a scope assigns, said without a traversal: the names bound by the calls in reach of its
parameters and its body. Calls that evaluate elsewhere hide themselves and what is below them, and
nothing is in reach through a callee.
-/

set_option autoImplicit false
set_option relaxedAutoImplicit false

namespace TreePass

namespace Policy

/-- A call is in reach of a tree when arguments and defaults lead to it and neither the call nor
one on the way to it evaluates elsewhere. -/
inductive Reaches (policy : Policy) : Expr → Expr → Prop
  | here {tag : Tag} {callee : Expr} {args : List (Option String × Expr)} :
      policy.isOpaque (.call tag callee args) = false →
      Reaches policy (.call tag callee args) (.call tag callee args)
  | arg {tag : Tag} {callee : Expr} {args : List (Option String × Expr)}
      {a : Option String × Expr} {c : Expr} :
      policy.isOpaque (.call tag callee args) = false → a ∈ args → Reaches policy a.2 c →
      Reaches policy (.call tag callee args) c
  | default {tag : Tag} {params : List (String × Option Expr)} {p : String × Option Expr}
      {d c : Expr} :
      p ∈ params → d ∈ p.2 → Reaches policy d c → Reaches policy (.pairlist tag params) c

def Assigns (policy : Policy) (root : Expr) (name : String) : Prop :=
  ∃ c, policy.Reaches root c ∧ policy.boundName? c = some name

mutual

def assignments (policy : Policy) : Node Value → List String
  | .call tag callee args =>
    if policy.isOpaque (.call tag callee args) then []
    else (policy.boundName? (.call tag callee args)).toList ++ assignmentsOfArgs policy args
  | .pairlist _ params => assignmentsOfParams policy params
  | .atomic _ _ | .symbol _ _ | .primitive _ _ => []

def assignmentsOfArgs (policy : Policy) : List (Option String × Node Value) → List String
  | [] => []
  | (_, a) :: rest => assignments policy a ++ assignmentsOfArgs policy rest

def assignmentsOfParams (policy : Policy) : List (String × Option (Node Value)) → List String
  | [] => []
  | (_, none) :: rest => assignmentsOfParams policy rest
  | (_, some d) :: rest => assignments policy d ++ assignmentsOfParams policy rest

end

variable {policy : Policy}

theorem mem_assignmentsOfArgs {args : List (Option String × Expr)} {name : String} :
    name ∈ policy.assignmentsOfArgs args ↔ ∃ a ∈ args, name ∈ policy.assignments a.2 := by
  induction args with
  | nil => simp [assignmentsOfArgs]
  | cons a rest ih =>
    obtain ⟨_, a⟩ := a
    simp [assignmentsOfArgs, ih]

private theorem mem_assignmentsOfParams {params : List (String × Option Expr)} {name : String} :
    name ∈ policy.assignmentsOfParams params ↔
      ∃ p ∈ params, ∃ d ∈ p.2, name ∈ policy.assignments d := by
  induction params with
  | nil => simp [assignmentsOfParams]
  | cons p rest ih =>
    obtain ⟨_, d | d⟩ := p <;> simp [assignmentsOfParams, ih]

private theorem mem_assignments_of_reaches {root c : Expr} {name : String}
    (reaches : policy.Reaches root c) (bound : policy.boundName? c = some name) :
    name ∈ policy.assignments root := by
  induction reaches with
  | here clear => simp [assignments, clear, bound]
  | arg clear member _ ih =>
    simp only [assignments, clear, Bool.false_eq_true, ↓reduceIte, List.mem_append,
      mem_assignmentsOfArgs]
    exact Or.inr ⟨_, member, ih bound⟩
  | default member given _ ih =>
    simp only [assignments, mem_assignmentsOfParams]
    exact ⟨_, member, _, given, ih bound⟩

theorem mem_assignments_iff {root : Expr} {name : String} :
    name ∈ policy.assignments root ↔ policy.Assigns root name := by
  constructor
  · intro member
    induction root using Node.induction with
    | atomic tag value => simp [assignments] at member
    | symbol tag text => simp [assignments] at member
    | primitive tag ref => simp [assignments] at member
    | pairlist tag params ih =>
      simp only [assignments, mem_assignmentsOfParams] at member
      obtain ⟨p, hp, d, hd, below⟩ := member
      obtain ⟨c, reaches, bound⟩ := ih p hp d hd below
      exact ⟨c, .default hp hd reaches, bound⟩
    | call tag callee args ihc iha =>
      cases clear : policy.isOpaque (.call tag callee args) with
      | true => simp [assignments, clear] at member
      | false =>
        simp only [assignments, clear, Bool.false_eq_true, ↓reduceIte, List.mem_append,
          Option.mem_toList, mem_assignmentsOfArgs] at member
        rcases member with bound | ⟨a, ha, below⟩
        · exact ⟨_, .here clear, bound⟩
        · obtain ⟨c, reaches, bound⟩ := iha a ha below
          exact ⟨c, .arg clear ha reaches, bound⟩
  · rintro ⟨c, reaches, bound⟩
    exact mem_assignments_of_reaches reaches bound

end Policy

namespace Node

variable {α : Type}

@[simp] theorem symbolName?_bare (node : Node α) : node.bare.symbolName? = node.symbolName? := by
  cases node <;> rfl

@[simp] theorem isPairlist_bare (node : Node α) : node.bare.isPairlist = node.isPairlist := by
  cases node <;> rfl

private theorem bareParams_map_fst (params : List (String × Option (Node α))) :
    (bareParams params).map (·.1) = params.map (·.1) := by
  induction params with
  | nil => rfl
  | cons p rest ih =>
    obtain ⟨name, d | d⟩ := p <;> simp [bareParams, ih]

@[simp] theorem paramNames?_bare (node : Node α) : node.bare.paramNames? = node.paramNames? := by
  cases node with
  | pairlist tag params => simp only [bare, paramNames?, bareParams_map_fst]
  | atomic | symbol | primitive | call => rfl

@[simp] theorem isCallTo_bare (names : List String) (node : Node α) :
    node.bare.isCallTo names = node.isCallTo names := by
  cases node with
  | call tag callee args => simp only [bare, isCallTo, calleeName?, symbolName?_bare]
  | atomic | symbol | primitive | pairlist => rfl

end Node

namespace Policy

private theorem innermost_bare (node : Expr) : innermost node.bare = (innermost node).bare := by
  induction node using Node.induction with
  | atomic | symbol | primitive | pairlist => rfl
  | call tag callee args ihc iha =>
    cases args with
    | nil => rfl
    | cons a rest =>
      obtain ⟨name, a⟩ := a
      exact iha (name, a) List.mem_cons_self

private theorem boundName?_bare (policy : Policy) (node : Expr) :
    policy.boundName? node.bare = policy.boundName? node := by
  cases node with
  | atomic | symbol | primitive | pairlist => rfl
  | call tag callee args =>
    have isCallTo := fun names => Node.isCallTo_bare names (Node.call tag callee args)
    cases args with
    | nil => rfl
    | cons a rest =>
      obtain ⟨name, a⟩ := a
      simp only [Node.bare, Node.bareArgs] at isCallTo ⊢
      simp only [boundName?, isCallTo, innermost_bare, Node.symbolName?_bare]

private theorem isOpaque_bare (policy : Policy) (node : Expr) :
    policy.isOpaque node.bare = policy.isOpaque node :=
  Node.isCallTo_bare _ node

theorem assignments_bare (policy : Policy) (node : Expr) :
    policy.assignments node.bare = policy.assignments node := by
  induction node using Node.induction with
  | atomic | symbol | primitive => rfl
  | pairlist tag params ih =>
    simp only [Node.bare, assignments]
    induction params with
    | nil => rfl
    | cons p rest ihr =>
      have later := ihr fun q h => ih q (List.mem_cons_of_mem _ h)
      obtain ⟨name, d | d⟩ := p
      · exact later
      · simp only [Node.bareParams, assignmentsOfParams, later,
          ih (name, some d) List.mem_cons_self d rfl]
  | call tag callee args ihc iha =>
    have hidden := policy.isOpaque_bare (.call tag callee args)
    have bound := policy.boundName?_bare (.call tag callee args)
    simp only [Node.bare] at hidden bound ⊢
    simp only [assignments, hidden, bound]
    have below : policy.assignmentsOfArgs (Node.bareArgs args) = policy.assignmentsOfArgs args := by
      clear hidden bound
      induction args with
      | nil => rfl
      | cons a rest ihr =>
        obtain ⟨name, a⟩ := a
        simp only [Node.bareArgs, assignmentsOfArgs, iha (name, a) List.mem_cons_self,
          ihr fun b h => iha b (List.mem_cons_of_mem _ h)]
    rw [below]

end Policy

end TreePass
