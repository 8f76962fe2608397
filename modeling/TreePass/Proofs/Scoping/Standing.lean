import TreePass.Proofs.Scoping.Reach

/-!
Lexical scoping. Every position of a tree stands in a stack of functions, the innermost first. What
is assigned there is what the innermost function assigns; what is bound there is whatever one of
the functions assigns or declares as a parameter. A function literal puts itself on the stack of
its parameters and its body, and of nothing else.
-/

set_option autoImplicit false
set_option relaxedAutoImplicit false

namespace TreePass

namespace NameSet

@[simp] theorem mem_insert {name other : String} {set : NameSet} :
    other ∈ set.insert name ↔ other = name ∨ other ∈ set := by
  induction set with
  | nil => simp [insert]
  | cons head rest ih =>
    simp only [insert]
    split
    · simp
    · split
      · rename_i same
        simp [same]
      · simp [ih, or_left_comm]

@[simp] theorem mem_ofNames {name : String} {names : List String} :
    name ∈ ofNames names ↔ name ∈ names := by
  induction names with
  | nil => simp [ofNames]
  | cons head rest ih => simpa [ofNames] using or_congr_right ih

@[simp] theorem mem_union {name : String} {first second : NameSet} :
    name ∈ first.union second ↔ name ∈ first ∨ name ∈ second := by
  induction first with
  | nil => simp [union]
  | cons head rest ih => simpa [union, or_assoc] using or_congr_right ih

end NameSet

abbrev Literal := Option Expr × Expr

namespace Literal

def parts (literal : Literal) : List Expr := literal.1.toList ++ [literal.2]

def names (literal : Literal) : List String := (literal.1.bind Node.paramNames?).getD []

/-- A call is in reach of a function when it is in reach of its parameters or its body. -/
def Reaches (policy : Policy) (literal : Literal) (c : Expr) : Prop :=
  (∃ params ∈ literal.1, policy.Reaches params c) ∨ policy.Reaches literal.2 c

def Assigns (policy : Policy) (literal : Literal) (name : String) : Prop :=
  ∃ c, literal.Reaches policy c ∧ policy.boundName? c = some name

/-- The names a function assigns, those of its defaults first. -/
def assignments (policy : Policy) (literal : Literal) : List String :=
  (literal.1.map policy.assignments).getD [] ++ policy.assignments literal.2

theorem mem_assignments_iff {policy : Policy} {literal : Literal} {name : String} :
    name ∈ literal.assignments policy ↔ literal.Assigns policy name := by
  obtain ⟨params | params, body⟩ := literal <;>
    simp [assignments, Assigns, Reaches, Policy.mem_assignments_iff, Policy.Assigns, or_and_right,
      exists_or]

/-- The parts of a function without the identities of their nodes. -/
def bare (literal : Literal) : Literal := (literal.1.map Node.bare, literal.2.bare)

@[simp] theorem names_bare (literal : Literal) : literal.bare.names = literal.names := by
  obtain ⟨params | params, body⟩ := literal <;> simp [bare, names]

@[simp] theorem assignments_bare (policy : Policy) (literal : Literal) :
    literal.bare.assignments policy = literal.assignments policy := by
  obtain ⟨params | params, body⟩ := literal <;>
    simp [bare, assignments, Policy.assignments_bare]

end Literal

namespace Policy

variable (policy : Policy)

def assignedBy : List Literal → NameSet
  | [] => []
  | literal :: _ => NameSet.ofNames (literal.assignments policy)

/-- What is bound inside a stack of functions: what one of them assigns or declares. -/
def boundBy : List Literal → NameSet
  | [] => []
  | literal :: outer =>
    (policy.assignedBy (literal :: outer)).union
      ((NameSet.ofNames literal.names).union (boundBy outer))

theorem mem_assignedBy {literal : Literal} {outer : List Literal} {name : String} :
    name ∈ policy.assignedBy (literal :: outer) ↔ literal.Assigns policy name := by
  rw [assignedBy, NameSet.mem_ofNames, Literal.mem_assignments_iff]

theorem mem_boundBy {stack : List Literal} {name : String} :
    name ∈ policy.boundBy stack ↔
      ∃ literal ∈ stack, literal.Assigns policy name ∨ name ∈ literal.names := by
  induction stack with
  | nil => simp [boundBy]
  | cons literal outer ih =>
    simp only [boundBy, NameSet.mem_union, NameSet.mem_ofNames, mem_assignedBy, ih,
      List.mem_cons, exists_eq_or_imp, or_assoc]

/-- The stack of the parts of a call: a function literal adds itself. -/
def pushLiteral (stack : List Literal) (node : Expr) : List Literal :=
  match policy.literalParts? node with
  | some literal => literal :: stack
  | none => stack

/-- How many of the leading arguments of a call are parts of a function literal. -/
def partCount (node : Expr) : Nat :=
  match policy.literalParts? node with
  | some (some _, _) => 2
  | some (none, _) => 1
  | none => 0

mutual

/-- The nodes of a tree in preorder, each with the stack of functions it stands in, when the root
stands in the given stack. -/
def standing (policy : Policy) (stack : List Literal) : Node Value → List (Expr × List Literal)
  | .call tag callee args =>
    (.call tag callee args, stack) ::
      (standing policy stack callee ++
        standingArgs policy stack (policy.pushLiteral stack (.call tag callee args))
          (policy.partCount (.call tag callee args)) args)
  | .pairlist tag params => (.pairlist tag params, stack) :: standingParams policy stack params
  | .atomic tag value => [(.atomic tag value, stack)]
  | .symbol tag name => [(.symbol tag name, stack)]
  | .primitive tag ref => [(.primitive tag ref, stack)]

def standingArgs (policy : Policy) (stack inner : List Literal) :
    Nat → List (Option String × Node Value) → List (Expr × List Literal)
  | _, [] => []
  | 0, (_, a) :: rest => standing policy stack a ++ standingArgs policy stack inner 0 rest
  | parts + 1, (_, a) :: rest =>
    standing policy inner a ++ standingArgs policy stack inner parts rest

def standingParams (policy : Policy) (stack : List Literal) :
    List (String × Option (Node Value)) → List (Expr × List Literal)
  | [] => []
  | (_, none) :: rest => standingParams policy stack rest
  | (_, some d) :: rest => standing policy stack d ++ standingParams policy stack rest

end

theorem literalParts?_eq_some {tag : Tag} {callee : Expr} {args : List (Option String × Expr)}
    {literal : Literal}
    (parts : policy.literalParts? (.call tag callee args) = some literal) :
    (∃ name params name' body rest, args = (name, params) :: (name', body) :: rest ∧
        params.isPairlist = true ∧ literal = (some params, body)) ∨
      ∃ name body, args = [(name, body)] ∧ body.isPairlist = false ∧ literal = (none, body) := by
  unfold literalParts? at parts
  split at parts
  · rcases args with _ | ⟨⟨name, first⟩, _ | ⟨⟨name', second⟩, rest⟩⟩
    · cases parts
    · cases list : first.isPairlist with
      | true => simp [list] at parts
      | false =>
        simp only [list, Bool.false_eq_true, ↓reduceIte, Option.some.injEq] at parts
        exact Or.inr ⟨name, first, rfl, list, parts.symm⟩
    · cases list : first.isPairlist with
      | false => simp [list] at parts
      | true =>
        simp only [list, ↓reduceIte, Option.some.injEq] at parts
        exact Or.inl ⟨name, first, name', second, rest, rfl, list, parts.symm⟩
  · cases parts

/-- A node is the parameter list or the body of the function literal that a call is. -/
def IsPart (node child : Expr) : Prop :=
  ∃ literal : Literal, policy.literalParts? node = some literal ∧ child ∈ literal.parts

theorem isPart_iff {tag : Tag} {callee child : Expr} {args : List (Option String × Expr)} :
    policy.IsPart (.call tag callee args) child ↔
      ∃ a ∈ args.take (policy.partCount (.call tag callee args)), a.2 = child := by
  rw [IsPart]
  cases parts : policy.literalParts? (.call tag callee args) with
  | none => simp [partCount, parts]
  | some literal =>
    rcases policy.literalParts?_eq_some parts with
      ⟨name, params, name', body, rest, rfl, -, rfl⟩ | ⟨name, body, rfl, -, rfl⟩
    · simp [partCount, parts, Literal.parts, eq_comm]
    · simp [partCount, parts, Literal.parts, eq_comm]

theorem literalParts?_bare (node : Expr) :
    policy.literalParts? node.bare = (policy.literalParts? node).map Literal.bare := by
  cases node with
  | atomic | symbol | primitive | pairlist => rfl
  | call tag callee args =>
    have isCallTo := Node.isCallTo_bare [policy.functionForm] (Node.call tag callee args)
    simp only [Node.bare] at isCallTo ⊢
    simp only [literalParts?, isCallTo]
    split_ifs
    · rcases args with _ | ⟨⟨name, first⟩, _ | ⟨⟨name', second⟩, rest⟩⟩
      · rfl
      · simp only [Node.bareArgs, Node.isPairlist_bare]
        cases first.isPairlist <;> rfl
      · simp only [Node.bareArgs, Node.isPairlist_bare]
        cases first.isPairlist <;> rfl
    · rfl

theorem standingArgs_fst {args : List (Option String × Expr)}
    (each : ∀ a ∈ args, ∀ stack, (policy.standing stack a.2).map Prod.fst = a.2.nodes)
    (stack inner : List Literal) (parts : Nat) :
    (policy.standingArgs stack inner parts args).map Prod.fst = Node.nodesOfArgs args := by
  induction args generalizing parts with
  | nil => cases parts <;> rfl
  | cons a rest ih =>
    have first := each a List.mem_cons_self
    have later := ih fun b h => each b (List.mem_cons_of_mem _ h)
    obtain ⟨name, a⟩ := a
    cases parts with
    | zero => simp only [standingArgs, Node.nodesOfArgs, List.map_append, first stack, later 0]
    | succ parts =>
      simp only [standingArgs, Node.nodesOfArgs, List.map_append, first inner, later parts]

theorem standingParams_fst {params : List (String × Option Expr)} (stack : List Literal)
    (each : ∀ p ∈ params, ∀ d ∈ p.2, (policy.standing stack d).map Prod.fst = d.nodes) :
    (policy.standingParams stack params).map Prod.fst = Node.nodesOfParams params := by
  induction params with
  | nil => rfl
  | cons p rest ih =>
    have later := ih fun q h => each q (List.mem_cons_of_mem _ h)
    obtain ⟨name, d | d⟩ := p
    · exact later
    · simp only [standingParams, Node.nodesOfParams, List.map_append, later,
        each (name, some d) List.mem_cons_self d rfl]

theorem standing_fst (stack : List Literal) (node : Expr) :
    (policy.standing stack node).map Prod.fst = node.nodes := by
  induction node using Node.induction generalizing stack with
  | atomic | symbol | primitive => rfl
  | pairlist tag params ih =>
    simp only [standing, Node.nodes, List.map_cons,
      policy.standingParams_fst stack fun p h d hd => ih p h d hd stack]
  | call tag callee args ihc iha =>
    simp only [standing, Node.nodes, List.map_cons, List.map_append, ihc,
      policy.standingArgs_fst iha]

variable {policy}

theorem mem_standingArgs {stack inner : List Literal} {parts : Nat}
    {args : List (Option String × Expr)} {p : Expr × List Literal} :
    p ∈ policy.standingArgs stack inner parts args ↔
      (∃ a ∈ args.take parts, p ∈ policy.standing inner a.2) ∨
        ∃ a ∈ args.drop parts, p ∈ policy.standing stack a.2 := by
  induction args generalizing parts with
  | nil => cases parts <;> simp [standingArgs]
  | cons a rest ih =>
    obtain ⟨name, a⟩ := a
    cases parts with
    | zero => simp [standingArgs, ih]
    | succ parts => simp [standingArgs, ih, or_assoc]

theorem mem_standingParams {stack : List Literal} {params : List (String × Option Expr)}
    {p : Expr × List Literal} :
    p ∈ policy.standingParams stack params ↔
      ∃ q ∈ params, ∃ d ∈ q.2, p ∈ policy.standing stack d := by
  induction params with
  | nil => simp [standingParams]
  | cons q rest ih =>
    obtain ⟨name, d | d⟩ := q <;> simp [standingParams, ih]

private theorem suffix_pushLiteral (stack : List Literal) (node : Expr) :
    stack <:+ policy.pushLiteral stack node := by
  unfold pushLiteral
  split
  · exact List.suffix_cons _ _
  · exact List.suffix_refl _

theorem suffix_of_standing {stack : List Literal} {root : Expr} {p : Expr × List Literal}
    (member : p ∈ policy.standing stack root) : stack <:+ p.2 := by
  induction root using Node.induction generalizing stack with
  | atomic | symbol | primitive =>
    obtain rfl := List.mem_singleton.mp member
    exact List.suffix_refl _
  | pairlist tag params ih =>
    simp only [standing, List.mem_cons, mem_standingParams] at member
    rcases member with rfl | ⟨q, hq, d, hd, below⟩
    · exact List.suffix_refl _
    · exact ih q hq d hd below
  | call tag callee args ihc iha =>
    simp only [standing, List.mem_cons, List.mem_append, mem_standingArgs] at member
    rcases member with rfl | below | ⟨a, ha, below⟩ | ⟨a, ha, below⟩
    · exact List.suffix_refl _
    · exact ihc below
    · exact (suffix_pushLiteral stack _).trans (iha a (List.mem_of_mem_take ha) below)
    · exact iha a (List.mem_of_mem_drop ha) below

theorem standing_subset {stack : List Literal} {root : Expr} {p : Expr × List Literal}
    (member : p ∈ policy.standing stack root) :
    policy.standing p.2 p.1 ⊆ policy.standing stack root := by
  induction root using Node.induction generalizing stack with
  | atomic | symbol | primitive =>
    obtain rfl := List.mem_singleton.mp member
    exact fun _ h => h
  | pairlist tag params ih =>
    simp only [standing, List.mem_cons, mem_standingParams] at member
    rcases member with rfl | ⟨q, hq, d, hd, below⟩
    · exact fun _ h => h
    · intro r h
      simp only [standing, List.mem_cons, mem_standingParams]
      exact Or.inr ⟨q, hq, d, hd, ih q hq d hd below h⟩
  | call tag callee args ihc iha =>
    simp only [standing, List.mem_cons, List.mem_append, mem_standingArgs] at member
    rcases member with rfl | below | ⟨a, ha, below⟩ | ⟨a, ha, below⟩
    · exact fun _ h => h
    · intro r h
      simp only [standing, List.mem_cons, List.mem_append]
      exact Or.inr (Or.inl (ihc below h))
    · intro r h
      simp only [standing, List.mem_cons, List.mem_append, mem_standingArgs]
      exact Or.inr (Or.inr (Or.inl ⟨a, ha, iha a (List.mem_of_mem_take ha) below h⟩))
    · intro r h
      simp only [standing, List.mem_cons, List.mem_append, mem_standingArgs]
      exact Or.inr (Or.inr (Or.inr ⟨a, ha, iha a (List.mem_of_mem_drop ha) below h⟩))

theorem self_standing (stack : List Literal) (node : Expr) :
    (node, stack) ∈ policy.standing stack node := by
  cases node <;> exact List.mem_cons_self

theorem part_standing {stack : List Literal} {node part : Expr} {literal : Literal}
    (parts : policy.literalParts? node = some literal) (member : part ∈ literal.parts) :
    (part, literal :: stack) ∈ policy.standing stack node := by
  cases node with
  | atomic | symbol | primitive | pairlist => cases parts
  | call tag callee args =>
    have pushed : policy.pushLiteral stack (.call tag callee args) = literal :: stack := by
      simp only [pushLiteral, parts]
    obtain ⟨a, taken, rfl⟩ := policy.isPart_iff.mp ⟨literal, parts, member⟩
    simp only [standing, pushed, List.mem_cons, List.mem_append, mem_standingArgs]
    exact Or.inr (Or.inr (Or.inl ⟨a, taken, self_standing _ a.2⟩))

theorem exists_standing {stack : List Literal} {root n : Expr} (member : n ∈ root.nodes) :
    ∃ inner, (n, inner) ∈ policy.standing stack root := by
  rw [← policy.standing_fst stack root] at member
  obtain ⟨⟨n, inner⟩, placed, rfl⟩ := List.mem_map.mp member
  exact ⟨inner, placed⟩

end Policy

end TreePass
