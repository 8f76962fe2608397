import TreePass.Proofs.Scoping.Standing
import TreePass.Proofs.Source.Assembly

/-!
The functions of a source text and the function literals of the expression it is read as: they
correspond one to one, in the order of a preorder walk, whatever the names in the text are. A call
of a variable that happens to be called `function` is no function literal with parameters, since no
argument of a call is ever read as a parameter list.
-/

set_option autoImplicit false
set_option relaxedAutoImplicit false

namespace TreePass

namespace Policy

variable (policy : Policy)

/-- The parameter list and the body of a function literal that has both. -/
def parts? (node : Expr) : Option (Expr × Expr) :=
  match policy.literalParts? node with
  | some (some params, body) => some (params, body)
  | _ => none

/-- The function literals of a tree that have parameters, in preorder. -/
def functions (node : Expr) : List (Expr × Expr) := node.nodes.filterMap policy.parts?

private theorem functions_pairlist (tag : Tag) (params : List (String × Option Expr)) :
    policy.functions (.pairlist tag params) = (Node.defaults params).flatMap policy.functions := by
  have below : (Node.nodesOfParams params).filterMap policy.parts? =
      (Node.defaults params).flatMap policy.functions := by
    rw [Node.nodesOfParams_eq, List.filterMap_flatMap]
    rfl
  exact below

private theorem functions_call (tag : Tag) (callee : Expr) (args : List (Option String × Expr)) :
    policy.functions (.call tag callee args) =
      (policy.parts? (.call tag callee args)).toList ++
        (policy.functions callee ++ (args.map (·.2)).flatMap policy.functions) := by
  have below : (Node.nodesOfArgs args).filterMap policy.parts? =
      (args.map (·.2)).flatMap policy.functions := by
    rw [Node.nodesOfArgs_eq, List.filterMap_flatMap]
    rfl
  rw [functions, Node.nodes, List.filterMap_cons, List.filterMap_append, below]
  cases policy.parts? (.call tag callee args) <;> rfl

private theorem parts?_bare (node : Expr) :
    policy.parts? node.bare =
      (policy.parts? node).map fun parts => (parts.1.bare, parts.2.bare) := by
  rw [parts?, parts?, literalParts?_bare]
  rcases policy.literalParts? node with _ | ⟨_ | params, body⟩ <;> rfl

theorem functions_bare (node : Expr) :
    policy.functions node.bare =
      (policy.functions node).map fun parts => (parts.1.bare, parts.2.bare) := by
  rw [functions, functions, Node.nodes_bare, List.filterMap_map, List.map_filterMap]
  exact List.filterMap_congr fun n _ => policy.parts?_bare n

private theorem parts?_eq_none {tag : Tag} {callee : Expr} {args : List (Option String × Expr)}
    (plain : ∀ a ∈ args.map (·.2), a.isPairlist = false) :
    policy.parts? (.call tag callee args) = none := by
  unfold parts?
  cases found : policy.literalParts? (.call tag callee args) with
  | none => rfl
  | some literal =>
    rcases policy.literalParts?_eq_some found with
      ⟨name, params, name', body, rest, rfl, list, rfl⟩ | ⟨name, body, rfl, -, rfl⟩
    -- A single argument is a body alone: a literal, but one without parameters.
    · rw [plain params (by simp)] at list
      cases list
    · rfl

end Policy

namespace Source

/-- The literal has the parameters and the body that the function is read as. -/
def Closure.Image (characters : CharacterNames) (closure : Closure) (literal : Expr × Expr) :
    Prop :=
  ∃ params body, closure.read characters = .ok (params, body) ∧
    (literal.1.bare, literal.2.bare) = (params.bare, body.bare)

namespace Reading

theorem functions_function (params body : Expr) (list : params.isPairlist = true) :
    ({} : Policy).functions (call "function" [params, body]) =
      (params, body) :: (({} : Policy).functions params ++ ({} : Policy).functions body) := by
  have own : ({} : Policy).parts? (call "function" [params, body]) = some (params, body) := by
    cases params with
    | pairlist tag formals => rfl
    | atomic | symbol | primitive | call => cases list
  rw [call] at own ⊢
  rw [Policy.functions_call, own]
  simp only [List.map_cons, List.map_nil, List.flatMap_cons, List.flatMap_nil, List.append_nil]
  rfl

structure Holding (characters : CharacterNames) (closures : List Closure) (values : List Expr) :
    Prop where
  plain : ∀ v ∈ values, v.isPairlist = false
  images : List.Forall₂ (Closure.Image characters) closures (values.flatMap ({} : Policy).functions)

variable {characters : CharacterNames}

namespace Holding

theorem nil : Holding characters [] [] := ⟨fun _ member => absurd member List.not_mem_nil, .nil⟩

theorem atomic (value : Value) : Holding characters [] [atomic value] :=
  ⟨fun v member => by rw [List.mem_singleton.mp member]; rfl, .nil⟩

theorem symbol (name : String) : Holding characters [] [symbol name] :=
  ⟨fun v member => by rw [List.mem_singleton.mp member]; rfl, .nil⟩

theorem nameExpr (text : String) : Holding characters [] [nameExpr text] := by
  unfold Reading.nameExpr
  split_ifs
  · exact .atomic _
  · exact .atomic _
  · exact .atomic _
  · exact .symbol _

variable {closures closures' : List Closure}

theorem append {values values' : List Expr} (first : Holding characters closures values)
    (second : Holding characters closures' values') :
    Holding characters (closures ++ closures') (values ++ values') where
  plain v member := (List.mem_append.mp member).elim (first.plain v) (second.plain v)
  images := by
    rw [List.flatMap_append]
    exact List.rel_append first.images second.images

theorem invoke {callee : Expr} {args : List (Option String × Expr)}
    (called : Holding characters closures [callee])
    (given : Holding characters closures' (args.map (·.2))) :
    Holding characters (closures ++ closures') [.call 0 callee args] where
  plain v member := by
    rw [List.mem_singleton.mp member]
    rfl
  images := by
    have inCallee : List.Forall₂ (Closure.Image characters) closures
        (({} : Policy).functions callee) := by
      simpa using called.images
    simp only [List.flatMap_singleton, Policy.functions_call, Policy.parts?_eq_none _ given.plain,
      Option.toList_none, List.nil_append]
    exact List.rel_append inCallee given.images

theorem call {values : List Expr} (name : String) (given : Holding characters closures values) :
    Holding characters closures [call name values] := by
  have unnamed : ((values.map fun v => ((none : Option String), v)).map (·.2)) = values := by
    simp [List.map_map, Function.comp_def]
  exact invoke (Holding.symbol name) (unnamed.symm ▸ given)

theorem function {closure : Closure} {params : List (String × Option Expr)} {body : Expr}
    (read : closure.read characters = .ok (.pairlist 0 params, body))
    (inDefaults : Holding characters closures (Node.defaults params))
    (inBody : Holding characters closures' [body]) :
    Holding characters (closure :: (closures ++ closures'))
      [Reading.call "function" [.pairlist 0 params, body]] where
  plain v member := by
    rw [List.mem_singleton.mp member]
    rfl
  images := by
    have below : List.Forall₂ (Closure.Image characters) closures'
        (({} : Policy).functions body) := by
      simpa using inBody.images
    have literals := functions_function (.pairlist 0 params) body rfl
    rw [Policy.functions_pairlist] at literals
    rw [List.flatMap_singleton, literals]
    exact .cons ⟨_, _, read, rfl⟩ (List.rel_append inDefaults.images below)

end Holding

theorem Builds.holding {mentions : List Mention} {closures : List Closure} {values : List Expr}
    (builds : Builds characters False mentions closures values) :
    Holding characters closures values := by
  induction builds with
  | nil => exact .nil
  | append _ _ first second => exact first.append second
  | plain _ _ holding => exact holding
  | literal => exact .atomic _
  | name => exact .nameExpr _
  | symbol => exact .symbol _
  | known _ _ _ holding => exact holding.call _
  | @member name _ _ _ _ _ holding =>
    have both := holding.append (.atomic (.str name))
    rw [List.append_nil] at both
    exact both.call "."
  | invoke _ _ _ called given => exact called.invoke given
  | function read _ _ _ inDefaults inBody => exact .function read inDefaults inBody

end Reading

end Source

end TreePass
