import TreePass.Proofs.Source.Closures
import TreePass.Proofs.Scoping.Lexical
import TreePass.Source.Function

/-!
Local variables of source texts. In an annotated function that was read from a source text, every
function of the text has a literal of its own, and whatever that function binds is bound in the
scope of every node of the literal's body, however deep. So no call of a local variable is ever
dispatched to a target.
-/

set_option autoImplicit false
set_option relaxedAutoImplicit false

namespace TreePass

/-- The parts of a function, and those of the function literals inside it in preorder. -/
def Function.functions (policy : Policy) (fn : Function) : List (Expr × Expr) :=
  (fn.params, fn.body) :: (policy.functions fn.params ++ policy.functions fn.body)

namespace Policy

variable {σ : Type} {policy : Policy}

private theorem mem_placement_of_function {fn : Function} {literal : Expr × Expr}
    (member : literal ∈ fn.functions policy) {m : Expr} (below : m ∈ literal.2.nodes) :
    ∃ stack, (m, stack) ∈ policy.placement fn ∧ (some literal.1, literal.2) ∈ stack := by
  rcases List.mem_cons.mp member with rfl | inside
  · obtain ⟨stack, standing⟩ : ∃ stack, (m, stack) ∈ policy.standing [fn.literal] fn.body :=
      exists_standing below
    refine ⟨stack, List.mem_append_right _ standing, ?_⟩
    exact (suffix_of_standing standing).subset List.mem_cons_self
  · rw [functions, functions, ← List.filterMap_append, ← Function.nodes,
      ← policy.placement_fst] at inside
    obtain ⟨n, listed, parts⟩ := List.mem_filterMap.mp inside
    obtain ⟨⟨n, stack⟩, placed, rfl⟩ := List.mem_map.mp listed
    have isLiteral : policy.literalParts? n = some (some literal.1, literal.2) := by
      simp only [parts?] at parts
      split at parts
      · rename_i params body found
        obtain rfl := Option.some.inj parts
        exact found
      · cases parts
    have isPart : literal.2 ∈ Literal.parts (some literal.1, literal.2) := by simp [Literal.parts]
    have placedBody := policy.standing_subset_placement placed (part_standing isLiteral isPart)
    obtain ⟨inner, further, placed'⟩ := policy.mem_placement_of_below placedBody below
    exact ⟨inner, placed', further.subset List.mem_cons_self⟩

end Policy

namespace Source

variable {characters : CharacterNames}

private theorem Closure.Image.binds_in {closure : Closure} {literal : Expr × Expr}
    (image : closure.Image characters literal) {name : String} (member : name ∈ closure.binds) :
    Literal.Assigns {} (some literal.1, literal.2) name ∨
      name ∈ Literal.names (some literal.1, literal.2) := by
  obtain ⟨params, body, read, same⟩ := image
  obtain ⟨sameParams, sameBody⟩ := Prod.mk.inj same
  rcases Closure.binds_of_read read member with ⟨names, declared, listed⟩ | assigned
  · refine Or.inr ?_
    rw [Literal.names, Option.bind_some, ← Node.paramNames?_bare, sameParams,
      Node.paramNames?_bare, declared]
    exact listed
  · refine Or.inl (Literal.mem_assignments_iff.mp (List.mem_append_right _ ?_))
    rwa [← Policy.assignments_bare, sameBody, Policy.assignments_bare]

theorem images_of_definition {d : Definition} {env : Environment} {fn : Function}
    (read : Function.ofDefinition characters d env = .ok fn) :
    fn.params.isPairlist = true ∧
      List.Forall₂ (Closure.Image characters) (Closure.inDefinition d) (fn.functions {}) := by
  obtain ⟨⟨params, body⟩, readParts, made⟩ := Reading.bind_eq_ok.mp read
  obtain rfl := Except.ok.inj made
  have gives : Reading.Gives (Reading.BuildsParts characters False d)
      (Reading.definition characters d) := Reading.definition_builds d False.elim
  have parts := gives.of_eq_ok readParts
  have images := (parts.literal readParts).holding.images
  rw [List.flatMap_singleton, Reading.functions_function _ _ parts.isPairlist] at images
  exact ⟨parts.isPairlist, images⟩

private theorem images_of_bare {closures : List Closure} {fn out : Function}
    (params : out.params.bare = fn.params.bare) (body : out.body.bare = fn.body.bare)
    (images : List.Forall₂ (Closure.Image characters) closures (fn.functions {})) :
    List.Forall₂ (Closure.Image characters) closures (out.functions {}) := by
  -- An image is told by the structure of its parts, so it is enough to look at the bare parts.
  let structures (fn : Function) : List (Expr × Expr) :=
    (fn.functions {}).map fun parts => (parts.1.bare, parts.2.bare)
  have same : structures out = structures fn := by
    simp only [structures, Function.functions, List.map_cons, List.map_append,
      ← Policy.functions_bare, params, body]
  have onStructures (fn : Function) :
      List.Forall₂ (fun closure parts => ∃ params body,
        closure.read characters = .ok (params, body) ∧ parts = (params.bare, body.bare)) closures
        (structures fn) ↔ List.Forall₂ (Closure.Image characters) closures (fn.functions {}) :=
    List.forall₂_map_right_iff
  rw [← onStructures, same, onStructures]
  exact images

end Source

namespace Traversal

/-- Whatever a traversal inherits when it comes to a call, it finds no target for the call, and only
handlers of the slots run at it. -/
def OnlyGeneric {σ : Type} (t : Traversal σ) (node callee : Expr) (s : Store σ) : Prop :=
  ∀ inherited : Value,
    (do t.resolve callee (← scopeAt node inherited)).Ends s fun target _ =>
      ∀ slot, t.config.fullChain slot target = t.config.chain slot

private theorem onlyGeneric_of_bound {σ : Type} (t : Traversal σ) {node : Expr} {s : Store σ}
    {scope : Scope} (stamped : s.stamp? node = some (.scope scope)) (tag : Tag) {name : String}
    (bound : name ∈ scope.bound) : t.OnlyGeneric node (.symbol tag name) s := by
  intro inherited
  refine Action.ends_bind_of_run (run_scopeAt node inherited s) ?_
  rw [stamped, Option.getD_some]
  have asked : Value.isBound (.scope scope) name = .ok true := by
    simp [Value.isBound, Scope.isBound, bound]
  refine (t.resolve_of_bound_ends tag asked s).mono ?_
  rintro _ _ rfl slot
  rfl

end Traversal

theorem Function.plant_ends {σ : Type} (fn : Function) (s : Store σ) :
    fn.plant.Ends s fun out _ =>
      out.params.bare = fn.params.bare ∧ out.body.bare = fn.body.bare := by
  refine Action.Ends.bind (fn.params.plant_ends s) ?_
  intro params s₁ sameParams
  refine Action.Ends.bind (fn.body.plant_ends s₁) ?_
  intro body s₂ sameBody
  exact Action.ends_pure ⟨sameParams, sameBody⟩

namespace Policy

variable {σ : Type}

/-- The definition of a function `outer` of one parameter `f`, with a loop over `f` in which a
lambda calls the loop variable `g`, and with a variable `y` for a character given by its name. -/
def calledLoopVariable : Source.Definition :=
  .mk false [] "outer" [.mk "f" none none] none
    [.forLoop false (.name "g") (.name "f")
      [.line [.expression (.lambda [.mk "h" none none]
        (.call (.name "g") [(.positional, .name "h")]))]] false,
      .line [.assign [.name "y"] (.strings [.plain "'\\N\x7bBULLET\x7d'"])]]

end Policy

end TreePass
