import TreePass.Proofs.Scoping.Lexical

/-!
Annotation depends on structure only. The stack of functions that a position stands in has the same
structure in all trees of one structure, so the stamps do not depend on what the nodes carried
before, nor on whether one node stood at several positions.
-/

set_option autoImplicit false
set_option relaxedAutoImplicit false

namespace TreePass

namespace Policy

variable (policy : Policy)

/-- The names assigned and the names bound inside a stack of functions. -/
def setsOf (stack : List Literal) : NameSet × NameSet :=
  (policy.assignedBy stack, policy.boundBy stack)

private theorem assignedBy_bare (stack : List Literal) :
    policy.assignedBy (stack.map Literal.bare) = policy.assignedBy stack := by
  cases stack with
  | nil => rfl
  | cons literal outer => simp only [List.map_cons, assignedBy, Literal.assignments_bare]

theorem boundBy_bare (stack : List Literal) :
    policy.boundBy (stack.map Literal.bare) = policy.boundBy stack := by
  induction stack with
  | nil => rfl
  | cons literal outer ih =>
    have assigned := policy.assignedBy_bare (literal :: outer)
    rw [List.map_cons] at assigned
    simp only [List.map_cons, boundBy, assigned, Literal.names_bare, ih]

private theorem setsOf_bare (stack : List Literal) :
    policy.setsOf (stack.map Literal.bare) = policy.setsOf stack := by
  rw [setsOf, assignedBy_bare, boundBy_bare, setsOf]

theorem pushLiteral_bare (stack : List Literal) (node : Expr) :
    policy.pushLiteral (stack.map Literal.bare) node.bare =
      (policy.pushLiteral stack node).map Literal.bare := by
  rw [pushLiteral, pushLiteral, literalParts?_bare]
  cases policy.literalParts? node <;> rfl

theorem partCount_bare (node : Expr) : policy.partCount node.bare = policy.partCount node := by
  rw [partCount, partCount, literalParts?_bare]
  rcases policy.literalParts? node with _ | ⟨_ | params, body⟩ <;> rfl

def barePlace (place : Expr × List Literal) : Expr × List Literal :=
  (place.1.bare, place.2.map Literal.bare)

private theorem standingArgs_bare {args : List (Option String × Expr)}
    (each : ∀ a ∈ args, ∀ stack, policy.standing (stack.map Literal.bare) a.2.bare =
      (policy.standing stack a.2).map barePlace) (stack inner : List Literal) (parts : Nat) :
    policy.standingArgs (stack.map Literal.bare) (inner.map Literal.bare) parts
      (Node.bareArgs args) = (policy.standingArgs stack inner parts args).map barePlace := by
  induction args generalizing parts with
  | nil => cases parts <;> rfl
  | cons a rest ih =>
    have first := each a List.mem_cons_self
    have later := ih fun b h => each b (List.mem_cons_of_mem _ h)
    obtain ⟨name, a⟩ := a
    cases parts with
    | zero => simp only [Node.bareArgs, standingArgs, List.map_append, first stack, later 0]
    | succ parts =>
      simp only [Node.bareArgs, standingArgs, List.map_append, first inner, later parts]

private theorem standingParams_bare {params : List (String × Option Expr)} (stack : List Literal)
    (each : ∀ p ∈ params, ∀ d ∈ p.2, policy.standing (stack.map Literal.bare) d.bare =
      (policy.standing stack d).map barePlace) :
    policy.standingParams (stack.map Literal.bare) (Node.bareParams params) =
      (policy.standingParams stack params).map barePlace := by
  induction params with
  | nil => rfl
  | cons p rest ih =>
    have later := ih fun q h => each q (List.mem_cons_of_mem _ h)
    obtain ⟨name, d | d⟩ := p
    · exact later
    · simp only [Node.bareParams, standingParams, List.map_append, later,
        each (name, some d) List.mem_cons_self d rfl]

private theorem standing_bare (stack : List Literal) (node : Expr) :
    policy.standing (stack.map Literal.bare) node.bare =
      (policy.standing stack node).map barePlace := by
  induction node using Node.induction generalizing stack with
  | atomic | symbol | primitive => rfl
  | pairlist tag params ih =>
    have below := policy.standingParams_bare stack fun p h d hd => ih p h d hd stack
    simp only [Node.bare, standing, List.map_cons, below]
    rfl
  | call tag callee args ihc iha =>
    have pushed := policy.pushLiteral_bare stack (.call tag callee args)
    have counted := policy.partCount_bare (.call tag callee args)
    simp only [Node.bare] at pushed counted ⊢
    simp only [standing, List.map_cons, List.map_append, pushed, counted, ihc,
      policy.standingArgs_bare iha]
    rfl

end Policy

/-- Functions with the same parameters and the same body, whatever nodes they are made of. -/
structure Function.SameStructure (fn other : Function) : Prop where
  params : fn.params.bare = other.params.bare
  body : fn.body.bare = other.body.bare

namespace Function

theorem SameStructure.refl (fn : Function) : fn.SameStructure fn := ⟨rfl, rfl⟩

theorem SameStructure.symm {fn other : Function} (same : fn.SameStructure other) :
    other.SameStructure fn := ⟨same.params.symm, same.body.symm⟩

theorem SameStructure.trans {a b c : Function} (first : a.SameStructure b)
    (second : b.SameStructure c) : a.SameStructure c :=
  ⟨first.params.trans second.params, first.body.trans second.body⟩

theorem SameStructure.isPairlist {fn other : Function} (same : fn.SameStructure other)
    (list : other.params.isPairlist = true) : fn.params.isPairlist = true := by
  rw [← Node.isPairlist_bare, same.params, Node.isPairlist_bare]
  exact list

theorem SameStructure.literal {fn other : Function} (same : fn.SameStructure other) :
    fn.literal.bare = other.literal.bare := by
  simp only [Function.literal, Literal.bare, Option.map_some, same.params, same.body]

end Function

namespace Policy

variable (policy : Policy)

def stampsOf (fn : Function) : List (NameSet × NameSet) :=
  (policy.placement fn).map fun place => policy.setsOf place.2

private theorem placement_bare {fn other : Function} (same : fn.SameStructure other) :
    (policy.placement fn).map barePlace = (policy.placement other).map barePlace := by
  have bottom : [fn.literal].map Literal.bare = [other.literal].map Literal.bare := by
    rw [List.map_singleton, same.literal, List.map_singleton]
  simp only [placement, List.map_append, ← standing_bare, bottom, same.params, same.body]

theorem stampsOf_congr {fn other : Function} (same : fn.SameStructure other) :
    policy.stampsOf fn = policy.stampsOf other := by
  -- The sets of a stack do not see identities, so they can be read off the bare stacks.
  have unfolded (fn : Function) : policy.stampsOf fn =
      ((policy.placement fn).map barePlace).map fun place => policy.setsOf place.2 := by
    rw [stampsOf, List.map_map]
    exact List.map_congr_left fun place _ => (policy.setsOf_bare place.2).symm
  rw [unfolded fn, policy.placement_bare same, ← unfolded other]

theorem setsOf_literal_congr {fn other : Function} (same : fn.SameStructure other) :
    policy.setsOf [fn.literal] = policy.setsOf [other.literal] := by
  have bare (fn : Function) := policy.setsOf_bare [fn.literal]
  simp only [List.map_singleton] at bare
  rw [← bare fn, same.literal, bare other]

end Policy

variable {σ : Type}

private theorem Scope.Fits.sets_eq {policy : Policy} {scope : Scope} {stack : List Literal}
    (fits : scope.Fits policy stack) : scope.sets = policy.setsOf stack := by
  rw [Scope.sets, fits.assigned, fits.bound, Policy.setsOf]

def Table.without (key : String) (table : Table) : Table :=
  table.filter fun entry => entry.1 != key

private theorem Table.without_put (key : String) (value : Value) (table : Table) :
    (Table.put key value table).without key = table.without key := by
  induction table with
  | nil => simp [put, without]
  | cons entry rest ih =>
    obtain ⟨k, v⟩ := entry
    simp only [without] at ih
    by_cases same : k = key
    · simp [put, without, same]
    · simp [put, without, same, ih]

namespace Function

/-- What annotation leaves to see: the names of the function's own scope, and at each position the
names of its stamp. -/
def annotation (fn : Function) (s : Store σ) :
    Option (NameSet × NameSet) × List (Option (NameSet × NameSet)) :=
  (fn.scope.map Scope.sets, fn.nodes.map s.stampSets?)

/-- The metadata at each position beside the stamp. -/
def otherMetadata (fn : Function) (s : Store σ) : List Table :=
  fn.nodes.map fun n => (s.table n.tag).without Node.scopeKey

end Function

namespace Policy

variable {policy : Policy} {fn out : Function} {before after : Store σ}

theorem Annotated.sameStructure (annotated : policy.Annotated fn before out after) :
    out.SameStructure fn :=
  ⟨annotated.params, annotated.body⟩

theorem Annotated.annotation_eq (annotated : policy.Annotated fn before out after) :
    out.annotation after =
      (some (policy.setsOf [fn.literal]), (policy.stampsOf fn).map some) := by
  obtain ⟨info, own, fits⟩ := annotated.scope
  obtain ⟨copy, -, stamping⟩ := annotated.written
  have stamps : out.nodes.map after.stampSets? = (policy.stampsOf out).map some := by
    rw [← policy.placement_fst out, stampsOf, List.map_map, List.map_map]
    refine List.map_congr_left fun place placed => ?_
    obtain ⟨scope, fits, wrote⟩ := stamping.stamped place placed
    simp only [Function.comp_apply, Store.stampSets?, Store.stamp?, wrote, Table.find?_put_self,
      fits.sets_eq]
  rw [Function.annotation, own, Option.map_some, fits.sets_eq, stamps,
    policy.setsOf_literal_congr annotated.sameStructure,
    policy.stampsOf_congr annotated.sameStructure]

theorem Annotated.otherMetadata_eq (annotated : policy.Annotated fn before out after)
    (live : ∀ n ∈ fn.nodes, n.tag < before.tables.size) :
    out.otherMetadata after = fn.otherMetadata before := by
  obtain ⟨copy, copied, stamping⟩ := annotated.written
  -- Stamping writes under one key, and the copy had everything under the others.
  have kept : out.otherMetadata after = out.otherMetadata copy := by
    refine List.map_congr_left fun n member => ?_
    rw [← policy.placement_fst out] at member
    obtain ⟨place, placed, rfl⟩ := List.mem_map.mp member
    obtain ⟨scope, -, wrote⟩ := stamping.stamped place placed
    rw [wrote, Table.without_put]
  have carried := congrArg (List.map (Table.without Node.scopeKey)) (copied.carries live)
  simp only [List.map_map] at carried
  rw [kept]
  exact carried

theorem annotation_ends {other : Function} (same : other.SameStructure fn)
    (list : fn.params.isPairlist = true) (s : Store σ) :
    (policy.annotate other).Ends s fun copy after =>
      copy.annotation after =
        (some (policy.setsOf [fn.literal]), (policy.stampsOf fn).map some) ∧
      policy.Annotated other s copy after := by
  refine (policy.annotate_ends (same.isPairlist list) s).mono fun copy after annotated => ?_
  refine ⟨?_, annotated⟩
  rw [annotated.annotation_eq, policy.setsOf_literal_congr same, policy.stampsOf_congr same]

end Policy

/-- Annotation depends on structure only. Two functions of one structure get the same scope and, at
every position, the same stamp, whatever their nodes carry in whatever stores, and everything that
is stored under another key goes over unchanged. So annotating again changes nothing, and the
result of a pass has the stamps that annotating anything of its structure gives. -/
theorem annotation_depends_on_structure :
    (∀ (policy : Policy) (fn fn' : Function), fn.SameStructure fn' →
      fn.params.isPairlist = true → ∀ s s' : Store σ,
      (policy.annotate fn).Ends s fun out after =>
        (policy.annotate fn').Ends s' fun out' after' =>
          (∃ (own : NameSet × NameSet) (stamps : List (NameSet × NameSet)),
            out.annotation after = (some own, stamps.map some) ∧
            out'.annotation after' = (some own, stamps.map some)) ∧
          ((∀ n ∈ fn.nodes, n.tag < s.tables.size) →
            out.otherMetadata after = fn.otherMetadata s) ∧
          ((∀ n ∈ fn'.nodes, n.tag < s'.tables.size) →
            out'.otherMetadata after' = fn'.otherMetadata s')) ∧
    (∀ (policy : Policy) (fn : Function), fn.params.isPairlist = true → ∀ s : Store σ,
      (policy.annotate fn).Ends s fun out after =>
        (policy.annotate out).Ends after fun again after' =>
          again.annotation after' = out.annotation after) ∧
    ∀ (pass : Pass σ) (fn out : Function) (given : Option Policy) (s after : Store σ),
      (pass.transformFunction fn given).run s = (.ok out, after) →
        ∀ plain : Function, plain.SameStructure out → ∀ s' : Store σ,
          ((given.getD {}).annotate plain).Ends s' fun out' after' =>
            out.annotation after = out'.annotation after' := by
  refine ⟨?_, ?_, ?_⟩
  · intro policy fn fn' same list s s'
    refine (Policy.annotation_ends (.refl fn) list s).mono ?_
    rintro out after ⟨shown, annotated⟩
    refine (Policy.annotation_ends same.symm list s').mono ?_
    rintro out' after' ⟨shown', annotated'⟩
    exact ⟨⟨_, _, shown, shown'⟩, annotated.otherMetadata_eq, annotated'.otherMetadata_eq⟩
  · intro policy fn list s
    refine (Policy.annotation_ends (.refl fn) list s).mono ?_
    rintro out after ⟨shown, annotated⟩
    refine (Policy.annotation_ends annotated.sameStructure list after).mono ?_
    rintro again after' ⟨shown', -⟩
    rw [shown, shown']
  · intro pass fn out given s after ran plain same s'
    obtain ⟨result, s₁, -, ran⟩ := Pass.annotate_of_transformFunction ran
    have annotated := Policy.annotated_of_run ran
    have alike := same.trans annotated.sameStructure
    refine (Policy.annotation_ends alike (Policy.isPairlist_of_annotate ran) s').mono ?_
    rintro out' after' ⟨shown', -⟩
    rw [annotated.annotation_eq, shown']

/-- A function with the parameter `y = z` and the body `x <- 1`, of six nodes in a row. -/
def assignmentAt (first : Tag) : Function where
  params := .pairlist first [("y", some (.symbol (first + 1) "z"))]
  body := .call (first + 2) (.symbol (first + 3) "<-")
    [(none, .symbol (first + 4) "x"), (none, .atomic (first + 5) (.int 1))]

/-- Six nodes with a note and the stamp of some other function, and six with something else in the
place of the stamp. -/
def staleStore : Store Unit :=
  let stale : Table := [("scope", .scope ⟨9, ["q"], ["q"]⟩), ("note", .int 1)]
  let foreign : Table := [("note", .int 2), ("scope", .str "none")]
  { Store.initial () with
    tables := (List.replicate 6 stale ++ List.replicate 6 foreign).toArray }

/-- The pass that leaves something else in the place of the stamps of calls. -/
def smearPass : Pass Unit where
  config := (Config.standard .transform).install .call fun node ctx => do
    node.setMetadata Node.scopeKey (.str "smeared")
    ctx.callNext node

theorem annotation_depends_on_structure_staleStore :
    (assignmentAt 0).SameStructure (assignmentAt 6) ∧
    (assignmentAt 0).params.isPairlist = true ∧
    ((({} : Policy).annotate (assignmentAt 0)).Ends staleStore fun out after =>
      (({} : Policy).annotate (assignmentAt 6)).Ends staleStore fun out' after' =>
        out.annotation after = out'.annotation after' ∧
        out.otherMetadata after = List.replicate 6 [("note", .int 1)] ∧
        out'.otherMetadata after' = List.replicate 6 [("note", .int 2)]) ∧
    (smearPass.transformFunction (assignmentAt 0) none).Ends staleStore fun out after =>
      (({} : Policy).annotate out).Ends (Store.initial ()) fun out' after' =>
        out.annotation after = out'.annotation after' := by
  have same : (assignmentAt 0).SameStructure (assignmentAt 6) := ⟨rfl, rfl⟩
  have live {fn : Function} (bounded : ∀ tag ∈ fn.nodes.map Node.tag, tag < 12) :
      ∀ n ∈ fn.nodes, n.tag < staleStore.tables.size :=
    fun n member => bounded n.tag (List.mem_map_of_mem member)
  obtain ⟨alike, -, transformed⟩ := annotation_depends_on_structure (σ := Unit)
  refine ⟨same, rfl, ?_, ?_⟩
  · obtain ⟨out, after, ran, out', after', ran', ⟨own, stamps, shown, shown'⟩, kept, kept'⟩ :=
      alike {} _ _ same rfl staleStore staleStore
    refine ⟨out, after, ran, out', after', ran', by rw [shown, shown'], ?_, ?_⟩
    · exact kept (live (by decide))
    · exact kept' (live (by decide))
  · have ends : (smearPass.transformFunction (assignmentAt 0) none).Ends staleStore
        fun _ _ => true = true := Action.ends_of_check _ (by decide +kernel)
    obtain ⟨out, after, ran, -⟩ := ends
    exact ⟨out, after, ran, transformed _ _ out none _ after ran out (.refl out) _⟩

/-- However the positions of a function share nodes, annotating it changes no node that existed,
makes a node of its own for every position of the result, and gives every position the stamp that
it gets in a function where each position has a node of its own. -/
theorem annotation_separates_shared_nodes (policy : Policy) (fn : Function)
    (list : fn.params.isPairlist = true) (s : Store σ) :
    (policy.annotate fn).Ends s fun out after =>
      (∀ tag < s.tables.size, after.table tag = s.table tag) ∧
      (out.SameStructure fn ∧ Node.Fresh s after out.nodes) ∧
      ∃ (scope : NameSet × NameSet) (stamps : List (NameSet × NameSet)),
        out.annotation after = (some scope, stamps.map some) ∧
        ∀ own : Function, own.SameStructure fn → (own.nodes.map Node.tag).Nodup →
          ∀ s' : Store σ, (policy.annotate own).Ends s' fun out' after' =>
            out'.annotation after' = (some scope, stamps.map some) := by
  refine (Policy.annotation_ends (.refl fn) list s).mono ?_
  rintro out after ⟨shown, annotated⟩
  obtain ⟨copy, copied, stamping⟩ := annotated.written
  refine ⟨fun tag old => annotated.table_eq old, ⟨annotated.sameStructure, ?_⟩, _, _, shown, ?_⟩
  · exact copied.fresh.widen (Nat.le_refl _) stamping.frame.size
  · -- Both annotations are told by the structure, so it does not matter which nodes `own` has.
    intro own same _ s'
    exact (Policy.annotation_ends same list s').mono fun _ _ shown' => shown'.1

def sharedAssignment : Expr :=
  .call 0 (.symbol 1 "<-") [(none, .symbol 2 "x"), (none, .symbol 2 "x")]

/-- A function with the parameter `y = x` whose body is a function literal with the parameter `x`.
The body of the literal stands there once more as a further argument, and the default of `y` is the
variable of that assignment. -/
def sharedLiteral : Function where
  params := .pairlist 3 [("y", some (.symbol 2 "x"))]
  body := .call 4 (.symbol 5 "function")
    [(none, .pairlist 6 [("x", none)]), (none, sharedAssignment), (none, sharedAssignment)]

def separateLiteral : Function where
  params := .pairlist 0 [("y", some (.symbol 1 "x"))]
  body := .call 2 (.symbol 3 "function")
    [(none, .pairlist 4 [("x", none)]),
      (none, .call 5 (.symbol 6 "<-") [(none, .symbol 7 "x"), (none, .symbol 8 "x")]),
      (none, .call 9 (.symbol 10 "<-") [(none, .symbol 11 "x"), (none, .symbol 12 "x")])]

/-- Where the assignment is the body of the literal it stands inside, where it is a further argument
it stands outside. -/
theorem annotation_separates_shared_nodes_sharedLiteral :
    let s : Store Unit := { Store.initial () with tables := Array.replicate 7 [] }
    let outside : Option (NameSet × NameSet) := some ([], ["y"])
    let inside : Option (NameSet × NameSet) := some (["x"], ["x", "y"])
    sharedLiteral.params.isPairlist = true ∧ separateLiteral.SameStructure sharedLiteral ∧
    (separateLiteral.nodes.map Node.tag).Nodup ∧
    (({} : Policy).annotate sharedLiteral).Ends s fun out after =>
      Node.Fresh s after out.nodes ∧
      out.annotation after = (outside,
        List.replicate 4 outside ++ List.replicate 5 inside ++ List.replicate 4 outside) ∧
      (({} : Policy).annotate separateLiteral).Ends (Store.initial ()) fun out' after' =>
        out'.annotation after' = out.annotation after := by
  intro s outside inside
  have same : separateLiteral.SameStructure sharedLiteral := ⟨rfl, rfl⟩
  have own : (separateLiteral.nodes.map Node.tag).Nodup := by decide
  obtain ⟨out, after, ran, -, ⟨-, fresh⟩, scope, stamps, shown, others⟩ :=
    annotation_separates_shared_nodes {} sharedLiteral rfl s
  obtain ⟨out', after', ran', evaluated⟩ :
      (({} : Policy).annotate sharedLiteral).Ends s fun out after => decide (out.annotation after =
        (outside, List.replicate 4 outside ++ List.replicate 5 inside ++
          List.replicate 4 outside)) = true :=
    Action.ends_of_check _ (by decide +kernel)
  obtain ⟨rfl, rfl⟩ := Action.ok_inj (ran'.symm.trans ran)
  refine ⟨rfl, same, own, out', after', ran, fresh, of_decide_eq_true evaluated, ?_⟩
  rw [shown]
  exact others separateLiteral same own (Store.initial ())

end TreePass
