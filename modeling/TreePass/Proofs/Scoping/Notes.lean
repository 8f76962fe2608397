import TreePass.Proofs.Noting
import TreePass.Proofs.Scoping.Boundaries
import TreePass.Source.Function

/-!
What annotating a function and collecting its variables note: nothing about targets, and no name
that is not in the function.
-/

set_option autoImplicit false
set_option relaxedAutoImplicit false

namespace TreePass

open TreePass.Action

variable {σ : Type}

namespace Node

def ownNames (node : Expr) : List String := node.symbolName?.toList ++ node.paramNames?.getD []

def names (root : Expr) : List String := root.nodes.flatMap ownNames

theorem names_bare (node : Expr) : node.bare.names = node.names := by
  have own (n : Expr) : n.bare.ownNames = n.ownNames := by simp [ownNames]
  simp only [names, nodes_bare, List.flatMap_map, own]

theorem names_eq_of_bare {node other : Expr} (same : other.bare = node.bare) :
    other.names = node.names := by
  rw [← names_bare other, same, names_bare]

private theorem names_of_mem {root n : Expr} (member : n ∈ root.nodes) : n.names ⊆ root.names := by
  intro name listed
  obtain ⟨m, below, own⟩ := List.mem_flatMap.mp listed
  exact List.mem_flatMap.mpr ⟨m, nodes_of_mem member below, own⟩

private theorem names_of_child {root c : Expr} (child : c ∈ root.children) : c.names ⊆ root.names :=
  names_of_mem (child_mem_nodes root.self_mem_nodes child)

private theorem symbolName_mem_names {root n : Expr} (member : n ∈ root.nodes) {name : String}
    (named : n.symbolName? = some name) : name ∈ root.names :=
  List.mem_flatMap.mpr ⟨n, member, by simp [ownNames, named]⟩

private theorem paramNames_mem_names {root : Expr} {params : List String}
    (declared : root.paramNames? = some params) : params ⊆ root.names := by
  intro name listed
  exact List.mem_flatMap.mpr ⟨root, root.self_mem_nodes, by simp [ownNames, declared, listed]⟩

end Node

namespace Policy

private theorem innermost_mem_nodes (node : Expr) : innermost node ∈ node.nodes := by
  induction node using Node.induction with
  | atomic | symbol | primitive | pairlist => exact Node.self_mem_nodes _
  | call tag callee args _ iha =>
    cases args with
    | nil => exact Node.self_mem_nodes _
    | cons a rest =>
      have below := iha a List.mem_cons_self
      obtain ⟨name, a⟩ := a
      rw [innermost]
      exact Node.nodes_of_child (List.mem_cons_of_mem callee List.mem_cons_self) below

private theorem boundName_mem_names {policy : Policy} {node : Expr} {name : String}
    (bound : policy.boundName? node = some name) : name ∈ node.names := by
  cases node with
  | atomic | symbol | primitive | pairlist => cases bound
  | call tag callee args =>
    match args with
    | [] => cases bound
    | (argName, target) :: rest =>
      have child : target ∈ (Node.call tag callee ((argName, target) :: rest) : Expr).children :=
        List.mem_cons_of_mem callee List.mem_cons_self
      have direct (named : target.symbolName? = some name) :=
        Node.names_of_child child (Node.symbolName_mem_names target.self_mem_nodes named)
      simp only [boundName?] at bound
      split_ifs at bound
      · exact direct bound
      · exact Node.names_of_child child
          (Node.symbolName_mem_names (innermost_mem_nodes target) bound)
      · exact direct bound

private theorem assignments_subset_names (policy : Policy) (root : Expr) :
    policy.assignments root ⊆ root.names := by
  intro name assigned
  obtain ⟨c, reaches, bound⟩ := mem_assignments_iff.mp assigned
  induction reaches with
  | here => exact boundName_mem_names bound
  | arg _ member _ ih =>
    refine Node.names_of_child (List.mem_cons_of_mem _ (List.mem_map_of_mem member)) (ih ?_ bound)
    exact mem_assignments_iff.mpr ⟨_, ‹_›, bound⟩
  | default member given _ ih =>
    refine Node.names_of_child (List.mem_filterMap.mpr ⟨_, member, given⟩) (ih ?_ bound)
    exact mem_assignments_iff.mpr ⟨_, ‹_›, bound⟩

end Policy

/-- A note that is about no target and no other function than the given one, and lists only names of
the given kind. -/
inductive Note.Lists (known : String → Prop) (title : Option String) : Note → Prop
  | skipped (kind : Kind) : Lists known title (.skipped kind)
  | scopeOf {assigned bound : NameSet} : (∀ n ∈ assigned, known n) → (∀ n ∈ bound, known n) →
      Lists known title (.scopeOf title assigned bound)
  | nestedScope {assigned bound : NameSet} : (∀ n ∈ assigned, known n) →
      (∀ n ∈ bound, known n) → Lists known title (.nestedScope assigned bound)
  | analysing : Lists known title (.analysing title)

structure Scope.Over (known : String → Prop) (scope : Scope) : Prop where
  assigned : ∀ n ∈ scope.assigned, known n
  bound : ∀ n ∈ scope.bound, known n

variable {known : String → Prop} {title : Option String}

namespace Policy

variable {policy : Policy}

private theorem collection_modest : (policy.collection : Traversal σ).Modest where
  targetless := rfl
  handlers kind slot handler installed := by
    intro node ctx next
    have goesOn : (ctx.callNext node).Notes kind := by
      unfold Context.callNext
      cases rest : ctx.next with
      | none => exact notes_fail _
      | some run => exact next run (by rw [rest]; rfl) node
    match slot, installed with
    | .topdown, installed =>
      obtain rfl := List.mem_singleton.mp installed
      unfold skipOpaque
      split
      · unfold Context.skip
        cases ctx.visit <;> exact notes_fail _
      · exact goesOn
    | .call, installed =>
      obtain rfl := List.mem_singleton.mp installed
      refine goesOn.bind fun found => ?_
      cases policy.boundName? node with
      | none => exact notes_pure _
      | some name => exact (notes_ofExcept _).bind fun _ => notes_pure _

private theorem notes_collect (params body : Expr) (enclosing : NameSet) :
    (policy.collect params body enclosing : Action σ Scope).Notes (Note.Lists known title) := by
  have visited (root : Expr) : (policy.collection.analyse .none Scope.empty root :
      Action σ Entries).Notes (Note.Lists known title) :=
    collection_modest.notes_visit .skipped _ _ root
  refine ((visited params).bind fun _ => (visited body).bind fun _ => notes_pure _).bind fun _ => ?_
  cases params.paramNames? with
  | none => exact notes_fail _
  | some names => exact notes_of_silent fun _ => rfl

private theorem over_of_collect {params body : Expr} {enclosing : NameSet}
    (inParams : ∀ n ∈ params.names, known n) (inBody : ∀ n ∈ body.names, known n)
    (around : ∀ n ∈ enclosing, known n) {info : Scope} {s s' : Store σ}
    (ran : (policy.collect params body enclosing).run s = (.ok info, s')) : info.Over known := by
  obtain ⟨names, declared⟩ : ∃ names, params.paramNames? = some names := by
    have list := isPairlist_of_collect ran
    cases params with
    | pairlist tag params => exact ⟨_, rfl⟩
    | atomic | symbol | primitive | call => cases list
  obtain ⟨rfl, -, -, -⟩ := (policy.collect_ends params body declared enclosing s).of_ran ran
  have assigned : ∀ n ∈ policy.assignments params ++ policy.assignments body, known n := by
    intro n listed
    rcases List.mem_append.mp listed with listed | listed
    · exact inParams n (assignments_subset_names policy params listed)
    · exact inBody n (assignments_subset_names policy body listed)
  constructor
  · exact fun n listed => assigned n (NameSet.mem_ofNames.mp listed)
  · intro n listed
    rcases NameSet.mem_union.mp listed with listed | listed
    · exact assigned n (NameSet.mem_ofNames.mp listed)
    rcases NameSet.mem_union.mp listed with listed | listed
    · exact inParams n (Node.paramNames_mem_names declared (NameSet.mem_ofNames.mp listed))
    · exact around n listed

def scopesWithin (policy : Policy) (info : Scope) (body list : Expr) :
    Action σ (Expr → Scope) := do
  let inner ← policy.collect list body info.bound
  Action.note (.nestedScope inner.assigned inner.bound)
  return fun child => if child.same list || child.same body then inner else info

private theorem literalScope_eq (info : Scope) (params : Option Expr) (body : Expr) :
    (policy.literalScope info params body : Action σ _) =
      (params.elim (Node.newPairlist []) pure) >>= policy.scopesWithin info body := by
  cases params <;> rfl

variable {info : Scope}

private theorem notes_scopesWithin (outer : info.Over known) {body list : Expr}
    (inList : ∀ n ∈ list.names, known n) (inBody : ∀ n ∈ body.names, known n) :
    (policy.scopesWithin info body list : Action σ _).Notes (Note.Lists known title) := by
  refine (notes_collect list body info.bound).bind_ran fun inner collected => ?_
  obtain ⟨s, s', collected⟩ := collected
  have inside := over_of_collect inList inBody outer.bound collected
  exact (notes_note (.nestedScope inside.assigned inside.bound)).bind fun _ => notes_pure _

private theorem over_of_scopesWithin (outer : info.Over known) {body list : Expr}
    (inList : ∀ n ∈ list.names, known n) (inBody : ∀ n ∈ body.names, known n) {s s' : Store σ}
    {scopes : Expr → Scope} (ran : (policy.scopesWithin info body list).run s = (.ok scopes, s'))
    (child : Expr) : (scopes child).Over known := by
  obtain ⟨inner, s₁, collected, ran⟩ := run_bind_eq_ok.mp ran
  obtain ⟨_, s₂, -, ran⟩ := run_bind_eq_ok.mp ran
  obtain ⟨rfl, -⟩ := ok_inj ran
  simp only
  split
  · exact over_of_collect inList inBody outer.bound collected
  · exact outer

private theorem names_of_list {params : Option Expr}
    (inParams : ∀ list ∈ params, ∀ n ∈ list.names, known n) {s s' : Store σ} {list : Expr}
    (ran : (params.elim (Node.newPairlist []) pure : Action σ Expr).run s = (.ok list, s')) :
    ∀ n ∈ list.names, known n := by
  cases params with
  | some given =>
    obtain ⟨rfl, -⟩ := ok_inj ran
    exact inParams given rfl
  | none =>
    obtain ⟨rfl, -⟩ := ok_inj ran
    intro n member
    cases member

private theorem notes_literalScope (outer : info.Over known) {params : Option Expr} {body : Expr}
    (inParams : ∀ list ∈ params, ∀ n ∈ list.names, known n) (inBody : ∀ n ∈ body.names, known n) :
    (policy.literalScope info params body : Action σ _).Notes (Note.Lists known title) := by
  rw [literalScope_eq]
  have made : (params.elim (Node.newPairlist []) pure : Action σ Expr).Notes
      (Note.Lists known title) := by
    cases params <;> exact notes_of_silent fun _ => rfl
  refine made.bind_ran fun list ran => ?_
  obtain ⟨s, s', ran⟩ := ran
  exact notes_scopesWithin outer (names_of_list inParams ran) inBody

private theorem over_of_literalScope (outer : info.Over known) {params : Option Expr} {body : Expr}
    (inParams : ∀ list ∈ params, ∀ n ∈ list.names, known n) (inBody : ∀ n ∈ body.names, known n)
    {s s' : Store σ} {scopes : Expr → Scope}
    (ran : (policy.literalScope info params body).run s = (.ok scopes, s')) (child : Expr) :
    (scopes child).Over known := by
  rw [literalScope_eq] at ran
  obtain ⟨list, s₁, made, ran⟩ := run_bind_eq_ok.mp ran
  exact over_of_scopesWithin outer (names_of_list inParams made) inBody ran child

private theorem names_of_part {node : Expr} (within : ∀ n ∈ node.names, known n) {literal : Literal}
    (parts : policy.literalParts? node = some literal) :
    (∀ list ∈ literal.1, ∀ n ∈ list.names, known n) ∧ ∀ n ∈ literal.2.names, known n := by
  have child (part : Expr) (listed : part ∈ literal.parts) (n : String) (named : n ∈ part.names) :
      known n :=
    within n (Node.names_of_child (policy.mem_children_of_isPart ⟨literal, parts, listed⟩) named)
  refine ⟨fun list given => child list ?_, child literal.2 ?_⟩
  · simp [Literal.parts, Option.mem_def.mp given]
  · simp [Literal.parts]

private theorem notes_childScopes (outer : info.Over known) {node : Expr}
    (within : ∀ n ∈ node.names, known n) :
    (policy.childScopes info node : Action σ _).Notes (Note.Lists known title) := by
  unfold childScopes
  cases parts : policy.literalParts? node with
  | none => exact notes_pure _
  | some literal =>
    obtain ⟨inParams, inBody⟩ := names_of_part within parts
    exact notes_literalScope outer inParams inBody

/-- Whatever scopes the children of a node stand in, they hold names of the tree or those around
it. -/
theorem over_of_childScopes (outer : info.Over known) {node : Expr}
    (within : ∀ n ∈ node.names, known n) {s s' : Store σ} {scopes : Expr → Scope}
    (ran : (policy.childScopes info node).run s = (.ok scopes, s')) (child : Expr) :
    (scopes child).Over known := by
  unfold childScopes at ran
  cases parts : policy.literalParts? node with
  | none =>
    rw [parts] at ran
    obtain ⟨rfl, -⟩ := ok_inj ran
    exact outer
  | some literal =>
    rw [parts] at ran
    obtain ⟨inParams, inBody⟩ := names_of_part within parts
    exact over_of_literalScope outer inParams inBody ran child

private theorem notes_stamp (outer : info.Over known) {node : Expr}
    (within : ∀ n ∈ node.names, known n) :
    (policy.stamp info node : Action σ Unit).Notes (Note.Lists known title) := by
  have stamped (tag : Tag) (value : Value) :
      (Action.setMetadata tag Node.scopeKey value : Action σ Unit).Notes (Note.Lists known title) :=
    notes_of_silent fun _ => rfl
  induction node using Node.induction generalizing info with
  | atomic tag | symbol tag | primitive tag => exact stamped tag _
  | pairlist tag params ih =>
    refine (stamped tag _).bind fun _ => ?_
    have each (p : String × Option Expr) (listed : p ∈ params) (d : Expr) (given : d ∈ p.2) :
        (policy.stamp info d : Action σ Unit).Notes (Note.Lists known title) :=
      ih p listed d given outer fun n named =>
        within n (Node.names_of_child (List.mem_filterMap.mpr ⟨p, listed, given⟩) named)
    clear ih within
    induction params with
    | nil => exact notes_pure _
    | cons p rest ihr =>
      have later := ihr fun q h => each q (List.mem_cons_of_mem _ h)
      obtain ⟨name, d | d⟩ := p
      · exact later
      · exact (each (name, some d) List.mem_cons_self d rfl).bind fun _ => later
  | call tag callee args ihc iha =>
    refine (stamped tag _).bind fun _ => ?_
    refine (notes_childScopes outer within).bind_ran fun scopes ran => ?_
    obtain ⟨s, s', ran⟩ := ran
    have inside := over_of_childScopes outer within ran
    refine (ihc (inside callee) fun n named =>
      within n (Node.names_of_child List.mem_cons_self named)).bind fun _ => ?_
    have each (a : Option String × Expr) (listed : a ∈ args) :
        (policy.stamp (scopes a.2) a.2 : Action σ Unit).Notes (Note.Lists known title) :=
      iha a listed (inside a.2) fun n named =>
        within n (Node.names_of_child
          (List.mem_cons_of_mem callee (List.mem_map_of_mem listed)) named)
    clear iha within ran
    induction args with
    | nil => exact notes_pure _
    | cons a rest ihr =>
      exact (each a List.mem_cons_self).bind fun _ =>
        ihr fun b h => each b (List.mem_cons_of_mem _ h)

theorem notes_annotate {fn : Function} (inParams : ∀ n ∈ fn.params.names, known n)
    (inBody : ∀ n ∈ fn.body.names, known n) :
    (policy.annotate fn : Action σ Function).Notes (Note.Lists known fn.name) := by
  refine (Node.notes_clone fn.params).bind_ran fun params cloned => ?_
  obtain ⟨s, s', cloned⟩ := cloned
  refine (Node.notes_clone fn.body).bind_ran fun body cloned' => ?_
  obtain ⟨t, t', cloned'⟩ := cloned'
  have sameParams := Node.names_eq_of_bare (Node.copied_of_clone cloned).1
  have sameBody := Node.names_eq_of_bare (Node.copied_of_clone cloned').1
  rw [← sameParams] at inParams
  rw [← sameBody] at inBody
  refine (notes_collect params body []).bind_ran fun info collected => ?_
  obtain ⟨u, u', collected⟩ := collected
  have inside := over_of_collect inParams inBody
    (fun n member => absurd member List.not_mem_nil) collected
  refine (notes_note (.scopeOf inside.assigned inside.bound)).bind fun _ => ?_
  exact (notes_stamp inside inParams).bind fun _ => (notes_stamp inside inBody).bind fun _ =>
    notes_pure _

end Policy

theorem Function.notes_plant {kind : Note → Prop} (fn : Function) :
    (fn.plant : Action σ Function).Notes kind :=
  (Node.notes_plant fn.params).bind fun _ => (Node.notes_plant fn.body).bind fun _ => notes_pure _

private theorem symbolCollector_modest (flags : Flags) (env : Option Environment) :
    (Pass.traversal { config := symbolCollector, flags := flags } env : Traversal σ).Modest where
  targetless := rfl
  handlers kind slot handler installed := by
    intro node ctx _
    match slot, installed with
    | .symbol, installed =>
      obtain rfl := List.mem_singleton.mp installed
      dsimp only
      split
      · exact notes_pure _
      · exact notes_fail _

theorem notes_collectSymbols {fn : Function} (inParams : ∀ n ∈ fn.params.names, known n)
    (inBody : ∀ n ∈ fn.body.names, known n) (flags : Flags) (unique : Bool) :
    (collectSymbols fn flags unique : Action σ (List String)).Notes
      (Note.Lists known fn.name) := by
  refine Notes.bind ?_ fun found => notes_pure _
  refine (notes_of_silent fun _ => rfl).bind fun _ => ?_
  have prepared : (Pass.ensureAnnotated fn none : Action σ Function).Notes
      (Note.Lists known fn.name) := by
    unfold Pass.ensureAnnotated
    cases fn.scope with
    | some scope => exact notes_pure fn
    | none => exact Policy.notes_annotate inParams inBody
  refine prepared.bind_ran fun out ran => ?_
  have same : out.name = fn.name := by
    obtain ⟨s, s', ran⟩ := ran
    unfold Pass.ensureAnnotated at ran
    cases stored : fn.scope with
    | some scope =>
      simp only [stored] at ran
      obtain ⟨rfl, -⟩ := ok_inj ran
      rfl
    | none =>
      simp only [stored] at ran
      exact (Policy.annotated_of_run ran).name
  rw [same]
  exact (notes_note .analysing).bind fun _ =>
    (symbolCollector_modest flags out.env).notes_visit .skipped _ _ out.body

end TreePass
