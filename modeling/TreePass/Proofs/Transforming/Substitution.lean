import TreePass.Proofs.Comparing
import TreePass.Proofs.Ordering.Sequence
import TreePass.Proofs.Transforming.Reproduction
import TreePass.Proofs.Turns.Places

/-!
Putting trees in the places of variables. A transformation whose one handler answers variables with
trees replaces the variables in argument and default positions and keeps everything else, callees
included; two such transformations in a row do what a single one does that answers each variable
with the second transformation of the first one's answer.
-/

set_option autoImplicit false
set_option relaxedAutoImplicit false

namespace TreePass

variable {σ : Type}

namespace Node

mutual

/-- The tree with other trees in the places of the variables that arguments and defaults lead to. -/
def substitute (trees : String → Expr) : Node Value → Node Value
  | .atomic tag value => .atomic tag value
  | .symbol _ name => trees name
  | .primitive tag ref => .primitive tag ref
  | .pairlist tag params => .pairlist tag (substituteParams trees params)
  | .call tag callee args => .call tag callee (substituteArgs trees args)

/-- Parameters with other trees in the places of variables in their defaults. -/
def substituteParams (trees : String → Expr) :
    List (String × Option (Node Value)) → List (String × Option (Node Value))
  | [] => []
  | (name, none) :: rest => (name, none) :: substituteParams trees rest
  | (name, some d) :: rest => (name, some (substitute trees d)) :: substituteParams trees rest

def substituteArgs (trees : String → Expr) :
    List (Option String × Node Value) → List (Option String × Node Value)
  | [] => []
  | (name, a) :: rest => (name, substitute trees a) :: substituteArgs trees rest

end

private theorem substituteArgs_eq (trees : String → Expr) (args : List (Option String × Expr)) :
    substituteArgs trees args = args.map fun a => (a.1, a.2.substitute trees) := by
  induction args with
  | nil => rfl
  | cons a rest ih => rw [substituteArgs, ih, List.map_cons]

private theorem substituteParams_eq (trees : String → Expr) (params : List (String × Option Expr)) :
    substituteParams trees params = params.map fun p => (p.1, p.2.map (substitute trees)) := by
  induction params with
  | nil => rfl
  | cons p rest ih =>
    obtain ⟨name, d | d⟩ := p
    · rw [substituteParams, ih, List.map_cons, Option.map_none]
    · rw [substituteParams, ih, List.map_cons, Option.map_some]

private theorem substitute_substitute (first second : String → Expr) (node : Expr) :
    (node.substitute first).substitute second =
      node.substitute fun name => (first name).substitute second := by
  induction node using Node.induction with
  | atomic | symbol | primitive => rfl
  | pairlist tag params ih =>
    simp only [substitute, substituteParams_eq, List.map_map]
    congr 1
    refine List.map_congr_left fun p listed => ?_
    obtain ⟨name, d | d⟩ := p
    · rfl
    · simp only [Function.comp, Option.map_some, ih (name, some d) listed d rfl]
  | call tag callee args _ ih =>
    simp only [substitute, substituteArgs_eq, List.map_map]
    congr 1
    exact List.map_congr_left fun a listed => by simp only [Function.comp, ih a listed]

private theorem bareArgs_substituteArgs {trees : String → Expr} {args : List (Option String × Expr)}
    (each : ∀ a ∈ args, (a.2.substitute trees).bare =
      a.2.bare.substitute fun name => (trees name).bare) :
    bareArgs (substituteArgs trees args) =
      substituteArgs (fun name => (trees name).bare) (bareArgs args) := by
  induction args with
  | nil => rfl
  | cons a rest ih =>
    obtain ⟨name, a⟩ := a
    have later := ih fun b h => each b (List.mem_cons_of_mem _ h)
    rw [substituteArgs, bareArgs, bareArgs, substituteArgs, later,
      each (name, a) List.mem_cons_self]

private theorem bareParams_substituteParams {trees : String → Expr}
    {params : List (String × Option Expr)}
    (each : ∀ p ∈ params, ∀ d ∈ p.2, (d.substitute trees).bare =
      d.bare.substitute fun name => (trees name).bare) :
    bareParams (substituteParams trees params) =
      substituteParams (fun name => (trees name).bare) (bareParams params) := by
  induction params with
  | nil => rfl
  | cons p rest ih =>
    have later := ih fun q h => each q (List.mem_cons_of_mem _ h)
    obtain ⟨name, d | d⟩ := p
    · rw [substituteParams, bareParams, bareParams, substituteParams, later]
    · rw [substituteParams, bareParams, bareParams, substituteParams, later,
        each (name, some d) List.mem_cons_self d rfl]

private theorem bare_substitute (trees : String → Expr) (node : Expr) :
    (node.substitute trees).bare = node.bare.substitute fun name => (trees name).bare := by
  induction node using Node.induction with
  | atomic | symbol | primitive => rfl
  | pairlist tag params ih =>
    rw [substitute, bare, bare, substitute, bareParams_substituteParams ih]
  | call tag callee args _ ih =>
    rw [substitute, bare, bare, substitute, bareArgs_substituteArgs ih]

private theorem substitute_congr {node other : Expr} {trees others : String → Expr}
    (same : other.bare = node.bare) (each : ∀ name, (others name).bare = (trees name).bare) :
    (other.substitute others).bare = (node.substitute trees).bare := by
  rw [bare_substitute, bare_substitute, same, funext each]

open Traversal (traversed)

private theorem traversed_substitute {node : Expr} (kept : node.kind ≠ .symbol)
    (trees : String → Expr) :
    traversed (node.substitute trees) = (traversed node).map (substitute trees) := by
  cases node with
  | symbol => exact absurd rfl kept
  | atomic | primitive => rfl
  | pairlist tag params =>
    clear kept
    induction params with
    | nil => rfl
    | cons p rest ih =>
      obtain ⟨name, d | d⟩ := p
      · exact ih
      · exact congrArg (d.substitute trees :: ·) ih
  | call tag callee args =>
    clear kept
    induction args with
    | nil => rfl
    | cons a rest ih => exact congrArg (a.2.substitute trees :: ·) ih

private theorem head_substitute {node : Expr} (kept : node.kind ≠ .symbol) (trees : String → Expr) :
    (node.substitute trees).head = node.head := by
  cases node with
  | symbol => exact absurd rfl kept
  | atomic | primitive => rfl
  | pairlist tag params =>
    rw [substitute, substituteParams_eq, head, head, headsOfParams, headsOfParams, List.map_map]
    congr 1
    refine List.map_congr_left fun p _ => ?_
    obtain ⟨name, d | d⟩ := p <;> rfl
  | call tag callee args =>
    rw [substitute, substituteArgs_eq, head, head, headsOfArgs, headsOfArgs, List.map_map]
    rfl

private theorem refillArgs_substituteArgs (trees : String → Expr)
    (args : List (Option String × Expr))
    (fresh : List Expr) : refillArgs (substituteArgs trees args) fresh = refillArgs args fresh := by
  rw [substituteArgs_eq, refillArgs, refillArgs, List.map_map]
  rfl

private theorem refillParams_substituteParams (trees : String → Expr)
    {params : List (String × Option Expr)} {fresh : List Expr}
    (fits : fresh.length = (defaults params).length) :
    refillParams (substituteParams trees params) fresh = refillParams params fresh := by
  induction params generalizing fresh with
  | nil => rfl
  | cons p rest ih =>
    obtain ⟨name, d | d⟩ := p
    · rw [substituteParams, refillParams, refillParams, ih fits]
    · cases fresh with
      | nil => cases fits
      | cons next fresh =>
        rw [substituteParams, refillParams, refillParams, ih (Nat.succ.inj fits)]

private theorem kind_ne_symbol_of_child {node child : Expr} {i : Nat}
    (found : (traversed node)[i]? = some child) : node.kind ≠ .symbol := by
  cases node with
  | symbol => cases found
  | atomic | primitive | pairlist | call => intro same; cases same

private theorem at?_substitute (trees : String → Expr) {place : Position} {node below : Expr}
    (found : at? place node = some below) :
    at? place (node.substitute trees) = some (below.substitute trees) := by
  induction place generalizing node with
  | nil =>
    obtain rfl := Option.some.inj found
    rfl
  | cons i place ih =>
    obtain ⟨child, there, further⟩ := Option.bind_eq_some_iff.mp found
    rw [at?, traversed_substitute (kind_ne_symbol_of_child there), List.getElem?_map, there]
    exact ih further

end Node

open Node (substitute)

private theorem Shape.rebuild_substitute {node : Expr} (composite : node.kind.isComposite = true)
    {results : List Expr} (fits : results.length = (Traversal.traversed node).length)
    (trees : String → Expr) :
    (rebuild (node.substitute trees) results : Action σ Expr) = rebuild node results := by
  cases node with
  | atomic | symbol | primitive => cases composite
  | pairlist tag params =>
    have count : (Node.defaults (Node.substituteParams trees params)).length =
        (Node.defaults params).length := by
      have below := @Node.traversed_substitute (.pairlist tag params) nofun trees
      exact (congrArg List.length below).trans (List.length_map _)
    simp only [substitute, rebuild, Node.withChildren, count,
      Node.refillParams_substituteParams trees fits]
  | call tag callee args =>
    have count : (Node.substituteArgs trees args).length = args.length := by
      rw [Node.substituteArgs_eq, List.length_map]
    simp only [substitute, rebuild, Node.withChildren, count, Node.refillArgs_substituteArgs]

def Handler.replacing (make : String → Action σ Expr) : Handler σ := fun node _ =>
  match node with
  | .symbol _ name => do return .node (← make name)
  | _ => Action.fail .missingMember

/-- What a traversal is told beside its handlers. -/
structure Circumstances where
  flags : Flags := {}
  env : Option Environment := none
  params : Table := []
  topdown : Value := .none
  scope : Scope := Scope.empty

/-- The transformation that answers variables and leaves other nodes to the standard handlers. -/
def Traversal.replacing (c : Circumstances) (make : String → Action σ Expr) : Traversal σ where
  config := (Config.standard .transform).install .symbol (Handler.replacing make)
  flags := c.flags
  env := c.env
  params := c.params

/-- A pass over an expression that answers its variables. -/
def Circumstances.replace (c : Circumstances) (make : String → Action σ Expr) (expr : Expr) :
    Action σ Expr :=
  (Traversal.replacing c make).transform c.topdown c.scope expr

/-- A pass that puts trees in the places of variables. -/
def Circumstances.put (c : Circumstances) (trees : String → Expr) (expr : Expr) : Action σ Expr :=
  c.replace (fun name => pure (trees name)) expr

/-- From a store on, names are answered with expressions of the given structure. Each of these stood
in that store or is made for the answer, so it is not the node that is asked about. -/
def AnswersBy (s₀ : Store σ) (make : String → Action σ Expr) (trees : String → Expr) : Prop :=
  ∀ name (s : Store σ), s₀.tables.size ≤ s.tables.size → (make name).Ends s fun tree _ =>
    tree.bare = (trees name).bare ∧ (tree.tag < s₀.tables.size ∨ s.tables.size ≤ tree.tag)

namespace Traversal

section

variable (c : Circumstances) (make : String → Action σ Expr)

private theorem fullChain_replacing {slot : Slot} (other : slot ≠ .symbol)
    (target : Option Identity) : (replacing c make).config.fullChain slot target =
      [.standard (Standard.ofSlot .transform slot)] := by
  cases slot with
  | symbol => exact absurd rfl other
  | atomic | primitive | pairlist | call | topdown => cases target <;> rfl

private theorem run_invoke_replacing (ctx : Context σ) {slot : Slot} (other : slot ≠ .symbol)
    (kind : slot ≠ .topdown) (target : Option Identity) (made : Expr) (s : Store σ) :
    (invoke ctx ((replacing c make).config.fullChain slot target) made).run s =
      (.ok (.node made), s) := by
  rw [fullChain_replacing c make other]
  cases slot with
  | topdown => exact absurd rfl kind
  | symbol => exact absurd rfl other
  | atomic | primitive | pairlist | call => rfl

private theorem run_descend_replacing (target : Option Identity) (topdown scope : Value)
    (node : Expr) (s : Store σ) :
    ((replacing c make).descend target topdown scope node).run s =
      (.ok (.done topdown), { s with visits := s.visits + 1 }) := by
  have passed : Slot.topdown ≠ .symbol := by decide
  rw [descend, Action.run_bind_of_ok (Action.run_newVisit s), fullChain_replacing c make passed]
  rfl

private theorem ofKind_ne_symbol {kind : Kind} (other : kind ≠ .symbol) :
    Slot.ofKind kind ≠ .symbol := by
  cases kind with
  | symbol => exact absurd rfl other
  | atomic | primitive | pairlist | call => decide

end

variable {c : Circumstances} {make : String → Action σ Expr} {trees : String → Expr} {s₀ : Store σ}

private theorem visitLeaf_symbol (answers : AnswersBy s₀ make trees) (tag : Tag) (name : String)
    (topdown inherited : Value) {s : Store σ} (later : s₀.tables.size ≤ s.tables.size) :
    ((replacing c make).visitLeaf .transforming topdown inherited (.symbol tag name)).Ends s
      fun out _ => out.bare = (trees name).bare := by
  refine Action.ends_bind_of_run (run_scopeAt (.symbol tag name) inherited s) ?_
  -- The handler is asked about a copy of the variable.
  have cloned : (Node.clone (.symbol tag name)).run s =
      (.ok (.symbol s.tables.size name), s.push (s.table tag)) := rfl
  refine Action.ends_bind_of_run cloned ?_
  have known : s₀.tables.size ≤ (s.push (s.table tag)).tables.size := by
    rw [Store.size_push]
    exact Nat.le_succ_of_le later
  obtain ⟨tree, s₁, ran, bare, apart⟩ := answers name _ known
  have called : (invoke ((replacing c make).context topdown
      ((s.stamp? (.symbol tag name)).getD inherited) none none)
      ((replacing c make).config.fullChain .symbol none) (.symbol s.tables.size name)).run
        (s.push (s.table tag)) = (.ok (.node tree), s₁) :=
    Action.run_bind_of_ok ran
  refine Action.ends_bind_of_run called ?_
  have different : (tree.same (.symbol s.tables.size name : Expr)) = false := by
    rw [Store.size_push] at apart
    simp only [Node.same, Node.tag_symbol, beq_eq_false_iff_ne]
    rcases apart with old | new
    · exact Nat.ne_of_lt (Nat.lt_of_lt_of_le old later)
    · exact Nat.ne_of_gt new
  simp only [finish, Shape.transforming, Value.node?, Option.map_some, different,
    Bool.false_eq_true, ↓reduceIte]
  exact (tree.clone_ends s₁).mono fun out _ copied => copied.1.trans bare

private theorem visitLeaf_other {node : Expr} (kept : node.kind ≠ .symbol)
    (topdown inherited : Value) (s : Store σ) :
    ((replacing c make).visitLeaf .transforming topdown inherited node).Ends s
      fun out _ => out.bare = node.bare := by
  refine Action.ends_bind_of_run (run_scopeAt node inherited s) ?_
  refine Action.Ends.bind (node.clone_ends s) ?_
  intro made s₁ copied
  have called := run_invoke_replacing c make
    ((replacing c make).context topdown ((s.stamp? node).getD inherited) none none)
    (ofKind_ne_symbol kept) (ofKind_ne_topdown node.kind) none made s₁
  exact Action.ends_bind_of_run called (.of_run (run_finish_made _ _ made s₁) copied.1)

private theorem visitAll_substitutes {nodes : List Expr} (topdown inherited : Value)
    (each : ∀ n ∈ nodes, ∀ s : Store σ, s₀.tables.size ≤ s.tables.size →
      ((replacing c make).visit .transforming topdown inherited n).Ends s
        fun out _ => out.bare = (n.substitute trees).bare)
    {s : Store σ} (later : s₀.tables.size ≤ s.tables.size) :
    ((replacing c make).visitAll .transforming topdown inherited nodes).Ends s
      fun results _ => results.map Node.bare = (nodes.map (substitute trees)).map Node.bare := by
  induction nodes generalizing s with
  | nil => exact Action.ends_pure rfl
  | cons node rest ih =>
    obtain ⟨out, s₁, ran, bare⟩ := each node List.mem_cons_self s later
    have later' := Nat.le_trans later (Action.size_le_of_run ran)
    refine Action.ends_bind_of_run ran ?_
    refine Action.Ends.bind (ih (fun n h => each n (List.mem_cons_of_mem _ h)) later') ?_
    intro outs s₂ bares
    refine Action.ends_pure ?_
    rw [List.map_cons, bare, bares, List.map_cons, List.map_cons]

private theorem composite_substitutes {node : Expr} (composite : node.kind.isComposite = true)
    (each : ∀ n ∈ traversed node, ∀ (topdown inherited : Value) (s : Store σ),
      s₀.tables.size ≤ s.tables.size →
        ((replacing c make).visit .transforming topdown inherited n).Ends s
          fun out _ => out.bare = (n.substitute trees).bare)
    (topdown inherited : Value) {s : Store σ} (later : s₀.tables.size ≤ s.tables.size) :
    ((replacing c make).visit .transforming topdown inherited node).Ends s
      fun out _ => out.bare = (node.substitute trees).bare := by
  have kept : node.kind ≠ .symbol := by
    intro same
    rw [same] at composite
    cases composite
  have untargeted (scope : Value) : (replacing c make).targetOf node scope = pure none := by
    cases node with
    | call tag callee args => exact resolve_of_no_targets _ rfl callee scope
    | atomic | symbol | primitive | pairlist => rfl
  rw [visit_of_composite _ .transforming composite]
  refine Action.ends_bind_of_run (run_scopeAt node inherited s) ?_
  rw [untargeted]
  refine Action.ends_bind_of_run (Action.run_pure none s) ?_
  refine Action.ends_bind_of_run (run_descend_replacing c make none topdown _ node s) ?_
  refine Action.Ends.bind (visitAll_substitutes topdown _
    (fun n member s' => each n member topdown _ s') later) ?_
  intro results s₁ same
  -- What is rebuilt around the results is the node with its variables replaced.
  rw [← Node.traversed_substitute kept trees] at same
  have fits : results.length = (traversed node).length := by
    rw [Node.traversed_substitute kept, List.map_map] at same
    simpa using congrArg List.length same
  have whole : (node.substitute trees).kind.isComposite = true := by
    cases node <;> first | exact composite | cases composite
  have rebuilt := Shape.rebuild_ends whole same s₁
  rw [Shape.rebuild_substitute composite fits] at rebuilt
  refine Action.Ends.bind rebuilt ?_
  rintro made s₂ ⟨bare, -⟩
  have called := run_invoke_replacing c make
    ((replacing c make).context topdown ((s.stamp? node).getD inherited) none none)
    (ofKind_ne_symbol kept) (ofKind_ne_topdown node.kind) none made s₂
  exact Action.ends_bind_of_run called (.of_run (run_finish_made _ _ made s₂) bare)

private theorem visit_substitutes (answers : AnswersBy s₀ make trees) (node : Expr)
    (topdown inherited : Value) {s : Store σ} (later : s₀.tables.size ≤ s.tables.size) :
    ((replacing c make).visit .transforming topdown inherited node).Ends s
      fun out _ => out.bare = (node.substitute trees).bare := by
  induction node using Node.induction generalizing topdown inherited s with
  | symbol tag name =>
    rw [visit_of_leaf _ .transforming rfl]
    exact visitLeaf_symbol answers tag name topdown inherited later
  | atomic | primitive =>
    rw [visit_of_leaf _ .transforming rfl]
    exact visitLeaf_other (by simp [Node.kind]) topdown inherited s
  | pairlist tag params ih =>
    refine composite_substitutes rfl (fun n member => ?_) topdown inherited later
    obtain ⟨p, listed, given⟩ := List.mem_filterMap.mp member
    exact ih p listed n given
  -- The callee is cloned and not visited: its variables stay.
  | call tag callee args _ ih =>
    refine composite_substitutes rfl (fun n member => ?_) topdown inherited later
    obtain ⟨a, listed, rfl⟩ := List.mem_map.mp member
    exact ih a listed

end Traversal

private theorem answers_of_known {s : Store σ} {trees : String → Expr}
    (known : ∀ name, s.Knows (trees name)) : AnswersBy s (fun name => pure (trees name)) trees :=
  fun name _ _ => Action.ends_pure ⟨rfl, Or.inl (known name _ (trees name).self_mem_nodes)⟩

namespace Circumstances

variable {c : Circumstances} {make : String → Action σ Expr} {trees : String → Expr} {s₀ : Store σ}

private theorem replace_ends (answers : AnswersBy s₀ make trees) (expr : Expr) {s : Store σ}
    (later : s₀.tables.size ≤ s.tables.size) :
    (c.replace make expr).Ends s fun out after =>
      out.bare = (expr.substitute trees).bare ∧ Node.Fresh s after out.nodes := by
  obtain ⟨out, after, ran, bare⟩ := Traversal.visit_substitutes (c := c) answers expr
    (Traversal.startValue c.topdown) (.scope c.scope) later
  exact .of_run ran ⟨bare, Traversal.fresh_of_transform ran⟩

private theorem answers_of_replace (answers : AnswersBy s₀ make trees) (first : String → Expr) :
    AnswersBy s₀ (fun name => c.replace make (first name))
      (fun name => (first name).substitute trees) := by
  intro name s later
  refine (replace_ends answers (first name) later).mono ?_
  rintro out after ⟨bare, fresh⟩
  exact ⟨bare, Or.inr (fresh.new out out.self_mem_nodes).1⟩

end Circumstances

/-- A tree that was made of another by putting trees in the places of the variables that arguments
and defaults lead to. Every other node on the way is what it was: a literal, a direct reference, a
call of the same callee with the same argument names, or a parameter list with the same names. -/
structure Substituted (trees : String → Expr) (expr out : Expr) : Prop where
  replaced : ∀ place tag name, expr.at? place = some (.symbol tag name) →
    ∃ tree, out.at? place = some tree ∧ tree.bare = (trees name).bare
  others : ∀ place node, expr.at? place = some node → node.kind ≠ .symbol →
    ∃ kept, out.at? place = some kept ∧ kept.head = node.head

private theorem Substituted.of_bare {trees : String → Expr} {expr out : Expr}
    (same : out.bare = (expr.substitute trees).bare) : Substituted trees expr out := by
  have standing {place : List Nat} {node : Expr} (found : expr.at? place = some node) :
      ∃ made, out.at? place = some made ∧ made.bare = (node.substitute trees).bare := by
    have there := congrArg (Node.at? place) same
    rw [Node.at?_bare, Node.at?_bare, Node.at?_substitute trees found] at there
    exact Option.map_eq_some_iff.mp there
  constructor
  · exact fun place tag name found => standing found
  · intro place node found kept
    obtain ⟨made, there, bare⟩ := standing found
    refine ⟨made, there, ?_⟩
    rw [Node.head_eq_of_bare_eq bare, Node.head_substitute kept]

/-- Passes that put trees in the places of variables compose. For all trees that exist, a first pass
puts its trees exactly in the places of the variables, and a second pass over its result gives the
structure that one pass gives whose answer to each variable is what the second pass makes of the
first one's answer: whether it makes this when the variable is met or has made it before. The two
results are equal as far as their literals equal themselves. -/
theorem substitutions_compose (first second : String → Expr) (c₁ c₂ c₃ c₄ : Circumstances)
    (expr : Expr) (s : Store σ) (known₁ : ∀ name, s.Knows (first name))
    (known₂ : ∀ name, s.Knows (second name)) :
    (c₁.put first expr).Ends s fun once s₁ =>
      Substituted first expr once ∧
      (c₂.put second once).Ends s₁ fun twice s₂ =>
        ((c₃.replace (fun name => c₄.put second (first name)) expr).Ends s₂ fun joint _ =>
          joint.Coincides twice) ∧
        ∀ (both : String → Expr) (s₃ : Store σ),
          (∀ name, ∃ before after : Store σ, s.tables.size ≤ before.tables.size ∧
            (c₄.put second (first name)).run before = (.ok (both name), after) ∧
            after.tables.size ≤ s₃.tables.size) →
          (c₃.put both expr).Ends s₃ fun joint _ => joint.Coincides twice := by
  have answers₁ := answers_of_known known₁
  have answers₂ := answers_of_known known₂
  obtain ⟨once, s₁, ran₁, bare₁, -⟩ := c₁.replace_ends answers₁ expr (Nat.le_refl _)
  have later₁ := Action.size_le_of_run ran₁
  refine .of_run ran₁ ⟨.of_bare bare₁, ?_⟩
  obtain ⟨twice, s₂, ran₂, bare₂, -⟩ := c₂.replace_ends answers₂ once later₁
  have later₂ := Nat.le_trans later₁ (Action.size_le_of_run ran₂)
  -- Both passes together make one substitution.
  have whole : (expr.substitute fun name => (first name).substitute second).bare = twice.bare := by
    rw [bare₂, Node.substitute_congr bare₁ fun _ => rfl, Node.substitute_substitute]
  refine .of_run ran₂ ⟨?_, ?_⟩
  · have joined := c₄.answers_of_replace answers₂ first
    exact (c₃.replace_ends joined expr later₂).mono fun joint _ made =>
      Node.coincides_of_bare_eq (made.1.trans whole)
  · intro both s₃ made
    have table (name : String) :
        (both name).bare = ((first name).substitute second).bare ∧ s₃.Knows (both name) := by
      obtain ⟨before, after, later, ran, ended⟩ := made name
      obtain ⟨out, after', ran', bare, fresh⟩ := c₄.replace_ends answers₂ (first name) later
      obtain ⟨rfl, rfl⟩ := Action.ok_inj (ran'.symm.trans ran)
      exact ⟨bare, fun m below => Nat.lt_of_lt_of_le (fresh.new m below).2 ended⟩
    have answers := answers_of_known fun name => (table name).2
    refine (c₃.replace_ends answers expr (Nat.le_refl _)).mono fun joint _ made => ?_
    refine Node.coincides_of_bare_eq ?_
    rw [made.1, Node.substitute_congr rfl fun name => (table name).1, whole]

/-- The call `x(k = x, a)` with a variable as its callee. -/
def calledVariable : Expr :=
  .call 0 (.symbol 1 "x") [(some "k", .symbol 2 "x"), (none, .symbol 3 "a")]

/-- Puts `x(y)` in the place of `x` and `1` in the place of every other variable. -/
def firstAnswers (name : String) : Expr :=
  if name = "x" then .call 4 (.symbol 5 "x") [(none, .symbol 6 "y")] else .atomic 7 (.int 1)

/-- Puts `x` in the place of `y` and `2` in the place of every other variable. -/
def secondAnswers (name : String) : Expr :=
  if name = "y" then .symbol 8 "x" else .atomic 9 (.int 2)

/-- The table of what the second pass makes of the first answers, with its own nodes. -/
def jointAnswers (name : String) : Expr :=
  if name = "x" then .call 13 (.symbol 12 "x") [(none, .symbol 11 "x")] else .atomic 10 (.int 1)

/-- The callees stay, also the one that the first pass brings in. -/
theorem substitutions_compose_calledVariable :
    let s : Store Unit := { Store.initial () with tables := Array.replicate 10 [] }
    let c : Circumstances := {}
    (∀ name, s.Knows (firstAnswers name)) ∧ (∀ name, s.Knows (secondAnswers name)) ∧
    (c.put firstAnswers calledVariable).Ends s fun once s₁ =>
      (c.put secondAnswers once).Ends s₁ fun twice s₂ =>
        (c.replace (fun name => c.put secondAnswers (firstAnswers name)) calledVariable).Ends s₂
          (fun joint _ => joint.Coincides twice) ∧
        (c.put jointAnswers calledVariable).Ends
          { Store.initial () with tables := Array.replicate 20 [] }
          (fun joint _ => joint.Coincides twice) := by
  intro s c
  have known {node : Expr} (bounded : ∀ tag ∈ node.nodes.map Node.tag, tag < 10) : s.Knows node :=
    fun m below => bounded m.tag (List.mem_map_of_mem below)
  have known₁ (name : String) : s.Knows (firstAnswers name) := by
    rw [firstAnswers]
    split
    · exact known (by decide)
    · exact known (by decide)
  have known₂ (name : String) : s.Knows (secondAnswers name) := by
    rw [secondAnswers]
    split
    · exact known (by decide)
    · exact known (by decide)
  have made (name : String) : ∃ before after : Store Unit,
      s.tables.size ≤ before.tables.size ∧
      (c.put secondAnswers (firstAnswers name)).run before = (.ok (jointAnswers name), after) ∧
      after.tables.size ≤ 20 := by
    by_cases asked : name = "x"
    · subst asked
      exact ⟨s, _, Nat.le_refl _, rfl, by decide⟩
    · simp only [firstAnswers, jointAnswers, asked, ↓reduceIte]
      exact ⟨s, _, Nat.le_refl _, rfl, by decide⟩
  refine ⟨known₁, known₂, ?_⟩
  refine (substitutions_compose firstAnswers secondAnswers c c c c calledVariable s known₁
    known₂).mono ?_
  rintro once s₁ ⟨-, composed⟩
  refine composed.mono fun twice s₂ joint => ⟨joint.1, joint.2 jointAnswers _ made⟩

end TreePass
