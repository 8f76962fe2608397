import TreePass.Value.Equality
import TreePass.Proofs.Refilling
import Mathlib.Data.List.Forall2

/-!
Laws of comparing. A value equals itself unless it is a NaN, and a collection does even with NaNs in
it, since items are compared by identity first. Two nodes are equal if what they hold beside their
children is the same and their children are one and the same or equal in turn, so a tree equals
every tree of its structure as long as its literals equal themselves.
-/

set_option autoImplicit false
set_option relaxedAutoImplicit false

namespace TreePass

mutual

def Value.Keyed : Value → Prop
  | .list items | .tuple items => KeyedItems items
  | .map entries => (entries.map Prod.fst).Nodup ∧ KeyedEntries entries
  | _ => True

def KeyedItems : List Value → Prop
  | [] => True
  | item :: rest => Value.Keyed item ∧ KeyedItems rest

def KeyedEntries : List (Option String × Value) → Prop
  | [] => True
  | (_, value) :: rest => Value.Keyed value ∧ KeyedEntries rest

end

mutual

/-- Values that equal themselves: all but NaNs, and nodes that hold one. -/
def Value.Steady : Value → Prop
  | .float x => x.isNan = false
  | .complex re im => re.isNan = false ∧ im.isNan = false
  | .node node => Node.Steady node
  | value => value.Keyed

/-- Nodes that equal themselves: children are compared by identity, so only the literal of the node
itself matters. -/
def Node.Steady : Node Value → Prop
  | .atomic _ value => Value.Steady value
  | _ => True

end

theorem Number.Binary64.equal_self {x : Number.Binary64} (number : x.isNan = false) :
    x.equal x = true := by
  cases x with
  | nan => cases number
  | infinite => simp [equal]
  | finite => simp [equal]

private theorem Node.same_self (node : Expr) : node.same node = true := beq_self_eq_true node.tag

private theorem equalParams_self (params : List (String × Option Expr)) :
    equalParams params params = true := by
  induction params with
  | nil => simp [equalParams]
  | cons param rest ih =>
    obtain ⟨name, d | d⟩ := param
    · simp [equalParams, ih]
    · simp [equalParams, ih, Node.same_self]

private theorem equalArgs_self (args : List (Option String × Expr)) : equalArgs args args =
    true := by
  induction args with
  | nil => simp [equalArgs]
  | cons arg rest ih =>
    obtain ⟨name, a⟩ := arg
    simp [equalArgs, ih, Node.same_self]

private theorem Entries.lookup_of_mem {entries : Entries} (once : (entries.map Prod.fst).Nodup)
    {entry : Option String × Value} (there : entry ∈ entries) :
    entries.lookup entry.1 = some entry.2 := by
  induction entries with
  | nil => cases there
  | cons first rest ih =>
    obtain ⟨absent, later⟩ := List.nodup_cons.mp once
    rcases List.mem_cons.mp there with rfl | there
    · rw [List.lookup_cons_self]
    · have different : (entry.1 == first.1) = false := by
        rw [beq_eq_false_iff_ne]
        exact fun same => absent (same ▸ List.mem_map_of_mem there)
      rw [List.lookup_cons, different]
      exact ih later there

mutual

private theorem Value.alike_self : ∀ {value : Value}, value.Keyed →
    (value.same value || value.equal value) = true
  | .float _, _ | .complex _ _, _ => by simp [Value.same]
  | .node node, _ => by simp [Value.same, node.same_self]
  | .list _, keyed | .tuple _, keyed => by
    simp only [Value.Keyed] at keyed
    rw [Value.equal, equalItems_self keyed, Bool.or_true]
  | .map entries, keyed => by
    simp only [Value.Keyed] at keyed
    have each : equalEntries entries entries = true :=
      equalEntries_of_lookup keyed.2 fun entry there => Entries.lookup_of_mem keyed.1 there
    simp [Value.equal, each]
  | .none, _ | .bool _, _ | .int _, _ | .str _, _ | .ragged _, _ | .bytes _, _ | .ellipsis, _
  | .scope _, _ | .identity _, _ => by
    simp [Value.equal, Value.equalPlain, Value.numeric?, Value.Numeric.equal, Scope.equal]

private theorem equalItems_self : ∀ {items : List Value}, KeyedItems items →
    equalItems items items = true
  | [], _ => by simp [equalItems]
  | _ :: _, keyed => by
    simp only [KeyedItems] at keyed
    rw [equalItems, Value.alike_self keyed.1, equalItems_self keyed.2]
    rfl

private theorem equalEntries_of_lookup {whole : Entries} : ∀ {entries : Entries},
    KeyedEntries entries →
    (∀ entry ∈ entries, whole.lookup entry.1 = some entry.2) → equalEntries entries whole = true
  | [], _, _ => by simp [equalEntries]
  | (key, value) :: rest, keyed, found => by
    simp only [KeyedEntries] at keyed
    have here : whole.lookup key = some value := found (key, value) List.mem_cons_self
    have later := equalEntries_of_lookup keyed.2 fun entry there =>
      found entry (List.mem_cons_of_mem _ there)
    simp only [equalEntries, here, Value.alike_self keyed.1, later, Bool.and_self]

end

mutual

theorem Value.equal_self : ∀ {value : Value}, value.Steady → value.equal value = true
  | .float x, steady => by
    simp only [Value.Steady] at steady
    simpa [Value.equal, Value.equalPlain, Value.numeric?, Value.Numeric.equal] using
      Number.Binary64.equal_self steady
  | .complex re im, steady => by
    simp only [Value.Steady] at steady
    have parts : re.equal re = true ∧ im.equal im = true :=
      ⟨Number.Binary64.equal_self steady.1, Number.Binary64.equal_self steady.2⟩
    simpa [Value.equal, Value.equalPlain, Value.numeric?, Value.Numeric.equal] using parts
  | .node _, steady => by
    simp only [Value.Steady] at steady
    simpa only [Value.equal] using Node.equal_self steady
  | .none, steady | .bool _, steady | .int _, steady | .str _, steady | .ragged _, steady
  | .bytes _, steady | .ellipsis, steady | .scope _, steady | .identity _, steady
  | .list _, steady | .tuple _, steady | .map _, steady => by
    -- None of these is looked at as an object, so being alike means being equal.
    simp only [Value.Steady] at steady
    simpa only [Value.same, Bool.false_or] using Value.alike_self steady

theorem Node.equal_self : ∀ {node : Expr}, node.Steady → Node.equal node node = true
  | .atomic _ _, steady => by
    simp only [Node.Steady] at steady
    simp [Node.equal, Value.equal_self steady]
  | .symbol _ _, _ | .primitive _ _, _ => by simp [Node.equal]
  | .pairlist _ params, _ => by simp [Node.equal, equalParams_self]
  | .call _ callee args, _ => by simp [Node.equal, equalArgs_self, Node.same_self]

end

namespace Node

def Alike (first second : Expr) : Prop := first.same second = true ∨ first.equal second = true

theorem Alike.self (node : Expr) : Alike node node := Or.inl node.same_self

private theorem equalParams_of_alike {params others : List (String × Option Expr)}
    (named : slots params = slots others)
    (alike : List.Forall₂ Alike (defaults params) (defaults others)) :
    equalParams params others = true := by
  induction params generalizing others with
  | nil =>
    obtain rfl : others = [] := List.map_eq_nil_iff.mp named.symm
    simp [equalParams]
  | cons param rest ih =>
    cases others with
    | nil => cases named
    | cons other more =>
      obtain ⟨first, later⟩ := List.cons.inj named
      obtain ⟨name, d | d⟩ := param <;> obtain ⟨otherName, e | e⟩ := other
      · obtain rfl : name = otherName := congrArg Prod.fst first
        simpa [equalParams] using ih later alike
      · cases congrArg Prod.snd first
      · cases congrArg Prod.snd first
      · obtain rfl : name = otherName := congrArg Prod.fst first
        obtain ⟨here, below⟩ := List.forall₂_cons.mp alike
        have both := ih later below
        simpa [equalParams, both, Alike] using here

private theorem equalArgs_of_alike {args others : List (Option String × Expr)}
    (named : args.map (·.1) = others.map (·.1))
    (alike : List.Forall₂ Alike (args.map (·.2)) (others.map (·.2))) :
    equalArgs args others = true := by
  induction args generalizing others with
  | nil =>
    obtain rfl : others = [] := List.map_eq_nil_iff.mp named.symm
    simp [equalArgs]
  | cons arg rest ih =>
    cases others with
    | nil => cases named
    | cons other more =>
      obtain ⟨first, later⟩ := List.cons.inj named
      obtain ⟨here, below⟩ := List.forall₂_cons.mp alike
      obtain ⟨name, a⟩ := arg
      obtain ⟨otherName, b⟩ := other
      obtain rfl : name = otherName := first
      have both := ih later below
      simpa [equalArgs, both, Alike] using here

theorem equal_of_alike {node other : Expr} (trunk : node.trunk = other.trunk)
    (children : List.Forall₂ Alike node.children other.children) (steady : node.Steady) :
    node.equal other = true := by
  cases node <;> cases other <;> try cases trunk
  case atomic.atomic.refl =>
    simp only [Node.Steady] at steady
    simp [Node.equal, Value.equal_self steady]
  case symbol.symbol.refl | primitive.primitive.refl => simp [Node.equal]
  case pairlist.pairlist =>
    have named := Trunk.pairlist.inj trunk
    simpa [Node.equal] using equalParams_of_alike named children
  case call.call =>
    have named := Trunk.call.inj trunk
    obtain ⟨callee, args⟩ := List.forall₂_cons.mp children
    simpa [Node.equal, equalArgs_of_alike named args, Alike] using callee

private theorem alike_of_map_bare_eq {nodes others : List Expr}
    (same : nodes.map bare = others.map bare)
    (each : ∀ n ∈ nodes, ∀ other : Expr, n.bare = other.bare → Alike n other) :
    List.Forall₂ Alike nodes others := by
  induction nodes generalizing others with
  | nil =>
    obtain rfl : others = [] := List.map_eq_nil_iff.mp same.symm
    exact .nil
  | cons n rest ih =>
    cases others with
    | nil => cases same
    | cons other more =>
      obtain ⟨first, later⟩ := List.cons.inj same
      have below := ih later fun m there => each m (List.mem_cons_of_mem _ there)
      exact .cons (each n List.mem_cons_self other first) below

/-- A tree equals every tree of its structure if its literals equal themselves. The induction
follows the children, which are equal in turn. -/
theorem equal_of_bare_eq {node other : Expr} (same : node.bare = other.bare)
    (steady : ∀ n ∈ node.nodes, n.Steady) : node.equal other = true := by
  induction node using induction_children generalizing other with
  | step node ih =>
    have trunk : node.trunk = other.trunk := trunk_eq_of_bare_eq same
    have children : node.children.map bare = other.children.map bare := by
      rw [← children_bare node, same, children_bare]
    have alike : List.Forall₂ Alike node.children other.children := by
      refine alike_of_map_bare_eq children fun c child d kept => ?_
      have settled : ∀ n ∈ c.nodes, n.Steady := fun n below =>
        steady n (nodes_of_child child below)
      exact Or.inr (ih c child kept settled)
    exact equal_of_alike trunk alike (steady node node.self_mem_nodes)

theorem steady_iff_of_trunk_eq {node other : Expr} (same : node.trunk = other.trunk) :
    node.Steady ↔ other.Steady := by
  cases node <;> cases other <;> try cases same
  all_goals simp only [Steady]

private theorem steady_of_bare_eq {node other : Expr} (same : node.bare = other.bare)
    (steady : ∀ n ∈ other.nodes, n.Steady) : ∀ n ∈ node.nodes, n.Steady := by
  intro n member
  have listed : n.bare ∈ other.nodes.map bare := by
    rw [← nodes_bare, ← same, nodes_bare]
    exact List.mem_map_of_mem member
  obtain ⟨m, there, kept⟩ := List.mem_map.mp listed
  have trunk : n.trunk = m.trunk := trunk_eq_of_bare_eq kept.symm
  exact (steady_iff_of_trunk_eq trunk).mpr (steady m there)

/-- A tree has the structure of another one, and equals it if the literals equal themselves. -/
def Coincides (node other : Expr) : Prop :=
  node.bare = other.bare ∧ ((∀ n ∈ other.nodes, n.Steady) → node.equal other = true)

theorem coincides_of_bare_eq {node other : Expr} (same : node.bare = other.bare) :
    node.Coincides other :=
  ⟨same, fun steady => equal_of_bare_eq same (steady_of_bare_eq same steady)⟩

end Node

end TreePass
