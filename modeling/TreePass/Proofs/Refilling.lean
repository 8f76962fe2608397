import TreePass.Node.Build
import TreePass.Proofs.Positions
import TreePass.Proofs.Running

/-!
Refilling nodes. A node is put together from its trunk, which is what it holds beside its children,
and from the children. Refilling a node with other children is the write of a lens and the children
are its read: what was put in is found, putting back what was found changes nothing, and of two
changes the last one counts. Rebuilding a node is refilling it under a new tag.
-/

set_option autoImplicit false
set_option relaxedAutoImplicit false

namespace TreePass

namespace Node

section Lens

variable {α : Type}

/-- What a node holds beside its children: the parameters of a list with whether they have a
default, the names of the arguments of a call. -/
inductive Trunk (α : Type)
  | atomic (value : α)
  | symbol (name : String)
  | primitive (ref : Identity)
  | pairlist (slots : List (String × Bool))
  | call (names : List (Option String))

def slots (params : List (String × Option (Node α))) : List (String × Bool) :=
  params.map fun param => (param.1, param.2.isSome)

/-- What a node holds beside its children. -/
def trunk : Node α → Trunk α
  | atomic _ value => .atomic value
  | symbol _ name => .symbol name
  | primitive _ ref => .primitive ref
  | pairlist _ params => .pairlist (slots params)
  | call _ _ args => .call (args.map (·.1))

theorem kind_eq_of_trunk_eq {node other : Node α} (same : node.trunk = other.trunk) :
    node.kind = other.kind := by
  cases node <;> cases other <;> first | rfl | cases same

private theorem slots_bareParams (params : List (String × Option (Node α))) :
    slots (bareParams params) = slots params := by
  induction params with
  | nil => rfl
  | cons param rest ih =>
    simp only [slots] at ih ⊢
    obtain ⟨name, d | d⟩ := param
    · rw [bareParams, List.map_cons, List.map_cons, ih]
    · rw [bareParams, List.map_cons, List.map_cons, ih]
      rfl

private theorem defaults_bareParams (params : List (String × Option (Node α))) :
    defaults (bareParams params) = (defaults params).map bare := by
  induction params with
  | nil => rfl
  | cons param rest ih =>
    obtain ⟨name, d | d⟩ := param
    · exact ih
    · exact congrArg (d.bare :: ·) ih

private theorem bareArgs_eq_map (args : List (Option String × Node α)) :
    bareArgs args = args.map fun arg => (arg.1, arg.2.bare) := by
  induction args with
  | nil => rfl
  | cons arg rest ih => rw [bareArgs, ih, List.map_cons]

theorem trunk_bare (node : Node α) : node.bare.trunk = node.trunk := by
  cases node with
  | atomic | symbol | primitive => rfl
  | pairlist tag params => rw [bare, trunk, trunk, slots_bareParams]
  | call tag callee args => rw [bare, trunk, trunk, bareArgs_eq_map, List.map_map]; rfl

theorem children_bare (node : Node α) : node.bare.children = node.children.map bare := by
  cases node with
  | atomic | symbol | primitive => rfl
  | pairlist tag params => exact defaults_bareParams params
  | call tag callee args =>
    rw [bare, children, children, bareArgs_eq_map, List.map_cons, List.map_map, List.map_map]
    rfl

theorem trunk_eq_of_bare_eq {node other : Node α} (same : node.bare = other.bare) :
    node.trunk = other.trunk := by
  rw [← trunk_bare node, same, trunk_bare]

private theorem bareParams_congr {params others : List (String × Option (Node α))}
    (named : slots params = slots others)
    (same : (defaults params).map bare = (defaults others).map bare) :
    bareParams params = bareParams others := by
  induction params generalizing others with
  | nil =>
    obtain rfl : others = [] := List.map_eq_nil_iff.mp named.symm
    rfl
  | cons param rest ih =>
    cases others with
    | nil => cases named
    | cons other more =>
      obtain ⟨first, later⟩ := List.cons.inj named
      obtain ⟨name, d | d⟩ := param <;> obtain ⟨otherName, e | e⟩ := other
      · obtain rfl : name = otherName := congrArg Prod.fst first
        rw [bareParams, bareParams, ih later same]
      · cases congrArg Prod.snd first
      · cases congrArg Prod.snd first
      · obtain rfl : name = otherName := congrArg Prod.fst first
        obtain ⟨here, below⟩ := List.cons.inj same
        rw [bareParams, bareParams, here, ih later below]

private theorem bareArgs_congr {args others : List (Option String × Node α)}
    (named : args.map (·.1) = others.map (·.1))
    (same : (args.map (·.2)).map bare = (others.map (·.2)).map bare) :
    bareArgs args = bareArgs others := by
  induction args generalizing others with
  | nil =>
    obtain rfl : others = [] := List.map_eq_nil_iff.mp named.symm
    rfl
  | cons arg rest ih =>
    cases others with
    | nil => cases named
    | cons other more =>
      obtain ⟨first, later⟩ := List.cons.inj named
      obtain ⟨here, below⟩ := List.cons.inj same
      obtain ⟨name, a⟩ := arg
      obtain ⟨otherName, b⟩ := other
      obtain rfl : name = otherName := first
      have kept : a.bare = b.bare := here
      rw [bareArgs, bareArgs, kept, ih later below]

theorem bare_eq_of_trunk_eq {node other : Node α} (trunk : node.trunk = other.trunk)
    (children : node.children.map bare = other.children.map bare) : node.bare = other.bare := by
  cases node <;> cases other <;> try cases trunk
  case atomic.atomic.refl | symbol.symbol.refl | primitive.primitive.refl => rfl
  case pairlist.pairlist =>
    rw [bare, bare, bareParams_congr (Trunk.pairlist.inj trunk) children]
  case call.call =>
    obtain ⟨callee, args⟩ := List.cons.inj children
    rw [bare, bare, callee, bareArgs_congr (Trunk.call.inj trunk) args]

private theorem slots_refillParams (params : List (String × Option (Node α)))
    (fresh : List (Node α)) : slots (refillParams params fresh) = slots params := by
  induction params generalizing fresh with
  | nil => rfl
  | cons param rest ih =>
    simp only [slots] at ih ⊢
    obtain ⟨name, d | d⟩ := param
    · rw [refillParams, List.map_cons, List.map_cons, ih]
    · cases fresh with
      | nil => rw [refillParams, List.map_cons, List.map_cons, ih]
      | cons next fresh => rw [refillParams, List.map_cons, List.map_cons, ih]; rfl

private theorem defaults_refillParams {params : List (String × Option (Node α))}
    {fresh : List (Node α)} (fits : fresh.length = (defaults params).length) :
    defaults (refillParams params fresh) = fresh := by
  induction params generalizing fresh with
  | nil => exact (List.length_eq_zero_iff.mp fits).symm
  | cons param rest ih =>
    obtain ⟨name, d | d⟩ := param
    · exact ih fits
    · cases fresh with
      | nil => cases fits
      | cons next fresh => exact congrArg (next :: ·) (ih (Nat.succ.inj fits))

private theorem refillParams_defaults (params : List (String × Option (Node α))) :
    refillParams params (defaults params) = params := by
  induction params with
  | nil => rfl
  | cons param rest ih =>
    obtain ⟨name, d | d⟩ := param
    · exact congrArg ((name, none) :: ·) ih
    · exact congrArg ((name, some d) :: ·) ih

private theorem refillParams_refillParams {params : List (String × Option (Node α))}
    {first second : List (Node α)} (fits : first.length = (defaults params).length)
    (fits' : second.length = (defaults params).length) :
    refillParams (refillParams params first) second = refillParams params second := by
  induction params generalizing first second with
  | nil => rfl
  | cons param rest ih =>
    obtain ⟨name, d | d⟩ := param
    · exact congrArg ((name, none) :: ·) (ih fits fits')
    · cases first with
      | nil => cases fits
      | cons next first =>
        cases second with
        | nil => cases fits'
        | cons next' second =>
          exact congrArg ((name, some next') :: ·) (ih (Nat.succ.inj fits) (Nat.succ.inj fits'))

private theorem names_refillArgs {args : List (Option String × Node α)} {fresh : List (Node α)}
    (fits : fresh.length = args.length) : (refillArgs args fresh).map (·.1) = args.map (·.1) :=
  List.map_fst_zip (by simp [fits])

private theorem values_refillArgs {args : List (Option String × Node α)} {fresh : List (Node α)}
    (fits : fresh.length = args.length) : (refillArgs args fresh).map (·.2) = fresh :=
  List.map_snd_zip (by simp [fits])

private theorem refillArgs_values (args : List (Option String × Node α)) :
    refillArgs args (args.map (·.2)) = args :=
  (List.zip_of_prod rfl rfl).symm

def refill (tag : Tag) : Node α → List (Node α) → Node α
  | .atomic _ value, _ => .atomic tag value
  | .symbol _ name, _ => .symbol tag name
  | .primitive _ ref, _ => .primitive tag ref
  | .pairlist _ params, fresh => .pairlist tag (refillParams params fresh)
  | .call _ _ args, callee :: rest => .call tag callee (refillArgs args rest)
  | .call _ callee args, [] => .call tag callee args

variable {node : Node α} {fresh : List (Node α)}

@[simp] theorem tag_refill (tag : Tag) (node : Node α) (fresh : List (Node α)) :
    (refill tag node fresh).tag = tag := by
  cases node <;> first | rfl | (cases fresh <;> rfl)

theorem trunk_refill (tag : Tag) (fits : fresh.length = node.children.length) :
    (refill tag node fresh).trunk = node.trunk := by
  cases node with
  | atomic | symbol | primitive => rfl
  | pairlist old params => rw [refill, trunk, trunk, slots_refillParams]
  | call old callee args =>
    cases fresh with
    | nil => rfl
    | cons first rest =>
      have fits' : rest.length = args.length := by simpa [children] using fits
      rw [refill, trunk, trunk, names_refillArgs fits']

theorem children_refill (tag : Tag) (fits : fresh.length = node.children.length) :
    (refill tag node fresh).children = fresh := by
  cases node with
  | atomic | symbol | primitive => exact (List.length_eq_zero_iff.mp fits).symm
  | pairlist old params => exact defaults_refillParams fits
  | call old callee args =>
    cases fresh with
    | nil => cases fits
    | cons first rest =>
      have fits' : rest.length = args.length := by simpa [children] using fits
      rw [refill, children, values_refillArgs fits']

theorem nodes_refill (tag : Tag) (fits : fresh.length = node.children.length) :
    (refill tag node fresh).nodes = refill tag node fresh :: fresh.flatMap nodes := by
  rw [nodes_eq, children_refill tag fits]

theorem bare_refill_of_map_bare_eq (tag : Tag)
    (same : fresh.map bare = node.children.map bare) :
    (refill tag node fresh).bare = node.bare := by
  have fits : fresh.length = node.children.length := by simpa using congrArg List.length same
  exact bare_eq_of_trunk_eq (trunk_refill tag fits) (by rw [children_refill tag fits, same])

theorem refill_children (node : Node α) : refill node.tag node node.children = node := by
  cases node with
  | atomic | symbol | primitive => rfl
  | pairlist tag params => rw [children, refill, refillParams_defaults]; rfl
  | call tag callee args => rw [children, refill, refillArgs_values]; rfl

theorem refill_refill {first second : List (Node α)} (tag other : Tag)
    (fits : first.length = node.children.length) (fits' : second.length = node.children.length) :
    refill tag (refill other node first) second = refill tag node second := by
  cases node with
  | atomic | symbol | primitive => rfl
  | pairlist old params => rw [refill, refill, refill, refillParams_refillParams fits fits']
  | call old callee args =>
    cases first with
    | nil => cases fits
    | cons callee₁ rest =>
      cases second with
      | nil => cases fits'
      | cons callee₂ rest' =>
        have length : rest.length = args.length := by simpa [children] using fits
        rw [refill, refill, refill, refillArgs, names_refillArgs length, refillArgs]

theorem bare_refill (tag other : Tag) (node : Node α) (fresh : List (Node α)) :
    (refill tag node fresh).bare = (refill other node fresh).bare := by
  cases node <;> first | rfl | (cases fresh <;> rfl)

end Lens

variable {σ : Type}

/-- The complaint about a number of children that does not fit. -/
def arityFault (node : Expr) (given : Nat) : Fault :=
  match node with
  | .pairlist _ params => .defaultCount (defaults params).length given
  | .call _ _ args => .childCount (args.length + 1) given
  | .atomic _ _ | .symbol _ _ | .primitive _ _ => .leafChildren node.kind

theorem withChildren_eq (node : Expr) (fresh : List Expr) :
    (node.withChildren fresh : Action σ Expr) =
      if fresh.length = node.children.length then do return refill (← copyTag node.tag) node fresh
      else Action.fail (node.arityFault fresh.length) := by
  cases node with
  | atomic | symbol | primitive => cases fresh <;> rfl
  | pairlist tag params => rfl
  | call tag callee args =>
    cases fresh with
    | nil => rfl
    | cons first rest =>
      have room : (first :: rest).length = (call tag callee args).children.length ↔
          rest.length = args.length := by simp [children]
      by_cases fits : rest.length = args.length
      · rw [if_pos (room.mpr fits), withChildren, if_pos fits]
        rfl
      · rw [if_neg (mt room.mp fits), withChildren, if_neg fits]
        rfl

theorem run_withChildren_of_fits {node : Expr} {fresh : List Expr}
    (fits : fresh.length = node.children.length) (s : Store σ) :
    (node.withChildren fresh).run s =
      (.ok (refill s.tables.size node fresh), s.push (s.table node.tag)) := by
  rw [withChildren_eq, if_pos fits]
  rfl

theorem run_withChildren_of_unfit {node : Expr} {fresh : List Expr}
    (unfit : fresh.length ≠ node.children.length) (s : Store σ) :
    (node.withChildren fresh).run s = (.error (node.arityFault fresh.length), s) := by
  rw [withChildren_eq, if_neg unfit]
  rfl

theorem eq_refill_of_withChildren {node made : Expr} {fresh : List Expr} {s s' : Store σ}
    (ran : (node.withChildren fresh).run s = (.ok made, s')) :
    fresh.length = node.children.length ∧ made = refill s.tables.size node fresh ∧
      s' = s.push (s.table node.tag) := by
  by_cases fits : fresh.length = node.children.length
  · rw [run_withChildren_of_fits fits] at ran
    obtain ⟨rfl, rfl⟩ := Action.ok_inj ran
    exact ⟨fits, rfl, rfl⟩
  · rw [run_withChildren_of_unfit fits] at ran
    cases ran

end Node

end TreePass
