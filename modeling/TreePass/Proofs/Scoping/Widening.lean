import TreePass.Proofs.Scoping.Structure

/-!
Policies in order. A wider policy finds every binding that a narrower one finds: it takes more calls
for assignments, looks deeper into their targets and into more calls. Which calls are function
literals is the same under both, so every position stands in one stack of functions, and under the
wider policy at least as much is assigned and bound there.
-/

set_option autoImplicit false
set_option relaxedAutoImplicit false

namespace TreePass

private theorem Node.isCallTo_mono {names more : List String} (subset : names ⊆ more) {node : Expr}
    (called : node.isCallTo names = true) : node.isCallTo more = true := by
  unfold isCallTo at called ⊢
  split at called
  · rename_i name _
    exact List.contains_iff_mem.mpr (subset (List.contains_iff_mem.mp called))
  · cases called

namespace Policy

/-- One policy finds at least the bindings that another one finds, among the same functions. -/
structure Widens (wide narrow : Policy) : Prop where
  functionForm : wide.functionForm = narrow.functionForm
  loopForms : wide.loopForms = narrow.loopForms
  assignmentForms : narrow.assignmentForms ⊆ wide.assignmentForms
  nseFunctions : wide.nseFunctions ⊆ narrow.nseFunctions
  countReplacementTargets :
    narrow.countReplacementTargets = true → wide.countReplacementTargets = true

section

variable {policy other : Policy} (same : policy.functionForm = other.functionForm)

include same

private theorem literalParts?_congr (node : Expr) :
    policy.literalParts? node = other.literalParts? node := by
  unfold literalParts?
  rw [same]

private theorem pushLiteral_congr (stack : List Literal) (node : Expr) :
    policy.pushLiteral stack node = other.pushLiteral stack node := by
  rw [pushLiteral, pushLiteral, literalParts?_congr same]

private theorem partCount_congr (node : Expr) : policy.partCount node = other.partCount node := by
  rw [partCount, partCount, literalParts?_congr same]

omit same in
private theorem standingArgs_congr {args : List (Option String × Expr)}
    (each : ∀ a ∈ args, ∀ stack, policy.standing stack a.2 = other.standing stack a.2)
    (stack inner : List Literal) (parts : Nat) :
    policy.standingArgs stack inner parts args = other.standingArgs stack inner parts args := by
  induction args generalizing parts with
  | nil => cases parts <;> rfl
  | cons a rest ih =>
    have first := each a List.mem_cons_self
    have later := ih fun b h => each b (List.mem_cons_of_mem _ h)
    obtain ⟨name, a⟩ := a
    cases parts with
    | zero => rw [standingArgs, standingArgs, first stack, later 0]
    | succ parts => rw [standingArgs, standingArgs, first inner, later parts]

omit same in
private theorem standingParams_congr {params : List (String × Option Expr)} (stack : List Literal)
    (each : ∀ p ∈ params, ∀ d ∈ p.2, policy.standing stack d = other.standing stack d) :
    policy.standingParams stack params = other.standingParams stack params := by
  induction params with
  | nil => rfl
  | cons p rest ih =>
    have later := ih fun q h => each q (List.mem_cons_of_mem _ h)
    obtain ⟨name, d | d⟩ := p
    · exact later
    · rw [standingParams, standingParams, each (name, some d) List.mem_cons_self d rfl, later]

/-- Policies with one form for function literals see every position in the same stack. -/
theorem standing_congr (stack : List Literal) (node : Expr) :
    policy.standing stack node = other.standing stack node := by
  induction node using Node.induction generalizing stack with
  | atomic | symbol | primitive => rfl
  | pairlist tag params ih =>
    rw [standing, standing, standingParams_congr stack fun p h d hd => ih p h d hd stack]
  | call tag callee args ihc iha =>
    rw [standing, standing, ihc, pushLiteral_congr same, partCount_congr same,
      standingArgs_congr iha]

theorem placement_congr (fn : Function) : policy.placement fn = other.placement fn := by
  rw [placement, placement, standing_congr same, standing_congr same]

end

private theorem innermost_of_symbolName? {node : Expr} {name : String}
    (found : node.symbolName? = some name) : innermost node = node := by
  cases node with
  | symbol => rfl
  | atomic | primitive | pairlist | call => cases found

namespace Widens

variable {wide narrow : Policy} (widens : wide.Widens narrow)

include widens

theorem boundName? {node : Expr} {name : String} (bound : narrow.boundName? node = some name) :
    wide.boundName? node = some name := by
  unfold Policy.boundName? at bound ⊢
  split at bound
  · rename_i tag callee field target rest
    rw [widens.loopForms]
    split_ifs at bound with loop assigns counted
    · rw [if_pos loop]
      exact bound
    · -- Both policies look for the variable whose part is assigned.
      rw [if_neg loop, if_pos (Node.isCallTo_mono widens.assignmentForms assigns),
        if_pos (widens.countReplacementTargets counted)]
      exact bound
    · -- The target is a variable, so there is nothing further in for the wider policy to find.
      rw [if_neg loop, if_pos (Node.isCallTo_mono widens.assignmentForms assigns),
        innermost_of_symbolName? bound, ite_self]
      exact bound
  · cases bound

theorem isOpaque {node : Expr} (clear : narrow.isOpaque node = false) :
    wide.isOpaque node = false := by
  rw [← Bool.not_eq_true] at clear ⊢
  intro hidden
  refine clear (Node.isCallTo_mono ?_ hidden)
  rw [widens.functionForm]
  exact List.cons_subset_cons _ widens.nseFunctions

theorem reaches {root c : Expr} (reached : narrow.Reaches root c) : wide.Reaches root c := by
  induction reached with
  | here clear => exact .here (widens.isOpaque clear)
  | arg clear member _ ih => exact .arg (widens.isOpaque clear) member ih
  | default member given _ ih => exact .default member given ih

theorem assigns {literal : Literal} {name : String} (assigned : literal.Assigns narrow name) :
    literal.Assigns wide name := by
  obtain ⟨c, reached, bound⟩ := assigned
  refine ⟨c, ?_, widens.boundName? bound⟩
  rcases reached with ⟨params, given, reached⟩ | reached
  · exact Or.inl ⟨params, given, widens.reaches reached⟩
  · exact Or.inr (widens.reaches reached)

theorem assignedBy (stack : List Literal) : narrow.assignedBy stack ⊆ wide.assignedBy stack := by
  intro name member
  cases stack with
  | nil => exact member
  | cons literal outer =>
    exact wide.mem_assignedBy.mpr (widens.assigns (narrow.mem_assignedBy.mp member))

theorem boundBy (stack : List Literal) : narrow.boundBy stack ⊆ wide.boundBy stack := by
  intro name member
  obtain ⟨literal, placed, binds⟩ := narrow.mem_boundBy.mp member
  exact wide.mem_boundBy.mpr ⟨literal, placed, binds.imp_left widens.assigns⟩

end Widens

/-- The names of one scope are among the names of another. -/
structure Contains (more less : NameSet × NameSet) : Prop where
  assigned : less.1 ⊆ more.1
  bound : less.2 ⊆ more.2

namespace Widens

variable {wide narrow : Policy} (widens : wide.Widens narrow)

include widens

theorem setsOf (stack : List Literal) : Contains (wide.setsOf stack) (narrow.setsOf stack) :=
  ⟨widens.assignedBy stack, widens.boundBy stack⟩

theorem bound_subset {stack stack' : List Literal}
    (same : stack.map Literal.bare = stack'.map Literal.bare) {scope scope' : Scope}
    (fits : scope.Fits narrow stack) (fits' : scope'.Fits wide stack') :
    scope.bound ⊆ scope'.bound := by
  rw [fits.bound, fits'.bound, ← narrow.boundBy_bare stack, same, narrow.boundBy_bare]
  exact widens.boundBy stack'

theorem stampsOf (fn : Function) :
    List.Forall₂ Contains (wide.stampsOf fn) (narrow.stampsOf fn) := by
  rw [Policy.stampsOf, Policy.stampsOf, placement_congr widens.functionForm,
    List.forall₂_map_left_iff, List.forall₂_map_right_iff, List.forall₂_same]
  exact fun place _ => widens.setsOf place.2

end Widens

end Policy

end TreePass
