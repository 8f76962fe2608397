import TreePass.Source.FreeNames
import TreePass.Proofs.Scoping.Reach
import TreePass.Proofs.Source.Steps

/-!
What a function of a source text binds: its parameters, and the variables that a statement of its
own body assigns, however deep the statement stands in conditionals and loops. Each of these names
is a parameter of the function's expression, or is assigned by a call in reach of its body.
-/

set_option autoImplicit false
set_option relaxedAutoImplicit false

namespace TreePass.Source

/-- The variable that a bare target stands for; parentheses around it do not matter. -/
def Term.variable? (term : Term) : Option String :=
  match term.ungroup with
  | .name text => if Term.constants.contains text then none else some text
  | _ => none

def Small.binds : Small → List String
  | .assign targets _ => targets.filterMap Term.variable?
  | .augmented place _ _ => place.variable?.toList
  | .typed place _ (some _) => place.variable?.toList
  | .typed _ _ none => []
  | .expression _ | .returns _ | .pass | .breaks | .continues | .other _ => []

mutual

/-- The variables that a statement binds in the function it belongs to. A definition binds its
name there, and what is inside of it belongs to another function. -/
def Statement.binds : Statement → List String
  | .line smalls => smalls.flatMap Small.binds
  | .conditional _ body rest => Statement.bindsOf body ++ rest.binds
  | .forLoop _ place _ body _ => place.variable?.toList ++ Statement.bindsOf body
  | .whileLoop _ body _ => Statement.bindsOf body
  | .define d => [d.name]
  | .other _ => []

def Statement.bindsOf : List Statement → List String
  | [] => []
  | first :: rest => first.binds ++ Statement.bindsOf rest

/-- The variables that the later branches of a conditional bind. -/
def Alternative.binds : Alternative → List String
  | .nothing => []
  | .otherwise body => Statement.bindsOf body
  | .elseIf _ body rest => Statement.bindsOf body ++ rest.binds

end

/-- A function of a source text. -/
inductive Closure
  | definition (d : Definition)
  | lambda (params : List Param) (body : Term)

namespace Closure

/-- The names that a function binds. The body of a lambda has no statements. -/
def binds : Closure → List String
  | definition (.mk _ _ _ params _ body) => FreeNames.paramNames params ++ Statement.bindsOf body
  | lambda params _ => FreeNames.paramNames params

/-- The parameter list and the body that a function is read as. -/
def read (characters : CharacterNames) : Closure → Reading.Result (Expr × Expr)
  | definition d => Reading.definition characters d
  | lambda params body => do
    let params ← Reading.parameters characters params
    return (.pairlist 0 params, ← Reading.expr characters body)

end Closure

namespace Reading

variable {characters : CharacterNames}

private theorem expr_of_variable {term : Term} {name : String}
    (found : term.variable? = some name) : expr characters term = .ok (symbol name) := by
  unfold Term.variable? at found
  split at found
  · rename_i text ungrouped
    split at found
    · cases found
    · rename_i notConstant
      obtain rfl := Option.some.inj found
      simp only [Term.constants, List.contains_eq_mem, List.mem_cons, List.not_mem_nil, or_false,
        decide_eq_true_eq, not_or] at notConstant
      rw [← expr_ungroup, ungrouped, expr, nameExpr]
      simp [notConstant]
  · cases found

private theorem target_of_variable {term : Term} {name : String} {place : Expr}
    (found : term.variable? = some name) (read : target characters term = .ok place) :
    place = symbol name := by
  unfold target at read
  split at read
  · rw [expr_of_variable found] at read
    exact (Except.ok.inj read).symm
  · rw [expr_of_variable found] at read
    exact (Except.ok.inj read).symm
  · rw [expr_of_variable found] at read
    exact (Except.ok.inj read).symm
  · cases read

private theorem loopTarget_of_variable {term : Term} {name : String} {place : Expr}
    (found : term.variable? = some name) (read : loopTarget term = .ok place) :
    place = symbol name := by
  unfold Term.variable? at found
  unfold loopTarget at read
  split at read
  · rename_i text ungrouped
    simp only [ungrouped] at found
    split at found
    · cases found
    · obtain rfl := Option.some.inj found
      exact (Except.ok.inj read).symm
  · cases read

def assigned (values : List Expr) : List String := values.flatMap ({} : Policy).assignments

private theorem mem_assigned_singleton {value : Expr} {name : String} :
    name ∈ assigned [value] ↔ name ∈ ({} : Policy).assignments value := by
  simp [assigned]

private theorem mem_assigned_append {first second : List Expr} {name : String} :
    name ∈ assigned (first ++ second) ↔ name ∈ assigned first ∨ name ∈ assigned second := by
  simp [assigned]

private theorem mem_assigned_cons {first : Expr} {rest : List Expr} {name : String} :
    name ∈ assigned (first :: rest) ↔
      name ∈ ({} : Policy).assignments first ∨ name ∈ assigned rest := by
  simp [assigned]

private theorem mem_assignments_call {callee name : String} {args : List Expr}
    (clear : ("function" :: ({} : Policy).nseFunctions).contains callee = false) :
    name ∈ ({} : Policy).assignments (call callee args) ↔
      ({} : Policy).boundName? (call callee args) = some name ∨ name ∈ assigned args := by
  have shown : ({} : Policy).isOpaque (call callee args) = false := clear
  unfold call at shown ⊢
  simp [Policy.assignments, shown, Policy.mem_assignmentsOfArgs, assigned]

private theorem assigned_subset_call {callee : String} {args : List Expr}
    (clear : ("function" :: ({} : Policy).nseFunctions).contains callee = false) :
    assigned args ⊆ assigned [call callee args] := by
  intro name member
  rw [mem_assigned_singleton, mem_assignments_call clear]
  exact Or.inr member

private theorem mem_assigned_branches {test : Expr} {body others : List Expr} {name : String}
    (member : name ∈ assigned body ∨ name ∈ assigned others) :
    name ∈ assigned [call "if" (test :: call "\x7b" body :: others)] := by
  refine assigned_subset_call (by decide) ?_
  rw [mem_assigned_cons, mem_assigned_cons]
  refine Or.inr (member.imp_left fun h => ?_)
  exact mem_assigned_singleton.mp (assigned_subset_call (by decide) h)

private theorem mem_assignments_assign (name : String) (value : Expr) :
    name ∈ ({} : Policy).assignments (call "=" [symbol name, value]) := by
  rw [mem_assignments_call (by decide)]
  exact Or.inl rfl

private theorem mem_assignments_for (name : String) (rest : List Expr) :
    name ∈ ({} : Policy).assignments (call "for" (symbol name :: rest)) := by
  rw [mem_assignments_call (by decide)]
  exact Or.inl rfl

private theorem assignments_bind {targets : List Term} {value out : Expr}
    (read : assignments characters targets value = .ok out) :
    targets.filterMap Term.variable? ⊆ ({} : Policy).assignments out := by
  induction targets generalizing out with
  | nil => simp
  | cons first rest ih =>
    simp only [assignments, bind_eq_ok, pure_eq_ok] at read
    obtain ⟨inner, readInner, place, readPlace, rfl⟩ := read
    intro name member
    obtain ⟨term, given, found⟩ := List.mem_filterMap.mp member
    rcases List.mem_cons.mp given with rfl | given
    · obtain rfl := target_of_variable found readPlace
      exact mem_assignments_assign name inner
    · have below := ih readInner (List.mem_filterMap.mpr ⟨term, given, found⟩)
      rw [mem_assignments_call (by decide), mem_assigned_cons, mem_assigned_singleton]
      exact Or.inr (Or.inr below)

private theorem small_binds {statement : Small} {out : Expr}
    (read : small characters statement = .ok out) :
    statement.binds ⊆ ({} : Policy).assignments out := by
  intro name member
  cases statement with
  | assign targets value =>
    simp only [small, bind_eq_ok] at read
    obtain ⟨_, _, chain⟩ := read
    exact assignments_bind chain member
  | augmented place op value =>
    simp only [small, bind_eq_ok, pure_eq_ok] at read
    obtain ⟨_, readPlace, _, _, _, _, rfl⟩ := read
    obtain rfl := target_of_variable (Option.mem_toList.mp member) readPlace
    exact mem_assignments_assign name _
  | typed place hint value =>
    cases value with
    | none => cases member
    | some value =>
      simp only [small, bind_eq_ok, pure_eq_ok] at read
      obtain ⟨_, readPlace, _, _, rfl⟩ := read
      obtain rfl := target_of_variable (Option.mem_toList.mp member) readPlace
      exact mem_assignments_assign name _
  | expression | returns | pass | breaks | continues | other => cases member

private theorem smalls_bind {list : List Small} {out : List Expr}
    (read : smalls characters list = .ok out) : list.flatMap Small.binds ⊆ assigned out := by
  induction list generalizing out with
  | nil => simp
  | cons first rest ih =>
    simp only [smalls, bind_eq_ok, pure_eq_ok] at read
    obtain ⟨value, readFirst, values, readRest, rfl⟩ := read
    intro name member
    rw [List.flatMap_cons, List.mem_append] at member
    rw [mem_assigned_cons]
    exact member.imp (fun h => small_binds readFirst h) fun h => ih readRest h

mutual

private theorem statement_binds {out : List Expr} :
    ∀ s : Statement, statement characters s = .ok out → s.binds ⊆ assigned out
  | .line list, read => by
    rw [statement] at read
    exact smalls_bind read
  | .conditional test body rest, read => by
    simp only [statement, bind_eq_ok, pure_eq_ok] at read
    obtain ⟨_, _, inner, readBody, others, readRest, rfl⟩ := read
    intro name member
    rw [Statement.binds, List.mem_append] at member
    exact mem_assigned_branches (member.imp (fun h => statements_bind body readBody h) fun h =>
      alternative_binds rest readRest h)
  | .forLoop asynchronous place iter body hasElse, read => by
    simp only [statement] at read
    split at read
    · cases read
    · simp only [bind_eq_ok, pure_eq_ok] at read
      obtain ⟨variable_, readPlace, _, _, inner, readBody, rfl⟩ := read
      intro name member
      rw [Statement.binds, List.mem_append] at member
      rcases member with own | below
      · obtain rfl := loopTarget_of_variable (Option.mem_toList.mp own) readPlace
        exact mem_assigned_singleton.mpr (mem_assignments_for name _)
      · refine assigned_subset_call (by decide) ?_
        rw [mem_assigned_cons, mem_assigned_cons]
        refine Or.inr (Or.inr (assigned_subset_call (by decide) ?_))
        exact statements_bind body readBody below
  | .whileLoop test body hasElse, read => by
    simp only [statement] at read
    split at read
    · cases read
    · simp only [bind_eq_ok, pure_eq_ok] at read
      obtain ⟨_, _, inner, readBody, rfl⟩ := read
      intro name member
      refine assigned_subset_call (by decide) ?_
      rw [mem_assigned_cons]
      exact Or.inr (assigned_subset_call (by decide) (statements_bind body readBody member))
  | .define d, read => by
    simp only [statement, bind_eq_ok, pure_eq_ok] at read
    obtain ⟨parts, _, rfl⟩ := read
    -- What the definition binds inside itself does not count here, only its name does.
    intro name member
    obtain rfl := List.mem_singleton.mp member
    exact mem_assigned_singleton.mpr (mem_assignments_assign _ _)
  | .other _, read => by
    rw [statement] at read
    exact absurd read refuse_ne_ok

private theorem statements_bind {out : List Expr} :
    ∀ list : List Statement, statements characters list = .ok out →
      Statement.bindsOf list ⊆ assigned out
  | [], _ => fun _ member => by cases member
  | first :: rest, read => by
    simp only [statements, bind_eq_ok, pure_eq_ok] at read
    obtain ⟨values, readFirst, others, readRest, rfl⟩ := read
    intro name member
    rw [Statement.bindsOf, List.mem_append] at member
    rw [mem_assigned_append]
    exact member.imp (fun h => statement_binds first readFirst h) fun h =>
      statements_bind rest readRest h

private theorem alternative_binds {out : List Expr} :
    ∀ rest : Alternative, alternative characters rest = .ok out → rest.binds ⊆ assigned out
  | .nothing, _ => fun _ member => by cases member
  | .otherwise body, read => by
    simp only [alternative, bind_eq_ok, pure_eq_ok] at read
    obtain ⟨inner, readBody, rfl⟩ := read
    intro name member
    exact assigned_subset_call (by decide) (statements_bind body readBody member)
  | .elseIf test body rest, read => by
    simp only [alternative, bind_eq_ok, pure_eq_ok] at read
    obtain ⟨_, _, inner, readBody, others, readRest, rfl⟩ := read
    intro name member
    rw [Alternative.binds, List.mem_append] at member
    exact mem_assigned_branches (member.imp (fun h => statements_bind body readBody h) fun h =>
      alternative_binds rest readRest h)

end

private theorem paramNames_eq_map (params : List Param) :
    FreeNames.paramNames params = params.map Param.name := by
  induction params with
  | nil => rfl
  | cons param rest ih =>
    obtain ⟨name, hint, default⟩ := param
    rw [FreeNames.paramNames, ih, List.map_cons, Param.name]

private theorem parameters_names {params : List Param} {out : List (String × Option Expr)}
    (read : parameters characters params = .ok out) :
    out.map (·.1) = FreeNames.paramNames params := by
  rw [paramNames_eq_map, ← List.forall₂_eq_eq_eq, List.forall₂_map_left_iff,
    List.forall₂_map_right_iff]
  exact (parameters_eq_ok.mp read).flip.imp fun _ _ both => both.1

end Reading

theorem Closure.binds_of_read {characters : CharacterNames} {closure : Closure}
    {params body : Expr} (read : closure.read characters = .ok (params, body)) {name : String}
    (member : name ∈ closure.binds) :
    (∃ names, params.paramNames? = some names ∧ name ∈ names) ∨
      name ∈ ({} : Policy).assignments body := by
  cases closure with
  | definition d =>
    obtain ⟨asynchronous, decorators, title, formals, returns, statements⟩ := d
    simp only [Closure.read, Reading.definition] at read
    split at read
    · cases read
    · simp only [Reading.bind_eq_ok, Reading.pure_eq_ok] at read
      obtain ⟨list, readParams, values, readBody, same⟩ := read
      obtain ⟨rfl, rfl⟩ := Prod.mk.inj same
      rw [binds, List.mem_append, ← Reading.parameters_names readParams] at member
      refine member.imp (fun h => ⟨_, rfl, h⟩) fun h => ?_
      exact Reading.mem_assigned_singleton.mp
        (Reading.assigned_subset_call (by decide) (Reading.statements_bind statements readBody h))
  | lambda formals inner =>
    simp only [Closure.read, Reading.bind_eq_ok, Reading.pure_eq_ok] at read
    obtain ⟨list, readParams, value, _, same⟩ := read
    obtain ⟨rfl, rfl⟩ := Prod.mk.inj same
    rw [binds, ← Reading.parameters_names readParams] at member
    exact Or.inl ⟨_, rfl, member⟩

end TreePass.Source
