import TreePass.Source.Reading
import Mathlib.Data.List.Forall2

/-!
The steps of reading. A step succeeds when its parts do, and what it gives is put together from what
they give, part by part and in order.
-/

set_option autoImplicit false
set_option relaxedAutoImplicit false

namespace TreePass.Source

def Passing.name? : Passing → Option (Option String)
  | .positional => some none
  | .keyword name => some (some name)
  | .starred | .doubleStarred => none

def Param.name : Param → String
  | .mk name _ _ => name

def Param.default? : Param → Option Term
  | .mk _ _ default => default

namespace Reading

theorem bind_eq_ok {α β : Type} {first : Result α} {next : α → Result β} {b : β} :
    (first >>= next) = .ok b ↔ ∃ a, first = .ok a ∧ next a = .ok b := by
  cases first with
  | error fault => simp [bind, Except.bind]
  | ok a => simp [bind, Except.bind]

theorem pure_eq_ok {α : Type} {a b : α} : (pure a : Result α) = .ok b ↔ a = b := by
  simp [pure, Except.pure]

theorem refuse_ne_ok {α : Type} {construct : String} {a : α} : refuse construct ≠ .ok a := by
  intro same
  cases same

theorem exists_of_forall₂ {α β : Type} {related : α → β → Prop} {first : List α} {second : List β}
    (parts : List.Forall₂ related first second) {b : β} (member : b ∈ second) :
    ∃ a ∈ first, related a b := by
  induction parts with
  | nil => cases member
  | cons here _ ih =>
    rcases List.mem_cons.mp member with rfl | later
    · exact ⟨_, List.mem_cons_self, here⟩
    · obtain ⟨a, given, found⟩ := ih later
      exact ⟨a, List.mem_cons_of_mem _ given, found⟩

variable {characters : CharacterNames}

theorem expr_ungroup (term : Term) : expr characters term.ungroup = expr characters term := by
  fun_induction Term.ungroup term with
  | case1 inner ih => rw [ih, expr]
  | case2 => rfl

theorem operands_eq_ok {rest : List (CompareOp × Term)} {out : List (CompareOp × Expr)} :
    operands characters rest = .ok out ↔
      List.Forall₂ (fun link value => value.1 = link.1 ∧ expr characters link.2 = .ok value.2)
        rest out := by
  induction rest generalizing out with
  | nil => simp [operands, eq_comm]
  | cons link rest ih =>
    obtain ⟨op, term⟩ := link
    simp only [operands, bind_eq_ok, pure_eq_ok, ih, List.forall₂_cons_left_iff]
    constructor
    · rintro ⟨value, read, values, later, rfl⟩
      exact ⟨(op, value), values, ⟨rfl, read⟩, later, rfl⟩
    · rintro ⟨⟨_, value⟩, values, ⟨rfl, read⟩, later, rfl⟩
      exact ⟨value, read, values, later, rfl⟩

theorem arguments_eq_ok {args : List (Passing × Term)} {out : List (Option String × Expr)} :
    arguments characters args = .ok out ↔
      List.Forall₂
        (fun arg value => arg.1.name? = some value.1 ∧ expr characters arg.2 = .ok value.2)
        args out := by
  induction args generalizing out with
  | nil => simp [arguments, eq_comm]
  | cons arg rest ih =>
    have pair (name : Option String) (term : Term) :
        (∃ value, expr characters term = .ok value ∧ ∃ values,
          arguments characters rest = .ok values ∧ (name, value) :: values = out) ↔
        ∃ value values, (name = value.1 ∧ expr characters term = .ok value.2) ∧
          List.Forall₂
            (fun arg value => arg.1.name? = some value.1 ∧ expr characters arg.2 = .ok value.2)
            rest values ∧ out = value :: values := by
      simp only [ih]
      constructor
      · rintro ⟨value, read, values, later, rfl⟩
        exact ⟨(name, value), values, ⟨rfl, read⟩, later, rfl⟩
      · rintro ⟨⟨_, value⟩, values, ⟨rfl, read⟩, later, rfl⟩
        exact ⟨value, read, values, later, rfl⟩
    rw [List.forall₂_cons_left_iff]
    obtain ⟨passing, term⟩ := arg
    cases passing with
    | positional =>
      simpa only [arguments, bind_eq_ok, pure_eq_ok, Passing.name?, Option.some.injEq] using
        pair none term
    | keyword name =>
      simpa only [arguments, bind_eq_ok, pure_eq_ok, Passing.name?, Option.some.injEq] using
        pair (some name) term
    | starred | doubleStarred => simp [arguments, refuse, Passing.name?]

/-- What stands between brackets, read as one expression. -/
def item (characters : CharacterNames) : Index → Result Expr
  | .item term => expr characters term
  | .slice lower upper step => do
    let lower ← bound characters lower
    let upper ← bound characters upper
    let step ← bound characters step
    return call "slice" [lower, upper, step]

theorem indices_eq_ok {items : List Index} {out : List Expr} :
    indices characters items = .ok out ↔
      List.Forall₂ (fun index value => item characters index = .ok value) items out := by
  induction items generalizing out with
  | nil => simp [indices, eq_comm]
  | cons index rest ih =>
    have steps : indices characters (index :: rest) = (do
        let value ← item characters index
        return value :: (← indices characters rest)) := by
      cases index with
      | item term => rw [indices, item]
      | slice lower upper step => simp only [indices, item, bind_assoc, pure_bind]
    simp only [steps, bind_eq_ok, pure_eq_ok, ih, List.forall₂_cons_left_iff]
    constructor
    · rintro ⟨value, read, values, later, rfl⟩
      exact ⟨value, values, read, later, rfl⟩
    · rintro ⟨value, values, read, later, rfl⟩
      exact ⟨value, read, values, later, rfl⟩

theorem parameters_eq_ok {params : List Param} {out : List (String × Option Expr)} :
    parameters characters params = .ok out ↔
      List.Forall₂ (fun param value => value.1 = param.name ∧
        Option.Rel (fun term default => expr characters term = .ok default) param.default? value.2)
        params out := by
  induction params generalizing out with
  | nil => simp [parameters, eq_comm]
  | cons param rest ih =>
    rw [List.forall₂_cons_left_iff]
    obtain ⟨name, hint, term | term⟩ := param
    · simp only [parameters, bind_eq_ok, pure_eq_ok, ih]
      constructor
      · rintro ⟨values, later, rfl⟩
        exact ⟨(name, none), values, ⟨rfl, .none⟩, later, rfl⟩
      · rintro ⟨⟨_, _⟩, values, ⟨rfl, ⟨⟩⟩, later, rfl⟩
        exact ⟨values, later, rfl⟩
    · simp only [parameters, bind_eq_ok, pure_eq_ok, ih]
      constructor
      · rintro ⟨value, read, values, later, rfl⟩
        exact ⟨(name, some value), values, ⟨rfl, .some read⟩, later, rfl⟩
      · rintro ⟨⟨_, _⟩, values, ⟨rfl, ⟨read⟩⟩, later, rfl⟩
        exact ⟨_, read, values, later, rfl⟩

end Reading

end TreePass.Source
