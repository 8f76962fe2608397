import TreePass.Source.Syntax
import TreePass.Text.Identifier
import Mathlib.Data.List.Basic

/-!
Syntax trees in which every name is a word. Only the names that reading keeps count: type hints,
decorators, the fields of formatted strings and what stands in refused constructs do not.
-/

set_option autoImplicit false
set_option relaxedAutoImplicit false

namespace TreePass.Source

def IsWord (text : String) : Prop := TreePass.Text.Identifier.isIdentifier text.toList = true

instance (text : String) : Decidable (IsWord text) := inferInstanceAs (Decidable (_ = true))

class Spelled (α : Type) where
  /-- Every name is a word. -/
  spelled : α → Prop

namespace Spelled

instance : Spelled Unit := ⟨fun _ => True⟩
instance : Spelled Bool := ⟨fun _ => True⟩
instance : Spelled Piece := ⟨fun _ => True⟩
instance : Spelled CompareOp := ⟨fun _ => True⟩
instance : Spelled String := ⟨IsWord⟩

@[simp]
theorem spelled_unit (value : Unit) : spelled value := trivial

@[simp]
theorem spelled_bool (value : Bool) : spelled value := trivial

@[simp]
theorem spelled_piece (piece : Piece) : spelled piece := trivial

@[simp]
theorem spelled_compareOp (op : CompareOp) : spelled op := trivial

@[simp]
theorem spelled_string {text : String} : spelled text ↔ IsWord text := Iff.rfl

variable {α β : Type} [Spelled α] [Spelled β]

instance : Spelled (List α) := ⟨fun items => ∀ item ∈ items, spelled item⟩
instance : Spelled (Option α) := ⟨fun item? => ∀ item ∈ item?, spelled item⟩
instance : Spelled (α × β) := ⟨fun pair => spelled pair.1 ∧ spelled pair.2⟩

@[simp]
theorem spelled_nil : spelled ([] : List α) := fun _ member => nomatch member

@[simp]
theorem spelled_cons {first : α} {rest : List α} :
    spelled (first :: rest) ↔ spelled first ∧ spelled rest := List.forall_mem_cons

@[simp]
theorem spelled_append {first second : List α} :
    spelled (first ++ second) ↔ spelled first ∧ spelled second := List.forall_mem_append

@[simp]
theorem spelled_none : spelled (none : Option α) := fun _ found => nomatch found

@[simp]
theorem spelled_some {item : α} : spelled (some item) ↔ spelled item := by
  simp [spelled]

@[simp]
theorem spelled_toList {item? : Option α} : spelled item?.toList ↔ spelled item? := by
  cases item? <;> simp

@[simp]
theorem spelled_pair {pair : α × β} : spelled pair ↔ spelled pair.1 ∧ spelled pair.2 := Iff.rfl

end Spelled

open Spelled (spelled)

def Passing.Spelled : Passing → Prop
  | .keyword name => IsWord name
  | .positional | .starred | .doubleStarred => True

namespace Passing

@[simp]
theorem spelled_positional : positional.Spelled := trivial

@[simp]
theorem spelled_starred : starred.Spelled := trivial

@[simp]
theorem spelled_doubleStarred : doubleStarred.Spelled := trivial

@[simp]
theorem spelled_keyword {name : String} : (keyword name).Spelled ↔ IsWord name := Iff.rfl

end Passing

mutual

@[simp]
def Term.Spelled : Term → Prop
  | .name text => IsWord text
  | .integer _ | .float _ | .imaginary _ | .strings _ | .ellipsis | .other _ => True
  | .binary _ left right => Term.Spelled left ∧ Term.Spelled right
  | .unary _ operand => Term.Spelled operand
  | .boolean _ left right => Term.Spelled left ∧ Term.Spelled right
  | .comparison left rest => Term.Spelled left ∧ operandsSpelled rest
  | .call callee args => Term.Spelled callee ∧ argumentsSpelled args
  | .member value name => Term.Spelled value ∧ IsWord name
  | .subscript value items => Term.Spelled value ∧ indicesSpelled items
  | .lambda params body => paramsSpelled params ∧ Term.Spelled body
  | .conditional body test otherwise =>
    Term.Spelled body ∧ Term.Spelled test ∧ Term.Spelled otherwise
  | .tuple elements => termsSpelled elements
  | .list elements => termsSpelled elements
  | .starred value => Term.Spelled value
  | .group inner => Term.Spelled inner

def termsSpelled : List Term → Prop
  | [] => True
  | term :: rest => Term.Spelled term ∧ termsSpelled rest

def operandsSpelled : List (CompareOp × Term) → Prop
  | [] => True
  | (_, term) :: rest => Term.Spelled term ∧ operandsSpelled rest

def argumentsSpelled : List (Passing × Term) → Prop
  | [] => True
  | (passing, term) :: rest => passing.Spelled ∧ Term.Spelled term ∧ argumentsSpelled rest

@[simp]
def Index.Spelled : Index → Prop
  | .item term => Term.Spelled term
  | .slice lower upper step => optionalSpelled lower ∧ optionalSpelled upper ∧ optionalSpelled step

def indicesSpelled : List Index → Prop
  | [] => True
  | index :: rest => Index.Spelled index ∧ indicesSpelled rest

def optionalSpelled : Option Term → Prop
  | none => True
  | some term => Term.Spelled term

@[simp]
def Param.Spelled : Param → Prop
  | .mk name _ default => IsWord name ∧ optionalSpelled default

def paramsSpelled : List Param → Prop
  | [] => True
  | param :: rest => Param.Spelled param ∧ paramsSpelled rest

end

instance : Spelled Passing := ⟨Passing.Spelled⟩
instance : Spelled Term := ⟨Term.Spelled⟩
instance : Spelled Index := ⟨Index.Spelled⟩
instance : Spelled Param := ⟨Param.Spelled⟩

namespace Spelled

@[simp]
theorem spelled_passing {passing : Passing} : spelled passing ↔ passing.Spelled := Iff.rfl

@[simp]
theorem spelled_term {term : Term} : spelled term ↔ term.Spelled := Iff.rfl

@[simp]
theorem spelled_index {index : Index} : spelled index ↔ index.Spelled := Iff.rfl

@[simp]
theorem spelled_param {param : Param} : spelled param ↔ param.Spelled := Iff.rfl

end Spelled

@[simp]
theorem termsSpelled_iff {terms : List Term} : termsSpelled terms ↔ spelled terms := by
  induction terms with
  | nil => simp [termsSpelled]
  | cons term rest ih => simp [termsSpelled, ih]

@[simp]
theorem operandsSpelled_iff {operands : List (CompareOp × Term)} :
    operandsSpelled operands ↔ spelled operands := by
  induction operands with
  | nil => simp [operandsSpelled]
  | cons operand rest ih => simp [operandsSpelled, ih]

@[simp]
theorem argumentsSpelled_iff {args : List (Passing × Term)} :
    argumentsSpelled args ↔ spelled args := by
  induction args with
  | nil => simp [argumentsSpelled]
  | cons arg rest ih => simp [argumentsSpelled, ih, and_assoc]

@[simp]
theorem indicesSpelled_iff {items : List Index} : indicesSpelled items ↔ spelled items := by
  induction items with
  | nil => simp [indicesSpelled]
  | cons item rest ih => simp [indicesSpelled, ih]

@[simp]
theorem paramsSpelled_iff {params : List Param} : paramsSpelled params ↔ spelled params := by
  induction params with
  | nil => simp [paramsSpelled]
  | cons param rest ih => simp [paramsSpelled, ih]

@[simp]
theorem optionalSpelled_iff {term? : Option Term} : optionalSpelled term? ↔ spelled term? := by
  cases term? <;> simp [optionalSpelled]

@[simp]
def Small.Spelled : Small → Prop
  | .assign targets value => spelled targets ∧ value.Spelled
  | .augmented target _ value => target.Spelled ∧ value.Spelled
  | .typed target _ value => target.Spelled ∧ spelled value
  | .expression value => value.Spelled
  | .returns value => spelled value
  | .pass | .breaks | .continues | .other _ => True

instance : Spelled Small := ⟨Small.Spelled⟩

@[simp]
theorem Spelled.spelled_small {statement : Small} : spelled statement ↔ statement.Spelled := Iff.rfl

mutual

@[simp]
def Statement.Spelled : Statement → Prop
  | .line smalls => spelled smalls
  | .conditional test body rest => test.Spelled ∧ statementsSpelled body ∧ Alternative.Spelled rest
  | .forLoop _ target iter body _ => target.Spelled ∧ iter.Spelled ∧ statementsSpelled body
  | .whileLoop test body _ => test.Spelled ∧ statementsSpelled body
  | .define definition => Definition.Spelled definition
  | .other _ => True

@[simp]
def Alternative.Spelled : Alternative → Prop
  | .nothing => True
  | .otherwise body => statementsSpelled body
  | .elseIf test body rest => test.Spelled ∧ statementsSpelled body ∧ Alternative.Spelled rest

@[simp]
def Definition.Spelled : Definition → Prop
  | .mk _ _ name params _ body => IsWord name ∧ spelled params ∧ statementsSpelled body

def statementsSpelled : List Statement → Prop
  | [] => True
  | first :: rest => Statement.Spelled first ∧ statementsSpelled rest

end

instance : Spelled Statement := ⟨Statement.Spelled⟩
instance : Spelled Alternative := ⟨Alternative.Spelled⟩

namespace Spelled

@[simp]
theorem spelled_statement {statement : Statement} : spelled statement ↔ statement.Spelled := Iff.rfl

@[simp]
theorem spelled_alternative {rest : Alternative} : spelled rest ↔ rest.Spelled := Iff.rfl

end Spelled

@[simp]
theorem statementsSpelled_iff {statements : List Statement} :
    statementsSpelled statements ↔ spelled statements := by
  induction statements with
  | nil => simp [statementsSpelled]
  | cons first rest ih => simp [statementsSpelled, ih]

theorem Definition.Spelled.isWord_name {definition : Definition} (spells : definition.Spelled) :
    IsWord definition.name := by
  obtain ⟨_, _, name, _, _, _⟩ := definition
  exact spells.1

end TreePass.Source
