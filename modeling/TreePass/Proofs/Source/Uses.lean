import TreePass.Proofs.Source.Binding

/-!
What a source text holds for its reader: the uses of names, by the places where they stand, and the
functions, in the order in which they are read. Beside these a reader writes words of its own, for
operators, keywords, forms and constants.
-/

set_option autoImplicit false
set_option relaxedAutoImplicit false

namespace TreePass.Source

inductive Place
  | plain
  /-- A decorator of a definition inside another one. -/
  | decorator
  /-- A field of a formatted string. -/
  | field
  /-- The place of a declaration without a value. -/
  | declaration
  deriving DecidableEq

structure Mention where
  name : String
  place : Place := .plain
  deriving DecidableEq

namespace Mention

def moved (place : Place) (mention : Mention) : Mention := { mention with place }

mutual

def inTerm : Term → List Mention
  | .name text => [{ name := text }]
  | .integer _ | .float _ | .imaginary _ | .ellipsis | .other _ => []
  | .strings pieces => (inPieces pieces).map (moved .field)
  | .binary _ left right => inTerm left ++ inTerm right
  | .unary _ operand => inTerm operand
  | .boolean _ left right => inTerm left ++ inTerm right
  | .comparison left rest => inTerm left ++ inOperands rest
  | .call callee args => inTerm callee ++ inArguments args
  | .member value _ => inTerm value
  | .subscript value items => inTerm value ++ inIndices items
  | .lambda params body => inParams params ++ inTerm body
  | .conditional body test otherwise => inTerm test ++ (inTerm body ++ inTerm otherwise)
  | .tuple elements => inTerms elements
  | .list elements => inTerms elements
  | .starred value => inTerm value
  | .group inner => inTerm inner

def inTerms : List Term → List Mention
  | [] => []
  | term :: rest => inTerm term ++ inTerms rest

def inPieces : List Piece → List Mention
  | [] => []
  | .plain _ :: rest => inPieces rest
  | .formatted fields :: rest => inTerms fields ++ inPieces rest

def inOperands : List (CompareOp × Term) → List Mention
  | [] => []
  | (_, term) :: rest => inTerm term ++ inOperands rest

def inArguments : List (Passing × Term) → List Mention
  | [] => []
  | (_, term) :: rest => inTerm term ++ inArguments rest

def inIndices : List Index → List Mention
  | [] => []
  | .item term :: rest => inTerm term ++ inIndices rest
  | .slice lower upper step :: rest =>
    (inOptional lower ++ (inOptional upper ++ inOptional step)) ++ inIndices rest

def inOptional : Option Term → List Mention
  | none => []
  | some term => inTerm term

-- Type hints do not count as uses.
def inParams : List Param → List Mention
  | [] => []
  | .mk _ _ default :: rest => inOptional default ++ inParams rest

end

/-- The names that the place of a declaration uses. A bare name there is not evaluated. -/
def inDeclared (place : Term) : List Mention :=
  match place.ungroup with
  | .name _ => []
  | _ => (inTerm place).map (moved .declaration)

/-- The names that a small statement assigns or uses. An augmented assignment does both with its
place. -/
def inSmall : Small → List Mention
  | .assign targets value => inTerms targets ++ inTerm value
  | .augmented place _ value => inTerm place ++ (inTerm place ++ inTerm value)
  | .typed place _ none => inDeclared place
  | .typed place _ (some value) => inTerm place ++ inTerm value
  | .expression value => inTerm value
  | .returns value => inOptional value
  | .pass | .breaks | .continues | .other _ => []

def inDecorators : Definition → List Mention
  | .mk _ decorators _ _ _ _ => (inTerms decorators).map (moved .decorator)

mutual

def inStatement : Statement → List Mention
  | .line smalls => smalls.flatMap inSmall
  | .conditional test body rest => inTerm test ++ (inStatements body ++ inAlternative rest)
  | .forLoop _ variable_ iter body _ => inTerm variable_ ++ (inTerm iter ++ inStatements body)
  | .whileLoop test body _ => inTerm test ++ inStatements body
  | .define d => inDecorators d ++ { name := d.name } :: inDefinition d
  | .other _ => []

def inStatements : List Statement → List Mention
  | [] => []
  | first :: rest => inStatement first ++ inStatements rest

def inAlternative : Alternative → List Mention
  | .nothing => []
  | .otherwise body => inStatements body
  | .elseIf test body rest => inTerm test ++ (inStatements body ++ inAlternative rest)

/-- The names that the defaults and the body of a definition assign or use. -/
def inDefinition : Definition → List Mention
  | .mk _ _ _ params _ body => inParams params ++ inStatements body

end

def plain (mentions : List Mention) : List String :=
  (mentions.filter (·.place = .plain)).map (·.name)

theorem plain_append (first second : List Mention) :
    plain (first ++ second) = plain first ++ plain second := by
  rw [plain, List.filter_append, List.map_append]
  rfl

theorem plain_moved {place : Place} (lost : place ≠ .plain) (mentions : List Mention) :
    plain (mentions.map (moved place)) = [] := by
  have none_left : (mentions.map (moved place)).filter (·.place = .plain) = [] := by
    rw [List.filter_eq_nil_iff]
    intro mention member
    obtain ⟨old, _, rfl⟩ := List.mem_map.mp member
    simp [moved, lost]
  rw [plain, none_left, List.map_nil]

theorem plain_inDeclared (place : Term) : plain (inDeclared place) = [] := by
  unfold inDeclared
  split
  · rfl
  · exact plain_moved (by decide) _

theorem plain_inDecorators (d : Definition) : plain (inDecorators d) = [] := by
  obtain ⟨_, decorators, _, _, _, _⟩ := d
  exact plain_moved (by decide) _

end Mention

namespace Closure

mutual

def inTerm : Term → List Closure
  | .name _ | .integer _ | .float _ | .imaginary _ | .strings _ | .ellipsis | .other _ => []
  | .binary _ left right => inTerm left ++ inTerm right
  | .unary _ operand => inTerm operand
  | .boolean _ left right => inTerm left ++ inTerm right
  | .comparison left rest => inTerm left ++ inOperands rest
  | .call callee args => inTerm callee ++ inArguments args
  | .member value _ => inTerm value
  | .subscript value items => inTerm value ++ inIndices items
  | .lambda params body => lambda params body :: (inParams params ++ inTerm body)
  | .conditional body test otherwise => inTerm test ++ (inTerm body ++ inTerm otherwise)
  | .tuple elements => inTerms elements
  | .list elements => inTerms elements
  | .starred value => inTerm value
  | .group inner => inTerm inner

def inTerms : List Term → List Closure
  | [] => []
  | term :: rest => inTerm term ++ inTerms rest

def inOperands : List (CompareOp × Term) → List Closure
  | [] => []
  | (_, term) :: rest => inTerm term ++ inOperands rest

def inArguments : List (Passing × Term) → List Closure
  | [] => []
  | (_, term) :: rest => inTerm term ++ inArguments rest

def inIndices : List Index → List Closure
  | [] => []
  | .item term :: rest => inTerm term ++ inIndices rest
  | .slice lower upper step :: rest =>
    (inOptional lower ++ (inOptional upper ++ inOptional step)) ++ inIndices rest

def inOptional : Option Term → List Closure
  | none => []
  | some term => inTerm term

/-- The functions in the defaults of parameters; hints are not read. -/
def inParams : List Param → List Closure
  | [] => []
  | .mk _ _ default :: rest => inOptional default ++ inParams rest

end

/-- The functions in a small statement. The place of an augmented assignment is read twice: it is
assigned, and its current value is used. -/
def inSmall : Small → List Closure
  | .assign targets value => inTerms targets ++ inTerm value
  | .augmented place _ value => inTerm place ++ (inTerm place ++ inTerm value)
  | .typed place _ (some value) => inTerm place ++ inTerm value
  | .typed _ _ none => []
  | .expression value => inTerm value
  | .returns value => inOptional value
  | .pass | .breaks | .continues | .other _ => []

mutual

/-- The functions in a statement. The variable of a loop is a bare name. -/
def inStatement : Statement → List Closure
  | .line smalls => smalls.flatMap inSmall
  | .conditional test body rest => inTerm test ++ (inStatements body ++ inAlternative rest)
  | .forLoop _ _ iter body _ => inTerm iter ++ inStatements body
  | .whileLoop test body _ => inTerm test ++ inStatements body
  | .define d => inDefinition d
  | .other _ => []

def inStatements : List Statement → List Closure
  | [] => []
  | first :: rest => inStatement first ++ inStatements rest

def inAlternative : Alternative → List Closure
  | .nothing => []
  | .otherwise body => inStatements body
  | .elseIf test body rest => inTerm test ++ (inStatements body ++ inAlternative rest)

/-- A definition and the functions inside it. -/
def inDefinition : Definition → List Closure
  | .mk asynchronous decorators name params returns body =>
    definition (.mk asynchronous decorators name params returns body) ::
      (inParams params ++ inStatements body)

end

end Closure

namespace Reading

/-- The words that stand for operators, keywords, forms and constants. -/
def vocabulary : List String :=
  BinaryOp.all.map BinaryOp.text ++
    ["u-", "u+", "~", "not", "and", "or"] ++
    ["==", "!=", "<", "<=", ">", ">=", "in", "not in", "is", "is not"] ++
    ["\x7b", "=", "if", "for", "while", "return", "break", "continue"] ++
    ["function", "tuple", "list", "slice", "compare", ".", "["] ++ Term.constants

/-- A name that a reader never writes by itself. -/
def isOwn (name : String) : Bool := !vocabulary.contains name

theorem binary_mem_vocabulary (op : BinaryOp) : op.text ∈ vocabulary := by
  cases op <;> decide

theorem unary_mem_vocabulary (op : UnaryOp) : op.text ∈ vocabulary := by
  cases op <;> decide

theorem boolean_mem_vocabulary (op : BooleanOp) : op.text ∈ vocabulary := by
  cases op <;> decide

theorem compare_mem_vocabulary (op : CompareOp) : op.text ∈ vocabulary := by
  cases op <;> decide

end Reading

end TreePass.Source
