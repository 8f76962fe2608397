import TreePass.Source.Syntax

/-!
Free names. A name is free in a function when its body uses it, or a function inside the body
does, and neither the parameters nor the assignments of the function bind it. Decorators, hints and
defaults of a definition are used where the definition stands, not inside it.
-/

set_option autoImplicit false
set_option relaxedAutoImplicit false

namespace TreePass.Source.FreeNames

mutual

/-- The names an expression uses and does not bind itself. -/
def ofTerm : Term → List String
  | .name text => [text]
  | .integer _ | .float _ | .imaginary _ | .ellipsis | .other _ => []
  | .strings pieces => ofPieces pieces
  | .binary _ left right => ofTerm left ++ ofTerm right
  | .unary _ operand => ofTerm operand
  | .boolean _ left right => ofTerm left ++ ofTerm right
  | .comparison left rest => ofTerm left ++ ofComparisons rest
  | .call callee args => ofTerm callee ++ ofArguments args
  | .member value _ => ofTerm value
  | .subscript value items => ofTerm value ++ ofIndices items
  | .lambda params body =>
    ofParams params ++ (ofTerm body).filter (!(paramNames params).contains ·)
  | .conditional body test otherwise => ofTerm body ++ ofTerm test ++ ofTerm otherwise
  | .tuple elements => ofTerms elements
  | .list elements => ofTerms elements
  | .starred value => ofTerm value
  | .group inner => ofTerm inner

def ofTerms : List Term → List String
  | [] => []
  | term :: rest => ofTerm term ++ ofTerms rest

def ofPieces : List Piece → List String
  | [] => []
  | .plain _ :: rest => ofPieces rest
  | .formatted fields :: rest => ofTerms fields ++ ofPieces rest

def ofComparisons : List (CompareOp × Term) → List String
  | [] => []
  | (_, term) :: rest => ofTerm term ++ ofComparisons rest

def ofArguments : List (Passing × Term) → List String
  | [] => []
  | (_, term) :: rest => ofTerm term ++ ofArguments rest

def ofIndices : List Index → List String
  | [] => []
  | .item term :: rest => ofTerm term ++ ofIndices rest
  | .slice lower upper step :: rest =>
    ofOptional lower ++ ofOptional upper ++ ofOptional step ++ ofIndices rest

def ofOptional : Option Term → List String
  | none => []
  | some term => ofTerm term

def ofParams : List Param → List String
  | [] => []
  | .mk _ hint default :: rest => ofOptional hint ++ ofOptional default ++ ofParams rest

def paramNames : List Param → List String
  | [] => []
  | .mk name _ _ :: rest => name :: paramNames rest

end

/-- The name that a target binds; other targets bind none. -/
def boundBy (target : Term) : List String :=
  match target.ungroup with
  | .name text => [text]
  | _ => []

def ofSmall : Small → List String
  | .assign targets value => ofTerms targets ++ ofTerm value
  | .augmented target _ value => ofTerm target ++ ofTerm value
  | .typed target hint value => ofTerm target ++ ofTerm hint ++ ofOptional value
  | .expression value => ofTerm value
  | .returns value => ofOptional value
  | .pass | .breaks | .continues | .other _ => []

def boundBySmall : Small → List String
  | .assign targets _ => targets.flatMap boundBy
  | .augmented target _ _ => boundBy target
  | .typed target _ _ => boundBy target
  | _ => []

mutual

def ofStatement : Statement → List String
  | .line smalls => smalls.flatMap ofSmall
  | .conditional test body rest => ofTerm test ++ ofStatements body ++ ofAlternative rest
  | .forLoop _ target iter body _ => ofTerm target ++ ofTerm iter ++ ofStatements body
  | .whileLoop test body _ => ofTerm test ++ ofStatements body
  | .define (.mk _ decorators _ params returns body) =>
    ofTerms decorators ++ ofParams params ++ ofOptional returns ++
      (ofStatements body).filter fun used =>
        !(paramNames params).contains used && !(boundByStatements body).contains used
  | .other _ => []

def ofStatements : List Statement → List String
  | [] => []
  | statement :: rest => ofStatement statement ++ ofStatements rest

def ofAlternative : Alternative → List String
  | .nothing => []
  | .otherwise body => ofStatements body
  | .elseIf test body rest => ofTerm test ++ ofStatements body ++ ofAlternative rest

def boundByStatement : Statement → List String
  | .line smalls => smalls.flatMap boundBySmall
  | .conditional _ body rest => boundByStatements body ++ boundByAlternative rest
  | .forLoop _ target _ body _ => boundBy target ++ boundByStatements body
  | .whileLoop _ body _ => boundByStatements body
  | .define definition => [definition.name]
  | .other _ => []

def boundByStatements : List Statement → List String
  | [] => []
  | statement :: rest => boundByStatement statement ++ boundByStatements rest

def boundByAlternative : Alternative → List String
  | .nothing => []
  | .otherwise body => boundByStatements body
  | .elseIf _ body rest => boundByStatements body ++ boundByAlternative rest

end

def ofDefinition : Definition → List String
  | .mk _ _ _ params _ body =>
    (ofStatements body).filter fun used =>
      !(paramNames params).contains used && !(boundByStatements body).contains used

end TreePass.Source.FreeNames
