import TreePass.Value

/-!
Equality of values and of expressions. Numbers compare by value across their types, maps without
regard to order. Two literals are equal only if they have one type; children compare first by
identity, so an expression equals one that shares its children even where a literal is a NaN.
-/

set_option autoImplicit false
set_option relaxedAutoImplicit false

namespace TreePass

open Number (Binary64)

namespace Value

/-- The number a value stands for, as real and imaginary part; integers are kept exact. -/
inductive Numeric
  | exact (i : Int)
  | real (x : Binary64)
  | complex (re im : Binary64)

def numeric? : Value → Option Numeric
  | bool b => some (.exact (if b then 1 else 0))
  | int i => some (.exact i)
  | float x => some (.real x)
  | complex re im => some (.complex re im)
  | _ => Option.none

/-- An integer equals a real number that has exactly its value. -/
def Numeric.equal : Numeric → Numeric → Bool
  | exact i, exact j => i == j
  | exact i, real x | real x, exact i => x.toInt? == some i
  | real x, real y => x.equal y
  | exact i, complex re im | complex re im, exact i => im.isZero && re.toInt? == some i
  | real x, complex re im | complex re im, real x => im.isZero && re.equal x
  | complex a b, complex c d => a.equal c && b.equal d

def equalPlain (first second : Value) : Bool :=
  match first.numeric?, second.numeric? with
  | some x, some y => x.equal y
  | _, _ =>
    match first, second with
    | none, none | ellipsis, ellipsis => true
    | none, identity .none | identity .none, none => true
    | str a, str b => a == b
    | ragged a, ragged b => a == b
    | bytes a, bytes b => a == b
    | scope a, scope b => a.equal b
    | identity a, identity b => a == b
    | _, _ => false

/-- Whether two values are one object. Only numbers and nodes have to be told apart, since all
others equal themselves anyway, or do so item by item. -/
def same : Value → Value → Bool
  | float x, float y => x == y
  | complex a b, complex c d => a == c && b == d
  | node a, node b => a.same b
  | _, _ => false

end Value

mutual

def Value.equal : Value → Value → Bool
  | .list xs, .list ys => equalItems xs ys
  | .tuple xs, .tuple ys => equalItems xs ys
  | .map xs, .map ys => xs.length == ys.length && equalEntries xs ys
  | .node a, .node b => Node.equal a b
  | first, second => first.equalPlain second

/-- Equality of lists of values: items are compared by identity first. -/
def equalItems : List Value → List Value → Bool
  | [], [] => true
  | x :: xs, y :: ys => (x.same y || Value.equal x y) && equalItems xs ys
  | _, _ => false

def equalEntries : List (Option String × Value) → Entries → Bool
  | [], _ => true
  | (key, value) :: rest, entries =>
    (match entries.lookup key with
      | some other => value.same other || Value.equal value other
      | none => false) && equalEntries rest entries

/-- Structural equality of expressions; metadata does not count. -/
def Node.equal : Node Value → Node Value → Bool
  | .atomic _ v, .atomic _ w => v.typeName == w.typeName && Value.equal v w
  | .symbol _ a, .symbol _ b => a == b
  | .primitive _ a, .primitive _ b => a == b
  | .pairlist _ ps, .pairlist _ qs => equalParams ps qs
  | .call _ c as, .call _ d bs => (c.same d || Node.equal c d) && equalArgs as bs
  | _, _ => false

/-- Equality of parameters: names, and defaults by identity or structure. -/
def equalParams : List (String × Option (Node Value)) → List (String × Option (Node Value)) → Bool
  | [], [] => true
  | (name, none) :: ps, (other, none) :: qs => name == other && equalParams ps qs
  | (name, some a) :: ps, (other, some b) :: qs =>
    name == other && (a.same b || Node.equal a b) && equalParams ps qs
  | _, _ => false

/-- Equality of arguments: names, and values by identity or structure. -/
def equalArgs : List (Option String × Node Value) → List (Option String × Node Value) → Bool
  | [], [] => true
  | (name, a) :: as, (other, b) :: bs =>
    name == other && (a.same b || Node.equal a b) && equalArgs as bs
  | _, _ => false

end

namespace Value

def equalTyped (first second : Value) : Bool :=
  first.typeName == second.typeName && first.equal second

end Value

mutual

/-- Values that may be members of a set: no lists and no maps inside. -/
def Value.isHashable : Value → Bool
  | .list _ | .map _ => false
  | .tuple items => hashableItems items
  | .node n => Node.isHashable n
  | _ => true

def hashableItems : List Value → Bool
  | [] => true
  | x :: xs => Value.isHashable x && hashableItems xs

/-- Expressions all of whose literals may be members of a set. -/
def Node.isHashable : Node Value → Bool
  | .atomic _ v => Value.isHashable v
  | .symbol _ _ | .primitive _ _ => true
  | .pairlist _ params => hashableParams params
  | .call _ callee args => Node.isHashable callee && hashableArgs args

def hashableParams : List (String × Option (Node Value)) → Bool
  | [] => true
  | (_, none) :: rest => hashableParams rest
  | (_, some d) :: rest => Node.isHashable d && hashableParams rest

def hashableArgs : List (Option String × Node Value) → Bool
  | [] => true
  | (_, a) :: rest => Node.isHashable a && hashableArgs rest

end

namespace Node

/-- One node of each class of equal or identical nodes, in order. -/
def distinct (nodes : List Expr) : List Expr :=
  nodes.foldl
    (fun kept n => if kept.any fun m => m.same n || Node.equal m n then kept else kept ++ [n]) []

end Node

end TreePass
