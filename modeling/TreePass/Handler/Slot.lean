import TreePass.Node

/-!
Traversal modes and the slots that hold handlers: one for each shape and one for the way down.
-/

set_option autoImplicit false
set_option relaxedAutoImplicit false

namespace TreePass

/-- What handlers return: maps in an analysis, replacement nodes in a transformation. -/
inductive Mode
  | analyse | transform
  deriving DecidableEq

/-- The places of a configuration at which handlers are installed. -/
inductive Slot
  | atomic | symbol | primitive | pairlist | call | topdown
  deriving DecidableEq

namespace Mode

def label : Mode → String
  | analyse => "analyse"
  | transform => "rewrite"

def all : List Mode := [analyse, transform]

def ofLabel? (text : String) : Option Mode := all.find? fun mode => mode.label == text

end Mode

namespace Slot

def label : Slot → String
  | atomic => "atomic"
  | symbol => "symbol"
  | primitive => "primitive"
  | pairlist => "pairlist"
  | call => "call"
  | topdown => "topdown"

def all : List Slot := [atomic, symbol, primitive, pairlist, call, topdown]

def ofLabel? (text : String) : Option Slot := all.find? fun slot => slot.label == text

def ofKind : Kind → Slot
  | .atomic => atomic
  | .symbol => symbol
  | .primitive => primitive
  | .pairlist => pairlist
  | .call => call

end Slot

def Kind.ofLabel? (text : String) : Option Kind := Kind.all.find? fun kind => kind.label == text

end TreePass
