import TreePass.Number.Binary64

/-!
Documents of nested tables. A table that has been declared cannot be declared again, and what is
written inside brackets or braces cannot be extended later.
-/

set_option autoImplicit false
set_option relaxedAutoImplicit false

namespace TreePass.Toml

inductive Error
  | malformed
  /-- A decimal integer with more digits than can be read. -/
  | longInteger (digits : Nat)
  deriving DecidableEq

inductive Item
  | text (s : String)
  | integer (i : Int)
  | real (x : Number.Binary64)
  | truth (b : Bool)
  /-- A date or a time. -/
  | moment
  | array (items : List Item)
  | table (entries : List (String × Item))

abbrev Entries := List (String × Item)

abbrev Key := List String

namespace Item

/-- Whether a value is written between brackets or braces. -/
def isNested : Item → Bool
  | array _ | table _ => true
  | _ => false

end Item

namespace Entries

/-- Stores a value: a known key keeps its place, a new key comes last. -/
def put (key : String) (value : Item) : Entries → Entries
  | [] => [(key, value)]
  | (k, v) :: rest => if k = key then (k, value) :: rest else (k, v) :: put key value rest

/-- Changes the table behind a key. Missing tables are made on the way; with `lists`, an array
stands for the last of its tables. -/
def within (lists : Bool) (change : Entries → Option Entries) : Key → Entries → Option Entries
  | [], entries => change entries
  | k :: rest, entries =>
    match entries.lookup k with
    | none => (within lists change rest []).map fun inner => entries.put k (.table inner)
    | some (.table inner) =>
      (within lists change rest inner).map fun inner => entries.put k (.table inner)
    | some (.array items) =>
      match lists, items.getLast? with
      | true, some (.table inner) =>
        (within lists change rest inner).map fun inner =>
          entries.put k (.array (items.dropLast ++ [.table inner]))
      | _, _ => none
    | some _ => none

def add (key : String) (value : Item) (entries : Entries) : Option Entries :=
  match entries.lookup key with
  | some _ => none
  | none => some (entries ++ [(key, value)])

/-- Adds an empty table to the array under a key. -/
def append (key : String) (entries : Entries) : Option Entries :=
  match entries.lookup key with
  | none => some (entries ++ [(key, .array [.table []])])
  | some (.array items) => some (entries.put key (.array (items ++ [.table []])))
  | some _ => none

end Entries

structure Document where
  root : Entries := []
  /-- Tables that have been declared. -/
  declared : List Key := []
  /-- Tables that count as declared from the next header on. -/
  pending : List Key := []
  /-- What is written between brackets or braces, with all below it. -/
  closed : List Key := []
  /-- The table to which the next keys belong. -/
  header : Key := []

namespace Document

def isClosed (document : Document) (key : Key) : Bool := document.closed.any (·.isPrefixOf key)

def endSection (document : Document) : Document :=
  { document with declared := document.pending ++ document.declared, pending := [] }

def declareTable (document : Document) (key : Key) : Option Document :=
  if document.declared.contains key || document.isClosed key then none
  else (document.root.within true some key).map fun root =>
    { document with root := root, declared := key :: document.declared, header := key }

/-- Declares the next table of an array; what was declared in the table before is free again. -/
def declareElement (document : Document) (key : Key) : Option Document :=
  if document.isClosed key then none
  else (document.root.within true (Entries.append (key.getLastD "")) key.dropLast).map fun root =>
    { document with
      root := root
      declared := key :: document.declared.filter (!key.isPrefixOf ·)
      closed := document.closed.filter (!key.isPrefixOf ·)
      header := key }

def assign (document : Document) (key : Key) (value : Item) : Option Document :=
  let inner := (List.range (key.length - 1)).map fun i => document.header ++ key.take (i + 1)
  let parent := document.header ++ key.dropLast
  if inner.any document.declared.contains || document.isClosed parent then none
  else (document.root.within true (Entries.add (key.getLastD "") value) parent).map fun root =>
    { document with
      root := root
      pending := inner ++ document.pending
      closed := if value.isNested then (document.header ++ key) :: document.closed
        else document.closed }

end Document

end TreePass.Toml
