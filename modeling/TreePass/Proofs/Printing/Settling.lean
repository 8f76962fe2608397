import TreePass.Proofs.Printing.Legible

/-!
Conditionals and function literals end with a part that stands bare, so that an access which is
printed behind one of them belongs to this part. Settling a tree moves such accesses to where their
text puts them. It keeps the line of the tree.
-/

set_option autoImplicit false
set_option relaxedAutoImplicit false

namespace TreePass

open Source Printer

namespace Node

/-- A conditional or a function literal, whose last part ends its line. -/
def isOpen : Expr → Bool
  | .call _ callee _ => callee.symbolName? == some "if" || callee.symbolName? == some "function"
  | _ => false

mutual

/-- Puts an operation around a tree, or around the last part of an open one. -/
def attach (outer : Expr → Expr) : Expr → Expr
  | .call tag callee args =>
    if isOpen (.call tag callee args) then .call tag callee (attachLast outer args)
    else outer (.call tag callee args)
  | node => outer node

def attachLast (outer : Expr → Expr) : List (Option String × Expr) → List (Option String × Expr)
  | [] => []
  | [(name, node)] => [(name, attach outer node)]
  | first :: next :: rest => first :: attachLast outer (next :: rest)

end

/-- A call of settled parts, settled: an access goes to the end of the value it is taken of. -/
def settleCall (tag : Tag) (callee : Expr) : List (Option String × Expr) → Expr
  | [] => .call tag callee []
  | (name, value) :: rest =>
    if callee.symbolName? = some "." ∨ callee.symbolName? = some "[" then
      attach (fun v => .call tag callee ((name, v) :: rest)) value
    else .call tag callee ((name, value) :: rest)

mutual

/-- Moves every access to where its text puts it. -/
def settle : Expr → Expr
  | .call tag callee args => settleCall tag (settle callee) (settleArgs args)
  | .pairlist tag params => .pairlist tag (settleParams params)
  | node => node

def settleArgs : List (Option String × Expr) → List (Option String × Expr)
  | [] => []
  | (name, node) :: rest => (name, settle node) :: settleArgs rest

def settleParams : List (String × Option Expr) → List (String × Option Expr)
  | [] => []
  | (name, none) :: rest => (name, none) :: settleParams rest
  | (name, some default) :: rest => (name, some (settle default)) :: settleParams rest

end

private theorem settleArgs_eq (args : List (Option String × Expr)) :
    settleArgs args = args.map fun a => (a.1, a.2.settle) := by
  induction args with
  | nil => rfl
  | cons a rest ih =>
    rw [settleArgs, ih]
    rfl

private theorem settleParams_eq (params : List (String × Option Expr)) :
    settleParams params = params.map fun p => (p.1, p.2.map settle) := by
  induction params with
  | nil => rfl
  | cons p rest ih =>
    obtain ⟨name, default | default⟩ := p
    · rw [settleParams, ih]
      rfl
    · rw [settleParams, ih]
      rfl

private theorem attach_of_closed {node : Expr} (closed : node.isOpen = false)
    (outer : Expr → Expr) : attach outer node = outer node := by
  cases node with
  | call tag callee args => rw [attach, closed, if_neg Bool.false_ne_true]
  | _ => rfl

private theorem symbolName?_attach {outer : Expr → Expr}
    (calls : ∀ node, (outer node).symbolName? = none)
    (node : Expr) : (attach outer node).symbolName? = none := by
  cases node with
  | call tag callee args =>
    rw [attach]
    split
    · rfl
    · exact calls _
  | _ => exact calls _

private theorem symbolName?_settle (node : Expr) : node.settle.symbolName? = node.symbolName? := by
  cases node with
  | call tag callee args =>
    rw [settle]
    cases settleArgs args with
    | nil => rfl
    | cons a rest =>
      rw [settleCall]
      split
      · exact symbolName?_attach (fun _ => rfl) _
      · rfl
  | _ => rfl

theorem settle_call {callee : Expr} (other : callee.symbolName? ≠ some "." ∧
    callee.symbolName? ≠ some "[") (tag : Tag) (args : List (Option String × Expr)) :
    settle (.call tag callee args) =
      .call tag callee.settle (args.map fun a => (a.1, a.2.settle)) := by
  rw [settle, settleArgs_eq]
  cases args with
  | nil => rfl
  | cons a rest =>
    rw [List.map_cons, settleCall, symbolName?_settle, if_neg (not_or.mpr other)]

end Node

theorem Source.Reading.settle_call {name : String} (other : name ≠ "." ∧ name ≠ "[")
    (args : List Expr) : (call name args).settle = call name (args.map Node.settle) := by
  have other : (symbol name).symbolName? ≠ some "." ∧ (symbol name).symbolName? ≠ some "[" :=
    ⟨fun same => other.1 (Option.some.inj same), fun same => other.2 (Option.some.inj same)⟩
  rw [call, Node.settle_call other, call, List.map_map, List.map_map]
  rfl

def Access.settle : Access → Access
  | member name named => member name named
  | subscript items some_ => subscript (items.map Node.settle) (by simpa using some_)

private theorem Access.settle_of (taken : Access) (value : Expr) :
    (taken.of value).settle = value.settle.attach taken.settle.of := by
  cases taken with
  | member name named => rfl
  | subscript items some_ =>
    have settled : Node.settleArgs (items.map (none, ·)) =
        (items.map Node.settle).map (none, ·) := by
      rw [Node.settleArgs_eq, List.map_map, List.map_map]
      rfl
    change Node.settleCall 0 (Reading.symbol "[")
      ((none, value.settle) :: Node.settleArgs (items.map (none, ·))) = _
    rw [settled]
    rfl

/-- A legible tree whose accesses are where their text puts them. -/
abbrev Settled (node : Expr) : Prop := Legible (fun value => value.isOpen = false) node

namespace Legible

variable {base : Expr → Prop}

private theorem isOpen_operation (op : Operator) (a b : Expr) :
    (Reading.call op.text [a, b]).isOpen = false := by
  rcases op with op | op | op <;> cases op <;> rfl

private theorem isOpen_unary (op : UnaryOp) (a : Expr) : (Reading.call op.text [a]).isOpen =
    false := by
  cases op <;> rfl

private theorem isOpen_access (taken : Access) (value : Expr) : (taken.of value).isOpen =
    false := by
  cases taken <;> rfl

private theorem symbolName?_ne {callee : Expr} (legible : Legible base callee) {text : String}
    (form : text = "function" ∨ isName text = false) : callee.symbolName? ≠ some text := by
  intro same
  obtain ⟨-, named, other⟩ := legible.of_symbolName? same
  rcases form with rfl | unnamed
  · exact other (by decide)
  · rw [named] at unnamed
    cases unnamed

private theorem isOpen_call {callee : Expr} (legible : Legible base callee) (tag : Tag)
    (args : List (Option String × Expr)) : Node.isOpen (.call tag callee args) = false := by
  have noIf : callee.symbolName? ≠ some "if" := legible.symbolName?_ne (Or.inr (by decide))
  have noFunction : callee.symbolName? ≠ some "function" := legible.symbolName?_ne (Or.inl rfl)
  simp [Node.isOpen, noIf, noFunction]

theorem attach {value : Expr} (settled : Settled value) (taken : Access)
    (items : ∀ item ∈ taken.items, Settled item) :
    Settled (value.attach taken.of) ∧
      (value.attach taken.of).render = value.render ++ taken.text := by
  have ofClosed {value : Expr} (settled : Settled value) (closed : value.isOpen = false) :
      Settled (value.attach taken.of) ∧
        (value.attach taken.of).render = value.render ++ taken.text := by
    rw [Node.attach_of_closed closed]
    exact ⟨.access taken closed settled items, taken.render_of value⟩
  -- Through conditionals and function literals the access goes on to the last part, and their own
  -- texts end with the text of this part.
  induction settled with
  | name named other => exact ofClosed (.name named other) rfl
  | truth value => exact ofClosed (.truth value) rfl
  | nothing => exact ofClosed .nothing rfl
  | number n => exact ofClosed (.number n) rfl
  | operation op a b => exact ofClosed (.operation op a b) (isOpen_operation op _ _)
  | unary op a => exact ofClosed (.unary op a) (isOpen_unary op _)
  | chain many first links => exact ofClosed (.chain many first links) rfl
  | call names callee args => exact ofClosed (.call names callee args) (isOpen_call callee _ _)
  | access inner allowed value items =>
    exact ofClosed (.access inner allowed value items) (isOpen_access inner _)
  | @conditional test body other settledTest settledBody _ _ _ last =>
    have moved : (Reading.call "if" [test, body, other]).attach taken.of =
        Reading.call "if" [test, body, other.attach taken.of] := rfl
    refine ⟨.conditional settledTest settledBody last.1, ?_⟩
    rw [moved, Reading.render_conditional, Reading.render_conditional, last.2,
      ← String.append_assoc]
  | @function params body names defaults settledBody _ last =>
    have moved : (Reading.call "function" [.pairlist 0 params, body]).attach taken.of =
        Reading.call "function" [.pairlist 0 params, body.attach taken.of] := rfl
    refine ⟨.function names defaults last.1, ?_⟩
    rw [moved, Reading.render_function params last.1.solid,
      Reading.render_function params settledBody.solid, last.2, ← String.append_assoc]

private theorem calleeText_settle {callee : Expr} (same : callee.settle.render = callee.render) :
    calleeText callee.settle = calleeText callee := by
  rw [calleeText, Node.symbolName?_settle, same, calleeText]

private theorem items_settle (taken : Access) : taken.settle.items =
    taken.items.map Node.settle := by
  cases taken <;> rfl

private theorem text_settle {taken : Access}
    (same : ∀ item ∈ taken.items, item.settle.render = item.render) :
    taken.settle.text = taken.text := by
  cases taken with
  | member name named => rfl
  | subscript items some_ =>
    have texts : (items.map Node.settle).map Node.render = items.map Node.render := by
      rw [List.map_map]
      exact List.map_congr_left same
    rw [Access.settle, Access.text, Access.text, texts]

private theorem renderParams_settle {params : List (String × Option Expr)}
    (same : ∀ p ∈ params, ∀ default ∈ p.2, default.settle.render = default.render) :
    renderParams (params.map fun p => (p.1, p.2.map Node.settle)) = renderParams params := by
  induction params with
  | nil => rfl
  | cons p rest ih =>
    have later := ih fun p member => same p (List.mem_cons_of_mem _ member)
    obtain ⟨name, default | default⟩ := p
    · exact congrArg (name :: ·) later
    · have here := same _ List.mem_cons_self default rfl
      change (name ++ " = " ++ default.settle.render) :: renderParams _ = _
      rw [here, later, renderParams]

private theorem compareArgs_settle (links : List (CompareOp × Expr)) :
    (Reading.compareArgs links).map Node.settle =
      Reading.compareArgs (links.map fun link => (link.1, link.2.settle)) := by
  induction links with
  | nil => rfl
  | cons link rest ih =>
    rw [Reading.compareArgs, List.map_cons, List.map_cons, ih]
    rfl

theorem settle {node : Expr} (legible : Legible base node) :
    Settled node.settle ∧ node.settle.render = node.render := by
  have noAccess (op : Operator) : op.text ≠ "." ∧ op.text ≠ "[" := by
    rcases op with op | op | op <;> cases op <;> decide
  induction legible with
  | name named other => exact ⟨.name named other, rfl⟩
  | truth value => exact ⟨.truth value, rfl⟩
  | nothing => exact ⟨.nothing, rfl⟩
  | number n => exact ⟨.number n, rfl⟩
  | @operation op a b _ _ first second =>
    have moved : (Reading.call op.text [a, b]).settle = Reading.call op.text [a.settle, b.settle] :=
      Reading.settle_call (noAccess op) [a, b]
    rw [moved, Reading.render_operation, Reading.render_operation, first.2, second.2]
    exact ⟨.operation op first.1 second.1, rfl⟩
  | @unary op a _ inner =>
    have moved : (Reading.call op.text [a]).settle = Reading.call op.text [a.settle] :=
      Reading.settle_call (by cases op <;> decide) [a]
    rw [moved, Reading.render_unary, Reading.render_unary, inner.2]
    exact ⟨.unary op inner.1, rfl⟩
  | @chain first links many _ _ inner others =>
    have some_ : links ≠ [] := by
      rintro rfl
      simp at many
    have moved : (Reading.call "compare" (first :: Reading.compareArgs links)).settle =
        Reading.call "compare" (first.settle ::
          Reading.compareArgs (links.map fun link => (link.1, link.2.settle))) := by
      rw [Reading.settle_call (by decide), List.map_cons, compareArgs_settle]
    have texts : (links.map fun link => (link.1, link.2.settle)).map
          (fun link => link.1.text ++ " " ++ link.2.render) =
        links.map fun link => link.1.text ++ " " ++ link.2.render := by
      rw [List.map_map]
      refine List.map_congr_left fun link member => ?_
      rw [Function.comp_apply, (others link member).2]
    rw [moved, Reading.render_chain _ (by simpa using some_), Reading.render_chain _ some_, inner.2,
      texts]
    refine ⟨.chain (by simpa using many) inner.1 ?_, rfl⟩
    exact List.forall_mem_map.mpr fun link member => (others link member).1
  | @call callee args names legible legibles inner others =>
    have settled : ∀ a ∈ args.map fun a => (a.1, a.2.settle), Settled a.2 :=
      List.forall_mem_map.mpr fun a member => (others a member).1
    have texts : argumentTexts (args.map fun a => (a.1, a.2.settle)) = argumentTexts args := by
      rw [argumentTexts, List.map_map]
      refine List.map_congr_left fun a member => ?_
      rw [Function.comp_apply, (others a member).2]
    have noAccess : callee.symbolName? ≠ some "." ∧ callee.symbolName? ≠ some "[" :=
      ⟨legible.symbolName?_ne (Or.inr (by decide)), legible.symbolName?_ne (Or.inr (by decide))⟩
    rw [Node.settle_call noAccess, render_call inner.1 settled, render_call legible legibles,
      calleeText_settle inner.2, texts]
    exact ⟨.call (List.forall_mem_map.mpr names) inner.1 settled, rfl⟩
  | @access value taken _ _ _ inner others =>
    -- The value is settled before the access is attached to it.
    rw [taken.settle_of, taken.render_of, ← inner.2,
      ← text_settle fun item member => (others item member).2]
    refine inner.1.attach taken.settle ?_
    rw [items_settle]
    exact List.forall_mem_map.mpr fun item member => (others item member).1
  | @conditional test body other _ _ _ first second third =>
    have moved : (Reading.call "if" [test, body, other]).settle =
        Reading.call "if" [test.settle, body.settle, other.settle] := rfl
    rw [moved, Reading.render_conditional, Reading.render_conditional, first.2, second.2, third.2]
    exact ⟨.conditional first.1 second.1 third.1, rfl⟩
  | @function params body names _ legible defaults last =>
    have moved : (Reading.call "function" [.pairlist 0 params, body]).settle = Reading.call
        "function" [.pairlist 0 (params.map fun p => (p.1, p.2.map Node.settle)), body.settle] := by
      rw [← Node.settleParams_eq]
      rfl
    rw [moved, Reading.render_function _ last.1.solid, Reading.render_function _ legible.solid,
      renderParams_settle fun p member default inside => (defaults p member default inside).2,
      last.2]
    refine ⟨.function ?_ ?_ last.1, rfl⟩
    · exact List.forall_mem_map.mpr names
    · refine List.forall_mem_map.mpr fun p member default settled => ?_
      obtain ⟨before, inside, rfl⟩ := Option.mem_map.mp settled
      exact (defaults p member before inside).1

end Legible

end TreePass
