import TreePass.Proofs.Printing.Recovering

/-!
What a line says about the tree that it was printed from: the tree is known but for the accesses of
conditionals and function literals, which cannot be told from accesses of their last parts.
-/

set_option autoImplicit false
set_option relaxedAutoImplicit false

namespace TreePass

open Source Printer

namespace Line

/-- Decoders that are deep enough give a tree back from its line. -/
def Recovers (node : Expr) : Prop := ∃ depth, ∀ fuel, depth ≤ fuel → Decodes (expression fuel) node

/-- So they do for a line with accesses behind it. -/
def Reaches (node : Expr) : Prop := ∃ depth, ∀ fuel, depth ≤ fuel → Extends (expression fuel) node

variable {base : Expr → Prop} {node : Expr}

private theorem recovers_of_form {depth : Nat}
    (decodes : ∀ fuel, depth ≤ fuel → Decodes (form (expression fuel)) node) : Recovers node := by
  refine ⟨depth + 1, fun fuel deep => ?_⟩
  obtain ⟨less, rfl⟩ : ∃ less, fuel = less + 1 := ⟨fuel - 1, by omega⟩
  exact decodes less (by omega)

private theorem Reaches.recovers (reaches : Reaches node) : Recovers node := by
  obtain ⟨depth, extends_⟩ := reaches
  exact recovers_of_form fun fuel deep => (extends_ fuel deep).decodes

private theorem exists_depth {α : Type} {values : List α} {holds : Nat → α → Prop}
    (each : ∀ value ∈ values, ∃ depth, ∀ fuel, depth ≤ fuel → holds fuel value) :
    ∃ depth, ∀ fuel, depth ≤ fuel → ∀ value ∈ values, holds fuel value := by
  induction values with
  | nil => exact ⟨0, by simp⟩
  | cons value more ih =>
    obtain ⟨first, here⟩ := each value List.mem_cons_self
    obtain ⟨second, later⟩ := ih fun v member => each v (List.mem_cons_of_mem _ member)
    refine ⟨max first second, fun fuel deep => ?_⟩
    rw [List.forall_mem_cons]
    exact ⟨here fuel (by omega), later fuel (by omega)⟩

private theorem decodes_symbol {fuel : Nat} (positive : 1 ≤ fuel) {name : String}
    (named : isName name = true) : Decodes (expression fuel) (Reading.symbol name) := by
  obtain ⟨less, rfl⟩ : ∃ less, fuel = less + 1 := ⟨fuel - 1, by omega⟩
  exact (extends_name named).decodes

private theorem reaches_word {word : String} (letters : node.render = word)
    (some_ : word.toList ≠ []) (all : word.toList.all Lexer.mayContinue = true)
    (other : word.toList ≠ "if".toList) (means : atom word.toList = node) : Reaches node :=
  ⟨0, fun _ _ => extends_word (congrArg String.toList letters) some_ all other means⟩

private theorem reaches_joined {first : Expr} {list : List (Operator × Expr)} (some_ : list ≠ [])
    (legible : Legible base first) (legibles : ∀ link ∈ list, Legible base link.2)
    (recovers : Recovers first) (others : ∀ link ∈ list, Recovers link.2)
    (text : (joined first list).render.toList =
      "(".toList ++ (first.render.toList ++ (linksText list ++ ")".toList))) :
    Reaches (joined first list) := by
  obtain ⟨depth, decodes⟩ := recovers
  obtain ⟨depth', decodes'⟩ := exists_depth others
  refine ⟨max depth depth', fun fuel deep => extends_joined some_ ?_ (fun link member => ?_) text⟩
  · exact ⟨decodes fuel (by omega), opens_of_legible legible⟩
  · exact ⟨decodes' fuel (by omega) link member, opens_of_legible (legibles link member)⟩

private theorem reaches_operation (op : Operator) {a b : Expr} (legible : Legible base a)
    (legible' : Legible base b) (recovers : Recovers a) (recovers' : Recovers b) :
    Reaches (Reading.call op.text [a, b]) := by
  have one : Reading.call op.text [a, b] = joined a [(op, b)] := rfl
  have text : (joined a [(op, b)]).render.toList =
      "(".toList ++ (a.render.toList ++ (linksText [(op, b)] ++ ")".toList)) := by
    rw [← one, Reading.render_operation]
    simp [linksText]
  rw [one]
  exact reaches_joined (by simp) legible (by simpa using legible') recovers
    (by simpa using recovers') text

private theorem joined_comparisons (first : Expr) {links : List (CompareOp × Expr)}
    (many : 2 ≤ links.length) :
    joined first (links.map fun link => (.comparison link.1, link.2)) =
      Reading.call "compare" (first :: Reading.compareArgs links) := by
  have args : ((links.map fun link => (Operator.comparison link.1, link.2)).flatMap fun link =>
      [Reading.atomic (.str link.1.text), link.2]) = Reading.compareArgs links := by
    clear many
    induction links with
    | nil => rfl
    | cons link more ih =>
      rw [List.map_cons, List.flatMap_cons, ih]
      rfl
  rcases links with _ | ⟨link, _ | ⟨next, more⟩⟩
  · simp at many
  · simp at many
  · exact congrArg (fun args => Reading.call "compare" (first :: args)) args

private theorem reaches_chain {first : Expr} {links : List (CompareOp × Expr)}
    (many : 2 ≤ links.length)
    (legible : Legible base first) (legibles : ∀ link ∈ links, Legible base link.2)
    (recovers : Recovers first) (others : ∀ link ∈ links, Recovers link.2) :
    Reaches (Reading.call "compare" (first :: Reading.compareArgs links)) := by
  have some_ : links ≠ [] := by
    rintro rfl
    simp at many
  rw [← joined_comparisons first many]
  refine reaches_joined (by simpa using some_) legible (List.forall_mem_map.mpr legibles) recovers
    (List.forall_mem_map.mpr others) ?_
  rw [joined_comparisons first many, Reading.render_chain _ some_, String.toList_append,
    String.toList_append, toList_joinSpaces]
  simp [linksText, List.flatMap_map, Operator.text]

private theorem reaches_call {callee : Expr} {args : List (Option String × Expr)}
    (names : ∀ a ∈ args, ∀ name ∈ a.1, isName name = true) (legible : Legible base callee)
    (legibles : ∀ a ∈ args, Legible base a.2) (recovers : Recovers callee)
    (others : ∀ a ∈ args, Recovers a.2) : Reaches (.call 0 callee args) := by
  obtain ⟨depth, decodes⟩ := recovers
  obtain ⟨depth', decodes'⟩ := exists_depth others
  refine ⟨max (max depth depth') 1, fun fuel deep => ?_⟩
  have parts (a : Option String × Expr) (member : a ∈ args) : Part (expression fuel) a.2 :=
    ⟨decodes' fuel (by omega) a member, opens_of_legible (legibles a member)⟩
  have known (name : String) (named : isName name = true) :=
    decodes_symbol (by omega : 1 ≤ fuel) named
  have rendered := legible.render_call legibles
  cases symbol : callee.symbolName? with
  | none =>
    rw [calleeText, symbol] at rendered
    exact extends_call_other ⟨decodes fuel (by omega), opens_of_legible legible⟩ parts names known
      rendered
  | some text =>
    obtain ⟨rfl, named, other⟩ := legible.of_symbolName? symbol
    exact extends_call_name named (fun same => other (by simp [same])) parts names known rendered

private theorem reaches_access {value : Expr} (taken : Access)
    (legibles : ∀ item ∈ taken.items, Legible base item) (reaches : Reaches value)
    (others : ∀ item ∈ taken.items, Recovers item) : Reaches (taken.of value) := by
  obtain ⟨depth, extends_⟩ := reaches
  obtain ⟨depth', decodes⟩ := exists_depth others
  refine ⟨max depth depth', fun fuel deep => (extends_ fuel (by omega)).access taken ?_⟩
  exact fun item member =>
    ⟨decodes fuel (by omega) item member, opens_of_legible (legibles item member)⟩

private theorem recovers_conditional {test body other : Expr} (legible : Legible base test)
    (legible' : Legible base body) (legible'' : Legible base other) (first : Recovers test)
    (second : Recovers body) (third : Recovers other) :
    Recovers (Reading.call "if" [test, body, other]) := by
  obtain ⟨depth, decodes⟩ := first
  obtain ⟨depth', decodes'⟩ := second
  obtain ⟨depth'', decodes''⟩ := third
  refine @recovers_of_form _ (max depth (max depth' depth'')) fun fuel deep => ?_
  exact decodes_conditional ⟨decodes fuel (by omega), opens_of_legible legible⟩
    ⟨decodes' fuel (by omega), opens_of_legible legible'⟩
    ⟨decodes'' fuel (by omega), opens_of_legible legible''⟩

private theorem recovers_function {params : List (String × Option Expr)} {body : Expr}
    (names : ∀ p ∈ params, isName p.1 = true)
    (legibles : ∀ p ∈ params, ∀ default ∈ p.2, Legible base default) (legible : Legible base body)
    (others : ∀ p ∈ params, ∀ default ∈ p.2, Recovers default) (recovers : Recovers body) :
    Recovers (Reading.call "function" [.pairlist 0 params, body]) := by
  obtain ⟨depth, decodes⟩ := recovers
  have each (p : String × Option Expr) (member : p ∈ params) :
      ∃ depth, ∀ fuel, depth ≤ fuel → ∀ default ∈ p.2, Decodes (expression fuel) default := by
    obtain ⟨name, default | default⟩ := p
    · exact ⟨0, by simp⟩
    · obtain ⟨depth, decodes⟩ := others _ member default rfl
      exact ⟨depth, by simpa using decodes⟩
  obtain ⟨depth', decodes'⟩ := exists_depth each
  refine @recovers_of_form _ (max depth depth') fun fuel deep => ?_
  exact decodes_function names
    (fun p member default inside => ⟨decodes' fuel (by omega) p member default inside,
      opens_of_legible (legibles p member default inside)⟩)
    ⟨decodes fuel (by omega), opens_of_legible legible⟩ legible.solid

private theorem recovers_of_settled (settled : Settled node) :
    Recovers node ∧ (node.isOpen = false → Reaches node) := by
  have closed {node : Expr} (reaches : Reaches node) :
      Recovers node ∧ (node.isOpen = false → Reaches node) := ⟨reaches.recovers, fun _ => reaches⟩
  -- The value of an access is read at the same depth as the access, so for closed forms more is
  -- claimed than that they are recovered.
  induction settled with
  | name named _ => exact closed ⟨0, fun _ _ => extends_name named⟩
  | truth value =>
    cases value with
    | true => exact closed (reaches_word rfl (by decide) (by decide) (by decide) rfl)
    | false => exact closed (reaches_word rfl (by decide) (by decide) (by decide) rfl)
  | nothing => exact closed (reaches_word rfl (by decide) (by decide) (by decide) rfl)
  | number n => exact closed ⟨0, fun _ _ => extends_number n⟩
  | operation op a b first second => exact closed (reaches_operation op a b first.1 second.1)
  | unary op _ inner =>
    obtain ⟨depth, decodes⟩ := inner.1
    exact closed ⟨depth, fun fuel deep => extends_unary op (decodes fuel deep)⟩
  | chain many first links inner others =>
    exact closed (reaches_chain many first links inner.1 fun link member => (others link member).1)
  | call names callee args inner others =>
    exact closed (reaches_call names callee args inner.1 fun a member => (others a member).1)
  | access taken allowed _ items inner others =>
    exact closed (reaches_access taken items (inner.2 allowed) fun item member =>
      (others item member).1)
  | conditional test body other first second third =>
    exact ⟨recovers_conditional test body other first.1 second.1 third.1, nofun⟩
  | function names defaults body others last =>
    refine ⟨recovers_function names defaults body (fun p member default inside =>
      (others p member default inside).1) last.1, nofun⟩

end Line

private theorem Settled.eq_of_render_eq {node node' : Expr} (settled : Settled node)
    (settled' : Settled node') (same : node.render = node'.render) : node = node' := by
  obtain ⟨depth, decodes⟩ := (Line.recovers_of_settled settled).1
  obtain ⟨depth', decodes'⟩ := (Line.recovers_of_settled settled').1
  have first := decodes (max depth depth') (by omega) [] (Line.before_nil _)
  have second := decodes' (max depth depth') (by omega) [] (Line.before_nil _)
  rw [same, second] at first
  exact (congrArg Prod.fst (Option.some.inj first)).symm

/-- Two plain expressions are printed alike exactly if they differ only in whether an access is
taken of a conditional or a function literal, or of its last part. -/
theorem render_eq_iff_settle_eq (characters : CharacterNames) {term term' : Term}
    (plain : term.Plain) (plain' : term'.Plain) {node node' : Expr}
    (read : Reading.expr characters term = .ok node)
    (read' : Reading.expr characters term' = .ok node') :
    node.render = node'.render ↔ node.settle = node'.settle := by
  -- Settled trees are told apart by their lines, and settling keeps the line.
  obtain ⟨settled, same⟩ := (Reading.expr_legible plain read).settle
  obtain ⟨settled', same'⟩ := (Reading.expr_legible plain' read').settle
  constructor
  · intro rendered
    exact settled.eq_of_render_eq settled' (by rw [same, same', rendered])
  · intro moved
    rw [← same, ← same', moved]

/-- A subscript of a function literal, and a function literal whose body is a subscript. -/
theorem render_eq_iff_settle_eq_subscriptOfFunction :
    (Reading.call "[" [
      Reading.call "function" [.pairlist 0 [("x", none)], Reading.symbol "x"],
      Reading.atomic (.int 0)]).render =
    (Reading.call "function" [
      .pairlist 0 [("x", none)],
      Reading.call "[" [Reading.symbol "x", Reading.atomic (.int 0)]]).render := by
  have variable_ : (Term.name "x").Plain := .name (by decide) (by decide)
  have zero : (Term.integer "0").Plain := @Term.Plain.integer "0" 0 (by decide)
  have function {body : Term} (plain : body.Plain) :
      (Term.lambda [.mk "x" none none] body).Plain :=
    .lambda (by simp [Param.name]; decide) (by simp [Param.default?]) plain
  have subscript {value : Term} (plain : value.Plain) :
      (Term.subscript value [.item (.integer "0")]).Plain :=
    .subscript (by simp) plain (by simpa [Index.terms] using zero)
  exact (render_eq_iff_settle_eq (fun _ => none) (subscript (function variable_))
    (function (subscript variable_)) rfl rfl).mpr rfl

/-- The expression `(b if a else c).d`. -/
def memberOfConditional : Term :=
  .member (.group (.conditional (.name "b") (.name "a") (.name "c"))) "d"

/-- The expression `b if a else c.d`. -/
def conditionalOfMember : Term :=
  .conditional (.name "b") (.name "a") (.member (.name "c") "d")

/-- Two trees that are not the same have the same line. -/
theorem conditional_lines_ambiguous :
    memberOfConditional.Plain ∧ conditionalOfMember.Plain ∧
      ∃ node node', Reading.expr (fun _ => none) memberOfConditional = .ok node ∧
        Reading.expr (fun _ => none) conditionalOfMember = .ok node' ∧
        node.render = "if (a) b else c.d" ∧ node'.render = "if (a) b else c.d" ∧ node ≠ node' := by
  have a : (Term.name "a").Plain := .name (by decide) (by decide)
  have b : (Term.name "b").Plain := .name (by decide) (by decide)
  have c : (Term.name "c").Plain := .name (by decide) (by decide)
  have member {value : Term} (plain : value.Plain) : (Term.member value "d").Plain :=
    .member (by decide) plain
  refine ⟨member (.group (.conditional b a c)), .conditional b a (member c), _, _, rfl, rfl,
    rfl, rfl, ?_⟩
  intro same
  have callees : some "." = some "if" := congrArg Node.calleeName? same
  revert callees
  decide

end TreePass
