import TreePass.Proofs.Source.Spelling
import TreePass.Proofs.Source.Uses

/-!
What reading puts together. Whatever is read, the result is built of literals, names, calls and
function literals, in a way that shows which uses of names and which functions went into it. The
recursion of the reader is followed once, and what holds of its results follows from how they are
built.
-/

set_option autoImplicit false
set_option relaxedAutoImplicit false

namespace TreePass

def Value.IsPlain : Value → Prop
  | .none | .bool _ | .int _ | .float _ | .complex _ _ | .str _ | .ragged _ | .bytes _
  | .ellipsis => True
  | .list _ | .tuple _ | .map _ | .node _ | .scope _ | .identity _ => False

namespace Source

namespace Literal

private theorem isPlain_ofCodes (codes : List Nat) : (Value.ofCodes codes).IsPlain := by
  unfold Value.ofCodes
  split <;> trivial

private theorem isPlain_join (first second : Value) : (join first second).IsPlain := by
  unfold join
  split
  · trivial
  · split
    · exact isPlain_ofCodes _
    · trivial

variable {characters : CharacterNames}

private theorem isPlain_string? {text : String} {value : Value}
    (found : string? characters text = some value) : value.IsPlain := by
  unfold string? at found
  dsimp only at found
  split at found
  · cases found
  · obtain ⟨codes, _, rfl⟩ := Option.map_eq_some_iff.mp found
    split
    · trivial
    · exact isPlain_ofCodes codes

private theorem isPlain_pieces? {pieces : List Piece} {value : Value}
    (found : pieces? characters pieces = some value) : value.IsPlain := by
  unfold pieces? at found
  split at found
  · obtain rfl := Option.some.inj found
    trivial
  · obtain rfl := Option.some.inj found
    trivial
  · obtain rfl := Option.some.inj found
    trivial
  · exact isPlain_string? found
  · simp only [Option.bind_eq_bind, Option.bind_eq_some_iff] at found
    obtain ⟨left, _, right, _, same⟩ := found
    obtain rfl := Option.some.inj same
    exact isPlain_join left right

private theorem isPlain_imaginary? {text : String} {value : Value}
    (found : imaginary? text = some value) : value.IsPlain := by
  obtain ⟨_, _, rfl⟩ := Option.map_eq_some_iff.mp found
  trivial

end Literal

/-- Two characters with their names. -/
def someNames : CharacterNames
  | "BULLET" => some '•'
  | "LINE FEED" => some '\n'
  | _ => none

example : Literal.pieces? someNames [.plain "'\\N\x7bBULLET\x7d'", .plain "'s'"] =
    some (.str "•s") := by rfl

namespace Reading

/-- The ways in which reading a definition can fail: a construct is refused, or a literal has no
value. -/
def IsRefusal (fault : ReadError) : Prop :=
  (∃ construct detail, fault = .unsupported construct detail) ∨ fault = .literal

/-- A reading whose value has the property, or that refuses. -/
inductive Gives {α : Type} (property : α → Prop) : Result α → Prop
  | ok {a : α} (holds : property a) : Gives property (.ok a)
  | error {fault : ReadError} (refusal : IsRefusal fault) : Gives property (.error fault)

namespace Gives

variable {α β : Type} {property : α → Prop} {property' : β → Prop}

theorem pure {a : α} (holds : property a) : Gives property (pure a) := .ok holds

theorem unsupported {construct : String} {detail : Option String} :
    Gives property (.error (.unsupported construct detail)) := .error (.inl ⟨_, _, rfl⟩)

theorem refuse {construct : String} : Gives property (refuse construct) := .unsupported

theorem bind {first : Result α} {next : α → Result β} (gives : Gives property first)
    (later : ∀ a, property a → Gives property' (next a)) : Gives property' (first >>= next) := by
  cases gives with
  | ok holds => exact later _ holds
  | error refusal => exact .error refusal

theorem bind_eq {first : Result α} {next : α → Result β} (gives : Gives property first)
    (later : ∀ a, first = .ok a → property a → Gives property' (next a)) :
    Gives property' (first >>= next) := by
  cases gives with
  | ok holds => exact later _ rfl holds
  | error refusal => exact .error refusal

theorem mono {property' : α → Prop} {result : Result α} (gives : Gives property result)
    (weaker : ∀ a, property a → property' a) : Gives property' result := by
  cases gives with
  | ok holds => exact .ok (weaker _ holds)
  | error refusal => exact .error refusal

theorem of_eq_ok {result : Result α} {a : α} (gives : Gives property result)
    (read : result = .ok a) : property a := by
  subst read
  cases gives with
  | ok holds => exact holds

end Gives

variable (characters : CharacterNames) (spelled : Prop)

/-- How expressions are put together out of uses of names and functions. In a text whose names are
spelled as words, the names of variables, members, arguments and parameters are words. -/
inductive Builds : List Mention → List Closure → List Expr → Prop
  | nil : Builds [] [] []
  | append {mentions mentions' : List Mention} {closures closures' : List Closure}
    {values values' : List Expr} : Builds mentions closures values →
    Builds mentions' closures' values' →
    Builds (mentions ++ mentions') (closures ++ closures') (values ++ values')
  /-- Uses at places that are not plain may be left out. -/
  | plain {mentions mentions' : List Mention} {closures : List Closure} {values : List Expr}
    (same : Mention.plain mentions' = Mention.plain mentions) :
    Builds mentions closures values → Builds mentions' closures values
  | literal {value : Value} (plain : value.IsPlain) : Builds [] [] [atomic value]
  | name {text : String} (word : spelled → IsWord text) :
    Builds [{ name := text }] [] [nameExpr text]
  | symbol {text : String} (word : spelled → IsWord text) :
    Builds [{ name := text }] [] [symbol text]
  | known {name : String} {mentions : List Mention} {closures : List Closure} {values : List Expr}
    (known : name ∈ vocabulary) (other : name ≠ ".") :
    Builds mentions closures values → Builds mentions closures [call name values]
  | member {name : String} {mentions : List Mention} {closures : List Closure} {value : Expr}
    (word : spelled → IsWord name) : Builds mentions closures [value] →
    Builds mentions closures [call "." [value, atomic (.str name)]]
  | invoke {callee : Expr} {args : List (Option String × Expr)}
    {mentions mentions' : List Mention} {closures closures' : List Closure}
    (names : spelled → ∀ a ∈ args, ∀ name ∈ a.1, IsWord name) :
    Builds mentions closures [callee] → Builds mentions' closures' (args.map (·.2)) →
    Builds (mentions ++ mentions') (closures ++ closures') [.call 0 callee args]
  | function {closure : Closure} {params : List (String × Option Expr)} {body : Expr}
    {mentions mentions' : List Mention} {closures closures' : List Closure}
    (read : closure.read characters = .ok (.pairlist 0 params, body))
    (names : spelled → ∀ p ∈ params, IsWord p.1) :
    Builds mentions closures (Node.defaults params) → Builds mentions' closures' [body] →
    Builds (mentions ++ mentions') (closure :: (closures ++ closures'))
      [call "function" [.pairlist 0 params, body]]

variable {characters : CharacterNames} {spelled : Prop}

private theorem literal_builds {value? : Option Value} (plain : ∀ value ∈ value?, value.IsPlain) :
    Gives (Builds characters spelled [] [] [·]) (literal value?) := by
  cases value? with
  | none => exact .error (.inr rfl)
  | some value => exact .ok (.literal (plain value rfl))

private theorem stringsExpr_builds (pieces : List Piece) :
    Gives (Builds characters spelled (Mention.inTerm (.strings pieces)) [] [·])
      (stringsExpr characters pieces) := by
  have hidden : Mention.plain (Mention.inTerm (.strings pieces)) = Mention.plain [] := by
    rw [Mention.inTerm]
    exact Mention.plain_moved (by decide) _
  unfold stringsExpr
  split
  · exact .refuse
  · exact (literal_builds fun _ found => Literal.isPlain_pieces? found).mono fun _ builds =>
      builds.plain hidden

structure BuildsOperands (characters : CharacterNames) (spelled : Prop)
    (mentions : List Mention) (closures : List Closure) (rest : List (CompareOp × Expr)) :
    Prop where
  alone : Builds characters spelled mentions closures (rest.map (·.2))
  behind : Builds characters spelled mentions closures (compareArgs rest)

private theorem comparisonExpr_builds {left : Expr} {rest : List (CompareOp × Expr)}
    {mentions mentions' : List Mention} {closures closures' : List Closure}
    (onLeft : Builds characters spelled mentions closures [left])
    (onRest : BuildsOperands characters spelled mentions' closures' rest) :
    Builds characters spelled (mentions ++ mentions') (closures ++ closures')
      [comparisonExpr left rest] := by
  unfold comparisonExpr
  split
  · rename_i op _
    exact (onLeft.append onRest.alone).known (compare_mem_vocabulary op) (by cases op <;> decide)
  · exact (onLeft.append onRest.behind).known (by decide) (by decide)

structure BuildsParams (characters : CharacterNames) (spelled : Prop) (mentions : List Mention)
    (closures : List Closure) (params : List (String × Option Expr)) : Prop where
  names : spelled → ∀ p ∈ params, IsWord p.1
  defaults : Builds characters spelled mentions closures (Node.defaults params)

mutual

private theorem expr_builds (term : Term) (words : spelled → term.Spelled) :
    Gives (Builds characters spelled (Mention.inTerm term) (Closure.inTerm term) [·])
      (expr characters term) := by
  cases term with
  | name text =>
    rw [expr]
    exact .ok (.name words)
  | integer text =>
    rw [expr]
    exact literal_builds (by simp [Value.IsPlain])
  | float text =>
    rw [expr]
    exact literal_builds (by simp [Value.IsPlain])
  | imaginary text =>
    rw [expr]
    exact literal_builds fun _ found => Literal.isPlain_imaginary? found
  | strings pieces =>
    rw [expr]
    exact stringsExpr_builds pieces
  | ellipsis =>
    rw [expr]
    exact .ok (.literal trivial)
  | binary op left right =>
    rw [expr]
    refine (expr_builds left fun w => (words w).1).bind fun _ onLeft => ?_
    refine (expr_builds right fun w => (words w).2).bind fun _ onRight => ?_
    exact .pure ((onLeft.append onRight).known (binary_mem_vocabulary op) (by cases op <;> decide))
  | unary op operand =>
    rw [expr]
    refine (expr_builds operand words).bind fun _ inOperand => ?_
    exact .pure (inOperand.known (unary_mem_vocabulary op) (by cases op <;> decide))
  | boolean op left right =>
    rw [expr]
    refine (expr_builds left fun w => (words w).1).bind fun _ onLeft => ?_
    refine (expr_builds right fun w => (words w).2).bind fun _ onRight => ?_
    exact .pure ((onLeft.append onRight).known (boolean_mem_vocabulary op) (by cases op <;> decide))
  | comparison left rest =>
    rw [expr]
    refine (expr_builds left fun w => (words w).1).bind fun _ onLeft => ?_
    refine (operands_build rest fun w => (words w).2).bind fun _ onRest => ?_
    exact .pure (comparisonExpr_builds onLeft onRest)
  | call callee args =>
    rw [expr]
    refine (arguments_build args fun w => (words w).2).bind fun _ inArgs => ?_
    refine (expr_builds callee fun w => (words w).1).bind fun _ inCallee => ?_
    exact .pure (.invoke inArgs.1 inCallee inArgs.2)
  | member value name =>
    rw [expr]
    refine (expr_builds value fun w => (words w).1).bind fun _ inValue => ?_
    exact .pure (.member (fun w => (words w).2) inValue)
  | subscript value items =>
    rw [expr]
    refine (expr_builds value fun w => (words w).1).bind fun _ inValue => ?_
    refine (indices_build items fun w => (words w).2).bind fun _ inItems => ?_
    exact .pure ((inValue.append inItems).known (by decide) (by decide))
  | lambda params body =>
    rw [expr]
    refine (parameters_build params fun w => (words w).1).bind_eq
      fun formals readParams onParams => ?_
    refine (expr_builds body fun w => (words w).2).bind_eq fun value readBody inBody => ?_
    have own : (Closure.lambda params body).read characters = .ok (.pairlist 0 formals, value) := by
      simp only [Closure.read, bind_eq_ok, pure_eq_ok]
      exact ⟨formals, readParams, value, readBody, rfl⟩
    exact .pure (.function own onParams.names onParams.defaults inBody)
  | conditional body test otherwise =>
    rw [expr]
    refine (expr_builds test fun w => (words w).2.1).bind fun _ inTest => ?_
    refine (expr_builds body fun w => (words w).1).bind fun _ inBody => ?_
    refine (expr_builds otherwise fun w => (words w).2.2).bind fun _ inOtherwise => ?_
    exact .pure ((inTest.append (inBody.append inOtherwise)).known (by decide) (by decide))
  | tuple elements =>
    rw [expr]
    refine (sequence_builds elements words).bind fun _ inElements => ?_
    exact .pure (inElements.known (by decide) (by decide))
  | list elements =>
    rw [expr]
    refine (sequence_builds elements words).bind fun _ inElements => ?_
    exact .pure (inElements.known (by decide) (by decide))
  | starred _ =>
    rw [expr]
    exact .refuse
  | group inner =>
    rw [expr]
    exact expr_builds inner words
  | other _ =>
    rw [expr]
    exact .refuse

private theorem operands_build : ∀ rest : List (CompareOp × Term),
    (spelled → operandsSpelled rest) →
    Gives (BuildsOperands characters spelled (Mention.inOperands rest) (Closure.inOperands rest))
      (operands characters rest)
  | [], _ => by
    rw [operands]
    exact .ok ⟨.nil, .nil⟩
  | (op, term) :: rest, words => by
    rw [operands]
    refine (expr_builds term fun w => (words w).1).bind fun _ onFirst => ?_
    refine (operands_build rest fun w => (words w).2).bind fun _ onRest => ?_
    have shown : Value.IsPlain (.str op.text) := trivial
    have link := (Builds.literal shown).append onFirst
    exact .pure ⟨onFirst.append onRest.alone, link.append onRest.behind⟩

private theorem arguments_build : ∀ args : List (Passing × Term),
    (spelled → argumentsSpelled args) →
    Gives (fun out => (spelled → ∀ a ∈ out, ∀ name ∈ a.1, IsWord name) ∧
      Builds characters spelled (Mention.inArguments args) (Closure.inArguments args)
        (out.map (·.2))) (arguments characters args)
  | [], _ => by
    rw [arguments]
    exact .ok ⟨(fun _ _ member => nomatch member), .nil⟩
  | (.positional, term) :: rest, words => by
    rw [arguments]
    refine (expr_builds term fun w => (words w).2.1).bind fun _ onFirst => ?_
    refine (arguments_build rest fun w => (words w).2.2).bind fun _ onRest => ?_
    exact .pure ⟨fun w => List.forall_mem_cons.mpr ⟨(fun _ found => nomatch found), onRest.1 w⟩,
      onFirst.append onRest.2⟩
  | (.keyword name, term) :: rest, words => by
    rw [arguments]
    refine (expr_builds term fun w => (words w).2.1).bind fun _ onFirst => ?_
    refine (arguments_build rest fun w => (words w).2.2).bind fun _ onRest => ?_
    exact .pure ⟨fun w => List.forall_mem_cons.mpr ⟨by simpa using (words w).1, onRest.1 w⟩,
      onFirst.append onRest.2⟩
  | (.starred, _) :: _, _ => by
    rw [arguments]
    exact .refuse
  | (.doubleStarred, _) :: _, _ => by
    rw [arguments]
    exact .refuse

private theorem indices_build : ∀ items : List Index, (spelled → indicesSpelled items) →
    Gives (Builds characters spelled (Mention.inIndices items) (Closure.inIndices items))
      (indices characters items)
  | [], _ => by
    rw [indices]
    exact .ok .nil
  | .item term :: rest, words => by
    rw [indices]
    refine (expr_builds term fun w => (words w).1).bind fun _ onFirst => ?_
    refine (indices_build rest fun w => (words w).2).bind fun _ onRest => ?_
    exact .pure (onFirst.append onRest)
  | .slice lower upper step :: rest, words => by
    rw [indices]
    refine (bound_builds lower fun w => (words w).1.1).bind fun _ onLower => ?_
    refine (bound_builds upper fun w => (words w).1.2.1).bind fun _ onUpper => ?_
    refine (bound_builds step fun w => (words w).1.2.2).bind fun _ onStep => ?_
    refine (indices_build rest fun w => (words w).2).bind fun _ onRest => ?_
    have bounds := onLower.append (onUpper.append onStep)
    exact .pure ((bounds.known (by decide) (by decide)).append onRest)

private theorem bound_builds : ∀ term? : Option Term, (spelled → optionalSpelled term?) →
    Gives (Builds characters spelled (Mention.inOptional term?) (Closure.inOptional term?) [·])
      (bound characters term?)
  | none, _ => by
    rw [bound]
    exact .ok (.literal trivial)
  | some term, words => by
    rw [bound]
    exact expr_builds term words

private theorem parameters_build : ∀ params : List Param, (spelled → paramsSpelled params) →
    Gives (BuildsParams characters spelled (Mention.inParams params) (Closure.inParams params))
      (parameters characters params)
  | [], _ => by
    rw [parameters]
    exact .ok ⟨(fun _ _ member => nomatch member), .nil⟩
  | .mk name hint none :: rest, words => by
    rw [parameters]
    refine (parameters_build rest fun w => (words w).2).bind fun _ onRest => ?_
    exact .pure ⟨fun w => List.forall_mem_cons.mpr ⟨(words w).1.1, onRest.names w⟩,
      onRest.defaults⟩
  | .mk name hint (some term) :: rest, words => by
    rw [parameters]
    refine (expr_builds term fun w => (words w).1.2).bind fun _ onFirst => ?_
    refine (parameters_build rest fun w => (words w).2).bind fun _ onRest => ?_
    exact .pure ⟨fun w => List.forall_mem_cons.mpr ⟨(words w).1.1, onRest.names w⟩,
      onFirst.append onRest.defaults⟩

private theorem sequence_builds : ∀ elements : List Term, (spelled → termsSpelled elements) →
    Gives (Builds characters spelled (Mention.inTerms elements) (Closure.inTerms elements))
      (sequence characters elements)
  | [], _ => by
    rw [sequence]
    exact .ok .nil
  | term :: rest, words => by
    unfold sequence
    split
    · rename_i empty
      cases empty
    · exact .refuse
    · rename_i same
      obtain ⟨rfl, rfl⟩ := List.cons.inj same
      refine (expr_builds term fun w => (words w).1).bind fun _ onFirst => ?_
      refine (sequence_builds rest fun w => (words w).2).bind fun _ onRest => ?_
      exact .pure (onFirst.append onRest)

end

private theorem target_builds (term : Term) (words : spelled → term.Spelled) :
    Gives (Builds characters spelled (Mention.inTerm term) (Closure.inTerm term) [·])
      (target characters term) := by
  unfold target
  split
  · exact expr_builds term words
  · exact expr_builds term words
  · exact expr_builds term words
  · exact .unsupported

/-- The variable of a loop stands for itself; parentheses around it do not matter. -/
theorem loopTarget_builds (characters : CharacterNames) (term : Term)
    (words : spelled → term.Spelled) :
    Gives (Builds characters spelled (Mention.inTerm term) [] [·]) (loopTarget term) := by
  unfold loopTarget
  fun_induction Term.ungroup term with
  | case1 inner ih =>
    rw [Mention.inTerm]
    exact ih words
  | case2 term noGroup =>
    split
    · exact .ok (.symbol words)
    · exact .unsupported

private theorem assignments_build {value : Expr} {mentions : List Mention} {closures : List Closure}
    (given : Builds characters spelled mentions closures [value]) (targets : List Term)
    (words : spelled → Spelled.spelled targets) :
    Gives (Builds characters spelled (Mention.inTerms targets ++ mentions)
      (Closure.inTerms targets ++ closures) [·]) (assignments characters targets value) := by
  induction targets with
  | nil => exact .ok given
  | cons first rest ih =>
    simp only [Spelled.spelled_cons] at words
    rw [assignments, Mention.inTerms, Closure.inTerms, List.append_assoc, List.append_assoc]
    refine (ih fun w => (words w).2).bind fun _ onRest => ?_
    refine (target_builds first fun w => (words w).1).bind fun _ onFirst => ?_
    exact .pure ((onFirst.append onRest).known (by decide) (by decide))

private theorem small_builds (statement : Small) (words : spelled → statement.Spelled) :
    Gives (Builds characters spelled (Mention.inSmall statement) (Closure.inSmall statement) [·])
      (small characters statement) := by
  cases statement with
  | assign targets value =>
    rw [small]
    exact (expr_builds value fun w => (words w).2).bind fun _ inValue =>
      assignments_build inValue targets fun w => (words w).1
  | augmented place op value =>
    rw [small]
    refine (target_builds place fun w => (words w).1).bind fun _ inAssigned => ?_
    refine (target_builds place fun w => (words w).1).bind fun _ inCurrent => ?_
    refine (expr_builds value fun w => (words w).2).bind fun _ inChange => ?_
    have changed := (inCurrent.append inChange).known (binary_mem_vocabulary op)
      (by cases op <;> decide)
    exact .pure ((inAssigned.append changed).known (by decide) (by decide))
  | typed place hint value =>
    cases value with
    | none =>
      have nothing : Builds characters spelled [] [] [atomic .none] := .literal trivial
      have hidden : Mention.plain (Mention.inDeclared place) = Mention.plain [] :=
        Mention.plain_inDeclared place
      exact .ok (nothing.plain hidden)
    | some value =>
      rw [small]
      refine (target_builds place fun w => (words w).1).bind fun _ inPlace => ?_
      refine (expr_builds value fun w => Spelled.spelled_some.mp (words w).2).bind
        fun _ inValue => ?_
      exact .pure ((inPlace.append inValue).known (by decide) (by decide))
  | expression value =>
    rw [small]
    exact expr_builds value words
  | returns value =>
    cases value with
    | none => exact .ok (Builds.nil.known (by decide) (by decide))
    | some value =>
      rw [small]
      refine (expr_builds value fun w => Spelled.spelled_some.mp (words w)).bind
        fun _ inValue => ?_
      exact .pure (inValue.known (by decide) (by decide))
  | pass => exact .ok (.literal trivial)
  | breaks => exact .ok (Builds.nil.known (by decide) (by decide))
  | continues => exact .ok (Builds.nil.known (by decide) (by decide))
  | other _ => exact .refuse

private theorem smalls_build (list : List Small) (words : spelled → Spelled.spelled list) :
    Gives (Builds characters spelled (list.flatMap Mention.inSmall) (list.flatMap Closure.inSmall))
      (smalls characters list) := by
  induction list with
  | nil => exact .ok .nil
  | cons first rest ih =>
    simp only [Spelled.spelled_cons] at words
    rw [smalls, List.flatMap_cons, List.flatMap_cons]
    refine (small_builds first fun w => (words w).1).bind fun _ onFirst => ?_
    refine (ih fun w => (words w).2).bind fun _ onRest => ?_
    exact .pure (onFirst.append onRest)

/-- The parameter list and the body of a definition with what they are built of. -/
inductive BuildsParts (characters : CharacterNames) (spelled : Prop) :
    Definition → Expr × Expr → Prop
  | mk {asynchronous : Bool} {decorators : List Term} {name : String} {params : List Param}
    {returns : Option Term} {statements : List Statement} {formals : List (String × Option Expr)}
    {body : Expr}
    (onParams : BuildsParams characters spelled (Mention.inParams params) (Closure.inParams params)
      formals)
    (inBody : Builds characters spelled (Mention.inStatements statements)
      (Closure.inStatements statements) [body]) :
    BuildsParts characters spelled (.mk asynchronous decorators name params returns statements)
      (.pairlist 0 formals, body)

theorem BuildsParts.isPairlist {d : Definition} {parts : Expr × Expr}
    (builds : BuildsParts characters spelled d parts) : parts.1.isPairlist = true := by
  obtain ⟨_, _⟩ := builds
  rfl

theorem BuildsParts.literal {d : Definition} {parts : Expr × Expr}
    (builds : BuildsParts characters spelled d parts) (read : definition characters d = .ok parts) :
    Builds characters spelled (Mention.inDefinition d) (Closure.inDefinition d)
      [call "function" [parts.1, parts.2]] := by
  have image : (Closure.definition d).read characters = .ok parts := read
  obtain ⟨onParams, inBody⟩ := builds
  rw [Mention.inDefinition, Closure.inDefinition]
  exact .function image onParams.names onParams.defaults inBody

mutual

private theorem statement_builds : ∀ s : Statement, (spelled → s.Spelled) →
    Gives (Builds characters spelled (Mention.inStatement s) (Closure.inStatement s))
      (statement characters s)
  | .line list, words => by
    rw [statement]
    exact smalls_build list words
  | .conditional test body rest, words => by
    rw [statement]
    refine (expr_builds test fun w => (words w).1).bind fun _ inTest => ?_
    refine (statements_build body fun w => (words w).2.1).bind fun _ inBody => ?_
    refine (alternative_builds rest fun w => (words w).2.2).bind fun _ inRest => ?_
    have branches := (inBody.known (by decide : "\x7b" ∈ vocabulary) (by decide)).append inRest
    exact .pure ((inTest.append branches).known (by decide) (by decide))
  | .forLoop asynchronous variable_ iter body hasElse, words => by
    rw [statement]
    split
    · exact .refuse
    · refine (loopTarget_builds characters variable_ fun w => (words w).1).bind
        fun _ inVariable => ?_
      refine (expr_builds iter fun w => (words w).2.1).bind fun _ inIter => ?_
      refine (statements_build body fun w => (words w).2.2).bind fun _ inBody => ?_
      have turns := inIter.append (inBody.known (by decide : "\x7b" ∈ vocabulary) (by decide))
      exact .pure ((inVariable.append turns).known (by decide) (by decide))
  | .whileLoop test body hasElse, words => by
    rw [statement]
    split
    · exact .refuse
    · refine (expr_builds test fun w => (words w).1).bind fun _ inTest => ?_
      refine (statements_build body fun w => (words w).2).bind fun _ inBody => ?_
      have turns := inTest.append (inBody.known (by decide : "\x7b" ∈ vocabulary) (by decide))
      exact .pure (turns.known (by decide) (by decide))
  | .define d, words => by
    rw [statement]
    refine (definition_builds d words).bind_eq fun ⟨params, body⟩ read parts => ?_
    have name : Builds characters spelled [{ name := d.name }] [] [symbol d.name] :=
      .symbol fun w => Definition.Spelled.isWord_name (words w)
    have bound :=
      (name.append (parts.literal read)).known (by decide : "=" ∈ vocabulary) (by decide)
    refine .pure (bound.plain ?_)
    rw [Mention.inStatement, Mention.plain_append, Mention.plain_inDecorators]
    rfl
  | .other _, _ => by
    rw [statement]
    exact .refuse

private theorem statements_build : ∀ list : List Statement, (spelled → statementsSpelled list) →
    Gives (Builds characters spelled (Mention.inStatements list) (Closure.inStatements list))
      (statements characters list)
  | [], _ => by
    rw [statements]
    exact .ok .nil
  | first :: rest, words => by
    rw [statements]
    refine (statement_builds first fun w => (words w).1).bind fun _ onFirst => ?_
    refine (statements_build rest fun w => (words w).2).bind fun _ onRest => ?_
    exact .pure (onFirst.append onRest)

private theorem alternative_builds : ∀ rest : Alternative, (spelled → rest.Spelled) →
    Gives (Builds characters spelled (Mention.inAlternative rest) (Closure.inAlternative rest))
      (alternative characters rest)
  | .nothing, _ => by
    rw [alternative]
    exact .ok .nil
  | .otherwise body, words => by
    rw [alternative]
    refine (statements_build body words).bind fun _ inBody => ?_
    exact .pure (inBody.known (by decide) (by decide))
  | .elseIf test body rest, words => by
    rw [alternative]
    refine (expr_builds test fun w => (words w).1).bind fun _ inTest => ?_
    refine (statements_build body fun w => (words w).2.1).bind fun _ inBody => ?_
    refine (alternative_builds rest fun w => (words w).2.2).bind fun _ inRest => ?_
    have branches := (inBody.known (by decide : "\x7b" ∈ vocabulary) (by decide)).append inRest
    exact .pure ((inTest.append branches).known (by decide) (by decide))

theorem definition_builds : ∀ d : Definition, (spelled → d.Spelled) →
    Gives (BuildsParts characters spelled d) (definition characters d)
  | .mk asynchronous decorators name params returns body, words => by
    rw [definition]
    split
    · exact .unsupported
    · refine (parameters_build params fun w => paramsSpelled_iff.mpr (words w).2.1).bind
        fun _ onParams => ?_
      refine (statements_build body fun w => (words w).2.2).bind fun _ inBody => ?_
      exact .pure (.mk onParams (inBody.known (by decide) (by decide)))

end

end Reading

end Source

end TreePass
