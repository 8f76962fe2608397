import TreePass.Proofs.Source.Assembly

/-!
The names that a definition uses, and the names in the expression it is read as. The names in
decorators of inner definitions, in the fields of joined formatted strings and in the places of
declarations without a value are lost. Every other use of a name has a leaf of its own in the
parameters or the body, in order, and besides these leaves there are only the words that stand for
operators, keywords and absent values.
-/

set_option autoImplicit false
set_option relaxedAutoImplicit false

namespace TreePass

namespace Node

/-- The name that a leaf can be read from: that of a variable, or that of a constant. -/
def word? : Expr → Option String
  | .symbol _ name => some name
  | .atomic _ (.bool true) => some "True"
  | .atomic _ (.bool false) => some "False"
  | .atomic _ .none => some "None"
  | _ => none

/-- The names at the leaves of a tree, from left to right. -/
def words (node : Expr) : List String := node.nodes.filterMap word?

private theorem words_call (tag : Tag) (callee : Expr) (args : List (Option String × Expr)) :
    words (.call tag callee args) = words callee ++ (args.map (·.2)).flatMap words := by
  have below : (nodesOfArgs args).filterMap word? = (args.map (·.2)).flatMap words := by
    rw [nodesOfArgs_eq, List.filterMap_flatMap]
    rfl
  rw [words, nodes, List.filterMap_cons_none rfl, List.filterMap_append, below]
  rfl

private theorem words_pairlist (tag : Tag) (params : List (String × Option Expr)) :
    words (.pairlist tag params) = (defaults params).flatMap words := by
  have below : (nodesOfParams params).filterMap word? = (defaults params).flatMap words := by
    rw [nodesOfParams_eq, List.filterMap_flatMap]
    rfl
  rw [words, nodes, List.filterMap_cons_none rfl, below]

end Node

namespace Source

namespace Reading

/-- Expressions in which each plain use of a name has a leaf of its own, in order, and whose other
leaves are words of the vocabulary. -/
structure Shows (mentions : List Mention) (values : List Expr) : Prop where
  kept : (Mention.plain mentions).Sublist (values.flatMap Node.words)
  own : (values.flatMap Node.words).filter isOwn = (Mention.plain mentions).filter isOwn

namespace Shows

variable {mentions mentions' : List Mention}

theorem nil : Shows [] [] := ⟨.slnil, rfl⟩

theorem atomic (value : Value) : Shows [] [atomic value] where
  kept := List.nil_sublist _
  own := by
    cases value with
    | bool b => cases b <;> rfl
    | none | int | float | complex | str | ragged | bytes | ellipsis => rfl
    | list | tuple | map | node | scope | identity => rfl

theorem symbol (name : String) : Shows [{ name }] [symbol name] :=
  ⟨List.Sublist.refl _, rfl⟩

theorem nameExpr (text : String) : Shows [{ name := text }] [nameExpr text] := by
  unfold Reading.nameExpr
  split_ifs with isTrue isFalse isNone
  · subst isTrue
    exact ⟨List.Sublist.refl _, rfl⟩
  · subst isFalse
    exact ⟨List.Sublist.refl _, rfl⟩
  · subst isNone
    exact ⟨List.Sublist.refl _, rfl⟩
  · exact symbol text

theorem append {values values' : List Expr} (first : Shows mentions values)
    (second : Shows mentions' values') : Shows (mentions ++ mentions') (values ++ values') where
  kept := by
    rw [Mention.plain_append, List.flatMap_append]
    exact first.kept.append second.kept
  own := by
    rw [Mention.plain_append, List.flatMap_append, List.filter_append, List.filter_append,
      first.own, second.own]

theorem congr {values : List Expr} (shows : Shows mentions values)
    (same : Mention.plain mentions' = Mention.plain mentions) : Shows mentions' values := by
  refine ⟨?_, ?_⟩
  · rw [same]
    exact shows.kept
  · rw [same]
    exact shows.own

theorem invoke {callee : Expr} {args : List (Option String × Expr)}
    (called : Shows mentions [callee]) (given : Shows mentions' (args.map (·.2))) :
    Shows (mentions ++ mentions') [.call 0 callee args] := by
  have parts : [(.call 0 callee args : Expr)].flatMap Node.words =
      ([callee] ++ args.map (·.2)).flatMap Node.words := by
    simp [Node.words_call]
  have both := called.append given
  exact ⟨parts ▸ both.kept, parts ▸ both.own⟩

theorem call {values : List Expr} (given : Shows mentions values) (name : String)
    (known : name ∈ vocabulary) : Shows mentions [call name values] := by
  have words : [Reading.call name values].flatMap Node.words =
      name :: values.flatMap Node.words := by
    rw [List.flatMap_singleton, Reading.call, Node.words_call]
    simp [Reading.symbol, Node.words, Node.nodes, Node.word?, Function.comp_def]
  refine ⟨?_, ?_⟩
  · rw [words]
    exact given.kept.cons name
  · have foreign : isOwn name = false := by simpa [isOwn] using known
    rw [words, List.filter_cons_of_neg (by simp [foreign]), given.own]

theorem pairlist {params : List (String × Option Expr)}
    (given : Shows mentions (Node.defaults params)) : Shows mentions [.pairlist 0 params] := by
  have words : [(.pairlist 0 params : Expr)].flatMap Node.words =
      (Node.defaults params).flatMap Node.words := by
    simp [Node.words_pairlist]
  exact ⟨words ▸ given.kept, words ▸ given.own⟩

end Shows

variable {characters : CharacterNames}

theorem Builds.shows {mentions : List Mention} {closures : List Closure} {values : List Expr}
    (builds : Builds characters False mentions closures values) : Shows mentions values := by
  induction builds with
  | nil => exact .nil
  | append _ _ first second => exact first.append second
  | plain same _ shows => exact shows.congr same
  | literal => exact .atomic _
  | name => exact .nameExpr _
  | symbol => exact .symbol _
  | known known _ _ shows => exact shows.call _ known
  | @member name _ _ _ _ _ shows =>
    have both := shows.append (.atomic (.str name))
    rw [List.append_nil] at both
    exact both.call "." (by decide)
  | invoke _ _ _ called given => exact called.invoke given
  | function _ _ _ _ inDefaults inBody =>
    exact (inDefaults.pairlist.append inBody).call "function" (by decide)

theorem BuildsParts.shows {d : Definition} {parts : Expr × Expr}
    (builds : BuildsParts characters False d parts) :
    Shows (Mention.inDefinition d) [parts.1, parts.2] := by
  obtain ⟨onParams, inBody⟩ := builds
  exact onParams.defaults.shows.pairlist.append inBody.shows

end Reading

/-- Every plain use of a name in a definition has a leaf of its own in what the definition is read
as, in the same order. The other leaves are words of the vocabulary: a name outside of it occurs
exactly as often as it is used at plain places. A definition that is not read is refused, unless one
of its literals has no value. -/
theorem reading_keeps_plain_names (characters : CharacterNames) (d : Definition) :
    match Reading.definition characters d with
    | .ok (params, body) =>
      (Mention.plain (Mention.inDefinition d)).Sublist (params.words ++ body.words) ∧
        (params.words ++ body.words).filter Reading.isOwn =
          (Mention.plain (Mention.inDefinition d)).filter Reading.isOwn
    | .error fault =>
      (∃ construct detail, fault = .unsupported construct detail) ∨ fault = .literal := by
  have gives : Reading.Gives (Reading.BuildsParts characters False d)
      (Reading.definition characters d) := Reading.definition_builds d False.elim
  split
  · rename_i params body read
    have shown := (gives.of_eq_ok read).shows
    have both : [params, body].flatMap Node.words = params.words ++ body.words := by simp
    exact ⟨both ▸ shown.kept, both ▸ shown.own⟩
  · rename_i fault read
    rw [read] at gives
    cases gives with
    | error refusal => exact refusal

/-- A definition that is read, whatever characters have names, although a name it uses is not in
the result. -/
def Definition.Loses (d : Definition) (mention : Mention) : Prop :=
  mention ∈ Mention.inDefinition d ∧ ∀ characters : CharacterNames,
    ∃ params body, Reading.definition characters d = .ok (params, body) ∧
      mention.name ∉ params.words ++ body.words

/-- An inner definition `g` with the decorator `deco`. -/
def decoratedInside : Definition :=
  .mk false [] "f" [] none [.define (.mk false [.name "deco"] "g" [] none [.line [.pass]])]

/-- A plain string beside a formatted one with the field `x`. -/
def joinedStrings : Definition :=
  .mk false [] "f" [.mk "x" none none] none
    [.line [.returns (some (.strings [.plain "\"a\"", .formatted [.name "x"]]))]]

/-- A declaration of the item `i` of `a`, without a value. -/
def declaredItem : Definition :=
  .mk false [] "f" [.mk "a" none none, .mk "i" none none] none
    [.line [.typed (.subscript (.name "a") [.item (.name "i")]) (.name "int") none]]

/-- Names are lost, and nothing is refused, at each place that is not plain. -/
theorem reading_loses_names :
    decoratedInside.Loses ⟨"deco", .decorator⟩ ∧ joinedStrings.Loses ⟨"x", .field⟩ ∧
      declaredItem.Loses ⟨"a", .declaration⟩ ∧ declaredItem.Loses ⟨"i", .declaration⟩ := by
  refine ⟨?_, ?_, ?_, ?_⟩
  all_goals exact ⟨by decide, fun _ => ⟨_, _, rfl, by decide⟩⟩

end Source

end TreePass
