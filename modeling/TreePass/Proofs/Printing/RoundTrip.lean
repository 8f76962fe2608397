import TreePass.Proofs.Printing.Rereading
import TreePass.Source.Function

/-!
Reading undoes printing: the function that returns a printed expression is read as a function whose
body is the block that returns the expression.
-/

set_option autoImplicit false
set_option relaxedAutoImplicit false

namespace TreePass

open Source Source.Lexer Source.Grammar

namespace Text.Margin

private theorem lines_cons {c : Char} (other : c ≠ '\n') {rest line : List Char}
    {more : List (List Char)}
    (divided : lines rest = line :: more) : lines (c :: rest) = (c :: line) :: more := by
  rw [lines, divided]
  exact other

private theorem lines_append {line : List Char} (inside : '\n' ∉ line) (rest : List Char) :
    lines (line ++ '\n' :: rest) = line :: lines rest := by
  induction line with
  | nil => rfl
  | cons c more ih =>
    have other : c ≠ '\n' := fun same => inside (same ▸ List.mem_cons_self)
    exact lines_cons other (ih fun member => inside (List.mem_cons_of_mem _ member))

private theorem removeMargin_two {first second : List Char} (inside : '\n' ∉ first)
    (inside' : '\n' ∉ second) (starts : ∃ c ∈ first.head?, isMargin c = false)
    (solid : second.all isMargin = false) :
    removeMargin (first ++ '\n' :: (second ++ ['\n'])) = first ++ '\n' :: (second ++ ['\n']) := by
  have divided : lines (first ++ '\n' :: (second ++ ['\n'])) = [first, second, []] := by
    rw [lines_append inside, lines_append inside']
    rfl
  obtain ⟨c, atHead, noMargin⟩ := starts
  cases first with
  | nil => cases atHead
  | cons d rest =>
    obtain rfl : d = c := Option.some.inj atHead
    have solid' : (d :: rest).all isMargin = false := by
      rw [List.all_cons, noMargin, Bool.false_and]
    have width : margin [d :: rest, second, []] = [] := by
      simp [margin, solid, noMargin, commonStart]
    have kept : [d :: rest, second, []].map (fun line =>
        if line.all isMargin then [] else line.drop 0) = [d :: rest, second, []] := by
      rw [List.map_cons, List.map_cons, solid, solid']
      rfl
    rw [removeMargin, divided, width]
    change ['\n'].intercalate ([d :: rest, second, []].map _) = _
    rw [List.length_nil, kept, List.intercalate_cons_cons, List.intercalate_cons_cons]
    simp

end Text.Margin

def returning (line : String) : String := "def f():\n    return " ++ line ++ "\n"

def opening : List Token :=
  [.word "def", .word "f", .mark "(", .mark ")", .mark ":", .newline, .indent, .word "return"]

def closing : List Token := [.newline, .dedent]

private theorem run_opening (lexField : List Char → Option (List Token)) (fuel : Nat)
    (rest : List Char) : run lexField (fuel + 11) ⟨[⟨0, 0⟩], 0, true, false⟩ []
        ("def f():\n    return ".toList ++ rest) =
      run lexField fuel (amid [⟨4, 4⟩, ⟨0, 0⟩] 0) opening.reverse rest := rfl

private theorem run_closing (lexField : List Char → Option (List Token)) (fuel : Nat)
    (done : List Token) :
    run lexField (fuel + 2) (amid [⟨4, 4⟩, ⟨0, 0⟩] 0) done ['\n'] =
      some (done.reverse ++ closing) := by
  change some ((Token.newline :: done).reverse ++ [] ++ [.dedent]) = _
  simp [closing]

private theorem tokens_returning {line : String} {tokens : List Token}
    (scans : Scans EndsNumber line.toList tokens) :
    Lexer.tokens ("def f():\n    return ".toList ++ (line.toList ++ ['\n'])) =
      some (opening ++ tokens ++ closing) := by
  have unmarked (rest : List Char) : dropMark ("def f():\n    return ".toList ++ rest) =
      "def f():\n    return ".toList ++ rest := rfl
  have ends : EndsNumber ['\n'] := by
    refine ⟨fun c member => ?_, by simp⟩
    obtain rfl : '\n' = c := Option.some.inj member
    decide
  have long : 11 + line.toList.length ≤
      ("def f():\n    return ".toList ++ (line.toList ++ ['\n'])).length := by
    have opened : "def f():\n    return ".toList.length = 20 := rfl
    rw [List.length_append, List.length_append, opened]
    omega
  rw [Lexer.tokens, unmarked]
  -- The lexer has two steps for each character, and the tokens of the line cost one at most.
  generalize ("def f():\n    return ".toList ++ (line.toList ++ ['\n'])).length = size at long
  obtain ⟨cost, few, ran⟩ :=
    scans (fieldTokens (size + 1)) [⟨4, 4⟩, ⟨0, 0⟩] 0 opening.reverse _ ends
  obtain ⟨spare, enough⟩ : ∃ spare, 2 * size + 2 = spare + 2 + cost + 11 :=
    ⟨2 * size + 2 - (2 + cost + 11), by omega⟩
  simp only [enough]
  rw [run_opening, ran, run_closing]
  simp

namespace Source

private theorem mixesAnywhere_of_plain {tokens : List Token} (plain : tokens.all isPlain = true) :
    Token.mixesAnywhere tokens = false := by
  have apart : ∀ tokens : List Token, tokens.all isPlain = true → Token.mixes tokens = false := by
    intro tokens plain
    induction tokens with
    | nil => rfl
    | cons first rest ih =>
      rw [List.all_cons, Bool.and_eq_true] at plain
      cases rest with
      | nil => rfl
      | cons second more =>
        have untyped : first.bytes? = none := by
          cases first with
          | string | formatted => cases plain.1
          | _ => rfl
        rw [Token.mixes, untyped, ih plain.2]
        rfl
  have inside : ∀ tokens : List Token, tokens.all isPlain = true →
      Token.anyInside tokens = false := by
    intro tokens plain
    induction tokens with
    | nil => rfl
    | cons first rest ih =>
      rw [List.all_cons, Bool.and_eq_true] at plain
      have simple : first.mixesInside = false := by
        cases first with
        | formatted => cases plain.1
        | _ => rfl
      rw [Token.anyInside, simple, ih plain.2]
      rfl
  rw [Token.mixesAnywhere, apart tokens plain, inside tokens plain]
  rfl

private theorem length_le_weights (tokens : List Token) : tokens.length ≤ Token.weights tokens := by
  induction tokens with
  | nil => exact Nat.zero_le _
  | cons token rest ih =>
    have one : 1 ≤ token.weight := by cases token <;> simp [Token.weight]
    rw [List.length_cons, Token.weights]
    omega

end Source

namespace Source.Grammar

variable {g : Level} {tokens : List Token} {term : Term}

private theorem starExpressions_run (operand : Operand tokens term) {depth : Nat}
    (deep : tokens.length ≤ depth) (rest : List Token) :
    starExpressions (.ofDepth (depth + 1)) (tokens ++ .newline :: rest) =
      some (term, .newline :: rest) := by
  have ran : (Level.ofDepth (depth + 1)).expression (tokens ++ .newline :: rest) =
      some (term, .newline :: rest) := operand.whole.expression depth deep _ (.line rest)
  have first : starExpression (.ofDepth (depth + 1)) (tokens ++ .newline :: rest) =
      some (term, .newline :: rest) := by
    rw [starExpression, bind_of_run (operand.begins.optionalMark (by decide) _)]
    exact ran
  rw [starExpressions, bind_of_run first]
  rfl

private theorem small_run (operand : Operand tokens term) {depth : Nat}
    (deep : tokens.length ≤ depth) (rest : List Token) :
    small (.ofDepth (depth + 1)) (.word "return" :: (tokens ++ .newline :: rest)) =
      some (.returns (some term), .newline :: rest) := by
  have chosen (more : List Token) : small (.ofDepth (depth + 1)) (.word "return" :: more) =
      (nextIsExpression >>= fun found =>
        if found then some <$> starExpressions (.ofDepth (depth + 1)) >>= (pure <| .returns ·)
        else pure none >>= (pure <| .returns ·)) more := rfl
  have value : (some <$> starExpressions (.ofDepth (depth + 1))) (tokens ++ .newline :: rest) =
      some (some term, .newline :: rest) := by
    change (starExpressions (.ofDepth (depth + 1)) _).bind _ = _
    rw [starExpressions_run operand deep]
    rfl
  rw [chosen, bind_of_run (operand.begins.nextIsExpression _)]
  rw [if_pos rfl, bind_of_run value]
  rfl

private theorem line_run (operand : Operand tokens term) {depth : Nat}
    (deep : tokens.length ≤ depth) (rest : List Token) :
    Grammar.line (.ofDepth (depth + 1)) (.word "return" :: (tokens ++ .newline :: rest)) =
      some (.line [.returns (some term)], rest) := by
  rw [Grammar.line, bind_of_run (small_run operand deep rest)]
  rfl

private theorem block_run (operand : Operand tokens term) {depth : Nat}
    (deep : tokens.length ≤ depth) (nested : Nat) :
    block (.ofDepth (depth + 1)) (nested + 1)
        (.newline :: .indent :: .word "return" :: (tokens ++ closing)) =
      some ([.line [.returns (some term)]], []) := by
  have inside (more : List Token) : statement (.ofDepth (depth + 1))
      (block (.ofDepth (depth + 1)) nested) (.word "return" :: more) =
      Grammar.line (.ofDepth (depth + 1)) (.word "return" :: more) := rfl
  have first := (inside _).trans (line_run operand deep [.dedent])
  have lineEnd (more : List Token) : newline (.newline :: more) = some ((), more) := rfl
  have margin (more : List Token) : indent (.indent :: more) = some ((), more) := rfl
  rw [closing, block, blockOver, bind_of_run (ahead_run _)]
  dsimp only
  rw [bind_of_run (lineEnd _), bind_of_run (margin _), bind_of_run first]
  rfl

end Source.Grammar

private theorem module_returning {tokens : List Token} {term : Term}
    (operand : Operand tokens term) : Grammar.module (opening ++ tokens ++ closing) =
      some [.define (.mk false [] "f" [] none [.line [.returns (some term)]])] := by
  have long := length_le_weights (opening ++ tokens ++ closing)
  have deep : tokens.length ≤ Token.weights (opening ++ tokens ++ closing) := by
    rw [List.length_append, List.length_append] at long
    omega
  rw [Grammar.module]
  generalize Token.weights (opening ++ tokens ++ closing) = depth at deep
  have defined : statement (.ofDepth (depth + 1)) (block (.ofDepth (depth + 1)) (depth + 1))
      (opening ++ tokens ++ closing) =
      some (.define (.mk false [] "f" [] none [.line [.returns (some term)]]), []) := by
    have opened (more : List Token) : statement (.ofDepth (depth + 1))
        (block (.ofDepth (depth + 1)) (depth + 1)) (opening ++ more) =
        (block (.ofDepth (depth + 1)) (depth + 1) >>= fun body =>
          pure (.define (.mk false [] "f" [] none body)))
          (.newline :: .indent :: .word "return" :: more) := rfl
    rw [List.append_assoc, opened, bind_of_run (block_run operand deep depth)]
    rfl
  have whole : manyWhile (do return !(← atEnd))
      (statement (.ofDepth (depth + 1)) (block (.ofDepth (depth + 1)) (depth + 1)))
      (opening ++ tokens ++ closing) =
      some ([.define (.mk false [] "f" [] none [.line [.returns (some term)]])], []) := by
    rw [manyWhile_run]
    exact repeatWhile_step rfl defined (repeatWhile_stop _ rfl _)
  rw [bind_of_run whole]
  rfl

private theorem toList_returning (line : String) :
    (returning line).toList = "def f():\n    return ".toList ++ (line.toList ++ ['\n']) := by
  have last : "\n".toList = ['\n'] := rfl
  unfold returning
  rw [String.toList_append, String.toList_append, List.append_assoc, last]

private theorem removeMargin_returning {line : String} (inside : '\n' ∉ line.toList) :
    Text.Margin.removeMargin (returning line).toList = (returning line).toList := by
  have split : (returning line).toList =
      "def f():".toList ++ '\n' :: (("    return ".toList ++ line.toList) ++ ['\n']) := by
    rw [toList_returning]
    rfl
  have solid : ("    return ".toList ++ line.toList).all Text.Margin.isMargin = false := rfl
  rw [split, Text.Margin.removeMargin_two (by decide) (by simp [inside])
    ⟨'d', rfl, by decide⟩ solid]

/-- Reading undoes printing: the body of the function that returns the line of a tree is the block
that returns the tree. -/
theorem read_undoes_render (characters : CharacterNames) {node : Expr}
    (rereadable : Rereadable node) (names : Environment) :
    Function.read characters (returning node.render) none names =
      .ok {
        params := .pairlist 0 []
        body := Reading.call "\x7b" [Reading.call "return" [node.bare]]
        env := some (names ++ Environment.standard)
        name := some "f" } := by
  obtain ⟨tokens, term, reread⟩ := rereadable.reread
  have parsed : parse (returning node.render) =
      .ok [.define (.mk false [] "f" [] none [.line [.returns (some term)]])] := by
    have plain : (opening ++ tokens ++ closing).all isPlain = true := by
      rw [List.all_append, List.all_append, reread.operand.plain]
      rfl
    rw [parse, removeMargin_returning reread.line, toList_returning]
    simp only [tokens_returning reread.scans, module_returning reread.operand,
      mixesAnywhere_of_plain plain, Bool.false_eq_true, if_false]
  have read : Reading.definition characters
      (.mk false [] "f" [] none [.line [.returns (some term)]]) =
      .ok (.pairlist 0 [], Reading.call "\x7b" [Reading.call "return" [node.bare]]) := by
    rw [Reading.definition, if_neg (by decide), Reading.statements, Reading.statement,
      Reading.smalls, Reading.small, reread.read]
    rfl
  have found : findDefinition (returning node.render) none =
      .ok (.mk false [] "f" [] none [.line [.returns (some term)]]) := by
    rw [findDefinition, parsed]
    rfl
  rw [Function.read, found]
  change Function.ofDefinition _ _ _ = _
  rw [Function.ofDefinition, read]
  rfl

/-- A call whose callee is a subscript of a member of a chain of comparisons. -/
def callOfSubscript : Expr :=
  .call 0
    (Reading.call "[" [
      Reading.call "." [
        Reading.call "compare" [
          Reading.symbol "a", Reading.atomic (.str "<"), Reading.symbol "b",
          Reading.atomic (.str "is not"), Reading.symbol "c"],
        Reading.atomic (.str "m")],
      Reading.atomic (.int 0),
      Reading.call "not" [Reading.symbol "z"]])
    [(none, Reading.atomic (.int 1)), (some "k", Reading.call "u-" [Reading.symbol "x"])]

theorem read_undoes_render_callOfSubscript :
    Function.read (fun _ => none) (returning "((a < b is not c).m[0, (not z)])(1, k = (-x))") none
        [] =
      .ok {
        params := .pairlist 0 []
        body := Reading.call "\x7b" [Reading.call "return" [callOfSubscript]]
        env := some Environment.standard
        name := some "f" } := by
  have name (text : String) (named : isName text = true) : Rereadable (Reading.symbol text) :=
    .name 0 named
  have zero : Rereadable (Reading.atomic (.int 0)) := @Rereadable.number 0 0 (by decide)
  have one : Rereadable (Reading.atomic (.int 1)) := @Rereadable.number 0 1 (by decide)
  have chain := @Rereadable.chain 0 0 _
    [(.less, 0, Reading.symbol "b"), (.isNot, 0, Reading.symbol "c")] (by decide)
    (name "a" (by decide)) (by simp [name "b" (by decide), name "c" (by decide)])
  have member := chain.member 0 0 0 (by decide : isName "m" = true) (by simp)
  have negated : Rereadable (Reading.call "not" [Reading.symbol "z"]) :=
    .unary 0 0 .not (name "z" (by decide))
  have subscript := @Rereadable.subscript 0 0 _
    [Reading.atomic (.int 0), Reading.call "not" [Reading.symbol "z"]] (by simp) member
    (by simp [zero, negated])
  have minus : Rereadable (Reading.call "u-" [Reading.symbol "x"]) :=
    .unary 0 0 .minus (name "x" (by decide))
  have whole : Rereadable callOfSubscript := @Rereadable.call 0 _ (by decide)
    [Reading.atomic (.int 1)] [("k", Reading.call "u-" [Reading.symbol "x"])] (by decide) subscript
    (by simp [one]) (by simp [minus])
  have printed : callOfSubscript.render = "((a < b is not c).m[0, (not z)])(1, k = (-x))" := by
    decide +kernel
  rw [← printed]
  exact read_undoes_render (fun _ => none) whole []

end TreePass
