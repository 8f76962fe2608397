import TreePass.Proofs.Printing.Forms

/-!
What the lexer makes of the text of an expression, whatever comes before it and after it. Only what
comes next can change how a text is divided: a word ends where no word character follows, and a
number where, besides, no point follows.
-/

set_option autoImplicit false
set_option relaxedAutoImplicit false

namespace TreePass.Source.Lexer

open TreePass.Text

variable {lexField : List Char → Option (List Token)}

def amid (blocks : List Column) (brackets : Nat) : Place := ⟨blocks, brackets, false, true⟩

def isSolid (c : Char) : Bool := !(isSpace c || c == '#' || isNewline c || c == '\\')

private theorem isSolid_of_mayContinue {c : Char} (continues : mayContinue c = true) :
    isSolid c = true := by
  rw [isSolid, Bool.not_eq_true', Bool.eq_false_iff]
  intro layout
  simp only [isSpace, isNewline, Bool.or_eq_true, beq_iff_eq] at layout
  rcases layout with (((((rfl | rfl) | rfl) | rfl) | rfl | rfl) | rfl) <;>
    revert continues <;> decide

private theorem run_token {c : Char} (solid : isSolid c = true) {token : Token}
    {text left : List Char}
    (scanned : scan lexField (c :: text) = some (token, left)) {brackets brackets' : Nat}
    (changed : bracketChange token brackets = some brackets') (blocks : List Column)
    (done : List Token) (fuel : Nat) :
    run lexField (fuel + 1) (amid blocks brackets) done (c :: text) =
      run lexField fuel (amid blocks brackets') (token :: done) left := by
  simp only [isSolid, Bool.not_eq_true', Bool.or_eq_false_iff] at solid
  obtain ⟨⟨⟨noSpace, noComment⟩, noEnd⟩, noEscape⟩ := solid
  simp only [run, amid, noSpace, noComment, noEnd, noEscape, scanned, changed, Bool.false_eq_true,
    if_false]

private theorem run_space (blocks : List Column) (brackets : Nat) (done : List Token)
    (text : List Char) (fuel : Nat) :
    run lexField (fuel + 1) (amid blocks brackets) done (' ' :: text) =
      run lexField fuel (amid blocks brackets) done text := rfl

/-- A text is divided into tokens before any rest that ends its last token. -/
def Scans (ends : List Char → Prop) (text : List Char) (tokens : List Token) : Prop :=
  ∀ (lexField : List Char → Option (List Token)) (blocks : List Column) (brackets : Nat)
    (done : List Token) (rest : List Char), ends rest →
    ∃ cost, cost ≤ text.length ∧ ∀ fuel,
      run lexField (fuel + cost) (amid blocks brackets) done (text ++ rest) =
        run lexField fuel (amid blocks brackets) (tokens.reverse ++ done) rest

def EndsWord (rest : List Char) : Prop :=
  ∀ c ∈ rest.head?, mayContinue c = false ∧ c ≠ '\'' ∧ c ≠ '"'

def EndsNumber (rest : List Char) : Prop := EndsWord rest ∧ rest.head? ≠ some '.'

def EndsAnyway (_ : List Char) : Prop := True

namespace Scans

variable {ends ends' : List Char → Prop} {text text' : List Char} {tokens tokens' : List Token}

theorem mono (scans : Scans ends text tokens) (weaker : ∀ rest, ends' rest → ends rest) :
    Scans ends' text tokens :=
  fun lexField blocks brackets done rest ended =>
    scans lexField blocks brackets done rest (weaker rest ended)

theorem nil : Scans EndsAnyway [] [] :=
  fun _ _ _ _ _ _ => ⟨0, Nat.le_refl 0, fun _ => rfl⟩

theorem append (scans : Scans ends text tokens) (scans' : Scans ends' text' tokens')
    (fits : ∀ rest, ends' rest → ends (text' ++ rest)) :
    Scans ends' (text ++ text') (tokens ++ tokens') := by
  intro lexField blocks brackets done rest ended
  obtain ⟨cost, few, first⟩ := scans lexField blocks brackets done _ (fits rest ended)
  obtain ⟨cost', few', second⟩ :=
    scans' lexField blocks brackets (tokens.reverse ++ done) rest ended
  refine ⟨cost' + cost, ?_, fun fuel => ?_⟩
  · rw [List.length_append]
    omega
  · rw [List.append_assoc, ← Nat.add_assoc, first, second, List.reverse_append, List.append_assoc]

theorem space : Scans EndsAnyway [' '] [] :=
  fun _ blocks brackets done rest _ => ⟨1, Nat.le_refl 1, run_space blocks brackets done rest⟩

theorem token {token : Token} (solid : ∃ c ∈ text.head?, isSolid c = true)
    (scanned : ∀ lexField rest, ends rest → scan lexField (text ++ rest) = some (token, rest))
    (level : ∀ brackets, bracketChange token brackets = some brackets) :
    Scans ends text [token] := by
  intro lexField blocks brackets done rest ended
  obtain ⟨c, first, solid⟩ := solid
  cases text with
  | nil => cases first
  | cons d more =>
    obtain rfl : d = c := by simpa using first
    exact ⟨1, by simp, run_token solid (scanned lexField rest ended) (level brackets) blocks done⟩

theorem bracketed {opening closing : Char} {left right : String}
    (solid : isSolid opening = true ∧ isSolid closing = true)
    (opens : ∀ lexField rest, scan lexField (opening :: rest) = some (.mark left, rest))
    (closes : ∀ lexField rest, scan lexField (closing :: rest) = some (.mark right, rest))
    (up : ∀ brackets, bracketChange (.mark left) brackets = some (brackets + 1))
    (down : ∀ brackets, bracketChange (.mark right) (brackets + 1) = some brackets)
    (scans : Scans ends text tokens) (fits : ∀ rest, ends (closing :: rest)) :
    Scans EndsAnyway (opening :: (text ++ [closing]))
      (.mark left :: (tokens ++ [.mark right])) := by
  intro lexField blocks brackets done rest _
  obtain ⟨cost, few, inner⟩ :=
    scans lexField blocks (brackets + 1) (.mark left :: done) _ (fits rest)
  refine ⟨1 + cost + 1, ?_, fun fuel => ?_⟩
  · simp only [List.length_cons, List.length_append, List.length_nil]
    omega
  · have shape : opening :: (text ++ [closing]) ++ rest =
        opening :: (text ++ (closing :: rest)) := by
      simp
    have reversed : (Token.mark left :: (tokens ++ [.mark right])).reverse ++ done =
        .mark right :: (tokens.reverse ++ .mark left :: done) := by
      simp
    rw [shape, reversed, ← Nat.add_assoc, ← Nat.add_assoc,
      run_token solid.1 (opens lexField _) (up brackets), inner,
      run_token solid.2 (closes lexField _) (down brackets)]

theorem parentheses (scans : Scans EndsNumber text tokens) :
    Scans EndsAnyway ('(' :: (text ++ [')'])) (.mark "(" :: (tokens ++ [.mark ")"])) := by
  refine bracketed ⟨by decide, by decide⟩ (fun _ _ => rfl) (fun _ _ => rfl) (fun _ => rfl)
    (fun _ => rfl) scans fun rest => ?_
  refine ⟨fun c member => ?_, by simp⟩
  obtain rfl : ')' = c := by simpa using member
  decide

theorem brackets (scans : Scans EndsNumber text tokens) :
    Scans EndsAnyway ('[' :: (text ++ [']'])) (.mark "[" :: (tokens ++ [.mark "]"])) := by
  refine bracketed ⟨by decide, by decide⟩ (fun _ _ => rfl) (fun _ _ => rfl) (fun _ => rfl)
    (fun _ => rfl) scans fun rest => ?_
  refine ⟨fun c member => ?_, by simp⟩
  obtain rfl : ']' = c := by simpa using member
  decide

theorem word {word : List Char} (identifier : Identifier.isIdentifier word = true) :
    Scans EndsWord word [.word (String.ofList word)] := by
  obtain ⟨c, more, rfl, starts⟩ := Identifier.isIdentifier_cases identifier
  have continues := Identifier.mayContinue_of_isStart starts
  refine token ⟨c, rfl, isSolid_of_mayContinue continues⟩ (fun lexField rest ended => ?_)
    fun _ => rfl
  have other : c ≠ '.' ∧ c ≠ '\'' ∧ c ≠ '"' := by
    refine ⟨?_, ?_, ?_⟩ <;> rintro rfl <;> revert continues <;> decide
  have split := takeWhile_append_stop (Identifier.mayContinue_of_isIdentifier identifier)
    fun d member => (ended d member).1
  have unquoted : (rest.head? == some '\'' || rest.head? == some '"') = false := by
    cases rest with
    | nil => rfl
    | cons d left =>
      obtain ⟨-, single, double⟩ := ended d rfl
      simp [single, double]
  rw [List.cons_append] at split ⊢
  rw [scan, Identifier.isDigit_of_isStart starts, continues]
  simp only [other, scanWord, split, unquoted, identifier, Bool.false_and, Bool.false_eq_true,
    beq_eq_false_iff_ne.mpr, Bool.or_self, if_false, if_true, ne_eq, not_false_eq_true]

end Scans

private theorem digitRun_cons {c d : Char} (digit : c.isDigit = true) (noLine : d ≠ '_')
    (more : List Char) :
    digitRun Char.isDigit (c :: d :: more) =
      if d.isDigit then (digitRun Char.isDigit (d :: more)).map fun found => (c :: found.1, found.2)
      else some ([c], d :: more) := by
  rw [digitRun, if_pos digit]
  · intro _ _ same
    exact absurd same noLine
  · intro same
    exact absurd same noLine

private theorem digitRun_append {word rest : List Char} (some_ : word ≠ [])
    (all : ∀ c ∈ word, c.isDigit = true)
    (ended : ∀ c ∈ rest.head?, c.isDigit = false ∧ c ≠ '_') :
    digitRun Char.isDigit (word ++ rest) = some (word, rest) := by
  induction word with
  | nil => exact absurd rfl some_
  | cons c more ih =>
    have digit := all c List.mem_cons_self
    cases more with
    | nil =>
      cases rest with
      | nil => simp [digitRun, digit]
      | cons d left =>
        obtain ⟨noDigit, noLine⟩ := ended d rfl
        rw [List.cons_append, List.nil_append, digitRun_cons digit noLine, noDigit,
          if_neg Bool.false_ne_true]
    | cons d left =>
      have next := all d (List.mem_cons_of_mem _ List.mem_cons_self)
      have noLine : d ≠ '_' := by
        rintro rfl
        cases next
      have later := ih (List.cons_ne_nil _ _) fun e member => all e (List.mem_cons_of_mem _ member)
      rw [List.cons_append] at later
      rw [List.cons_append, List.cons_append, digitRun_cons digit noLine, if_pos next, later]
      rfl

private theorem scanDecimal_digits {n : Nat} {rest : List Char} (ended : EndsNumber rest) :
    scanDecimal (digits n ++ rest) = some (digits n, rest) := by
  have all : ∀ c ∈ digits n, c.isDigit = true := fun _ => isDigit_of_mem_digits
  have stops : ∀ c ∈ rest.head?, c.isDigit = false ∧ c ≠ '_' := by
    intro c member
    obtain ⟨noWord, -⟩ := ended.1 c member
    refine ⟨?_, ?_⟩
    · rw [Bool.eq_false_iff]
      intro digit
      rw [mayContinue_of_isDigit digit] at noWord
      cases noWord
    · rintro rfl
      cases noWord
  have whole : optionalRun (digits n ++ rest) = some (digits n, rest) := by
    have run := digitRun_append (digits_ne_nil n) all stops
    cases word : digits n with
    | nil => exact absurd word (digits_ne_nil n)
    | cons c more =>
      rw [word] at run all
      rw [List.cons_append] at run ⊢
      rw [optionalRun, if_pos (all c List.mem_cons_self)]
      exact run
  have fraction : scanFraction rest = some ([], rest) := by
    unfold scanFraction
    split
    · exact absurd rfl ended.2
    · rfl
  have exponent : scanExponent rest = some ([], rest) := by
    cases rest with
    | nil => rfl
    | cons c left =>
      obtain ⟨noWord, -⟩ := ended.1 c rfl
      have other : (c == 'e' || c == 'E') = false := by
        rw [Bool.eq_false_iff]
        intro letter
        rcases Bool.or_eq_true_iff.mp letter with same | same <;> rw [beq_iff_eq] at same <;>
          subst same <;> cases noWord
      simp only [scanExponent, other, Bool.false_eq_true, if_false]
  have imaginary : scanImaginary rest = ([], rest) := by
    cases rest with
    | nil => rfl
    | cons c left =>
      obtain ⟨noWord, -⟩ := ended.1 c rfl
      have other : (c == 'j' || c == 'J') = false := by
        rw [Bool.eq_false_iff]
        intro letter
        rcases Bool.or_eq_true_iff.mp letter with same | same <;> rw [beq_iff_eq] at same <;>
          subst same <;> cases noWord
      simp only [scanImaginary, other, Bool.false_eq_true, if_false]
  have noZero : ((digits n).head? == some '0' && (digits n).any fun c => c.isDigit && c != '0') =
      false := by
    by_cases zero : n = 0
    · subst zero
      rfl
    · have first := head_digits_ne_zero zero
      rw [beq_eq_false_iff_ne.mpr first, Bool.false_and]
  simp only [scanDecimal, whole, fraction, exponent, imaginary, Option.bind_eq_bind,
    Option.bind_some, List.isEmpty_nil, Bool.true_and, noZero, Bool.false_eq_true, if_false,
    List.append_nil]

private theorem scanNumber_digits {n : Nat} {rest : List Char} (ended : EndsNumber rest) :
    scanNumber (digits n ++ rest) = some (.number (toString n), rest) := by
  have decimal := scanDecimal_digits (n := n) ended
  unfold scanNumber
  split
  · rename_i c left same
    -- What follows a leading zero is no letter: another digit, or the end of the number.
    have other : (c == 'x' || c == 'X') = false ∧ (c == 'o' || c == 'O') = false ∧
        (c == 'b' || c == 'B') = false := by
      by_cases zero : n = 0
      · subst zero
        obtain rfl := (List.cons.inj same).2
        obtain ⟨noWord, -⟩ := ended.1 c rfl
        refine ⟨?_, ?_, ?_⟩ <;> rw [Bool.eq_false_iff] <;> intro letter <;>
          rcases Bool.or_eq_true_iff.mp letter with same | same <;> rw [beq_iff_eq] at same <;>
          subst same <;> cases noWord
      · have first := head_digits_ne_zero zero
        cases word : digits n with
        | nil => exact absurd word (digits_ne_nil n)
        | cons d more =>
          rw [word] at same first
          exact absurd (congrArg some (List.cons.inj same).1) first
    rw [other.1, other.2.1, other.2.2]
    simp only [Bool.false_eq_true, if_false]
    rw [decimal]
    rfl
  · rw [decimal]
    rfl

theorem Scans.number (n : Nat) : Scans EndsNumber (digits n) [.number (toString n)] := by
  cases word : digits n with
  | nil => exact absurd word (digits_ne_nil n)
  | cons c more =>
    have digit : c.isDigit = true := isDigit_of_mem_digits (n := n) (by rw [word]; simp)
    refine Scans.token ⟨c, rfl, isSolid_of_mayContinue (mayContinue_of_isDigit digit)⟩
      (fun lexField rest ended => ?_) fun _ => rfl
    have scanned := scanNumber_digits (n := n) ended
    rw [word] at scanned
    rw [List.cons_append] at scanned ⊢
    rw [scan, if_pos digit, scanned]

def EndsMark (rest : List Char) : Prop := rest.head? = some ' '

namespace Scans

variable {text : List Char} {tokens : List Token}

private theorem spaced {token : Token} (solid : ∃ c ∈ text.head?, isSolid c = true)
    (scanned : ∀ lexField more, scan lexField (text ++ ' ' :: more) = some (token, ' ' :: more))
    (level : ∀ brackets, bracketChange token brackets = some brackets) :
    Scans EndsMark text [token] := by
  refine .token solid (fun lexField rest ended => ?_) level
  cases rest with
  | nil => cases ended
  | cons c more =>
    obtain rfl : c = ' ' := by simpa [EndsMark] using ended
    exact scanned lexField more

theorem operator (op : BinaryOp) : Scans EndsMark op.text.toList [.mark op.text] := by
  refine spaced ?_ (fun _ _ => ?_) fun _ => ?_
  · cases op <;> exact ⟨_, rfl, by decide⟩
  · cases op <;> rfl
  · cases op <;> rfl

theorem equals : Scans EndsMark ['='] [.mark "="] :=
  spaced ⟨_, rfl, by decide⟩ (fun _ _ => rfl) fun _ => rfl

theorem comma : Scans EndsAnyway [','] [.mark ","] :=
  .token ⟨_, rfl, by decide⟩ (fun _ _ _ => rfl) fun _ => rfl

theorem spacedWord {word : List Char} (identifier : Identifier.isIdentifier word = true) :
    Scans EndsMark word [.word (String.ofList word)] := by
  refine (Scans.word identifier).mono fun rest ended c member => ?_
  obtain rfl : ' ' = c := by
    rw [EndsMark] at ended
    rw [ended] at member
    exact Option.some.inj member
  decide

theorem afterSpace {ends : List Char → Prop} (scans : Scans ends text tokens) :
    Scans ends (' ' :: text) tokens :=
  Scans.space.append scans fun _ _ => trivial

end Scans

end Lexer

def CompareOp.tokens : CompareOp → List Token
  | .isIn => [.word "in"]
  | .notIn => [.word "not", .word "in"]
  | .is => [.word "is"]
  | .isNot => [.word "is", .word "not"]
  | op => [.mark op.text]

def UnaryOp.tokens : UnaryOp → List Token
  | .minus => [.mark "-"]
  | .plus => [.mark "+"]
  | .bitInvert => [.mark "~"]
  | .not => [.word "not"]

namespace Lexer.Scans

theorem comparison (op : CompareOp) : Scans EndsMark op.text.toList op.tokens := by
  have two (first second : List Char) (isWord : Text.Identifier.isIdentifier first = true)
      (isWord' : Text.Identifier.isIdentifier second = true) :
      Scans EndsMark (first ++ ' ' :: second)
        [.word (String.ofList first), .word (String.ofList second)] :=
    (spacedWord isWord).append (spacedWord isWord').afterSpace fun _ _ => rfl
  cases op with
  | isIn => exact spacedWord (by decide)
  | notIn => exact two "not".toList "in".toList (by decide) (by decide)
  | is => exact spacedWord (by decide)
  | isNot => exact two "is".toList "not".toList (by decide) (by decide)
  | _ => exact spaced ⟨_, rfl, by decide⟩ (fun _ _ => rfl) fun _ => rfl

def BeginsOperand (rest : List Char) : Prop :=
  ∃ c ∈ rest.head?, mayContinue c = true ∨ c = '('

private theorem scanMark_minus {c : Char} (noEquals : ('=' == c) = false)
    (noArrow : ('>' == c) = false)
    (more : List Char) : scanMark ('-' :: c :: more) = some (.mark "-", c :: more) := by
  have found : (marks.flatten.find? fun mark => mark.toList.isPrefixOf ('-' :: c :: more)) =
      some "-" := by
    change (bif '>' == c && true then some "->" else bif '=' == c && true then some "-="
      else some "-") = _
    rw [noEquals, noArrow]
    rfl
  rw [scanMark, found]
  rfl

private theorem scanMark_plus {c : Char} (noEquals : ('=' == c) = false) (more : List Char) :
    scanMark ('+' :: c :: more) = some (.mark "+", c :: more) := by
  have found : (marks.flatten.find? fun mark => mark.toList.isPrefixOf ('+' :: c :: more)) =
      some "+" := by
    change (bif '=' == c && true then some "+=" else some "+") = _
    rw [noEquals]
    rfl
  rw [scanMark, found]
  rfl

private theorem scanMark_point {c : Char} (noPoint : ('.' == c) = false) (more : List Char) :
    scanMark ('.' :: c :: more) = some (.mark ".", c :: more) := by
  have found : (marks.flatten.find? fun mark => mark.toList.isPrefixOf ('.' :: c :: more)) =
      some "." := by
    change (bif '.' == c && _ then some "..." else some ".") = _
    rw [noPoint]
    rfl
  rw [scanMark, found]
  rfl

theorem sign (op : UnaryOp) : Scans BeginsOperand op.sign.toList op.tokens := by
  have other {d : Char} {c : Char} (noWord : mayContinue d = false) (noParen : d ≠ '(')
      (begins : mayContinue c = true ∨ c = '(') : (d == c) = false := by
    rw [beq_eq_false_iff_ne]
    rintro rfl
    rcases begins with continues | same
    · rw [noWord] at continues
      cases continues
    · exact noParen same
  have mark {d : Char} {text : String} (solid : isSolid d = true)
      (level : ∀ brackets, bracketChange (.mark text) brackets = some brackets)
      (scanned : ∀ lexField c more, mayContinue c = true ∨ c = '(' →
        scan lexField (d :: c :: more) = some (.mark text, c :: more)) :
      Scans BeginsOperand [d] [.mark text] := by
    refine .token ⟨d, rfl, solid⟩ (fun lexField rest begins => ?_) level
    obtain ⟨c, first, begins⟩ := begins
    cases rest with
    | nil => cases first
    | cons e more =>
      obtain rfl : e = c := by simpa using first
      exact scanned lexField e more begins
  cases op with
  | minus =>
    exact mark (by decide) (fun _ => rfl) fun lexField c more begins =>
      scanMark_minus (other (by decide) (by decide) begins) (other (by decide) (by decide) begins)
        more
  | plus =>
    exact mark (by decide) (fun _ => rfl) fun lexField c more begins =>
      scanMark_plus (other (by decide) (by decide) begins) more
  | bitInvert => exact mark (by decide) (fun _ => rfl) fun _ _ _ _ => rfl
  | not =>
    have word := spacedWord (by decide : Text.Identifier.isIdentifier "not".toList = true)
    exact (word.append Scans.space fun _ _ => rfl).mono fun _ _ => trivial

theorem member {word : List Char} (identifier : Text.Identifier.isIdentifier word = true) :
    Scans EndsWord ('.' :: word) [.mark ".", .word (String.ofList word)] := by
  have point : Scans (fun rest => ∃ c ∈ rest.head?, Text.Identifier.isStart c = true) ['.']
      [.mark "."] := by
    refine .token ⟨'.', rfl, by decide⟩ (fun lexField rest begins => ?_) fun _ => rfl
    obtain ⟨c, first, starts⟩ := begins
    cases rest with
    | nil => cases first
    | cons d more =>
      obtain rfl : d = c := by simpa using first
      have noDigit := Text.Identifier.isDigit_of_isStart starts
      have noPoint : ('.' == d) = false := by
        rw [beq_eq_false_iff_ne]
        rintro rfl
        revert starts
        decide
      have scanned := scanMark_point noPoint more
      have noNumber : scan lexField ('.' :: d :: more) =
          if d.isDigit then scanNumber ('.' :: d :: more) else scanMark ('.' :: d :: more) := rfl
      rw [List.cons_append, List.nil_append, noNumber, noDigit]
      exact scanned
  obtain ⟨c, more, rfl, starts⟩ := Text.Identifier.isIdentifier_cases identifier
  exact point.append (Scans.word identifier) fun rest _ => ⟨c, rfl, starts⟩

theorem boolean (op : BooleanOp) : Scans EndsMark op.text.toList [.word op.text] := by
  cases op <;> exact spacedWord (by decide)

theorem endsNumber_space (rest : List Char) : EndsNumber (' ' :: rest) := by
  refine ⟨fun c member => ?_, by simp⟩
  obtain rfl : ' ' = c := Option.some.inj member
  decide

private theorem endsNumber_comma (rest : List Char) : EndsNumber (',' :: rest) := by
  refine ⟨fun c member => ?_, by simp⟩
  obtain rfl : ',' = c := Option.some.inj member
  decide

variable {text text' op : List Char} {tokens tokens' opTokens : List Token}

theorem apart (scans : Scans EndsNumber text tokens) (between : Scans EndsMark op opTokens)
    {ends : List Char → Prop} (scans' : Scans ends text' tokens') :
    Scans ends (text ++ ' ' :: (op ++ ' ' :: text')) (tokens ++ (opTokens ++ tokens')) :=
  scans.append (between.append scans'.afterSpace fun _ _ => rfl).afterSpace
    fun _ _ => endsNumber_space _

theorem commas {α : Type} {items : List α} {textOf : α → List Char} {tokensOf : α → List Token}
    (scans : ∀ item ∈ items, Scans EndsNumber (textOf item) (tokensOf item)) :
    Scans EndsNumber ([',', ' '].intercalate (items.map textOf))
      ([Token.mark ","].intercalate (items.map tokensOf)) := by
  induction items with
  | nil => exact Scans.nil.mono fun _ _ => trivial
  | cons item more ih =>
    have first := scans item List.mem_cons_self
    have later := ih fun item member => scans item (List.mem_cons_of_mem _ member)
    cases more with
    | nil =>
      rw [List.map_cons, List.map_cons, List.map_nil, List.map_nil, List.intercalate_singleton,
        List.intercalate_singleton]
      exact first
    | cons second others =>
      rw [List.map_cons, List.map_cons] at later
      rw [List.map_cons, List.map_cons, List.map_cons, List.map_cons, List.intercalate_cons_cons,
        List.intercalate_cons_cons, List.append_assoc, List.append_assoc]
      exact first.append (comma.append later.afterSpace fun _ _ => trivial)
        fun _ _ => endsNumber_comma _

end Lexer.Scans

end TreePass.Source
