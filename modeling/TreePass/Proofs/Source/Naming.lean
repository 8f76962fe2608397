import TreePass.Node.Printer
import TreePass.Source.Function
import TreePass.Proofs.Scoping.Boundaries
import TreePass.Proofs.Source.Mentions
import TreePass.Proofs.Source.Sentences

/-!
The names in a function that has been read. From the characters of a text to the nodes of the tree,
each variable, parameter, named argument and member is a word of the text, or one of the words that
stand for operators and keywords.
-/

set_option autoImplicit false
set_option relaxedAutoImplicit false

namespace TreePass

namespace Source

namespace Lexer

variable {lexField : List Char → Option (List Token)}

private theorem scanString_ne_word {letters text left : List Char} {word : String} :
    scanString letters text ≠ some (.word word, left) := by
  intro found
  unfold scanString at found
  split at found
  · obtain ⟨_, _, same⟩ := Option.map_eq_some_iff.mp found
    cases same
  · cases found

private theorem scanFormatted_ne_word {raw : Bool} {text left : List Char} {word : String} :
    scanFormatted lexField raw text ≠ some (.word word, left) := by
  intro found
  unfold scanFormatted at found
  split at found
  · simp only [Option.bind_eq_bind, Option.bind_eq_some_iff] at found
    obtain ⟨_, _, _, _, same⟩ := found
    cases same
  · cases found

private theorem isWord_of_scan {text left : List Char} {word : String}
    (found : scan lexField text = some (.word word, left)) : IsWord word := by
  have ofMap {α : Type} {f : α → Token × List Char} {a? : Option α}
      (other : ∀ a, f a ≠ (.word word, left)) : a?.map f ≠ some (.word word, left) := by
    intro found
    obtain ⟨a, _, same⟩ := Option.map_eq_some_iff.mp found
    exact other a same
  unfold scan at found
  split at found
  · cases found
  · split_ifs at found
    · exact absurd found (ofMap fun _ => by simp)
    · exact absurd found (ofMap fun _ => by simp)
    · exact absurd found scanString_ne_word
    · unfold scanWord at found
      dsimp only at found
      split_ifs at found with isString isFormatted identifier
      · exact absurd found scanString_ne_word
      · exact absurd found scanFormatted_ne_word
      · obtain ⟨⟨⟩, _⟩ := Prod.mk.inj (Option.some.inj found)
        rw [IsWord, String.toList_ofList]
        exact identifier
    · exact absurd found (ofMap fun _ => by simp)

private theorem layout_ne_word {column : Column} {blocks blocks' : List Column}
    {tokens : List Token} (found : layout column blocks = some (tokens, blocks')) (word : String) :
    .word word ∉ tokens := by
  unfold layout at found
  split at found
  · split_ifs at found
    · obtain ⟨rfl, _⟩ := Prod.mk.inj (Option.some.inj found)
      simp
    · obtain ⟨⟨count, left⟩, _, same⟩ := Option.map_eq_some_iff.mp found
      obtain ⟨rfl, _⟩ := Prod.mk.inj same
      simp
  · cases found

private theorem words_finish {place : Place} {done tokens : List Token} (words : Grammar.Words done)
    (found : finish place done = some tokens) : Grammar.Words tokens := by
  have ending (word : String) :
      Token.word word ∉ if place.inLine then [Token.newline] else [] := by
    split <;> simp
  unfold finish at found
  split at found
  · cases found
  · obtain rfl := Option.some.inj found
    intro word member
    simp only [List.mem_append, List.mem_reverse, List.mem_replicate] at member
    rcases member with (taken | line) | ⟨_, closing⟩
    · exact words word taken
    · exact absurd line (ending word)
    · cases closing

private theorem words_run {fuel : Nat} {place : Place} {done tokens : List Token} {text : List Char}
    (words : Grammar.Words done) (found : run lexField fuel place done text = some tokens) :
    Grammar.Words tokens := by
  induction fuel generalizing place done text with
  | zero => cases found
  | succ fuel ih =>
    unfold run at found
    split at found
    · -- A line begins here.
      dsimp only at found
      split at found
      · exact words_finish words found
      · split_ifs at found
        · exact ih words found
        · exact ih words found
        · split at found
          · rename_i layoutTokens _ laidOut
            refine ih (fun word member => ?_) found
            rcases List.mem_append.mp member with laid | taken
            · exact absurd (List.mem_reverse.mp laid) (layout_ne_word laidOut word)
            · exact words word taken
          · cases found
    · split at found
      · exact words_finish words found
      · split_ifs at found
        · exact ih words found
        · exact ih words found
        · exact ih words found
        · exact ih (Grammar.words_cons.mpr ⟨by simp, words⟩) found
        · exact ih words found
        · exact ih words found
        · split at found
          · rename_i scanned
            split at found
            · refine ih (Grammar.words_cons.mpr ⟨?_, words⟩) found
              rintro word rfl
              exact isWord_of_scan scanned
            · cases found
          · cases found

private theorem words_tokens {text : List Char} {found : List Token}
    (lexed : tokens text = some found) : Grammar.Words found := words_run Grammar.words_nil lexed

end Lexer

private theorem spelled_parse {source : String} {statements : List Statement}
    (parsed : parse source = .ok statements) : Spelled.spelled statements := by
  unfold parse at parsed
  split at parsed
  · cases parsed
  · rename_i lexed
    split at parsed
    · cases parsed
    · rename_i grammatical
      split_ifs at parsed
      obtain rfl := Except.ok.inj parsed
      exact Grammar.spelled_module (Lexer.words_tokens lexed) grammatical

private theorem spelled_definitions {statements : List Statement}
    (spells : Spelled.spelled statements)
    {definition : Definition} (member : definition ∈ definitions statements) :
    definition.Spelled := by
  obtain ⟨statement, listed, is⟩ := List.mem_filterMap.mp member
  have each := spells statement listed
  split at is
  · obtain rfl := Option.some.inj is
    simpa using each
  · cases is

private theorem spelled_findDefinition {source : String} {name : Option String}
    {definition : Definition}
    (found : findDefinition source name = .ok definition) : definition.Spelled := by
  unfold findDefinition at found
  cases parsed : parse source with
  | error fault =>
    rw [parsed] at found
    cases found
  | ok statements =>
    rw [parsed] at found
    dsimp only [bind, Except.bind] at found
    split at found
    · rename_i searched
      obtain rfl := Except.ok.inj found
      exact spelled_definitions (spelled_parse parsed) (List.mem_of_find?_eq_some searched)
    · cases found

end Source

def Source.Reading.Known (name : String) : Prop := Source.IsWord name ∨ name ∈ vocabulary

/-- What reading writes at a single node. A member is named by a literal, which holds a word. -/
def Node.Written : Expr → Prop
  | .atomic _ value => value.IsPlain
  | .symbol _ name => Source.Reading.Known name
  | .primitive _ _ => False
  | .pairlist _ params => ∀ p ∈ params, Source.IsWord p.1
  | .call _ callee args =>
    (∀ a ∈ args, ∀ name ∈ a.1, Source.IsWord name) ∧
      (callee.symbolName? = some "." →
        ∀ text ∈ (args.map (·.2))[1]?.bind Printer.literalDisplay?, Source.IsWord text)

namespace Source

namespace Reading

/-- An expression of which each node is written by reading. If it is a variable, its name is a word
of the text. -/
structure Reads (node : Expr) : Prop where
  below : ∀ n ∈ node.nodes, n.Written
  named : ∀ name ∈ node.symbolName?, IsWord name

namespace Reads

theorem atomic {value : Value} (plain : value.IsPlain) : Reads (atomic value) where
  below := by simpa [Reading.atomic, Node.nodes, Node.Written] using plain
  named := fun _ found => nomatch found

theorem symbol {name : String} (word : IsWord name) : Reads (symbol name) where
  below := by
    simp only [Reading.symbol, Node.nodes, List.mem_singleton, forall_eq]
    exact .inl word
  named := by
    rintro _ ⟨⟩
    exact word

theorem nameExpr {text : String} (word : IsWord text) : Reads (nameExpr text) := by
  unfold Reading.nameExpr
  split_ifs
  · exact atomic trivial
  · exact atomic trivial
  · exact atomic trivial
  · exact symbol word

private theorem of_children {node : Expr} (here : node.Written)
    (children : ∀ c ∈ node.children, ∀ n ∈ c.nodes, n.Written) : ∀ n ∈ node.nodes, n.Written := by
  intro n member
  rcases Node.mem_nodes_iff.mp member with rfl | ⟨c, child, below⟩
  · exact here
  · exact children c child n below

theorem invoke {callee : Expr} {args : List (Option String × Expr)} (called : Reads callee)
    (given : ∀ a ∈ args, Reads a.2) (names : ∀ a ∈ args, ∀ name ∈ a.1, IsWord name) :
    Reads (.call 0 callee args) where
  below := by
    refine of_children ⟨names, fun dot => ?_⟩ fun c child => ?_
    · exact absurd (called.named "." dot) (by decide)
    · rcases List.mem_cons.mp child with rfl | child
      · exact called.below
      · obtain ⟨a, listed, rfl⟩ := List.mem_map.mp child
        exact (given a listed).below
  named := fun _ found => nomatch found

/-- A call of a word of the vocabulary. Only a member is named by its second argument. -/
theorem known {values : List Expr} {name : String} (given : ∀ v ∈ values, Reads v)
    (known : name ∈ vocabulary)
    (member : name = "." → ∀ text ∈ values[1]?.bind Printer.literalDisplay?, IsWord text) :
    Reads (call name values) where
  below := by
    refine of_children ⟨?_, fun dot => ?_⟩ fun c child => ?_
    · intro a listed
      obtain ⟨v, _, rfl⟩ := List.mem_map.mp listed
      exact fun _ found => nomatch found
    · rw [List.map_map]
      simpa [Function.comp_def] using member (Option.some.inj dot)
    · rcases List.mem_cons.mp child with rfl | child
      · simp only [Reading.symbol, Node.nodes, List.mem_singleton, forall_eq]
        exact .inr known
      · rw [List.map_map] at child
        obtain ⟨v, listed, rfl⟩ := List.mem_map.mp child
        exact (given v listed).below
  named := fun _ found => nomatch found

theorem call {values : List Expr} {name : String} (given : ∀ v ∈ values, Reads v)
    (isKnown : name ∈ vocabulary) (other : name ≠ "." := by decide) : Reads (call name values) :=
  known given isKnown fun same => absurd same other

theorem member {value : Expr} {name : String} (given : Reads value) (word : IsWord name) :
    Reads (Reading.call "." [value, Reading.atomic (.str name)]) := by
  refine known ?_ (by decide) fun _ => ?_
  · simpa using ⟨given, atomic trivial⟩
  · rintro _ ⟨⟩
    exact word

theorem pairlist {params : List (String × Option Expr)} (names : ∀ p ∈ params, IsWord p.1)
    (given : ∀ v ∈ Node.defaults params, Reads v) : Reads (.pairlist 0 params) where
  below := of_children names fun c child => (given c child).below
  named := fun _ found => nomatch found

end Reads

variable {characters : CharacterNames}

theorem Builds.reads {mentions : List Mention} {closures : List Closure} {values : List Expr}
    (builds : Builds characters True mentions closures values) : ∀ v ∈ values, Reads v := by
  induction builds with
  | nil => exact fun _ member => nomatch member
  | append _ _ first second => exact List.forall_mem_append.mpr ⟨first, second⟩
  | plain _ _ reads => exact reads
  | literal plain => exact List.forall_mem_singleton.mpr (.atomic plain)
  | name word => exact List.forall_mem_singleton.mpr (.nameExpr (word trivial))
  | symbol word => exact List.forall_mem_singleton.mpr (.symbol (word trivial))
  | known known other _ reads => exact List.forall_mem_singleton.mpr (.call reads known other)
  | member word _ reads =>
    exact List.forall_mem_singleton.mpr ((List.forall_mem_singleton.mp reads).member (word trivial))
  | invoke names _ _ called given =>
    refine List.forall_mem_singleton.mpr ((List.forall_mem_singleton.mp called).invoke ?_
      (names trivial))
    exact fun a listed => given a.2 (List.mem_map_of_mem listed)
  | function _ names _ _ inDefaults inBody =>
    have parts := List.forall_mem_cons.mpr ⟨Reads.pairlist (names trivial) inDefaults, inBody⟩
    exact List.forall_mem_singleton.mpr (.call parts (by decide))

end Reading

end Source

open Source

theorem Function.written_of_read {characters : CharacterNames} {source : String}
    {name : Option String} {names : Environment} {fn : Function}
    (read : Function.read characters source name names = .ok fn) :
    (∀ text ∈ fn.name, IsWord text) ∧ (∀ n ∈ fn.params.nodes, n.Written) ∧
      ∀ n ∈ fn.body.nodes, n.Written := by
  obtain ⟨definition, found, made⟩ := Reading.bind_eq_ok.mp read
  obtain ⟨⟨params, body⟩, readParts, same⟩ := Reading.bind_eq_ok.mp made
  obtain rfl := Except.ok.inj same
  have spells := spelled_findDefinition found
  have gives : Reading.Gives (Reading.BuildsParts characters True definition)
      (Reading.definition characters definition) :=
    Reading.definition_builds definition fun _ => spells
  obtain ⟨onParams, inBody⟩ := gives.of_eq_ok readParts
  have list := Reading.Reads.pairlist (onParams.names trivial) onParams.defaults.reads
  have block := List.forall_mem_singleton.mp inBody.reads
  refine ⟨?_, list.below, block.below⟩
  rintro _ ⟨⟩
  exact spells.isWord_name

end TreePass
