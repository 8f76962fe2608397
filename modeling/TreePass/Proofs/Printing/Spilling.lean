import TreePass.Proofs.Printing.Lines

/-!
Where a printed expression breaks its line. Each form puts together what its parts print, without
line breaks of its own, so only texts that are printed as they are can bring one in: those of the
literals in a call of `compare` that has the shape of a chain. A break there is followed by the
parenthesis that closes the chain, so trimming the end of a function literal never removes it.
-/

set_option autoImplicit false
set_option relaxedAutoImplicit false

namespace TreePass

open Text Printer

/-- A line break somewhere in a text. -/
def Breaks (text : String) : Prop := ∃ c ∈ text.toList, isBreak c = true

def Exposed (text : String) : Prop :=
  ∃ c d, [c, d].Sublist text.toList ∧ isBreak c = true ∧ Blank.isBlank d = false

private theorem breaks_append {first second : String} :
    Breaks (first ++ second) ↔ Breaks first ∨ Breaks second := by
  simp only [Breaks, String.toList_append, List.mem_append, or_and_right, exists_or]

private theorem not_breaks {text : String} (flat : Flat text.toList) : ¬Breaks text := by
  rintro ⟨c, member, broken⟩
  rw [flat c member] at broken
  cases broken

private theorem join_cons_cons (separator first second : String) (more : List String) :
    join separator (first :: second :: more) =
      first ++ separator ++ join separator (second :: more) := by
  rw [join, String.intercalate_cons_cons]
  rfl

private theorem breaks_join {separator : String} (flat : Flat separator.toList)
    {texts : List String} : Breaks (join separator texts) ↔ ∃ text ∈ texts, Breaks text := by
  induction texts with
  | nil => simp [join, Breaks]
  | cons first rest ih =>
    cases rest with
    | nil => simp [join]
    | cons second more =>
      rw [join_cons_cons, breaks_append, breaks_append, ih]
      simp [not_breaks flat]

private theorem sublist_join (separator : String) {texts : List String} {text : String}
    (member : text ∈ texts) : text.toList.Sublist (join separator texts).toList := by
  induction texts with
  | nil => cases member
  | cons first rest ih =>
    cases rest with
    | nil =>
      obtain rfl := List.mem_singleton.mp member
      simp [join]
    | cons second more =>
      rw [join_cons_cons, String.toList_append, String.toList_append]
      rcases List.mem_cons.mp member with rfl | later
      · exact (List.sublist_append_left _ _).trans (List.sublist_append_left _ _)
      · exact (ih later).trans (List.sublist_append_right _ _)

theorem Exposed.breaks {text : String} (exposed : Exposed text) : Breaks text := by
  obtain ⟨c, d, inside, broken, _⟩ := exposed
  exact ⟨c, inside.mem List.mem_cons_self, broken⟩

private theorem Exposed.of_sublist {part text : String} (exposed : Exposed part)
    (inside : part.toList.Sublist text.toList) : Exposed text := by
  obtain ⟨c, d, within, both⟩ := exposed
  exact ⟨c, d, within.trans inside, both⟩

private theorem exists_trimRight (text : String) : ∃ blanks : List Char,
    text.toList = (trimRight text).toList ++ blanks ∧ ∀ c ∈ blanks, Blank.isBlank c = true := by
  refine ⟨(text.toList.reverse.takeWhile Blank.isBlank).reverse, ?_, fun c member => ?_⟩
  · rw [trimRight, String.toList_ofList, ← List.reverse_append, List.takeWhile_append_dropWhile,
      List.reverse_reverse]
  · exact List.mem_takeWhile_imp (List.mem_reverse.mp member)

private theorem Breaks.of_trimRight {text : String} (broken : Breaks (trimRight text)) :
    Breaks text := by
  obtain ⟨blanks, split, _⟩ := exists_trimRight text
  obtain ⟨c, member, isBroken⟩ := broken
  exact ⟨c, split ▸ List.mem_append_left _ member, isBroken⟩

theorem Exposed.trimRight {text : String} (exposed : Exposed text) :
    Exposed (trimRight text) := by
  obtain ⟨blanks, split, blank⟩ := exists_trimRight text
  obtain ⟨c, d, inside, broken, ink⟩ := exposed
  rw [split] at inside
  obtain ⟨kept, cut, parts, inKept, inCut⟩ := List.sublist_append_iff.mp inside
  -- The visible character is not among the blanks, so nothing of the pair is.
  have nothing : cut = [] := by
    by_contra some_
    have last : d ∈ cut := by
      have ends := congrArg List.getLast? parts
      rw [List.getLast?_append_of_ne_nil _ some_] at ends
      exact List.mem_of_getLast? ends.symm
    rw [blank d (inCut.mem last)] at ink
    cases ink
  rw [nothing, List.append_nil] at parts
  exact ⟨c, d, parts ▸ inKept, broken, ink⟩

/-- A text put together from parts and from fixed texts without line breaks. -/
structure Prints (parts : List String) (text : String) : Prop where
  /-- Every break comes from a part. -/
  source : Breaks text → ∃ part ∈ parts, Breaks part
  /-- No part is lost, apart from white space at the end. -/
  kept : ∀ part ∈ parts, Exposed part → Exposed text

namespace Prints

variable {parts parts' : List String} {text text' : String}

private theorem fixed (flat : Flat text.toList) : Prints [] text where
  source broken := absurd broken (not_breaks flat)
  kept _ member := nomatch member

theorem part (text : String) : Prints [text] text where
  source broken := ⟨text, List.mem_singleton_self text, broken⟩
  kept _ member exposed := List.mem_singleton.mp member ▸ exposed

theorem before (fixed : String) (flat : Flat fixed.toList) (prints : Prints parts text) :
    Prints parts (fixed ++ text) where
  source broken := prints.source ((breaks_append.mp broken).resolve_left (not_breaks flat))
  kept part member exposed := (prints.kept part member exposed).of_sublist (by simp)

theorem after (fixed : String) (flat : Flat fixed.toList) (prints : Prints parts text) :
    Prints parts (text ++ fixed) where
  source broken := prints.source ((breaks_append.mp broken).resolve_right (not_breaks flat))
  kept part member exposed := (prints.kept part member exposed).of_sublist (by simp)

theorem append (first : Prints parts text) (second : Prints parts' text') :
    Prints (parts ++ parts') (text ++ text') where
  source broken := by
    rcases breaks_append.mp broken with inFirst | inSecond
    · obtain ⟨part, member, found⟩ := first.source inFirst
      exact ⟨part, List.mem_append_left _ member, found⟩
    · obtain ⟨part, member, found⟩ := second.source inSecond
      exact ⟨part, List.mem_append_right _ member, found⟩
  kept part member exposed := by
    rcases List.mem_append.mp member with inFirst | inSecond
    · refine (first.kept part inFirst exposed).of_sublist ?_
      rw [String.toList_append]
      exact List.sublist_append_left _ _
    · refine (second.kept part inSecond exposed).of_sublist ?_
      rw [String.toList_append]
      exact List.sublist_append_right _ _

theorem join (separator : String) (flat : Flat separator.toList) (texts : List String) :
    Prints texts (join separator texts) where
  source broken := (breaks_join flat).mp broken
  kept _ member exposed := exposed.of_sublist (sublist_join separator member)

private theorem joinAll (separator : String) (flat : Flat separator.toList)
    (texts : List (List String × String)) (each : ∀ t ∈ texts, Prints t.1 t.2) :
    Prints (texts.flatMap (·.1)) (Printer.join separator (texts.map (·.2))) where
  source broken := by
    obtain ⟨text, listed, found⟩ := (join separator flat _).source broken
    obtain ⟨t, member, rfl⟩ := List.mem_map.mp listed
    obtain ⟨part, inside, inPart⟩ := (each t member).source found
    exact ⟨part, List.mem_flatMap.mpr ⟨t, member, inside⟩, inPart⟩
  kept part member exposed := by
    obtain ⟨t, listed, inside⟩ := List.mem_flatMap.mp member
    exact (join separator flat _).kept _ (List.mem_map_of_mem listed)
      ((each t listed).kept part inside exposed)

private theorem joinMap {α : Type} (separator : String) (flat : Flat separator.toList)
    (items : List α)
    {whole : α → String} {parts : α → List String} (each : ∀ a, Prints (parts a) (whole a)) :
    Prints (items.flatMap parts) (Printer.join separator (items.map whole)) := by
  have all := joinAll separator flat (items.map fun a => (parts a, whole a)) (by simp [each])
  rwa [List.flatMap_map, List.map_map] at all

theorem trimRight (prints : Prints parts text) : Prints parts (trimRight text) where
  source broken := prints.source broken.of_trimRight
  kept part member exposed := (prints.kept part member exposed).trimRight

theorem named (name : Option String) (text : String) :
    Prints (name.toList ++ [text]) (named name text) := by
  cases name with
  | none => exact part text
  | some name => exact ((part name).after _ (by decide)).append (part text)

end Prints

private theorem formText?_prints {name text : String} {args : List Expr} {texts : List String}
    (found : formText? name args texts = some text) : Prints texts text := by
  unfold formText? at found
  split at found
  · obtain rfl := Option.some.inj found
    split
    · rename_i empty
      rw [List.isEmpty_iff.mp empty]
      exact .fixed (by decide)
    · exact ((Prints.join "; " (by decide) texts).before _ (by decide)).after _ (by decide)
  · split at found
    · rename_i params body _
      split at found
      · obtain rfl := Option.some.inj found
        have head := ((Prints.part params).before "function(" (by decide)).after ") " (by decide)
        exact (head.append (.join " " (by decide) body)).trimRight
      · cases found
    · rename_i test yes _
      obtain rfl := Option.some.inj found
      have head := ((Prints.part test).before "if (" (by decide)).after ") " (by decide)
      exact head.append (.part yes)
    · rename_i test yes no _
      obtain rfl := Option.some.inj found
      have head := ((Prints.part test).before "if (" (by decide)).after ") " (by decide)
      exact ((head.append (.part yes)).after _ (by decide)).append (.part no)
    · rename_i variable_ sequence body _
      obtain rfl := Option.some.inj found
      have head := ((Prints.part variable_).before "for (" (by decide)).after " in " (by decide)
      exact ((head.append (.part sequence)).after _ (by decide)).append (.part body)
    · rename_i test body _
      obtain rfl := Option.some.inj found
      have head := ((Prints.part test).before "while (" (by decide)).after ") " (by decide)
      exact head.append (.part body)
    · cases found

/-- A comparison of a chain as it is printed: the literal between two operands, and the second of
them. -/
structure ChainLink where
  tag : Tag
  shown : Value
  operand : Expr

namespace ChainLink

def text (link : ChainLink) : String := link.shown.display ++ " " ++ link.operand.render

/-- The arguments that stand for a link. -/
def nodes (link : ChainLink) : List Expr := [.atomic link.tag link.shown, link.operand]

end ChainLink

private theorem chainTail?_nodes (links : List ChainLink) :
    chainTail? (links.flatMap ChainLink.nodes) ((links.flatMap ChainLink.nodes).map Node.render) =
      some (links.map ChainLink.text) := by
  induction links with
  | nil => rfl
  | cons link rest ih =>
    change (chainTail? (rest.flatMap ChainLink.nodes)
      ((rest.flatMap ChainLink.nodes).map Node.render)).bind
      (fun texts => some (link.text :: texts)) = _
    rw [ih]
    rfl

private theorem exists_links_of_chainTail? {nodes : List Expr} {shown : List String}
    (found : chainTail? nodes (nodes.map Node.render) = some shown) :
    ∃ links : List ChainLink, nodes = links.flatMap ChainLink.nodes ∧
      shown = links.map ChainLink.text := by
  match nodes with
  | [] =>
    obtain rfl := Option.some.inj found
    exact ⟨[], rfl, rfl⟩
  | [_] => cases found
  | op :: operand :: rest =>
    simp only [List.map_cons, chainTail?, Option.bind_eq_bind, Option.bind_eq_some_iff] at found
    obtain ⟨symbol, literal, texts, later, same⟩ := found
    obtain ⟨links, rfl, rfl⟩ := exists_links_of_chainTail? later
    cases op with
    | atomic tag value =>
      obtain rfl := Option.some.inj literal
      obtain rfl := Option.some.inj same
      exact ⟨⟨tag, value, operand⟩ :: links, rfl, rfl⟩
    | symbol | primitive | pairlist | call => cases literal

private theorem exists_links_of_chain? {args : List Expr} {text : String}
    (found : chain? args (args.map Node.render) = some text) :
    ∃ first, ∃ links : List ChainLink, args = first :: links.flatMap ChainLink.nodes ∧
      text = "(" ++ join " " (first.render :: links.map ChainLink.text) ++ ")" := by
  match args with
  | [] => cases found
  | [_] => cases found
  | first :: op :: rest =>
    simp only [List.map_cons, chain?, Option.bind_eq_bind, Option.bind_eq_some_iff] at found
    obtain ⟨shown, tail, same⟩ := found
    obtain ⟨links, whole, rfl⟩ := exists_links_of_chainTail? tail
    exact ⟨first, links, by rw [whole], (Option.some.inj same).symm⟩

theorem ChainLink.prints (link : ChainLink) :
    Prints [link.shown.display, link.operand.render] link.text :=
  ((Prints.part _).after _ (by decide)).append (.part _)

private theorem unnamedArgs_of_unnamed {args : List (Option String × Expr)}
    (unnamed : (args.map (·.1)).all Option.isNone = true) :
    unnamedArgs (args.map (·.2)) = args := by
  induction args with
  | nil => rfl
  | cons a rest ih =>
    obtain ⟨name, value⟩ := a
    rw [List.map_cons, List.all_cons, Bool.and_eq_true, Option.isNone_iff_eq_none] at unnamed
    obtain ⟨rfl, later⟩ := unnamed
    exact congrArg (_ :: ·) (ih later)

def Value.EndsLine (value : Value) : Prop :=
  ∃ codes ∈ value.codes?, ∃ code ∈ codes, code ∈ breakCodes

/-- A call of `compare` without names of arguments that has the shape of a chain, with a text that
ends a line between two operands. -/
def Node.Spills (node : Expr) : Prop :=
  ∃ (tag mark : Tag) (first : Expr) (links : List ChainLink),
    node = .call tag (.symbol mark "compare")
      (unnamedArgs (first :: links.flatMap ChainLink.nodes)) ∧
      ∃ link ∈ links, link.shown.EndsLine

/-- The operators print their arguments too, except a member, whose name is printed as it is, and a
chain. -/
theorem operatorText?_cases {name text : String} {args : List Expr} {texts : List String}
    (found : operatorText? name args texts = some text) :
    Prints texts text ∨
      (name = "." ∧ ∃ value last member, texts = [value, last] ∧
        args[1]?.bind literalDisplay? = some member ∧ Prints [value, member] text) ∨
      (name = "compare" ∧ chain? args texts = some text) := by
  unfold operatorText? at found
  split at found
  · rename_i a b
    split_ifs at found with assigns isMember isIndex isInfix
    · have flat : Flat name.toList :=
        (by decide : ∀ name ∈ assignments, Flat name.toList) name (List.contains_iff_mem.mp assigns)
      obtain rfl := Option.some.inj found
      have sign := ((Prints.part a).after " " (by decide)).after _ flat
      exact .inl ((sign.after " " (by decide)).append (.part b))
    · rw [Bool.and_eq_true, decide_eq_true_eq] at isMember
      obtain ⟨member, display, rfl⟩ := Option.map_eq_some_iff.mp found
      exact .inr (.inl ⟨isMember.1, a, b, member, rfl, display,
        ((Prints.part a).after _ (by decide)).append (.part member)⟩)
    · obtain rfl := Option.some.inj found
      exact .inl ((((Prints.part a).after "[" (by decide)).append (.part b)).after _ (by decide))
    · have flat : Flat name.toList :=
        (by decide +kernel : ∀ name ∈ infixOperators, Flat name.toList) name
          (List.contains_iff_mem.mp isInfix)
      obtain rfl := Option.some.inj found
      have sign := (((Prints.part a).before "(" (by decide)).after " " (by decide)).after _ flat
      exact .inl (((sign.after " " (by decide)).append (.part b)).after _ (by decide))
  · rename_i first rest _
    split at found
    · obtain rfl := Option.some.inj found
      have items := Prints.join ", " (by decide) rest
      exact .inl ((((Prints.part first).after "[" (by decide)).append items).after _ (by decide))
    · split at found
      · rename_i sign known _
        have flat : Flat sign.toList := by
          obtain ⟨_, _, whole, _⟩ := List.lookup_eq_some_iff.mp known
          have listed : (name, sign) ∈ prefixTexts := by simp [whole]
          exact (by decide : ∀ entry ∈ prefixTexts, Flat entry.2.toList) _ listed
        obtain rfl := Option.some.inj found
        have signed : Flat ("(" ++ sign).toList := .strings (by decide) flat
        exact .inl (((Prints.part first).before _ signed).after _ (by decide))
      · split at found
        · rename_i isChain
          exact .inr (.inr ⟨isChain, found⟩)
        · cases found
  · cases found

private theorem pairlist_prints (params : List (String × Option Expr)) :
    Prints (params.flatMap fun p => p.1 :: (p.2.map Node.render).toList)
      (join ", " (renderParams params)) := by
  rw [renderParams_eq]
  refine .joinMap ", " (by decide) _ fun p => ?_
  obtain ⟨name, default | default⟩ := p
  · exact .part name
  · exact ((Prints.part name).after _ (by decide)).append (.part _)

private theorem arguments_print (args : List (Option String × Expr)) :
    Prints (args.flatMap fun a => a.1.toList ++ [a.2.render]) (join ", " (argumentTexts args)) :=
  .joinMap ", " (by decide) _ fun a => .named a.1 a.2.render

private theorem Text.isBreak_ofNat {code : Nat} (broken : isBreak (Char.ofNat code) = true) :
    code ∈ breakCodes := by
  rw [isBreak, List.contains_iff_mem] at broken
  by_cases valid : code.isValidChar
  · rwa [Char.toNat_ofNat, if_pos valid] at broken
  · rw [Char.ofNat, dif_neg valid] at broken
    exact absurd broken (by decide)

private theorem breaks_display_iff {value : Value} (plain : value.IsPlain) :
    Breaks value.display ↔ value.EndsLine := by
  cases value with
  | str text => simp [Value.EndsLine, Value.codes?, Value.display, Breaks, isBreak]
  | ragged text =>
    have apart : ∀ code ∈ breakCodes,
        isSurrogate code = false ∧ isBreak (Char.ofNat code) = true := by
      decide
    simp only [Value.EndsLine, Value.codes?, Value.display, Breaks, Ragged.display,
      String.toList_ofList, List.mem_map, Option.mem_some_iff, exists_eq_left']
    constructor
    · rintro ⟨_, ⟨code, member, rfl⟩, broken⟩
      split at broken
      · cases broken
      · exact ⟨code, member, isBreak_ofNat broken⟩
    · rintro ⟨code, member, broken⟩
      obtain ⟨plain, ends⟩ := apart code broken
      refine ⟨_, ⟨code, member, rfl⟩, ?_⟩
      rwa [plain, if_neg Bool.false_ne_true]
  | none | bool | int | float | complex | bytes | ellipsis =>
    refine ⟨fun broken => absurd broken (not_breaks (flat_text plain)), ?_⟩
    rintro ⟨_, ⟨⟩, _⟩
  | list | tuple | map | node | scope | identity => exact plain.elim

namespace Node

private theorem exists_symbol_of_symbolName? {node : Expr} {name : String}
    (symbol : node.symbolName? = some name) : ∃ mark, node = .symbol mark name := by
  cases node with
  | symbol mark =>
    obtain rfl := Option.some.inj symbol
    exact ⟨mark, rfl⟩
  | atomic | primitive | pairlist | call => cases symbol

variable {tag : Tag} {callee : Expr} {args : List (Option String × Expr)}

private theorem render_call_cases (tag : Tag) (callee : Expr) (args : List (Option String × Expr)) :
    (∃ name, callee.symbolName? = some name ∧
      formText? name (args.map (·.2)) (renderArgs args) = some (call tag callee args).render) ∨
    (∃ name, callee.symbolName? = some name ∧ (args.map (·.1)).all Option.isNone = true ∧
      operatorText? name (args.map (·.2)) (renderArgs args) =
        some (call tag callee args).render) ∨
    (call tag callee args).render =
      calleeText callee ++ "(" ++ join ", " (argumentTexts args) ++ ")" := by
  rw [render, callText, zipWith_named]
  cases symbol : callee.symbolName? with
  | none => exact .inr (.inr (by simp [calleeText, symbol]))
  | some name =>
    simp only [Option.bind_eq_bind, Option.bind_some, Option.some.injEq, exists_eq_left']
    cases form : formText? name (args.map (·.2)) (renderArgs args) with
    | some text => exact .inl rfl
    | none =>
      by_cases unnamed : (args.map (·.1)).all Option.isNone = true
      · rw [if_pos unnamed]
        cases operator : operatorText? name (args.map (·.2)) (renderArgs args) with
        | some text => exact .inr (.inl ⟨unnamed, rfl⟩)
        | none => exact .inr (.inr (by simp [calleeText, symbol]))
      · rw [if_neg unnamed]
        exact .inr (.inr (by simp [calleeText, symbol]))

/-- What a printed call shows of its children, and where its line breaks can come from. -/
structure Shown (node : Expr) (text : String) : Prop where
  source : Breaks text → (∃ c ∈ node.children, Breaks c.render) ∨ node.Spills
  kept : ∀ c ∈ node.children, Exposed c.render → Exposed text

private theorem Shown.of_prints {node : Expr} {parts : List String} {text : String}
    (prints : Prints parts text)
    (source : ∀ part ∈ parts, Breaks part →
      (∃ c ∈ node.children, Breaks c.render) ∨ node.Spills)
    (kept : ∀ c ∈ node.children, Breaks c.render → c.render ∈ parts) : Shown node text where
  source broken := by
    obtain ⟨part, member, found⟩ := prints.source broken
    exact source part member found
  kept c child exposed := prints.kept _ (kept c child exposed.breaks) exposed

section

variable (here : (call tag callee args).Written)
  (below : ∀ c ∈ (call tag callee args).children, c.Written)

private theorem not_breaks_symbol {node : Expr} {name : String}
    (symbol : node.symbolName? = some name) (written : node.Written) : ¬Breaks node.render := by
  cases node with
  | symbol => exact not_breaks (flat_known written)
  | atomic | primitive | pairlist | call => cases symbol

private theorem not_breaks_literal {node : Expr} {shown : String}
    (literal : literalDisplay? node = some shown)
    (written : node.Written) : ¬Breaks node.render := by
  cases node with
  | atomic => exact not_breaks (flat_text written)
  | symbol | primitive | pairlist | call => cases literal

include below

private theorem shown_of_arguments {name text : String} (symbol : callee.symbolName? = some name)
    (prints : Prints (renderArgs args) text) : Shown (call tag callee args) text := by
  rw [renderArgs_eq] at prints
  refine .of_prints prints (fun part member broken => ?_) fun c child broken => ?_
  · obtain ⟨a, listed, rfl⟩ := List.mem_map.mp member
    exact .inl ⟨a.2, List.mem_cons_of_mem _ (List.mem_map_of_mem listed), broken⟩
  · rcases List.mem_cons.mp child with rfl | child
    · exact absurd broken (not_breaks_symbol symbol (below _ List.mem_cons_self))
    · obtain ⟨a, listed, rfl⟩ := List.mem_map.mp child
      exact List.mem_map_of_mem listed

include here

private theorem shown_of_member {value last member text : String}
    (symbol : callee.symbolName? = some ".") (two : renderArgs args = [value, last])
    (literal : (args.map (·.2))[1]?.bind literalDisplay? = some member)
    (prints : Prints [value, member] text) : Shown (call tag callee args) text := by
  have word : Source.IsWord member := here.2 symbol member literal
  rw [renderArgs_eq] at two
  obtain ⟨a, b, rfl, onFirst, onSecond⟩ : ∃ a b, args = [a, b] ∧ a.2.render = value ∧
      b.2.render = last := by
    match args, two with
    | [a, b], two => exact ⟨a, b, rfl, by simpa using two⟩
  refine .of_prints prints (fun part listed broken => ?_) fun c child broken => ?_
  · simp only [List.mem_cons, List.not_mem_nil, or_false] at listed
    rcases listed with rfl | rfl
    · exact .inl ⟨a.2, by simp [children], onFirst ▸ broken⟩
    · exact absurd broken (not_breaks (flat_known (.inl word)))
  · simp only [children, List.map_cons, List.map_nil, List.mem_cons, List.not_mem_nil,
      or_false] at child
    rcases child with rfl | rfl | rfl
    · exact absurd broken (not_breaks_symbol symbol (below _ List.mem_cons_self))
    · simp [onFirst]
    · exact absurd broken (not_breaks_literal literal (below _ (by simp [children])))

omit here in
private theorem shown_of_chain {text : String} (symbol : callee.symbolName? = some "compare")
    (unnamed : (args.map (·.1)).all Option.isNone = true)
    (chain : chain? (args.map (·.2)) (renderArgs args) = some text) :
    Shown (call tag callee args) text := by
  have texts : renderArgs args = (args.map (·.2)).map render := by
    rw [renderArgs_eq, List.map_map]
    rfl
  rw [texts] at chain
  obtain ⟨first, links, nodes, rfl⟩ := exists_links_of_chain? chain
  have shape : args = unnamedArgs (first :: links.flatMap ChainLink.nodes) := by
    rw [← nodes, unnamedArgs_of_unnamed unnamed]
  have spelled : (call tag callee args).children =
      callee :: first :: links.flatMap ChainLink.nodes := by rw [children, nodes]
  have prints := ((Prints.joinAll " " (by decide)
    (([first.render], first.render) :: links.map fun link =>
      ([link.shown.display, link.operand.render], link.text)) (by
        rw [List.forall_mem_cons, List.forall_mem_map]
        exact ⟨.part _, fun link _ => link.prints⟩)).before "(" (by decide)).after ")" (by decide)
  simp only [List.flatMap_cons, List.flatMap_map, List.map_cons, List.map_map] at prints
  refine .of_prints prints (fun part listed broken => ?_) fun c child broken => ?_
  · rcases List.mem_cons.mp listed with rfl | listed
    · exact .inl ⟨first, by simp [spelled], broken⟩
    · obtain ⟨link, member, inLink⟩ := List.mem_flatMap.mp listed
      simp only [List.mem_cons, List.not_mem_nil, or_false] at inLink
      have inside : ∀ n ∈ link.nodes, n ∈ (call tag callee args).children := fun n within => by
        rw [spelled]
        exact List.mem_cons_of_mem _ (List.mem_cons_of_mem _
          (List.mem_flatMap.mpr ⟨link, member, within⟩))
      rcases inLink with rfl | rfl
      · have plain : link.shown.IsPlain := below _ (inside _ List.mem_cons_self)
        obtain ⟨mark, rfl⟩ := exists_symbol_of_symbolName? symbol
        exact .inr ⟨tag, mark, first, links, by rw [shape], link, member,
          (breaks_display_iff plain).mp broken⟩
      · exact .inl ⟨link.operand, inside _ (by simp [ChainLink.nodes]), broken⟩
  · rw [spelled] at child
    rcases List.mem_cons.mp child with rfl | child
    · exact absurd broken (not_breaks_symbol symbol (below _ List.mem_cons_self))
    rcases List.mem_cons.mp child with rfl | child
    · exact List.mem_cons_self
    · obtain ⟨link, member, inLink⟩ := List.mem_flatMap.mp child
      simp only [ChainLink.nodes, List.mem_cons, List.not_mem_nil, or_false] at inLink
      rcases inLink with rfl | rfl
      · refine absurd broken (not_breaks_literal rfl (below _ ?_))
        rw [spelled]
        exact List.mem_cons_of_mem _ (List.mem_cons_of_mem _
          (List.mem_flatMap.mpr ⟨link, member, List.mem_cons_self⟩))
      · exact List.mem_cons_of_mem _ (List.mem_flatMap.mpr
          ⟨link, member, List.mem_cons_of_mem _ List.mem_cons_self⟩)

private theorem shown_of_other (ordinary : (call tag callee args).render =
      calleeText callee ++ "(" ++ join ", " (argumentTexts args) ++ ")") :
    Shown (call tag callee args) (call tag callee args).render := by
  have names (part : String) (a : Option String × Expr) (listed : a ∈ args)
      (name : part ∈ a.1.toList) : ¬Breaks part :=
    not_breaks (flat_known (.inl (here.1 a listed part (Option.mem_toList.mp name))))
  have head : Prints [callee.render] (calleeText callee) := by
    unfold calleeText
    cases symbol : callee.symbolName? with
    | none => exact ((Prints.part _).before _ (by decide)).after _ (by decide)
    | some name =>
      obtain ⟨mark, rfl⟩ := exists_symbol_of_symbolName? symbol
      exact .part name
  have prints := ((head.after "(" (by decide)).append (arguments_print args)).after ")" (by decide)
  rw [← ordinary] at prints
  refine .of_prints prints (fun part listed broken => ?_) fun c child broken => ?_
  · rcases List.mem_cons.mp listed with rfl | listed
    · exact .inl ⟨callee, List.mem_cons_self, broken⟩
    · obtain ⟨a, member, inArg⟩ := List.mem_flatMap.mp listed
      rcases List.mem_append.mp inArg with name | value
      · exact absurd broken (names part a member name)
      · obtain rfl := List.mem_singleton.mp value
        exact .inl ⟨a.2, List.mem_cons_of_mem _ (List.mem_map_of_mem member), broken⟩
  · rcases List.mem_cons.mp child with rfl | child
    · exact List.mem_cons_self
    · obtain ⟨a, member, rfl⟩ := List.mem_map.mp child
      exact List.mem_cons_of_mem _ (List.mem_flatMap.mpr ⟨a, member, by simp⟩)

private theorem shown_call : Shown (call tag callee args) (call tag callee args).render := by
  rcases render_call_cases tag callee args with
    ⟨name, symbol, form⟩ | ⟨name, symbol, unnamed, operator⟩ | ordinary
  · exact shown_of_arguments below symbol (formText?_prints form)
  · rcases operatorText?_cases operator with
      prints | ⟨rfl, value, last, member, two, literal, prints⟩ | ⟨rfl, chain⟩
    · exact shown_of_arguments below symbol prints
    · exact shown_of_member here below symbol two literal prints
    · exact shown_of_chain below symbol unnamed chain
  · exact shown_of_other here below ordinary

end

private theorem shown_pairlist {params : List (String × Option Expr)}
    (here : (pairlist tag params).Written) :
    Shown (pairlist tag params) (pairlist tag params).render := by
  refine .of_prints (pairlist_prints params) (fun part listed broken => ?_) fun c child broken => ?_
  · obtain ⟨p, member, inParam⟩ := List.mem_flatMap.mp listed
    rcases List.mem_cons.mp inParam with rfl | default
    · exact absurd broken (not_breaks (flat_known (.inl (here p member))))
    · obtain ⟨d, given, rfl⟩ := Option.map_eq_some_iff.mp (Option.mem_toList.mp default)
      exact .inl ⟨d, List.mem_filterMap.mpr ⟨p, member, given⟩, broken⟩
  · obtain ⟨p, member, given⟩ := List.mem_filterMap.mp child
    exact List.mem_flatMap.mpr ⟨p, member, by simp [given]⟩

private theorem shown_render {node : Expr} (here : node.Written)
    (below : ∀ c ∈ node.children, c.Written) : Shown node node.render := by
  cases node with
  | atomic tag value =>
    exact ⟨fun broken => absurd broken (not_breaks (flat_text here)), fun _ child => nomatch child⟩
  | symbol tag name =>
    exact ⟨fun broken => absurd broken (not_breaks (flat_known here)), fun _ child => nomatch child⟩
  | primitive => exact here.elim
  | pairlist => exact shown_pairlist here
  | call => exact shown_call here below

private theorem render_chained (tag mark : Tag) (first : Expr) {links : List ChainLink}
    (some_ : links ≠ []) :
    render (call tag (.symbol mark "compare")
        (unnamedArgs (first :: links.flatMap ChainLink.nodes))) =
      "(" ++ join " " (first.render :: links.map ChainLink.text) ++ ")" := by
  have names : ((unnamedArgs (first :: links.flatMap ChainLink.nodes)).map (·.1)).all
      Option.isNone = true := by simp [unnamedArgs]
  have nodes : (unnamedArgs (first :: links.flatMap ChainLink.nodes)).map (·.2) =
      first :: links.flatMap ChainLink.nodes := by simp [unnamedArgs]
  have texts : renderArgs (unnamedArgs (first :: links.flatMap ChainLink.nodes)) =
      (first :: links.flatMap ChainLink.nodes).map render := by
    simp [renderArgs_eq, unnamedArgs, Function.comp_def]
  have chain : operatorText? "compare" (first :: links.flatMap ChainLink.nodes)
      ((first :: links.flatMap ChainLink.nodes).map render) =
      some ("(" ++ join " " (first.render :: links.map ChainLink.text) ++ ")") := by
    cases links with
    | nil => exact absurd rfl some_
    | cons link rest =>
      have tail := chainTail?_nodes (link :: rest)
      change (chainTail? ((link :: rest).flatMap ChainLink.nodes)
        (((link :: rest).flatMap ChainLink.nodes).map render)).bind
          (fun texts => some ("(" ++ join " " (first.render :: texts) ++ ")")) = _
      rw [tail]
      rfl
  exact callText_of_operator _ rfl names (by rw [nodes, texts]; exact chain)

private theorem Spills.exposed {node : Expr} (written : ∀ c ∈ node.children, c.Written)
    (spills : node.Spills) : Exposed node.render := by
  obtain ⟨tag, mark, first, links, rfl, link, member, ends⟩ := spills
  have plain : link.shown.IsPlain := by
    refine written (.atomic link.tag link.shown) ?_
    simp only [children, unnamedArgs, List.map_map, Function.comp_def, List.map_id', List.mem_cons,
      List.mem_flatMap]
    exact Or.inr (Or.inr ⟨link, member, List.mem_cons_self⟩)
  obtain ⟨c, inText, broken⟩ := (breaks_display_iff plain).mpr ends
  rw [render_chained tag mark first (List.ne_nil_of_mem member)]
  have display : link.shown.display.toList.Sublist link.text.toList := by
    rw [ChainLink.text]
    simp
  have inside : link.text ∈ first.render :: links.map ChainLink.text :=
    List.mem_cons_of_mem _ (List.mem_map_of_mem member)
  have before : [c].Sublist (join " " (first.render :: links.map ChainLink.text)).toList :=
    ((List.singleton_sublist.mpr inText).trans display).trans (sublist_join " " inside)
  refine ⟨c, ')', ?_, broken, by decide⟩
  rw [String.toList_append, String.toList_append, List.append_assoc]
  exact (before.append (List.Sublist.refl [')'])).trans (List.sublist_append_right _ _)

private theorem breaks_render_iff {node : Expr} (written : ∀ n ∈ node.nodes, n.Written) :
    Breaks node.render ↔ ∃ n ∈ node.nodes, n.Spills := by
  constructor
  · intro broken
    induction node using induction_children with
    | step node ih =>
      have here := written node node.self_mem_nodes
      have shown := shown_render here fun c child =>
        written c (child_mem_nodes node.self_mem_nodes child)
      rcases shown.source broken with ⟨c, child, inChild⟩ | spills
      · obtain ⟨n, member, found⟩ := ih c child
          (fun n below => written n (nodes_of_child child below)) inChild
        exact ⟨n, nodes_of_child child member, found⟩
      · exact ⟨node, node.self_mem_nodes, spills⟩
  · rintro ⟨n, member, spills⟩
    -- What is visible below a node is visible in the node, up to the root.
    suffices exposed : Exposed node.render from exposed.breaks
    induction node using induction_children with
    | step node ih =>
      rcases mem_nodes_iff.mp member with rfl | ⟨c, child, below⟩
      · exact spills.exposed fun c child =>
          written c (child_mem_nodes n.self_mem_nodes child)
      · have shown := shown_render (written node node.self_mem_nodes) fun c child =>
          written c (child_mem_nodes node.self_mem_nodes child)
        exact shown.kept c child
          (ih c child (fun n below => written n (nodes_of_child child below)) below)

end Node

/-- An ordinary call of a function named `compare`, with a line end given by its name. -/
def namedLineEnd : String :=
  "def f(a, b):\n    return compare(a, '\\N\x7bLINE FEED\x7d', b)\n"

/-- An ordinary call of a function named `compare`, with a text of two lines. -/
def twoLines : String := "def f(a, b):\n    return compare(a, \"x\\ny\", b)\n"

private theorem breaks_of_compare : ∀ source ∈ [namedLineEnd, twoLines],
    (Function.read Source.someNames source none []).toOption.any
      (fun fn => fn.body.render.toList.any isBreak) = true := by decide +kernel

private theorem exists_of_toOption_any {ε α : Type} {result : Except ε α} {test : α → Bool}
    (passes : result.toOption.any test = true) : ∃ a, result = .ok a ∧ test a = true := by
  cases result with
  | error => cases passes
  | ok a => exact ⟨a, rfl, passes⟩

end TreePass
