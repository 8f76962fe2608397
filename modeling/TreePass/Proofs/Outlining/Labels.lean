import TreePass.Proofs.Console.Names
import TreePass.Proofs.Outlining.Marks

/-!
Outlines print. Names, values and scopes are escaped in the labels of nodes, so whatever they are,
no label closes a style that is not open.
-/

set_option autoImplicit false
set_option relaxedAutoImplicit false

namespace TreePass

open Console.Markup

namespace Console.Markup

inductive IsLabelStyle : List Char → Prop
  | dim : IsLabelStyle ['d', 'i', 'm']
  | symbol : IsLabelStyle ['s', 'y', 'm', 'b', 'o', 'l']
  | scope : IsLabelStyle ['s', 'c', 'o', 'p', 'e']
  | bold : IsLabelStyle ['b', 'o', 'l', 'd']

private theorem IsLabelStyle.isStyle {name : List Char} (used : IsLabelStyle name) :
    IsStyle name := by
  cases used <;> exact isStyle_of_word (by decide) (by decide) (by decide) (by decide) (by decide)

end Console.Markup

namespace Outline

variable {rest : List Char}

private theorem tame_styled (word : List Char) {front back : String} {name : List Char}
    (opening : front.toList = word ++ ' ' :: '[' :: (name ++ [']']))
    (closing : back.toList = '[' :: '/' :: (name ++ [']'])) (plain : word.all isPlain = true)
    (used : IsLabelStyle name) (text : String) (tame : Tame rest) :
    Tame ((front ++ escape text ++ back).toList ++ rest) := by
  simp only [String.toList_append, opening, closing, List.append_assoc, List.cons_append,
    List.nil_append]
  exact (tame.styled used.isStyle (quiet_escape text) (by decide)).append plain

private theorem tame_phrase (front : String) (phrase : List Char) (c : Char)
    (split : front.toList = phrase ++ [c]) (plain : (phrase ++ [c]).all isPlain = true)
    (text : String) (tame : Tame rest) (opens : ¬ Closes rest) :
    Tame (front.toList ++ ((escape text).toList ++ rest)) := by
  simp only [List.all_append, List.all_cons, List.all_nil, Bool.and_true, Bool.and_eq_true] at plain
  rw [split, List.append_assoc, List.singleton_append]
  exact (tame.quiet opens (quiet_escape text) plain.2).append plain.1

private theorem tame_label (node : Expr) (tame : Tame rest) (opens : ¬ Closes rest) :
    Tame ((label node).toList ++ rest) := by
  cases node with
  | atomic tag value =>
    exact tame_styled "atomic".toList (by decide) (by decide) (by decide) .dim value.text tame
  | symbol tag name =>
    exact tame_styled "symbol".toList (by decide) (by decide) (by decide) .symbol name tame
  | primitive tag ref =>
    exact tame_styled "primitive".toList (by decide) (by decide) (by decide) .symbol ref.name tame
  | pairlist tag params =>
    have behind : Tame (')' :: rest) := tame.cons (by decide)
    have closing : ¬ Closes (')' :: rest) := by simpa [Closes] using opens
    have phrase := tame_phrase "pairlist (" "pairlist ".toList '(' (by decide) (by decide)
      (", ".intercalate (params.map (·.1))) behind closing
    have shape : label (.pairlist tag params) =
      "pairlist (" ++ escape (", ".intercalate (params.map (·.1))) ++ ")" := rfl
    rw [shape, String.toList_append, String.toList_append, List.append_assoc, List.append_assoc]
    exact phrase
  | call tag callee args =>
    obtain ⟨name, shape⟩ : ∃ name, label (.call tag callee args) =
      "call [symbol]" ++ escape name ++ "[/symbol]" := ⟨_, rfl⟩
    rw [shape]
    exact tame_styled "call".toList (by decide) (by decide) (by decide) .symbol name tame

private theorem not_closes_nameList (names : List String) :
    ¬ Closes (Text.Quoted.nameList names).toList := by
  have first : "[".toList = ['['] := by decide
  simp [Text.Quoted.nameList, Closes, first]

def scopeSets (scope : Scope) : List Char :=
  " assigned=".toList ++ ((escape (Text.Quoted.nameList scope.assigned)).toList ++
    (" bound=".toList ++ (escape (Text.Quoted.nameList scope.bound)).toList))

def scopeMark : List Char :=
  '[' :: (['s', 'c', 'o', 'p', 'e'] ++ ']' :: (['s', 'c', 'o', 'p', 'e'] ++
    '[' :: '/' :: (['s', 'c', 'o', 'p', 'e'] ++ [']'])))

private theorem toList_behind {first second third fourth : String} {mark word : List Char}
    (head : first.toList = mark ++ word) :
    (first ++ second ++ third ++ fourth).toList =
      mark ++ (word ++ (second.toList ++ (third.toList ++ fourth.toList))) := by
  simp only [String.toList_append, head, List.append_assoc]

private theorem toList_scopeLabel (scope : Scope) :
    (scopeLabel scope).toList = scopeMark ++ scopeSets scope :=
  toList_behind (by decide)

private theorem tame_scopeLabel (scope : Scope) (c : Char) (plain : isPlain c = true) :
    Tame (c :: (scopeLabel scope).toList) := by
  have bound := tame_phrase " bound=" " bound".toList '=' (by decide) (by decide)
    (Text.Quoted.nameList scope.bound) tame_nil (by simp [Closes])
  rw [List.append_nil] at bound
  have opens := not_closes_append (by decide : ¬ Closes " bound=".toList)
    (not_closes_escape (not_closes_nameList scope.bound))
  have sets : Tame (scopeSets scope) := tame_phrase " assigned=" " assigned".toList '='
    (by decide) (by decide) (Text.Quoted.nameList scope.assigned) bound opens
  have quiet : Quiet ['s', 'c', 'o', 'p', 'e'] := quiet_of_plain (by decide)
  have styled := sets.styled IsLabelStyle.scope.isStyle quiet plain
  rw [toList_scopeLabel]
  exact styled

private theorem prints_labelWithin (outer own : Option Scope) (node : Expr) :
    Prints (labelWithin outer own node) := by
  have bare : Prints (label node) := by
    have tame := tame_label node tame_nil (by simp [Closes])
    rw [List.append_nil] at tame
    exact tame.prints
  unfold labelWithin
  split
  · exact bare
  · rename_i scope
    split
    · exact bare
    · have gap : "  ".toList = [' ', ' '] := by decide
      have behind := (tame_scopeLabel scope ' ' (by decide)).cons (by decide : isPlain ' ' = true)
      have opens : ¬ Closes (' ' :: ' ' :: (scopeLabel scope).toList) := by
        rw [toList_scopeLabel]
        simp [Closes, scopeMark]
      have tame := tame_label node behind opens
      refine Tame.prints ?_
      rw [String.toList_append, String.toList_append, gap, List.append_assoc]
      exact tame

private theorem plain_intercalate {separator : List Char} (between : separator.all isPlain = true)
    {texts : List (List Char)} (each : ∀ text ∈ texts, text.all isPlain = true) :
    (separator.intercalate texts).all isPlain = true := by
  induction texts with
  | nil => rfl
  | cons text rest ih =>
    have here := each text List.mem_cons_self
    have later := ih fun other listed => each other (List.mem_cons_of_mem _ listed)
    cases rest with
    | nil => rwa [List.intercalate_singleton]
    | cons second rest =>
      rw [List.intercalate_cons_cons, List.all_append, List.all_append, here, between, later]
      rfl

private theorem toList_headline (opening name closing params gap sets : String) :
    (opening ++ name ++ closing ++ params ++ gap ++ sets).toList = opening.toList ++ (name.toList ++
      (closing.toList ++ (params.toList ++ (gap.toList ++ sets.toList)))) := by
  simp only [String.toList_append, List.append_assoc]

theorem prints_functionLabel {fn : Function} (scope : Scope)
    (named : (fn.name.getD "None").toList.all isPlain = true)
    (declared : ∀ name ∈ fn.params.paramNames?.getD [], name.toList.all isPlain = true) :
    Prints (functionLabel fn scope) := by
  have listed : (", ".intercalate (fn.params.paramNames?.getD [])).toList.all isPlain = true := by
    rw [String.toList_intercalate]
    refine plain_intercalate (by decide) ?_
    simpa using declared
  have sets := (tame_scopeLabel scope ' ' (by decide)).cons (by decide : isPlain ' ' = true)
  have behind := ((sets.cons (by decide : isPlain ')' = true)).append listed).cons
    (by decide : isPlain '(' = true)
  obtain ⟨after, followed⟩ :=
    active_styled IsLabelStyle.bold.isStyle (quiet_of_plain named) behind []
  have whole : followAll [] (active false (functionLabel fn scope).toList) = .ok after := by
    rw [functionLabel, toList_headline]
    exact followed
  exact prints_of_followAll whole

end Outline

namespace Console.Tree

mutual

private theorem exists_branch (guides : String) (last : Bool) : ∀ tree : Tree,
    (∀ label ∈ tree.labels, Prints label) → ∃ lines, branch guides last tree = .ok lines
  | .node label branches, each => by
    obtain ⟨own, printed⟩ := each label List.mem_cons_self
    obtain ⟨inner, below⟩ := exists_branchLines (guides ++ under last) branches fun other listed =>
      each other (List.mem_cons_of_mem label listed)
    exact ⟨_, by rw [branch, printed, below]; rfl⟩

private theorem exists_branchLines (guides : String) : ∀ branches : List Tree,
    (∀ label ∈ branchLabels branches, Prints label) →
      ∃ lines, branchLines guides branches = .ok lines
  | [], _ => ⟨[], rfl⟩
  | tree :: rest, each => by
    obtain ⟨first, printed⟩ := exists_branch guides rest.isEmpty tree fun label listed =>
      each label (List.mem_append_left _ listed)
    obtain ⟨later, below⟩ := exists_branchLines guides rest fun label listed =>
      each label (List.mem_append_right _ listed)
    exact ⟨_, by rw [branchLines, printed, below]; rfl⟩

end

theorem exists_lines {tree : Tree} (each : ∀ label ∈ tree.labels, Prints label) :
    ∃ lines, tree.lines = .ok lines := by
  obtain ⟨label, branches⟩ := tree
  obtain ⟨own, printed⟩ := each label List.mem_cons_self
  obtain ⟨inner, below⟩ := exists_branchLines "" branches fun other listed =>
    each other (List.mem_cons_of_mem label listed)
  exact ⟨_, by rw [lines, printed, below]; rfl⟩

end Console.Tree

namespace Outline

variable {σ : Type}

private theorem printed_of_bounded {policy : Policy} {s : Store σ} {info : Scope} {root : Expr}
    (bounded : policy.Bounded s info root) : Lined (fun _ label => Prints label) s info root where
  stamped := bounded.stamped
  below n member := by
    obtain ⟨own, stamped, borders⟩ := bounded.below n member
    refine ⟨own, stamped, fun c child => ?_⟩
    obtain ⟨inner, stampedChild, -⟩ := borders c child
    exact ⟨inner, stampedChild, prints_labelWithin _ _ c⟩

private theorem prints_of_lines {nodes : List Expr} {labels : List String}
    (lines : List.Forall₂ (fun _ label => Prints label) nodes labels) :
    ∀ label ∈ labels, Prints label := by
  induction lines with
  | nil => simp
  | cons first _ ih => exact List.forall_mem_cons.mpr ⟨first, ih⟩

theorem ofFunction_prints {policy : Policy} {fn out : Function} {s after : Store σ}
    (ran : (policy.annotate fn).run s = (.ok out, after)) {root : String} (prints : Prints root) :
    (ofFunction root out).Ends after fun tree s' =>
      s' = after ∧ ∃ lines, tree.lines = .ok lines := by
  obtain ⟨info, own, boundedParams, boundedBody⟩ := Policy.annotate_bounds ran
  rw [ofFunction, own]
  have each (part : Expr) (bounded : policy.Bounded after info part) :=
    ofNode_ends (printed_of_bounded bounded) (prints_labelWithin (some info) (some info) part)
  refine Action.Ends.bind (each _ boundedParams) ?_
  rintro params _ ⟨rfl, linesParams⟩
  refine Action.Ends.bind (each _ boundedBody) ?_
  rintro body _ ⟨rfl, linesBody⟩
  refine Action.ends_pure ⟨rfl, Console.Tree.exists_lines fun label listed => ?_⟩
  simp only [Console.Tree.labels, Console.Tree.branchLabels, List.append_nil, List.mem_cons,
    List.mem_append] at listed
  rcases listed with rfl | inParams | inBody
  · exact prints
  · exact prints_of_lines linesParams label inParams
  · exact prints_of_lines linesBody label inBody

end Outline

end TreePass
