import TreePass.Console.Log
import TreePass.Console.Table
import TreePass.Proofs.Console.Printing
import TreePass.Proofs.Scoping.Notes
import TreePass.Proofs.Source.Naming
import TreePass.Proofs.Printing.Words

/-!
Names print. The words of a text have no brackets and no backslashes, and between quotes the names
that a reader knows open no mark; so neither do lists of them.
-/

set_option autoImplicit false
set_option relaxedAutoImplicit false

namespace TreePass

open Console.Markup Text

namespace Console.Markup

variable {first second text : List Char}

instance (text : List Char) : Decidable (Clear text) :=
  inferInstanceAs (Decidable (List.IsChain _ text))

private theorem clear_of_not_mem (absent : '[' ∉ text) : Clear text := by
  induction text with
  | nil => exact .nil
  | cons c rest ih =>
    rw [List.mem_cons, not_or] at absent
    exact List.isChain_cons.mpr ⟨fun d _ same => absurd same.symm absent.1, ih absent.2⟩

/-- A clear text that does not end in an opening bracket, so that none begins a mark together with
what follows. -/
structure Whole (text : List Char) : Prop where
  clear : Clear text
  last : text.getLast? ≠ some '['

namespace Whole

private theorem of_not_mem (absent : '[' ∉ text) : Whole text :=
  ⟨clear_of_not_mem absent, fun last => absent (List.mem_of_getLast? last)⟩

theorem of_plain (plain : text.all isPlain = true) : Whole text :=
  of_not_mem fun member => absurd (List.all_eq_true.mp plain _ member) (by decide)

theorem of_number (n : Nat) : Whole (toString n).toList := by
  rw [toList_toString]
  exact of_not_mem fun member => absurd (isDigit_of_mem_digits member) (by decide)

theorem append (onFirst : Whole first) (onSecond : Whole second) : Whole (first ++ second) where
  clear := List.isChain_append.mpr
    ⟨onFirst.clear, onSecond.clear, fun c last _ _ same => absurd (same ▸ last) onFirst.last⟩
  last := by
    rw [List.getLast?_append]
    cases last : second.getLast? with
    | none => simpa using onFirst.last
    | some c => simpa [last] using onSecond.last

theorem strings {first second : String} (onFirst : Whole first.toList)
    (onSecond : Whole second.toList) : Whole (first ++ second).toList := by
  rw [String.toList_append]
  exact onFirst.append onSecond

theorem intercalate {separator : List Char} {texts : List (List Char)} (between : Whole separator)
    (each : ∀ text ∈ texts, Whole text) : Whole (separator.intercalate texts) := by
  induction texts with
  | nil => exact of_not_mem (by simp)
  | cons text rest ih =>
    have here := each text List.mem_cons_self
    have later := ih fun other listed => each other (List.mem_cons_of_mem _ listed)
    cases rest with
    | nil => rwa [List.intercalate_singleton]
    | cons second rest =>
      rw [List.intercalate_cons_cons]
      exact (here.append between).append later

end Whole

end Console.Markup

namespace Text.Quoted

private theorem hex_no_bracket (width n : Nat) : '[' ∉ hex width n := by
  have digits := forall_mem_toDigits (p := fun c => c ≠ '[') (by decide) (by decide : 1 < 16) n
  simp only [hex, List.mem_append, List.mem_replicate, not_or]
  exact ⟨fun zero => absurd zero.2 (by decide), fun member => digits _ member rfl⟩

private theorem codePoint_no_bracket (n : Nat) : '[' ∉ codePoint n := by
  unfold codePoint
  split_ifs <;> simp [hex_no_bracket]

private theorem encodeChar_no_bracket (quote : Char) {c : Char} (other : c ≠ '[') :
    '[' ∉ encodeChar quote c := by
  unfold encodeChar
  split_ifs <;> simp [codePoint_no_bracket, other.symm]

private theorem quoteFor_ne_bracket (text : List Char) : quoteFor text ≠ '[' := by
  unfold quoteFor
  split <;> decide

private theorem encode_no_bracket {text : List Char} (absent : '[' ∉ text) : '[' ∉ encode text := by
  have quoted := quoteFor_ne_bracket text
  have inside : '[' ∉ text.flatMap (encodeChar (quoteFor text)) := by
    intro member
    obtain ⟨c, listed, found⟩ := List.mem_flatMap.mp member
    exact encodeChar_no_bracket _ (fun same => absent (same ▸ listed)) found
  simp [encode, quoted.symm, inside]

private theorem startsMark_quoteFor (text : List Char) : startsMark (quoteFor text) = false := by
  unfold quoteFor
  split <;> decide

private theorem head?_quote (text : String) : (quote text).toList.head? = some
    (quoteFor text.toList) := by
  rw [quote, String.toList_ofList, encode]
  rfl

end Text.Quoted

namespace Source

theorem IsWord.plain {text : String} (word : IsWord text) : text.toList.all isPlain = true := by
  refine List.all_eq_true.mpr fun c member => ?_
  have continues := Identifier.isContinue_of_isIdentifier word c member
  by_contra other
  have found : c = '[' ∨ c = '\\' := by
    by_cases bracket : c = '['
    · exact .inl bracket
    · exact .inr (by simpa [isPlain, bracket] using other)
  rcases found with rfl | rfl <;> revert continues <;> decide

namespace Reading

theorem Known.whole {name : String} (known : Known name) : Whole (Quoted.quote name).toList := by
  rcases known with word | listed
  · rw [Quoted.quote, String.toList_ofList]
    refine .of_not_mem (Quoted.encode_no_bracket fun member => ?_)
    exact absurd (List.all_eq_true.mp word.plain _ member) (by decide)
  · have all : ∀ word ∈ vocabulary, Clear (Quoted.quote word).toList ∧
      (Quoted.quote word).toList.getLast? ≠ some '[' := by decide +kernel
    exact ⟨(all name listed).1, (all name listed).2⟩

private theorem whole_brackets {separator : List Char} (between : Whole separator)
    {texts : List (List Char)}
    (each : ∀ text ∈ texts, Whole text ∧ ∃ c ∈ text.head?, startsMark c = false) :
    Whole ('[' :: (separator.intercalate texts ++ [']'])) := by
  have inside := (between.intercalate fun text listed => (each text listed).1).append
    (.of_plain (by decide : [']'].all _ = true))
  have front : ∀ c ∈ (separator.intercalate texts ++ [']']).head?, startsMark c = false := by
    cases texts with
    | nil => simpa using (by decide : startsMark ']' = false)
    | cons text rest =>
      obtain ⟨c, first, opens⟩ := (each text List.mem_cons_self).2
      have leads : (separator.intercalate (text :: rest)).head? = some c := by
        cases rest with
        | nil => rwa [List.intercalate_singleton]
        | cons second rest =>
          rw [List.intercalate_cons_cons, List.append_assoc, List.head?_append,
            Option.mem_def.mp first, Option.some_or]
      rw [List.head?_append, leads]
      simpa using opens
  refine ⟨List.isChain_cons.mpr ⟨fun c first _ => front c first, inside.clear⟩, ?_⟩
  rw [← List.cons_append, List.getLast?_append]
  simp

private theorem whole_nameList {names : List String} (known : ∀ name ∈ names, Known name) :
    Whole (Quoted.nameList names).toList := by
  have shape : (Quoted.nameList names).toList =
      '[' :: (", ".toList.intercalate ((names.map Quoted.quote).map String.toList) ++ [']']) := by
    rw [Quoted.nameList, String.toList_append, String.toList_append, String.toList_intercalate]
    rfl
  rw [shape]
  refine whole_brackets (.of_plain (by decide)) ?_
  simp only [List.map_map, List.forall_mem_map]
  exact fun name listed => ⟨(known name listed).whole, _, Quoted.head?_quote name,
    Quoted.startsMark_quoteFor name.toList⟩

end Reading

end Source

open Source.Reading (Known)

private theorem Note.whole_setsText {assigned bound : NameSet}
    (inAssigned : ∀ n ∈ assigned, Known n)
    (inBound : ∀ n ∈ bound, Known n) : Whole (setsText assigned bound).toList :=
  (((Whole.of_plain (by decide)).strings (Source.Reading.whole_nameList inAssigned)).strings
    (.of_plain (by decide))).strings (Source.Reading.whole_nameList inBound)

private theorem Note.whole_title {title : Option String}
    (word : ∀ text ∈ title, Source.IsWord text) : Whole (nameOrAnonymous title).toList := by
  unfold nameOrAnonymous
  split
  · exact .of_plain (by decide)
  · exact .of_plain (by decide)
  · exact .of_plain (word _ rfl).plain

theorem Note.Lists.whole {note : Note} {title : Option String} (lists : note.Lists Known title)
    (word : ∀ text ∈ title, Source.IsWord text) : Whole note.message.toList := by
  have named := Note.whole_title word
  cases lists with
  | skipped kind =>
    refine ((Whole.of_plain (by decide)).strings (.of_plain ?_)).strings (.of_plain (by decide))
    cases kind <;> decide
  | scopeOf inAssigned inBound =>
    exact (((Whole.of_plain (by decide)).strings named).strings (.of_plain (by decide))).strings
      (Note.whole_setsText inAssigned inBound)
  | nestedScope inAssigned inBound =>
    exact (Whole.of_plain (by decide)).strings (Note.whole_setsText inAssigned inBound)
  | analysing => exact (Whole.of_plain (by decide)).strings named

namespace Console.Entry

theorem exists_lines {entry : Entry} (prints : Prints (entry.level.sign ++ entry.message)) :
    ∃ lines, entry.lines = .ok lines := by
  obtain ⟨text, printed⟩ := prints
  exact ⟨_, by rw [lines, printed]; rfl⟩

theorem exists_lines_of_whole {entry : Entry} (whole : Whole entry.message.toList) :
    ∃ lines, entry.lines = .ok lines := by
  have sign : Whole entry.level.sign.toList := .of_plain (by cases entry.level <;> decide)
  exact exists_lines (sign.strings whole).clear.prints

end Console.Entry

theorem Console.Table.exists_lines {table : Table} (prints : Prints table.title) :
    ∃ lines, table.lines = .ok lines := by
  obtain ⟨title, printed⟩ := prints
  exact ⟨_, by rw [lines, printed]; rfl⟩

end TreePass
