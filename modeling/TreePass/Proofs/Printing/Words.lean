import TreePass.Source.Lexer
import TreePass.Source.Reading
import Mathlib.Tactic.IntervalCases

/-!
The words of a line: names, and whole numbers in decimal digits.
-/

set_option autoImplicit false
set_option relaxedAutoImplicit false

namespace TreePass

open Text Number

/-- A text that can name a variable: an identifier, of any script, that is no keyword. -/
def isName (text : String) : Bool :=
  Identifier.isIdentifier text.toList && !Source.Token.keywords.contains text

theorem isName_iff {text : String} :
    isName text = true ↔
      Identifier.isIdentifier text.toList = true ∧ text ∉ Source.Token.keywords := by
  simp [isName]

theorem Source.Reading.nameExpr_of_isName {text : String} (named : isName text = true) :
    nameExpr text = symbol text := by
  have noKeyword := (isName_iff.mp named).2
  have noConstant : text ≠ "True" ∧ text ≠ "False" ∧ text ≠ "None" := by
    refine ⟨?_, ?_, ?_⟩ <;> rintro rfl <;> exact noKeyword (by decide)
  rw [nameExpr, if_neg noConstant.1, if_neg noConstant.2.1, if_neg noConstant.2.2]

private theorem eq_of_isDigit {c : Char} (digit : c.isDigit = true) :
    c ∈ ['0', '1', '2', '3', '4', '5', '6', '7', '8', '9'] := by
  rw [Char.isDigit, Bool.and_eq_true, decide_eq_true_eq, decide_eq_true_eq] at digit
  have low : 48 ≤ c.toNat := digit.1
  have high : c.toNat ≤ 57 := digit.2
  have back : c = Char.ofNat c.toNat := (Char.ofNat_toNat c).symm
  rw [back]
  generalize c.toNat = code at low high
  interval_cases code <;> decide

theorem forall_isDigit {p : Char → Prop} [DecidablePred p]
    (each : ['0', '1', '2', '3', '4', '5', '6', '7', '8', '9'].all (decide <| p ·) = true)
    {c : Char} (digit : c.isDigit = true) : p c :=
  of_decide_eq_true (List.all_eq_true.mp each c (eq_of_isDigit digit))

namespace Text.Identifier

private theorem mayContinue_of_isContinue {c : Char} (continues : isContinue c = true) :
    Source.Lexer.mayContinue c = true := by
  unfold isContinue at continues
  unfold Source.Lexer.mayContinue
  by_cases low : c.toNat < 0x80
  · rw [if_pos low] at continues
    rw [continues, Bool.true_or]
  · simp only [ge_iff_le, Bool.or_eq_true, decide_eq_true_eq]
    exact Or.inr (Nat.le_of_not_lt low)

private theorem isContinue_of_isStart {c : Char} (starts : isStart c = true) : isContinue c =
    true := by
  unfold isStart at starts
  unfold isContinue
  by_cases low : c.toNat < 0x80
  · rw [if_pos low] at starts ⊢
    rcases Bool.or_eq_true_iff.mp starts with letter | line
    · rw [Char.isAlphanum, letter, Bool.true_or, Bool.true_or]
    · rw [line, Bool.or_true]
  · rw [if_neg low] at starts ⊢
    rw [starts, Bool.true_or]

theorem mayContinue_of_isStart {c : Char} (starts : isStart c = true) :
    Source.Lexer.mayContinue c = true :=
  mayContinue_of_isContinue (isContinue_of_isStart starts)

theorem isDigit_of_isStart {c : Char} (starts : isStart c = true) : c.isDigit = false := by
  by_contra digit
  rw [Bool.not_eq_false] at digit
  have apart : isStart c = false :=
    forall_isDigit (p := fun c => isStart c = false) (by decide) digit
  rw [starts] at apart
  cases apart

theorem isIdentifier_cases {word : List Char} (identifier : isIdentifier word = true) :
    ∃ c rest, word = c :: rest ∧ isStart c = true := by
  cases word with
  | nil => cases identifier
  | cons c rest =>
    rw [isIdentifier, Bool.and_eq_true] at identifier
    exact ⟨c, rest, rfl, identifier.1⟩

theorem isContinue_of_isIdentifier {word : List Char} (identifier : isIdentifier word = true) :
    ∀ c ∈ word, isContinue c = true := by
  cases word with
  | nil => simp
  | cons c rest =>
    rw [isIdentifier, Bool.and_eq_true, List.all_eq_true] at identifier
    intro d member
    rcases List.mem_cons.mp member with rfl | later
    · exact isContinue_of_isStart identifier.1
    · exact identifier.2 d later

theorem mayContinue_of_isIdentifier {word : List Char} (identifier : isIdentifier word = true) :
    ∀ c ∈ word, Source.Lexer.mayContinue c = true :=
  fun c member => mayContinue_of_isContinue (isContinue_of_isIdentifier identifier c member)

end Text.Identifier

theorem takeWhile_append_stop {α : Type} {test : α → Bool} {word rest : List α}
    (all : ∀ c ∈ word, test c = true) (stop : ∀ c ∈ rest.head?, test c = false) :
    (word ++ rest).takeWhile test = word ∧ (word ++ rest).dropWhile test = rest := by
  induction word with
  | nil =>
    cases rest with
    | nil => exact ⟨rfl, rfl⟩
    | cons c more =>
      have fails := stop c rfl
      simp [fails]
  | cons c more ih =>
    have passes := all c List.mem_cons_self
    obtain ⟨taken, left⟩ := ih fun d member => all d (List.mem_cons_of_mem _ member)
    simp [passes, taken, left]

private theorem forall_digitChar {p : Char → Prop} (all : ∀ d ∈ List.range 17, p d.digitChar)
    (n : Nat) : p n.digitChar := by
  by_cases small : n < 16
  · exact all n (List.mem_range.mpr (by omega))
  · have large : n.digitChar = Nat.digitChar 16 := by
      unfold Nat.digitChar
      repeat rw [if_neg (by omega)]
    rw [large]
    exact all 16 (by decide)

theorem forall_mem_toDigits {p : Char → Prop} (all : ∀ d ∈ List.range 17, p d.digitChar)
    {base : Nat} (positive : 1 < base) (n : Nat) : ∀ c ∈ Nat.toDigits base n, p c := by
  induction n using Nat.strong_induction_on with
  | _ n ih =>
    by_cases small : n < base
    · rw [Nat.toDigits_of_lt_base small]
      exact List.forall_mem_singleton.mpr (forall_digitChar all n)
    · rw [Nat.toDigits_of_base_le positive (Nat.not_lt.mp small)]
      have smaller : n / base < n := Nat.div_lt_self (by omega) positive
      exact List.forall_mem_append.mpr
        ⟨ih _ smaller, List.forall_mem_singleton.mpr (forall_digitChar all _)⟩

def digits (n : Nat) : List Char := Nat.toDigits 10 n

theorem toList_toString (n : Nat) : (toString n).toList = digits n := Nat.toList_repr

theorem isDigit_of_mem_digits {n : Nat} {c : Char} (member : c ∈ digits n) : c.isDigit = true :=
  Nat.isDigit_of_mem_toDigits (by decide) (by decide) member

theorem digits_ne_nil (n : Nat) : digits n ≠ [] := Nat.toDigits_ne_nil

private theorem digits_of_lt {n : Nat} (small : n < 10) : digits n = [n.digitChar] :=
  Nat.toDigits_of_lt_base small

private theorem digits_of_le {n : Nat} (large : 10 ≤ n) :
    digits n = digits (n / 10) ++ [(n % 10).digitChar] :=
  Nat.toDigits_of_base_le (by decide) large

theorem head_digits_ne_zero {n : Nat} (positive : n ≠ 0) : (digits n).head? ≠ some '0' := by
  induction n using Nat.strong_induction_on with
  | _ n ih =>
    by_cases small : n < 10
    · rw [digits_of_lt small]
      simpa using positive
    · have large : 10 ≤ n := Nat.le_of_not_lt small
      have first := ih (n / 10) (by omega) (by omega)
      rw [digits_of_le large]
      cases whole : digits (n / 10) with
      | nil => exact absurd whole (digits_ne_nil _)
      | cons c rest =>
        rw [whole] at first
        exact first

theorem digitsValue_digits (n : Nat) : Numeral.digitsValue (digits n) = n := by
  induction n using Nat.strong_induction_on with
  | _ n ih =>
    by_cases small : n < 10
    · rw [digits_of_lt small]
      have value := Nat.toNat_digitChar_sub_48_of_lt_ten small
      simpa [Numeral.digitsValue] using value
    · have large : 10 ≤ n := Nat.le_of_not_lt small
      have value := Nat.toNat_digitChar_sub_48_of_lt_ten (Nat.mod_lt n (by decide : 0 < 10))
      have first := ih (n / 10) (by omega)
      rw [Numeral.digitsValue] at first
      rw [digits_of_le large, Numeral.digitsValue, List.foldl_append, first, List.foldl_cons,
        List.foldl_nil]
      have zero : '0'.toNat = 48 := rfl
      rw [zero, value]
      omega

theorem mayContinue_of_isDigit {c : Char} (digit : c.isDigit = true) :
    Source.Lexer.mayContinue c = true :=
  forall_isDigit (p := fun c => Source.Lexer.mayContinue c = true) (by decide) digit

namespace Number.Numeral

private theorem trimChars_of_digits {word : List Char} (all : ∀ c ∈ word, c.isDigit = true) :
    Blank.trimChars word = word := by
  have keeps {word : List Char} (all : ∀ c ∈ word, c.isDigit = true) :
      word.dropWhile Blank.isBlank = word := by
    cases word with
    | nil => rfl
    | cons c rest =>
      have solid : Blank.isBlank c = false :=
        forall_isDigit (p := fun c => Blank.isBlank c = false) (by decide)
          (all c List.mem_cons_self)
      rw [List.dropWhile_cons, solid, if_neg Bool.false_ne_true]
  have reversed : ∀ c ∈ word.reverse, c.isDigit = true :=
    fun c member => all c (List.mem_reverse.mp member)
  rw [Blank.trimChars, keeps all, keeps reversed, List.reverse_reverse]

private theorem dropLowLines_of_digits {word : List Char} (all : ∀ c ∈ word, c.isDigit = true)
    (after : Bool) : dropLowLines after word = some word := by
  induction word generalizing after with
  | nil => rfl
  | cons c rest ih =>
    have digit := all c List.mem_cons_self
    have noLine : c ≠ '_' := by
      rintro rfl
      cases digit
    rw [dropLowLines, ih fun d member => all d (List.mem_cons_of_mem _ member)]
    · rfl
    · intro same
      exact noLine same

private theorem map_plainDigit_of_digits {word : List Char} (all : ∀ c ∈ word, c.isDigit = true) :
    word.map plainDigit = word := by
  have same : ∀ c ∈ word, plainDigit c = c := fun c member =>
    forall_isDigit (p := fun c => plainDigit c = c) (by decide) (all c member)
  rw [List.map_congr_left same, List.map_id']

private theorem splitSign_of_digits {word : List Char} (all : ∀ c ∈ word, c.isDigit = true) :
    splitSign word = (false, word) := by
  cases word with
  | nil => rfl
  | cons c rest =>
    have digit := all c List.mem_cons_self
    unfold splitSign
    split
    · rename_i same
      obtain ⟨rfl, rfl⟩ := List.cons.inj same
      cases digit
    · rename_i same
      obtain ⟨rfl, rfl⟩ := List.cons.inj same
      cases digit
    · rfl

private theorem int?_toString {n : Nat} (short : (toString n).length ≤ maxDigits) :
    int? (toString n) = some (n : Int) := by
  have all : ∀ c ∈ digits n, c.isDigit = true := fun _ => isDigit_of_mem_digits
  have prepared : prepare? (toString n) = some (digits n) := by
    rw [prepare?, toList_toString, trimChars_of_digits all, map_plainDigit_of_digits all,
      dropLowLines_of_digits all]
  have fits : ¬ (digits n).length > maxDigits := by
    rw [← toList_toString, String.length_toList]
    exact Nat.not_lt.mpr short
  have plain : (digits n).all Char.isDigit = true := List.all_eq_true.mpr all
  have solid : (digits n).isEmpty = false := by
    rw [List.isEmpty_eq_false_iff]
    exact digits_ne_nil n
  have value := digitsValue_digits n
  simp only [int?, prepared, splitSign_of_digits all, solid, plain, fits, Option.bind_eq_bind,
    Option.bind_some, value, Bool.not_true, Bool.or_self, decide_false, Bool.false_eq_true,
    if_false]

end Number.Numeral

theorem integer?_toString {n : Nat} (short : (toString n).length ≤ Numeral.maxDigits) :
    Source.Literal.integer? (toString n) = some (n : Int) := by
  rw [Source.Literal.integer?, toList_toString]
  split
  · rename_i c rest same
    have digit : c.isDigit = true :=
      isDigit_of_mem_digits (n := n) (by rw [same]; simp)
    have decimal : (c == 'x' || c == 'X') = false ∧ (c == 'o' || c == 'O') = false ∧
        (c == 'b' || c == 'B') = false :=
      forall_isDigit (p := fun c => (c == 'x' || c == 'X') = false ∧
        (c == 'o' || c == 'O') = false ∧ (c == 'b' || c == 'B') = false) (by decide) digit
    rw [decimal.1, decimal.2.1, decimal.2.2]
    exact Numeral.int?_toString short
  · exact Numeral.int?_toString short

end TreePass
