import Mathlib.Data.List.TakeWhile
import Mathlib.Tactic.IntervalCases
import TreePass.Settings.KeyValue
import TreePass.Settings.Validation

/-!
What items of settings say. An item gives the trimmed text before its first equals sign the value
that the trimmed text behind it stands for, and a value stands for at most one truth value.
-/

set_option autoImplicit false
set_option relaxedAutoImplicit false

namespace TreePass.Settings

open Number Text

section Trimming

variable {chars rest : List Char}

/-- A text is all that is left of another one without the white space around it. -/
def Trimmed (chars rest : List Char) : Prop :=
  ∃ before after, chars = before ++ rest ++ after ∧
    (∀ c ∈ before ++ after, Blank.isBlank c = true) ∧
    ∀ c, c ∈ rest.head? ∨ c ∈ rest.getLast? → Blank.isBlank c = false

private theorem dropWhile_blank_append {before : List Char}
    (blank : ∀ c ∈ before, Blank.isBlank c = true) (rest : List Char) :
    (before ++ rest).dropWhile Blank.isBlank = rest.dropWhile Blank.isBlank := by
  induction before with
  | nil => rfl
  | cons c before ih =>
    rw [List.cons_append, List.dropWhile_cons_of_pos (blank c List.mem_cons_self)]
    exact ih fun d listed => blank d (List.mem_cons_of_mem c listed)

private theorem dropWhile_solid {after : List Char} (blank : ∀ c ∈ after, Blank.isBlank c = true)
    (solid : ∀ c ∈ rest.head?, Blank.isBlank c = false) :
    (rest ++ after).dropWhile Blank.isBlank = if rest = [] then [] else rest ++ after := by
  cases rest with
  | nil => simpa using blank
  | cons c rest =>
    rw [List.cons_append, List.dropWhile_cons_of_neg (by simp [solid c rfl]), if_neg (by simp)]

private theorem trimChars_of_trimmed (trimmed : Trimmed chars rest) : Blank.trimChars chars =
    rest := by
  obtain ⟨before, after, rfl, blank, solid⟩ := trimmed
  simp only [List.mem_append, or_imp, forall_and] at blank solid
  rw [Blank.trimChars, List.append_assoc, dropWhile_blank_append blank.1,
    dropWhile_solid blank.2 solid.1]
  split
  next empty => simp [empty]
  next nonempty =>
    have turned : ∀ c ∈ rest.reverse.head?, Blank.isBlank c = false := by
      simpa [List.head?_reverse] using solid.2
    have behind : (rest.reverse ++ []).dropWhile Blank.isBlank = _ :=
      dropWhile_solid (by simp) turned
    rw [List.append_nil, if_neg (by simpa using nonempty)] at behind
    rw [List.reverse_append, dropWhile_blank_append (by simpa using blank.2), behind,
      List.reverse_reverse]

private theorem solid_head_dropWhile (text : List Char) :
    ∀ c ∈ (text.dropWhile Blank.isBlank).head?, Blank.isBlank c = false := by
  intro c first
  have stopped := List.head?_dropWhile_not Blank.isBlank text
  rw [Option.mem_def.mp first] at stopped
  simpa using stopped

private theorem trimmed_trimChars (chars : List Char) : Trimmed chars (Blank.trimChars chars) := by
  let solid := chars.dropWhile Blank.isBlank
  have rest : Blank.trimChars chars = (solid.reverse.dropWhile Blank.isBlank).reverse := rfl
  have divided : solid = Blank.trimChars chars ++
      (solid.reverse.takeWhile Blank.isBlank).reverse := by
    rw [rest, ← List.reverse_append, List.takeWhile_append_dropWhile, List.reverse_reverse]
  refine ⟨chars.takeWhile Blank.isBlank, (solid.reverse.takeWhile Blank.isBlank).reverse,
    ?_, ?_, ?_⟩
  · rw [List.append_assoc, ← divided, List.takeWhile_append_dropWhile]
  · simp only [List.mem_append, List.mem_reverse]
    rintro c (listed | listed)
    exacts [List.mem_takeWhile_imp listed, List.mem_takeWhile_imp listed]
  · rintro c (first | last)
    · refine solid_head_dropWhile chars c ?_
      change c ∈ solid.head?
      rw [divided, List.head?_append, Option.mem_def.mp first]
      rfl
    · rw [rest, List.getLast?_reverse] at last
      exact solid_head_dropWhile solid.reverse c last

end Trimming

/-- An item is divided at its first equals sign into a key and the text of a value. -/
def Divides (item key text : String) : Prop :=
  ∃ before after, item.toList = before ++ '=' :: after ∧ '=' ∉ before ∧
    Trimmed before key.toList ∧ Trimmed after text.toList

def Spells (text word : String) : Prop := text.toList.map Char.toLower = word.toList

def Marked (text : String) : Prop := ∃ c ∈ text.toList, c = '.' ∨ c = 'e' ∨ c = 'E'

/-- The value that a text stands for: a truth value, else a number, else the text itself. -/
inductive Stands (text : String) : Value → Prop
  | yes (spelled : Spells text "true") : Stands text (.bool true)
  | no (spelled : Spells text "false") : Stands text (.bool false)
  | real {x : Binary64} (other : ¬ Spells text "true" ∧ ¬ Spells text "false")
      (marked : Marked text) (read : Numeral.float? text = some x) : Stands text (.float x)
  | whole {i : Int} (other : ¬ Spells text "true" ∧ ¬ Spells text "false")
      (unmarked : ¬ Marked text) (read : Numeral.int? text = some i) : Stands text (.int i)
  | word (other : ¬ Spells text "true" ∧ ¬ Spells text "false")
      (unreal : Marked text → Numeral.float? text = none)
      (broken : ¬ Marked text → Numeral.int? text = none) : Stands text (.str text)

def Assigns (item key : String) (value : Value) : Prop :=
  ∃ text, Divides item key text ∧ Stands text value

section Reading

variable {item key text word : String} {value : Value}

private theorem map_toLower_eq_iff : text.map Char.toLower = word ↔ Spells text word := by
  rw [Spells, ← String.toList_map, String.toList_inj]

private theorem toLower_dot_or_e {c : Char} :
    (c.toLower == '.' || c.toLower == 'e') = true ↔ c = '.' ∨ c = 'e' ∨ c = 'E' := by
  by_cases upper : c.val ≥ 'A'.val ∧ c.val ≤ 'Z'.val
  · have low : 65 ≤ c.toNat := upper.1
    have high : c.toNat ≤ 90 := upper.2
    have back : c = Char.ofNat c.toNat := (Char.ofNat_toNat c).symm
    rw [back]
    generalize c.toNat = code at low high
    interval_cases code <;> decide
  · have other : c ≠ 'E' := by
      rintro rfl
      exact upper (by decide)
    have kept : c.toLower = c := dif_neg upper
    rw [kept]
    simp [other]

private theorem any_toLower_iff :
    (text.map Char.toLower).toList.any (fun c => c == '.' || c == 'e') = true ↔ Marked text := by
  simp only [String.toList_map, List.any_map, List.any_eq_true, Function.comp_apply,
    toLower_dot_or_e, Marked]

theorem stands_typedValue (text : String) : Stands text (typedValue text) := by
  unfold typedValue
  extract_lets lower
  split
  next spelled => exact .yes (map_toLower_eq_iff.mp spelled)
  next untrue =>
  split
  next spelled => exact .no (map_toLower_eq_iff.mp spelled)
  next unfalse =>
  have other : ¬ Spells text "true" ∧ ¬ Spells text "false" :=
    ⟨fun spelled => untrue (map_toLower_eq_iff.mpr spelled),
      fun spelled => unfalse (map_toLower_eq_iff.mpr spelled)⟩
  split
  next mark =>
    have marked := any_toLower_iff.mp mark
    match read : Numeral.float? text with
    | some x => exact .real other marked read
    | none => exact .word other (fun _ => read) fun unmarked => absurd marked unmarked
  next bare =>
    have unmarked : ¬ Marked text := fun marked => bare (any_toLower_iff.mpr marked)
    match read : Numeral.int? text with
    | some i => exact .whole other unmarked read
    | none => exact .word other (fun marked => absurd marked unmarked) fun _ => read

private theorem typedValue_of_stands (stands : Stands text value) : typedValue text = value := by
  have plain (other : ¬ Spells text "true" ∧ ¬ Spells text "false") :
      ¬ text.map Char.toLower = "true" ∧ ¬ text.map Char.toLower = "false" :=
    other.imp (mt map_toLower_eq_iff.mp) (mt map_toLower_eq_iff.mp)
  unfold typedValue
  cases stands with
  | yes spelled => rw [if_pos (map_toLower_eq_iff.mpr spelled)]
  | no spelled =>
    have lower := map_toLower_eq_iff.mpr spelled
    rw [if_neg (by rw [lower]; decide), if_pos lower]
  | real other marked read =>
    rw [if_neg (plain other).1, if_neg (plain other).2, if_pos (any_toLower_iff.mpr marked), read]
    rfl
  | whole other unmarked read =>
    rw [if_neg (plain other).1, if_neg (plain other).2, if_neg (mt any_toLower_iff.mp unmarked),
      read]
    rfl
  | word other unreal broken =>
    rw [if_neg (plain other).1, if_neg (plain other).2]
    split
    next mark => rw [unreal (any_toLower_iff.mp mark)]; rfl
    next bare => rw [broken (mt any_toLower_iff.mpr bare)]; rfl

private theorem keyValue_of_split {before after : List Char}
    (split : item.toList = before ++ '=' :: after)
    (first : '=' ∉ before) : keyValue item = .ok (String.ofList (Blank.trimChars before),
      typedValue (String.ofList (Blank.trimChars after))) := by
  have passed : ∀ c ∈ before, (c != '=') = true := fun c listed => by
    rw [bne_iff_ne]
    rintro rfl
    exact first listed
  have behind : item.toList.dropWhile (· != '=') = '=' :: after := by
    rw [split, List.dropWhile_append_of_pos passed, List.dropWhile_cons_of_neg (by decide)]
  have ahead : item.toList.takeWhile (· != '=') = before := by
    rw [split, List.takeWhile_append_of_pos passed, List.takeWhile_cons_of_neg (by decide),
      List.append_nil]
  simp only [keyValue, behind, ahead]

theorem exists_keyValue (divided : '=' ∈ item.toList) :
    ∃ key value, keyValue item = .ok (key, value) ∧ Assigns item key value := by
  obtain ⟨before, after, split, first⟩ := List.eq_append_cons_of_mem divided
  refine ⟨_, _, keyValue_of_split split first, _, ⟨before, after, split, first, ?_, ?_⟩,
    stands_typedValue _⟩
  · rw [String.toList_ofList]
    exact trimmed_trimChars before
  · rw [String.toList_ofList]
    exact trimmed_trimChars after

theorem keyValue_of_bare (bare : '=' ∉ item.toList) : keyValue item = .error ⟨item⟩ := by
  have passed : item.toList.dropWhile (· != '=') = [] := by
    rw [List.dropWhile_eq_nil_iff]
    exact fun c listed => bne_iff_ne.mpr fun equal => bare (equal ▸ listed)
  simp only [keyValue, passed]

theorem keyValue_eq_ok_iff : keyValue item = .ok (key, value) ↔ Assigns item key value := by
  constructor
  · intro read
    by_cases divided : '=' ∈ item.toList
    · obtain ⟨_, _, read', assigns⟩ := exists_keyValue divided
      obtain ⟨rfl, rfl⟩ := Prod.mk.inj (Except.ok.inj (read.symm.trans read'))
      exact assigns
    · cases read.symm.trans (keyValue_of_bare divided)
  · rintro ⟨text, ⟨before, after, split, first, trimsKey, trimsText⟩, stands⟩
    rw [keyValue_of_split split first, trimChars_of_trimmed trimsKey,
      trimChars_of_trimmed trimsText, String.ofList_toList, String.ofList_toList,
      typedValue_of_stands stands]

end Reading

section Truth

/-- A text is one of the words for a truth value, in letters of either case. -/
def Affirms (text : String) (on : Bool) : Prop :=
  ∃ word ∈ if on then trueWords else falseWords, Spells text word

/-- The truth values that values stand for. -/
inductive Means : Value → Bool → Prop
  | truth (on : Bool) : Means (.bool on) on
  | text {text : String} {on : Bool} (affirms : Affirms text on) : Means (.str text) on
  | bytes {data : List UInt8} {text : String} {on : Bool} (decoded : Utf8.decode data = .ok text)
      (affirms : Affirms text on) : Means (.bytes data) on
  | whole (on : Bool) : Means (.int on.toInt) on
  | real {x : Binary64} {on : Bool} (integral : x.toInt? = some on.toInt) : Means (.float x) on

variable {text : String} {value : Value} {on : Bool} {i : Int}

private theorem contains_toLower_iff {words : List String} :
    words.contains (text.map Char.toLower) = true ↔ ∃ word ∈ words, Spells text word := by
  rw [List.contains_iff_mem]
  constructor
  · exact fun listed => ⟨_, listed, map_toLower_eq_iff.mp rfl⟩
  · rintro ⟨word, listed, spelled⟩
    rwa [map_toLower_eq_iff.mpr spelled]

private theorem boolOfWord_eq_ok_iff : boolOfWord text = .ok on ↔ Affirms text on := by
  have apart : falseWords.contains (text.map Char.toLower) = true →
      trueWords.contains (text.map Char.toLower) = false := by
    have disjoint : ∀ word ∈ falseWords, trueWords.contains word = false := by decide
    exact fun listed => disjoint _ (List.contains_iff_mem.mp listed)
  have listed : (if on then trueWords else falseWords).contains (text.map Char.toLower) =
      if on then trueWords.contains (text.map Char.toLower)
      else falseWords.contains (text.map Char.toLower) := by cases on <;> rfl
  rw [Affirms, ← contains_toLower_iff, listed, boolOfWord]
  generalize falseWords.contains (text.map Char.toLower) = no at apart
  generalize trueWords.contains (text.map Char.toLower) = yes at apart
  cases on <;> cases no <;> cases yes <;> simp_all

private theorem boolOfNumber_eq_ok_iff : boolOfNumber i = .ok on ↔ i = on.toInt := by
  rw [boolOfNumber]
  cases on <;> grind

theorem toBool_eq_ok_iff : toBool value = .ok on ↔ Means value on := by
  constructor
  · intro coerced
    unfold toBool at coerced
    split at coerced
    next => exact Except.ok.inj coerced ▸ .truth _
    next => exact .text (boolOfWord_eq_ok_iff.mp coerced)
    next =>
      split at coerced
      next decoded => exact .bytes decoded (boolOfWord_eq_ok_iff.mp coerced)
      next => cases coerced
    next =>
      split at coerced
      next => exact boolOfNumber_eq_ok_iff.mp coerced ▸ .whole on
      next => split at coerced <;> cases coerced
    next =>
      split at coerced
      next integral =>
        split at coerced
        next => exact .real (boolOfNumber_eq_ok_iff.mp coerced ▸ integral)
        next => cases coerced
      next => cases coerced
    next => cases coerced
  · have fits (on : Bool) : fitsWord on.toInt = true := by cases on <;> decide
    intro means
    cases means with
    | truth => rfl
    | text affirms => exact boolOfWord_eq_ok_iff.mpr affirms
    | bytes decoded affirms => simpa only [toBool, decoded] using boolOfWord_eq_ok_iff.mpr affirms
    | whole => simpa only [toBool, fits, if_true] using boolOfNumber_eq_ok_iff.mpr rfl
    | real integral =>
      simpa only [toBool, integral, fits, if_true] using boolOfNumber_eq_ok_iff.mpr rfl

end Truth

end TreePass.Settings
