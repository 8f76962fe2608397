import TreePass.Proofs.Printing.Legible
import TreePass.Proofs.Source.Naming

/-!
Line breaks in printed functions. Names and quoted texts hold none, so a printed function stands on
one line, with one exception: an ordinary call of `compare` that has the shape of a chain of
comparisons prints the literals between its operands as they are.
-/

set_option autoImplicit false
set_option relaxedAutoImplicit false

namespace TreePass

open Printer

namespace Text

def breakCodes : List Nat := [0x0A, 0x0B, 0x0C, 0x0D, 0x1C, 0x1D, 0x1E, 0x85, 0x2028, 0x2029]

def isBreak (c : Char) : Bool := breakCodes.contains c.toNat

private theorem of_isBreak {p : Char → Prop} (all : ∀ code ∈ breakCodes, p (Char.ofNat code))
    {c : Char} (broken : isBreak c = true) : p c := by
  have here := all c.toNat (List.contains_iff_mem.mp broken)
  rwa [Char.ofNat_toNat] at here

private theorem isBlank_of_isBreak {c : Char} (broken : isBreak c = true) : Blank.isBlank c =
    true :=
  of_isBreak (p := fun c => Blank.isBlank c = true) (by decide +kernel) broken

private theorem isPrintable_of_isBreak {c : Char} (broken : isBreak c = true) :
    Printable.isPrintable c = false :=
  of_isBreak (p := fun c => Printable.isPrintable c = false) (by decide +kernel) broken

def Flat (text : List Char) : Prop := ∀ c ∈ text, isBreak c = false

namespace Flat

variable {first second text : List Char}

instance (text : List Char) : Decidable (Flat text) :=
  List.decidableBAll (fun c => isBreak c = false) text

theorem nil : Flat [] := fun _ member => nomatch member

theorem cons {c : Char} (flat : isBreak c = false) (rest : Flat text) : Flat (c :: text) :=
  List.forall_mem_cons.mpr ⟨flat, rest⟩

theorem append (onFirst : Flat first) (onSecond : Flat second) : Flat (first ++ second) :=
  List.forall_mem_append.mpr ⟨onFirst, onSecond⟩

theorem replicate {c : Char} (flat : isBreak c = false) (count : Nat) :
    Flat (List.replicate count c) := fun _ member => List.eq_of_mem_replicate member ▸ flat

theorem take (flat : Flat text) (count : Nat) : Flat (text.take count) :=
  fun c member => flat c (List.mem_of_mem_take member)

theorem drop (flat : Flat text) (count : Nat) : Flat (text.drop count) :=
  fun c member => flat c (List.mem_of_mem_drop member)

theorem toDigits {base : Nat} (positive : 1 < base) (n : Nat) : Flat (Nat.toDigits base n) :=
  forall_mem_toDigits (p := fun c => isBreak c = false) (by decide +kernel) positive n

theorem hex (width n : Nat) : Flat (Quoted.hex width n) :=
  (replicate (by decide) _).append (toDigits (by decide) n)

theorem codePoint (n : Nat) : Flat (Quoted.codePoint n) := by
  unfold Quoted.codePoint
  split_ifs
  · exact cons (by decide) (cons (by decide) (hex 2 n))
  · exact cons (by decide) (cons (by decide) (hex 4 n))
  · exact cons (by decide) (cons (by decide) (hex 8 n))

theorem encodeChar {quote : Char} (flat : isBreak quote = false) (c : Char) :
    Flat (Quoted.encodeChar quote c) := by
  unfold Quoted.encodeChar
  split_ifs with quoted _ _ _ printable
  · have same : c = quote ∨ c = '\\' := by simpa using quoted
    rcases same with rfl | rfl
    · exact cons (by decide) (cons flat nil)
    · decide
  · decide
  · decide
  · decide
  · refine cons ?_ nil
    by_contra broken
    rw [isPrintable_of_isBreak (Bool.not_eq_false _ ▸ broken)] at printable
    cases printable
  · exact codePoint _

theorem quoteFor (text : List Char) : isBreak (Quoted.quoteFor text) = false := by
  unfold Quoted.quoteFor
  split <;> decide

theorem flatMap {α : Type} {items : List α} {f : α → List Char} (each : ∀ a, Flat (f a)) :
    Flat (items.flatMap f) := by
  intro c member
  obtain ⟨a, _, found⟩ := List.mem_flatMap.mp member
  exact each a c found

theorem quote (text : String) : Flat (Quoted.quote text).toList := by
  have flat := quoteFor text.toList
  rw [Quoted.quote, String.toList_ofList, Quoted.encode]
  exact (cons flat (flatMap (encodeChar flat))).append (cons flat nil)

theorem quoteRagged (text : Ragged) : Flat (Quoted.quoteRagged text).toList := by
  have flat := quoteFor text.display.toList
  rw [Quoted.quoteRagged, String.toList_ofList]
  refine (cons flat (flatMap fun code => ?_)).append (cons flat nil)
  split
  · exact codePoint code
  · exact encodeChar flat _

theorem quoteBytes (bytes : List UInt8) : Flat (Quoted.quoteBytes bytes).toList := by
  have flat := quoteFor (bytes.map fun b => Char.ofNat b.toNat)
  have each (b : UInt8) :
      Flat (Quoted.encodeByte (Quoted.quoteFor (bytes.map fun b => Char.ofNat b.toNat)) b) := by
    unfold Quoted.encodeByte
    split_ifs
    · exact encodeChar flat _
    · exact cons (by decide) (cons (by decide) (hex 2 _))
  rw [Quoted.quoteBytes, String.toList_ofList]
  exact (cons (by decide) (cons flat (flatMap each))).append (cons flat nil)

theorem strings {first second : String} (onFirst : Flat first.toList)
    (onSecond : Flat second.toList) : Flat (first ++ second).toList := by
  rw [String.toList_append]
  exact onFirst.append onSecond

private theorem toString_nat (n : Nat) : Flat (toString n).toList := by
  rw [toList_toString]
  exact toDigits (by decide) n

private theorem toString_int (n : Int) : Flat (toString n).toList := by
  cases n with
  | ofNat n => exact toString_nat n
  | negSucc n => exact @strings "-" _ (by decide) (toString_nat (n + 1))

section Numbers

open Number.Shortest

theorem exponentText (place : Int) : Flat (exponentText place).toList := by
  refine strings ?_ ?_
  · split <;> decide
  · split
    · exact strings (by decide) (toString_nat _)
    · exact toString_nat _

theorem trimZeros {digits : List Char} (flat : Flat digits) : Flat (trimZeros digits) := by
  intro c member
  have kept := (List.dropWhile_sublist _).mem (List.mem_reverse.mp member)
  exact flat c (List.mem_reverse.mp kept)

theorem digitsText (format : NumberFormat) {digits : List Char} (flat : Flat digits) (place : Int) :
    Flat (digitsText format digits place).toList := by
  have filled (count : Nat) : Flat (List.replicate count '0') := replicate (by decide) count
  unfold Number.Shortest.digitsText
  split
  · split
    · refine strings (by decide) ?_
      rw [String.toList_ofList]
      exact (filled _).append flat
    · have padded := flat.append (filled (place.toNat + 1 - digits.length))
      refine strings ?_ ?_
      · rw [String.toList_ofList]
        exact padded.take _
      · split
        · split <;> decide
        · refine strings (by decide) ?_
          rw [String.toList_ofList]
          exact padded.drop _
  · split
    · exact exponentText place
    · refine strings ?_ (exponentText place)
      rw [String.toList_ofList]
      exact flat
    · rename_i d rest _
      refine strings ?_ (exponentText place)
      rw [String.toList_ofList]
      exact cons (flat d List.mem_cons_self)
        (cons (by decide) fun c member => flat c (List.mem_cons_of_mem _ member))

theorem magnitudeText (format : NumberFormat) (mantissa : Nat) (exponent : Int) :
    Flat (magnitudeText format mantissa exponent).toList := by
  unfold Number.Shortest.magnitudeText
  split
  · split <;> decide
  · exact digitsText format (trimZeros (toDigits (by decide) _)) _

theorem number (format : NumberFormat) (x : Number.Binary64) :
    Flat (Number.Shortest.text format x).toList := by
  unfold Number.Shortest.text
  split
  · decide
  · split <;> decide
  · refine strings ?_ (magnitudeText format _ _)
    split <;> decide

theorem complexText (re im : Number.Binary64) : Flat (complexText re im).toList := by
  have imaginary := @strings _ "j" (number complexPartFormat im) (by decide)
  unfold Number.Shortest.complexText
  dsimp only
  split
  · exact imaginary
  · refine strings (strings (strings (strings (by decide) (number _ re)) ?_) imaginary) (by decide)
    split <;> decide

end Numbers

end Flat

theorem flat_text {value : Value} (plain : value.IsPlain) : Flat value.text.toList := by
  cases value with
  | none => decide
  | bool b => cases b <;> decide
  | int i => exact .toString_int i
  | float x => exact .number _ x
  | complex re im => exact .complexText re im
  | str text => exact .quote text
  | ragged text => exact .quoteRagged text
  | bytes data => exact .quoteBytes data
  | ellipsis => decide
  | list | tuple | map | node | scope | identity => exact plain.elim

theorem flat_known {name : String} (known : Source.Reading.Known name) : Flat name.toList := by
  rcases known with word | spoken
  · intro c member
    by_contra broken
    rw [Bool.not_eq_false] at broken
    have ink := Blank.isBlank_of_isContinue (Identifier.isContinue_of_isIdentifier word c member)
    rw [isBlank_of_isBreak broken] at ink
    cases ink
  · exact (by decide +kernel : ∀ name ∈ Source.Reading.vocabulary, Flat name.toList) name spoken

end Text

end TreePass
