import Mathlib.Data.List.Chain
import Mathlib.Data.List.Infix
import Mathlib.Data.List.TakeWhile
import TreePass.Console.Markup

/-!
When texts print. Only the marks behind an even number of backslashes count, and a text prints
unless one of them closes a style that is not open. An escaped text has no mark that counts, even
inside a longer text, as long as what follows it does not close a bracket that it left open.
-/

set_option autoImplicit false
set_option relaxedAutoImplicit false

namespace TreePass.Console.Markup

/-- The marks of a text that count. The flag tells whether an odd number of backslashes stands in
front of the text. -/
def active (odd : Bool) : List Char → List (List Char)
  | [] => []
  | c :: rest =>
    if c = '\\' then active (!odd) rest
    else
      match h : mark? (c :: rest) with
      | some (inner, after) =>
        have : after.length < rest.length + 1 := mark?_length h
        (if odd then [] else [inner]) ++ active false after
      | none => active false rest
termination_by text => text.length

private theorem active_nil (odd : Bool) : active odd [] = [] := by rw [active]

private theorem active_slash (odd : Bool) (rest : List Char) :
    active odd ('\\' :: rest) = active (!odd) rest := by
  rw [active, if_pos rfl]

private theorem mark?_cons_of_ne {c : Char} {rest : List Char} (other : c ≠ '[') :
    mark? (c :: rest) = none := by
  unfold mark?
  split
  · rename_i found
    exact absurd (List.cons.inj found).1 other
  · rfl

private theorem exists_of_mark? {text inner rest : List Char}
    (found : mark? text = some (inner, rest)) : ∃ more, text = '[' :: more := by
  match text with
  | [] => cases found
  | c :: more =>
    by_cases bracket : c = '['
    · exact ⟨more, by rw [bracket]⟩
    · rw [mark?_cons_of_ne bracket] at found
      cases found

private theorem active_mark (odd : Bool) {text inner after : List Char}
    (found : mark? text = some (inner, after)) :
    active odd text = (if odd then [] else [inner]) ++ active false after := by
  obtain ⟨more, rfl⟩ := exists_of_mark? found
  rw [active, if_neg (by decide)]
  split
  · rename_i found'
    obtain ⟨rfl, rfl⟩ := Prod.mk.inj (Option.some.inj (found'.symm.trans found))
    rfl
  · rename_i none
    rw [none] at found
    cases found

private theorem active_plain (odd : Bool) {c : Char} {rest : List Char} (visible : c ≠ '\\')
    (unmarked : mark? (c :: rest) = none) : active odd (c :: rest) = active false rest := by
  rw [active, if_neg visible]
  split
  · rename_i found
    rw [unmarked] at found
    cases found
  · rfl

private theorem active_slashes (odd : Bool) (count : Nat) (rest : List Char) :
    active odd (List.replicate count '\\' ++ rest) = active (odd ^^ (count % 2 == 1)) rest := by
  induction count generalizing odd with
  | zero => simp
  | succ count ih =>
    rw [List.replicate_succ, List.cons_append, active_slash, ih]
    congr 1
    rcases Nat.mod_two_eq_zero_or_one count with even | even <;>
      cases odd <;> simp [even, Nat.add_mod]

private theorem exists_slashes (text : List Char) :
    ∃ count after, text = List.replicate count '\\' ++ after ∧ after.head? ≠ some '\\' := by
  induction text with
  | nil => exact ⟨0, [], rfl, by simp⟩
  | cons c rest ih =>
    by_cases slash : c = '\\'
    · obtain ⟨count, after, split, first⟩ := ih
      exact ⟨count + 1, after, by rw [slash, split]; rfl, first⟩
    · exact ⟨0, c :: rest, rfl, by simpa using slash⟩

/-- A text is read run by run: backslashes, and behind them the end, a mark or a plain
character. -/
theorem runs_induction {motive : List Char → Prop}
    (slashes : ∀ count, motive (List.replicate count '\\'))
    (mark : ∀ count {text inner rest : List Char}, mark? text = some (inner, rest) → motive rest →
      motive (List.replicate count '\\' ++ text))
    (plain : ∀ count {c : Char} {rest : List Char}, c ≠ '\\' → mark? (c :: rest) = none →
      motive rest → motive (List.replicate count '\\' ++ c :: rest)) (text : List Char) :
    motive text := by
  induction length : text.length using Nat.strongRecOn generalizing text with
  | _ n ih =>
    obtain ⟨count, after, rfl, first⟩ := exists_slashes text
    subst length
    match found : mark? after with
    | some (inner, rest) =>
      refine mark count found (ih _ ?_ rest rfl)
      have := mark?_length found
      simp only [List.length_append]
      omega
    | none =>
      match after with
      | [] => simpa using slashes count
      | c :: rest =>
        refine plain count (by simpa using first) found (ih _ ?_ rest rfl)
        simp only [List.length_append, List.length_cons]
        omega

private theorem takeWhile_slashes (count : Nat) {after : List Char}
    (first : after.head? ≠ some '\\') :
    (List.replicate count '\\' ++ after).takeWhile (· == '\\') = List.replicate count '\\' := by
  rw [List.takeWhile_append_of_pos (by simp)]
  cases after with
  | nil => simp
  | cons c rest =>
    have visible : (c == '\\') = false := by simpa using first
    simp [visible]

private theorem after_slashes (count : Nat) {after : List Char} (first : after.head? ≠ some '\\') :
    (List.replicate count '\\' ++ after).drop
      ((List.replicate count '\\' ++ after).takeWhile (· == '\\')).length = after := by
  rw [takeWhile_slashes count first]
  simp

private theorem parts_slashes (count : Nat) :
    parts (List.replicate count '\\') =
      if count = 0 then [] else [.plain (List.replicate count '\\')] := by
  have first : ([] : List Char).head? ≠ some '\\' := by simp
  have shape := after_slashes count first
  have front := takeWhile_slashes count first
  rw [List.append_nil] at shape front
  rw [parts]
  split
  · rename_i found
    rw [shape] at found
    cases found
  · split
    · rw [front]
      cases count <;> simp
    · rename_i found _
      rw [shape] at found
      cases found

private theorem parts_mark (count : Nat) {text inner rest : List Char}
    (found : mark? text = some (inner, rest)) :
    parts (List.replicate count '\\' ++ text) = .mark count inner :: parts rest := by
  obtain ⟨more, rfl⟩ := exists_of_mark? found
  have first : ('[' :: more).head? ≠ some '\\' := by simp
  rw [parts]
  split
  · rename_i found'
    rw [after_slashes count first] at found'
    obtain ⟨rfl, rfl⟩ := Prod.mk.inj (Option.some.inj (found'.symm.trans found))
    simp only [takeWhile_slashes count first, List.length_replicate]
  · rename_i none
    rw [after_slashes count first, found] at none
    cases none

private theorem parts_plain (count : Nat) {c : Char} {rest : List Char} (visible : c ≠ '\\')
    (unmarked : mark? (c :: rest) = none) :
    parts (List.replicate count '\\' ++ c :: rest) =
      consPlain (List.replicate count '\\' ++ [c]) (parts rest) := by
  have first : (c :: rest).head? ≠ some '\\' := by simpa using visible
  rw [parts]
  split
  · rename_i found
    rw [after_slashes count first, unmarked] at found
    cases found
  · split
    · rename_i found _
      rw [after_slashes count first] at found
      cases found
    · rename_i found _
      rw [after_slashes count first] at found
      obtain ⟨rfl, rfl⟩ := List.cons.inj found
      simp only [takeWhile_slashes count first]

def activeParts : List Part → List (List Char)
  | [] => []
  | .plain _ :: rest => activeParts rest
  | .mark slashes inner :: rest => (if slashes % 2 = 1 then [] else [inner]) ++ activeParts rest

private theorem activeParts_consPlain (text : List Char) (rest : List Part) :
    activeParts (consPlain text rest) = activeParts rest := by
  match rest with
  | [] => rfl
  | .plain _ :: _ => rfl
  | .mark _ _ :: _ => rfl

private theorem activeParts_parts (text : List Char) : activeParts (parts text) =
    active false text := by
  induction text using runs_induction with
  | slashes count =>
    have whole := active_slashes false count []
    rw [List.append_nil, active_nil] at whole
    rw [parts_slashes, whole]
    split <;> rfl
  | mark count found ih =>
    rw [parts_mark count found, active_slashes, active_mark _ found, activeParts, ih]
    rcases Nat.mod_two_eq_zero_or_one count with even | odd <;> simp [*]
  | plain count visible unmarked ih =>
    rw [parts_plain count visible unmarked, activeParts_consPlain, active_slashes,
      active_plain _ visible unmarked, ih]

def followAll (styles : List String) (marks : List (List Char)) :
    Except Unmatched (List String) :=
  marks.foldlM follow styles

private theorem followAll_cons {styles inside : List String} {mark : List Char}
    (followed : follow styles mark = .ok inside) (rest : List (List Char)) :
    followAll styles (mark :: rest) = followAll inside rest := by
  rw [followAll, List.foldlM_cons, followed]
  rfl

private theorem exists_printParts {styles after : List String} {parts : List Part}
    (followed : followAll styles (activeParts parts) = .ok after) :
    ∃ text, printParts styles parts = .ok text := by
  induction parts generalizing styles with
  | nil => exact ⟨[], rfl⟩
  | cons part rest ih =>
    cases part with
    | plain text =>
      obtain ⟨later, printed⟩ := ih followed
      exact ⟨_, by rw [printParts, printed]; rfl⟩
    | mark slashes inner =>
      by_cases odd : slashes % 2 = 1
      · rw [activeParts, if_pos odd, List.nil_append] at followed
        obtain ⟨later, printed⟩ := ih followed
        exact ⟨_, by simp only [printParts, odd, ↓reduceIte, printed]; rfl⟩
      · rw [activeParts, if_neg odd, List.singleton_append, followAll, List.foldlM_cons] at followed
        match opened : follow styles inner with
        | .error unmatched =>
          rw [opened] at followed
          cases followed
        | .ok inside =>
          rw [opened] at followed
          obtain ⟨later, printed⟩ := ih followed
          refine ⟨List.replicate (slashes / 2) '\\' ++ later, ?_⟩
          simp only [printParts, odd, ↓reduceIte, opened]
          change (printParts inside rest >>= _) = _
          rw [printed]
          rfl

/-- A text can be printed: none of its marks closes a style that is not open. -/
def Prints (text : String) : Prop := ∃ printed, lines text = .ok printed

theorem prints_of_followAll {text : String} {after : List String}
    (followed : followAll [] (active false text.toList) = .ok after) : Prints text := by
  rw [← activeParts_parts] at followed
  obtain ⟨printed, done⟩ := exists_printParts followed
  exact ⟨_, by rw [lines, done]; rfl⟩

def Clear (text : List Char) : Prop :=
  text.IsChain fun first second => first = '[' → startsMark second = false

private theorem mark?_of_clear {text : List Char} (clear : Clear text) : mark? text = none := by
  unfold mark?
  split
  · rename_i c more
    have next : startsMark c = false := (List.isChain_cons_cons.mp clear).1 rfl
    simp [next]
  · rfl

private theorem active_of_clear {text : List Char} (clear : Clear text) (odd : Bool) :
    active odd text = [] := by
  induction text generalizing odd with
  | nil => exact active_nil odd
  | cons c rest ih =>
    by_cases slash : c = '\\'
    · rw [slash, active_slash]
      exact ih clear.tail _
    · rw [active_plain odd slash (mark?_of_clear clear)]
      exact ih clear.tail _

theorem Clear.prints {text : String} (clear : Clear text.toList) : Prints text := by
  have nothing : followAll [] (active false text.toList) = .ok [] := by
    rw [active_of_clear clear]
    rfl
  exact prints_of_followAll nothing

def Closes (text : List Char) : Prop :=
  text.find? (fun c => c == '[' || c == ']') = some ']'

instance (text : List Char) : Decidable (Closes text) := inferInstanceAs (Decidable (_ = _))

theorem not_closes_append {first second : List Char} (left : ¬ Closes first)
    (right : ¬ Closes second) : ¬ Closes (first ++ second) := by
  simp only [Closes, List.find?_append] at left right ⊢
  cases found : first.find? fun c => c == '[' || c == ']' with
  | none => simpa using right
  | some c => simpa [found] using left

private theorem drop_takeWhile_head? {α : Type} (p : α → Bool) (l : List α) :
    (l.drop (l.takeWhile p).length).head? = l.find? (!p ·) := by
  induction l with
  | nil => rfl
  | cons a rest ih => by_cases holds : p a <;> simp [holds, ih]

private theorem drop_head? (more : List Char) :
    (more.drop (more.takeWhile fun x => x != '[' && x != ']').length).head? =
      more.find? fun c => c == '[' || c == ']' := by
  rw [drop_takeWhile_head?]
  congr 1
  funext c
  simp [bne, Bool.not_and]

private theorem flat_of_startsMark {c : Char} (start : startsMark c = true) :
    (c != '[' && c != ']') = true := by
  by_contra bracket
  have found : c = '[' ∨ c = ']' := by
    by_cases opening : c = '['
    · exact .inl opening
    · exact .inr (by simpa [opening] using bracket)
  rcases found with rfl | rfl <;> revert start <;> decide

private theorem mark?_bracket_eq_none_iff {more : List Char} :
    mark? ('[' :: more) = none ↔ (∀ c ∈ more.head?, startsMark c = false) ∨ ¬ Closes more := by
  match more with
  | [] => simp [mark?]
  | c :: more =>
    by_cases start : startsMark c
    · have same : Closes (c :: more) ↔ Closes more := by
        have neither : (c == '[' || c == ']') = false := by
          simpa [bne] using flat_of_startsMark start
        simp [Closes, neither]
      rw [same, Closes, ← drop_head?]
      simp only [mark?, start, ↓reduceIte, List.head?_cons, Option.mem_some_iff, forall_eq',
        Bool.true_eq_false, false_or]
      cases more.drop _ with
      | nil => simp
      | cons d rest =>
        by_cases close : d = ']'
        · simp [close]
        · simp [close]
    · simp [mark?, start]

private theorem mark?_of_word {c : Char} {body : List Char} (start : startsMark c = true)
    (flat : ∀ d ∈ body, (d != '[' && d != ']') = true) (rest : List Char) :
    mark? ('[' :: c :: (body ++ ']' :: rest)) = some (c :: body, rest) := by
  have inner : (body ++ ']' :: rest).takeWhile (fun x => x != '[' && x != ']') = body := by
    rw [List.takeWhile_append_of_pos flat]
    simp
  simp only [mark?, start, ↓reduceIte, inner, List.drop_left]

private theorem exists_word_of_mark? {text inner rest : List Char}
    (found : mark? text = some (inner, rest)) :
    ∃ c body, inner = c :: body ∧ startsMark c = true ∧
      (∀ d ∈ body, (d != '[' && d != ']') = true) ∧ text = '[' :: c :: (body ++ ']' :: rest) := by
  unfold mark? at found
  split at found
  · rename_i c more
    split at found
    · rename_i start
      simp only at found
      split at found
      · rename_i tail behind
        obtain ⟨rfl, rfl⟩ := Prod.mk.inj (Option.some.inj found)
        have flat (d : Char) (member : d ∈ more.takeWhile fun x => x != '[' && x != ']') :
            (d != '[' && d != ']') = true := by
          have holds := List.mem_takeWhile_imp member
          exact holds
        refine ⟨c, _, rfl, start, flat, ?_⟩
        rw [← behind]
        exact congrArg (fun text => '[' :: c :: text)
          (List.prefix_append_drop (List.takeWhile_prefix _))
      · cases found
    · cases found
  · cases found

def escaped (text : List Char) : List Char := (parts text).flatMap escapePart

private theorem flatMap_consPlain (text : List Char) (rest : List Part) :
    (consPlain text rest).flatMap escapePart = text ++ rest.flatMap escapePart := by
  match rest with
  | [] => simp [consPlain, escapePart]
  | .plain more :: _ => simp [consPlain, escapePart]
  | .mark _ _ :: _ => simp [consPlain, escapePart]

private theorem escaped_slashes (count : Nat) :
    escaped (List.replicate count '\\') = List.replicate count '\\' := by
  rw [escaped, parts_slashes]
  cases count <;> simp [escapePart]

private theorem escaped_mark (count : Nat) {text inner rest : List Char}
    (found : mark? text = some (inner, rest)) :
    escaped (List.replicate count '\\' ++ text) =
      List.replicate (2 * count + 1) '\\' ++ '[' :: (inner ++ ']' :: escaped rest) := by
  rw [escaped, parts_mark count found]
  simp [escapePart, escaped]

private theorem escaped_plain (count : Nat) {c : Char} {rest : List Char} (visible : c ≠ '\\')
    (unmarked : mark? (c :: rest) = none) :
    escaped (List.replicate count '\\' ++ c :: rest) =
      List.replicate count '\\' ++ c :: escaped rest := by
  rw [escaped, parts_plain count visible unmarked, flatMap_consPlain]
  simp [escaped]

private theorem find?_slashes (count : Nat) (rest : List Char) :
    (List.replicate count '\\' ++ rest).find? (fun c => c == '[' || c == ']') =
      rest.find? fun c => c == '[' || c == ']' := by
  induction count with
  | zero => simp
  | succ count ih => simp [List.replicate_succ, ih]

private theorem find?_escaped (text more : List Char) :
    (escaped text ++ more).find? (fun c => c == '[' || c == ']') =
      (text ++ more).find? fun c => c == '[' || c == ']' := by
  induction text using runs_induction with
  | slashes count => rw [escaped_slashes]
  | mark count found ih =>
    obtain ⟨c, body, rfl, -, -, rfl⟩ := exists_word_of_mark? found
    rw [escaped_mark count found, List.append_assoc, List.append_assoc, find?_slashes,
      find?_slashes]
    simp
  | plain count visible unmarked ih =>
    rw [escaped_plain count visible unmarked, List.append_assoc, List.append_assoc, find?_slashes,
      find?_slashes]
    simp only [List.cons_append, List.find?_cons, ih]

private theorem head?_escaped (text : List Char) :
    (escaped text).head? = text.head? ∨ (escaped text).head? = some '\\' := by
  induction text using runs_induction with
  | slashes count => exact .inl (by rw [escaped_slashes])
  | mark count found ih =>
    rw [escaped_mark count found]
    exact .inr rfl
  | plain count visible unmarked ih =>
    rw [escaped_plain count visible unmarked]
    cases count <;> exact .inl rfl

/-- In front of a text that closes no bracket before it opens one, the marks of an escaped text do
not count, and behind it those of the text do or the first of them is escaped. -/
theorem active_escaped (text : List Char) {rest : List Char} (opens : ¬ Closes rest) :
    ∃ odd, active false (escaped text ++ rest) = active odd rest := by
  induction text using runs_induction with
  | slashes count =>
    rw [escaped_slashes, active_slashes]
    exact ⟨_, rfl⟩
  | @mark count text inner more found ih =>
    obtain ⟨c, body, rfl, start, flat, -⟩ := exists_word_of_mark? found
    obtain ⟨odd, same⟩ := ih
    refine ⟨odd, ?_⟩
    have behind := mark?_of_word start flat (escaped more ++ rest)
    rw [escaped_mark count found]
    simp only [List.append_assoc, List.cons_append]
    rw [active_slashes, active_mark _ behind, same]
    simp [Nat.add_mod]
  | @plain count c more visible unmarked ih =>
    obtain ⟨odd, same⟩ := ih
    refine ⟨odd, ?_⟩
    rw [escaped_plain count visible unmarked, List.append_assoc, active_slashes, List.cons_append,
      active_plain _ visible ?_, same]
    by_cases bracket : c = '['
    · subst bracket
      refine mark?_bracket_eq_none_iff.mpr ?_
      match more with
      | [] =>
        have nothing : escaped [] = [] := escaped_slashes 0
        exact .inr (by rwa [nothing])
      | d :: more =>
        refine (mark?_bracket_eq_none_iff.mp unmarked).imp (fun first => ?_) fun clear => ?_
        · rcases head?_escaped (d :: more) with same | slash
          · simpa [List.head?_append, same] using first
          · simp [List.head?_append, slash, startsMark]
        · have open_ := not_closes_append clear opens
          rwa [Closes, ← find?_escaped] at open_
    · exact mark?_cons_of_ne bracket

/-- A text without marks that count, behind which those of the rest do or the first of them is
escaped. -/
def Quiet (text : List Char) : Prop :=
  ∀ rest, ¬ Closes rest → ∃ odd, active false (text ++ rest) = active odd rest

private theorem guardEnd_cases (text : List Char) :
    guardEnd text = text ∨ guardEnd text = text ++ ['\\'] := by
  unfold guardEnd
  split
  · exact .inr rfl
  · split
    · exact .inl rfl
    · exact .inr rfl
  · exact .inl rfl

private theorem toList_escape (text : String) : (escape text).toList = guardEnd
    (escaped text.toList) := by
  rw [escape, String.toList_ofList, escaped]

theorem quiet_escape (text : String) : Quiet (escape text).toList := by
  intro rest opens
  rw [toList_escape]
  rcases guardEnd_cases (escaped text.toList) with same | more
  · rw [same]
    exact active_escaped _ opens
  · have opens' : ¬ Closes ('\\' :: rest) := by simpa [Closes] using opens
    obtain ⟨odd, found⟩ := active_escaped text.toList opens'
    rw [more, List.append_assoc, List.singleton_append, found]
    exact ⟨!odd, active_slash odd rest⟩

theorem not_closes_escape {text : String} (opens : ¬ Closes text.toList) :
    ¬ Closes (escape text).toList := by
  have same := find?_escaped text.toList []
  rw [List.append_nil, List.append_nil] at same
  have kept : ¬ Closes (escaped text.toList) := by rwa [Closes, same]
  rw [toList_escape]
  rcases guardEnd_cases (escaped text.toList) with plain | more
  · rwa [plain]
  · rw [more]
    exact not_closes_append kept (by simp [Closes])

/-- A character that neither begins a mark nor escapes one. -/
def isPlain (c : Char) : Bool := c != '[' && c != '\\'

private theorem active_of_isPlain (odd : Bool) {c : Char} (plain : isPlain c = true)
    (rest : List Char) : active odd (c :: rest) = active false rest := by
  simp only [isPlain, Bool.and_eq_true, bne_iff_ne] at plain
  exact active_plain odd plain.2 (mark?_cons_of_ne plain.1)

private theorem active_plain_append {text : List Char} (plain : text.all isPlain = true)
    (rest : List Char) : active false (text ++ rest) = active false rest := by
  induction text with
  | nil => rfl
  | cons c more ih =>
    rw [List.all_cons, Bool.and_eq_true] at plain
    rw [List.cons_append, active_of_isPlain false plain.1]
    exact ih plain.2

theorem quiet_of_plain {text : List Char} (plain : text.all isPlain = true) : Quiet text :=
  fun rest _ => ⟨false, active_plain_append plain rest⟩

/-- A text whose marks can be followed whatever stands in front of it. -/
def Tame (text : List Char) : Prop :=
  ∀ odd styles, ∃ after, followAll styles (active odd text) = .ok after

theorem tame_nil : Tame [] := fun odd styles => ⟨styles, by rw [active_nil]; rfl⟩

variable {c : Char} {text rest : List Char}

theorem Tame.prints {text : String} (tame : Tame text.toList) : Prints text :=
  let ⟨_, followed⟩ := tame false []
  prints_of_followAll followed

theorem Tame.cons (tame : Tame rest) (plain : isPlain c = true) : Tame (c :: rest) := by
  intro odd styles
  rw [active_of_isPlain odd plain]
  exact tame false styles

theorem Tame.append (tame : Tame rest) (plain : text.all isPlain = true) : Tame (text ++ rest) := by
  induction text with
  | nil => exact tame
  | cons c more ih =>
    rw [List.all_cons, Bool.and_eq_true] at plain
    exact (ih plain.2).cons plain.1

theorem Tame.quiet (tame : Tame rest) (opens : ¬ Closes rest) (quiet : Quiet text)
    (plain : isPlain c = true) : Tame (c :: (text ++ rest)) := by
  intro odd styles
  obtain ⟨other, same⟩ := quiet rest opens
  rw [active_of_isPlain odd plain, same]
  exact tame other styles

structure IsStyle (name : List Char) : Prop where
  opened : ∀ rest, mark? ('[' :: (name ++ ']' :: rest)) = some (name, rest)
  closed : ∀ rest, mark? ('[' :: '/' :: (name ++ ']' :: rest)) = some ('/' :: name, rest)
  follows : ∀ styles, ∃ inside, follow styles name = .ok inside ∧
    follow inside ('/' :: name) = .ok styles

theorem isStyle_of_word {c : Char} {body : List Char} (start : startsMark c = true)
    (opening : c ≠ '/') (flat : (body.all fun d => d != '[' && d != ']') = true)
    (bare : '=' ∉ c :: body) (visible : (Text.Blank.trimChars (c :: body)).isEmpty = false) :
    IsStyle (c :: body) where
  opened rest := mark?_of_word start (List.all_eq_true.mp flat) rest
  closed rest := by
    refine mark?_of_word (by decide) ?_ rest
    intro d member
    rcases List.mem_cons.mp member with rfl | member
    · exact flat_of_startsMark start
    · exact List.all_eq_true.mp flat d member
  follows styles := by
    have whole : (c :: body).takeWhile (· != '=') = c :: body :=
      List.takeWhile_eq_self_iff.mpr fun d member => bne_iff_ne.mpr fun same => bare (same ▸ member)
    refine ⟨styleName (c :: body) :: styles, ?_, ?_⟩
    · rw [follow.eq_def, whole]
      split
      · rename_i slash
        exact absurd (List.cons.inj slash).1 opening
      · rfl
    · have behind : ('/' :: c :: body).takeWhile (· != '=') = '/' :: c :: body := by
        rw [List.takeWhile_cons_of_pos (by decide), whole]
      rw [follow.eq_def, behind]
      simp only [visible, Bool.false_eq_true, ↓reduceIte, close]

/-- A quiet text in its own style can stand anywhere behind a plain character. -/
theorem active_styled {name : List Char} (style : IsStyle name) (quiet : Quiet text)
    (tame : Tame rest) (styles : List String) : ∃ after,
    followAll styles
      (active false ('[' :: (name ++ ']' :: (text ++ '[' :: '/' :: (name ++ ']' :: rest))))) =
        .ok after := by
  have opens : ¬ Closes ('[' :: '/' :: (name ++ ']' :: rest)) := by simp [Closes]
  obtain ⟨odd, same⟩ := quiet _ opens
  obtain ⟨inside, entered, left⟩ := style.follows styles
  rw [active_mark false (style.opened _), same, active_mark odd (style.closed rest)]
  simp only [Bool.false_eq_true, ↓reduceIte, List.singleton_append, followAll_cons entered]
  cases odd with
  | true => simpa using tame false inside
  | false => simpa [followAll_cons left] using tame false styles

theorem Tame.styled {name : List Char} (style : IsStyle name) (quiet : Quiet text)
    (tame : Tame rest) (plain : isPlain c = true) :
    Tame (c :: '[' :: (name ++ ']' :: (text ++ '[' :: '/' :: (name ++ ']' :: rest)))) := by
  intro odd styles
  rw [active_of_isPlain odd plain]
  exact active_styled style quiet tame styles

end TreePass.Console.Markup
