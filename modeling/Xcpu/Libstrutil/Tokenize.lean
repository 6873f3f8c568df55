import Mathlib.Algebra.Order.Ring.Int
import Mathlib.Data.List.Basic
import Mathlib.Data.List.TakeWhile

/-!
`tokenize.c` and `unquotestr.c` of libstrutil, and the `strtol` and `"%d"` of the C
library that the callers of `tokenize` use. A C string is the list of characters
before its terminator; a token cut out of the copied text is returned as such a list.
-/

namespace Xcpu.Libstrutil

abbrev CStr := List Char

def isBlank (c : Char) : Bool := c == ' ' || c == '\t' || c == '\n'

/-- The loop of `unquotestr` after the opening quote: two quotes stand for one,
and a single one ends the token. `none` is the unterminated quote. -/
@[simp]
def unquoteBody : CStr → Option (CStr × CStr)
  | [] => none
  | '\'' :: '\'' :: rest => (unquoteBody rest).map fun (token, eptr) => ('\'' :: token, eptr)
  | '\'' :: rest => some ([], rest)
  | c :: rest => (unquoteBody rest).map fun (token, eptr) => (c :: token, eptr)

def unquotestr : CStr → Option (CStr × CStr)
  | '\'' :: rest => unquoteBody rest
  | str => some (str.takeWhile fun c => !isBlank c, (str.dropWhile fun c => !isBlank c).tail)

/-- The token loop of `tokenize`; the number counts the slots left in `toks`. -/
@[simp]
def tokenizeLoop : Nat → CStr → Option (List CStr)
  | _, [] => some []
  | 0, _ :: _ => none
  | slots + 1, p => do
      let (token, eptr) ← unquotestr p
      let tokens ← tokenizeLoop slots (eptr.dropWhile isBlank)
      some (token :: tokens)

def eio : Int := 5

/-- The returned count and `*ss`. A quoting error is returned as the positive `EIO`. -/
def tokenize (s : CStr) : Int × Option (List CStr) :=
  let text := s.dropWhile isBlank
  match tokenizeLoop (1 + text.countP isBlank) text with
  | some tokens => (tokens.length, some tokens)
  | none => (eio, none)

/-- A word that `unquotestr` returns unchanged. -/
structure Plain (word : CStr) : Prop where
  nonempty : word ≠ []
  unblank : ∀ c ∈ word, isBlank c = false
  unquoted : '\'' ∉ word

theorem unquotestr_of_head_ne {c : Char} {rest : CStr} (unquoted : c ≠ '\'') :
    unquotestr (c :: rest) = some ((c :: rest).takeWhile fun c => !isBlank c,
      ((c :: rest).dropWhile fun c => !isBlank c).tail) := by
  unfold unquotestr
  split
  · rename_i quoted
    exact absurd (List.cons.inj quoted).1 unquoted
  · rfl

theorem unquotestr_plain {word : CStr} (plain : Plain word) (rest : CStr) :
    unquotestr (word ++ ' ' :: rest) = some (word, rest) := by
  obtain ⟨c, tail, rfl⟩ := List.exists_cons_of_ne_nil plain.nonempty
  have unquoted : c ≠ '\'' := fun quoted => plain.unquoted (by simp [quoted])
  have unblank : ∀ x ∈ c :: tail, (!isBlank x) = true := by
    intro x member
    simp [plain.unblank x member]
  rw [List.cons_append, unquotestr_of_head_ne unquoted, ← List.cons_append,
    List.takeWhile_append_of_pos unblank, List.dropWhile_append_of_pos unblank]
  simp [isBlank]

theorem unquotestr_last {word : CStr} (plain : Plain word) :
    unquotestr word = some (word, []) := by
  obtain ⟨c, tail, rfl⟩ := List.exists_cons_of_ne_nil plain.nonempty
  have unquoted : c ≠ '\'' := fun quoted => plain.unquoted (by simp [quoted])
  have unblank : ∀ x ∈ c :: tail, (!isBlank x) = true := by
    intro x member
    simp [plain.unblank x member]
  rw [unquotestr_of_head_ne unquoted, List.takeWhile_eq_self_iff.mpr unblank,
    List.dropWhile_eq_nil_iff.mpr unblank]
  rfl

/-- The words with one blank between them, as a command line is written. -/
@[simp]
def joinWords : List CStr → CStr
  | [] => []
  | [word] => word
  | word :: more => word ++ ' ' :: joinWords more

theorem Plain.dropWhile_blank {word : CStr} (plain : Plain word) (rest : CStr) :
    (word ++ rest).dropWhile isBlank = word ++ rest := by
  obtain ⟨c, tail, rfl⟩ := List.exists_cons_of_ne_nil plain.nonempty
  have unblank := plain.unblank c (by simp)
  simp [unblank]

theorem joinWords_dropWhile {words : List CStr} (plain : ∀ word ∈ words, Plain word) :
    (joinWords words).dropWhile isBlank = joinWords words := by
  match words with
  | [] => rfl
  | [word] => simpa [joinWords] using (plain word (by simp)).dropWhile_blank []
  | word :: next :: more => exact (plain word (by simp)).dropWhile_blank _

theorem joinWords_blanks {words : List CStr} (plain : ∀ word ∈ words, Plain word)
    (nonempty : words ≠ []) : 1 + (joinWords words).countP isBlank = words.length := by
  have none (word : CStr) (member : word ∈ words) : word.countP isBlank = 0 :=
    List.countP_eq_zero.mpr fun c inside => by simp [(plain word member).unblank c inside]
  induction words with
  | nil => exact absurd rfl nonempty
  | cons word more ih =>
      have first := none word (by simp)
      cases more with
      | nil => simp [joinWords, first]
      | cons next more =>
          have tail := ih (fun w member => plain w (by simp [member])) (by simp)
            (fun w member => none w (by simp [member]))
          simp only [joinWords, List.countP_append, List.countP_cons, first, List.length_cons] at tail ⊢
          simp only [isBlank, beq_self_eq_true, Bool.true_or, if_true] at tail ⊢
          omega

theorem tokenizeLoop_joinWords {words : List CStr} (plain : ∀ word ∈ words, Plain word) :
    tokenizeLoop words.length (joinWords words) = some words := by
  induction words with
  | nil => rfl
  | cons word more ih =>
      have first := plain word (by simp)
      obtain ⟨c, tail, shape⟩ := List.exists_cons_of_ne_nil first.nonempty
      have later : ∀ w ∈ more, Plain w := fun w member => plain w (by simp [member])
      cases more with
      | nil =>
          simp only [joinWords, List.length_cons, List.length_nil, Nat.zero_add]
          rw [shape, tokenizeLoop, ← shape, unquotestr_last first]
          · simp [tokenizeLoop]
          · simp
      | cons next more =>
          have rest := ih later
          simp only [joinWords, List.length_cons] at rest ⊢
          rw [shape, List.cons_append, tokenizeLoop, ← List.cons_append, ← shape,
            unquotestr_plain first]
          · change (do
              let tokens ← tokenizeLoop (more.length + 1)
                ((joinWords (next :: more)).dropWhile isBlank)
              some (word :: tokens)) = some (word :: next :: more)
            rw [joinWords_dropWhile later, rest]
            rfl
          · simp

theorem tokenize_joinWords {words : List CStr} (plain : ∀ word ∈ words, Plain word)
    (nonempty : words ≠ []) : tokenize (joinWords words) = ((words.length : Int), some words) := by
  simp only [tokenize]
  rw [joinWords_dropWhile plain, joinWords_blanks plain nonempty, tokenizeLoop_joinWords plain]

example : tokenize "exec 'it''s here' x".toList =
    (3, some ["exec".toList, "it's here".toList, "x".toList]) := by decide

def isSpace (c : Char) : Bool :=
  c == ' ' || c == '\t' || c == '\n' || c == '\x0b' || c == '\x0c' || c == '\r'

/-- The value clamped to a 64-bit `long`, as `strtol` returns it. -/
def clampLong (value : Int) : Int := max (-2 ^ 63) (min (2 ^ 63 - 1) value)

/-- `strtol` in base ten: the value and `*endptr`. -/
def strtol (s : CStr) : Int × CStr :=
  let body := s.dropWhile isSpace
  let (negative, text) : Bool × CStr := match body with
    | '-' :: rest => (true, rest)
    | '+' :: rest => (false, rest)
    | _ => (false, body)
  let digits := text.takeWhile Char.isDigit
  if digits = [] then (0, s)
  else
    let magnitude : Int := Nat.ofDigitChars 10 digits 0
    (clampLong (if negative then -magnitude else magnitude), text.dropWhile Char.isDigit)

/-- The conversion of a `long` to `int`. -/
def toInt (value : Int) : Int := value.bmod (2 ^ 32)

/-- `"%d"` of an `int`. -/
def formatInt (value : Int) : CStr :=
  if value < 0 then '-' :: Nat.toDigits 10 value.natAbs else Nat.toDigits 10 value.natAbs

theorem toDigits_isDigit {value : Nat} {c : Char} (member : c ∈ Nat.toDigits 10 value) :
    c.isDigit = true :=
  Nat.isDigit_of_mem_toDigits (by decide) (by decide) member

theorem plain_of_digits {word : CStr} (nonempty : word ≠ [])
    (digits : ∀ c ∈ word, c.isDigit = true) : Plain word := by
  refine ⟨nonempty, ?_, ?_⟩
  · intro c member
    have digit := digits c member
    simp only [isBlank, Bool.or_eq_false_iff, beq_eq_false_iff_ne]
    refine ⟨⟨?_, ?_⟩, ?_⟩ <;> rintro rfl <;> exact absurd digit (by decide)
  · intro member
    exact absurd (digits '\'' member) (by decide)

theorem formatInt_plain {value : Int} (positive : 0 ≤ value) : Plain (formatInt value) := by
  rw [formatInt, if_neg (by omega)]
  exact plain_of_digits Nat.toDigits_ne_nil fun _ member => toDigits_isDigit member

theorem strtol_digits {text : CStr} (nonempty : text ≠ []) (digits : ∀ c ∈ text, c.isDigit = true) :
    strtol text = (clampLong (Nat.ofDigitChars 10 text 0 : Nat), []) := by
  obtain ⟨c, rest, rfl⟩ := List.exists_cons_of_ne_nil nonempty
  have digit : c.isDigit = true := digits c (by simp)
  have unspaced : isSpace c = false := by
    simp only [isSpace, Bool.or_eq_false_iff, beq_eq_false_iff_ne]
    refine ⟨⟨⟨⟨⟨?_, ?_⟩, ?_⟩, ?_⟩, ?_⟩, ?_⟩ <;> rintro rfl <;> exact absurd digit (by decide)
  have unsigned : c ≠ '-' ∧ c ≠ '+' := by
    constructor <;> rintro rfl <;> exact absurd digit (by decide)
  have taken : (c :: rest).takeWhile Char.isDigit = c :: rest := List.takeWhile_eq_self_iff.mpr digits
  have dropped : (c :: rest).dropWhile Char.isDigit = [] := List.dropWhile_eq_nil_iff.mpr digits
  rw [strtol]
  simp only [List.dropWhile_cons, unspaced, Bool.false_eq_true, ↓reduceIte]
  split
  · rename_i minus
    exact absurd (List.cons.inj minus).1 unsigned.1
  · rename_i plus
    exact absurd (List.cons.inj plus).1 unsigned.2
  · simp only [taken, dropped, reduceCtorEq, if_false, Bool.false_eq_true]

theorem strtol_formatInt {value : Int} (positive : 0 ≤ value) (small : value < 2 ^ 31) :
    strtol (formatInt value) = (value, []) := by
  have number : (Nat.ofDigitChars 10 (Nat.toDigits 10 value.natAbs) 0 : Int) = value := by
    rw [Nat.ofDigitChars_ten_toDigits]
    omega
  rw [formatInt, if_neg (by omega), strtol_digits Nat.toDigits_ne_nil fun _ member => toDigits_isDigit member, number,
    clampLong]
  simp only [Prod.mk.injEq, and_true]
  omega

theorem toInt_of_small {value : Int} (positive : 0 ≤ value) (small : value < 2 ^ 31) :
    toInt value = value := by
  rw [toInt, Int.bmod_def]
  omega

end Xcpu.Libstrutil
