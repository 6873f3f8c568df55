import Mathlib.Data.List.TakeWhile
import Mathlib.Data.Nat.Digits.Lemmas

/-!
Numbers as the C library writes and reads them: `%d`, `%ld` and `%o` of `printf`, and `strtol`
with base 0, which takes the base from how the text begins.
-/

namespace Xcpu.Numerals

/-- `isspace` in the C locale. -/
def isspace (c : UInt8) : Bool := c = 32 || (9 ≤ c && c ≤ 13)

/-- The value of an `int` that a number is stored in. -/
def toInt (value : Nat) : Int := (Int32.ofNat value).toInt

def digitChar (d : Nat) : UInt8 := UInt8.ofNat (48 + d)

/-- A number in a base up to ten. -/
def formatNat (base n : Nat) : List UInt8 :=
  if n = 0 then [48] else (Nat.digits base n).reverse.map digitChar

def formatInt (n : Int) : List UInt8 :=
  if n < 0 then 45 :: formatNat 10 n.natAbs else formatNat 10 n.natAbs

def digitValue (c : UInt8) : Nat :=
  if 48 ≤ c ∧ c ≤ 57 then c.toNat - 48
  else if 97 ≤ c ∧ c ≤ 122 then c.toNat - 87
  else if 65 ≤ c ∧ c ≤ 90 then c.toNat - 55
  else 36

def isDigitIn (base : Nat) (c : UInt8) : Bool := digitValue c < base

def readDigits (base : Nat) (digits : List UInt8) : Nat :=
  digits.foldl (fun value c => value * base + digitValue c) 0

/-- The base of a number and its digits: after `0x` there are hexadecimal ones, after `0` octal. -/
def basePrefix : List UInt8 → Nat × List UInt8
  | 48 :: x :: c :: rest =>
      if (x = 120 ∨ x = 88) ∧ isDigitIn 16 c then (16, c :: rest) else (8, 48 :: x :: c :: rest)
  | 48 :: rest => (8, 48 :: rest)
  | text => (10, text)

/-- A `long` has 64 bits; `strtol` returns the nearest one. -/
def clampLong (value : Int) : Int := max (-2 ^ 63) (min (2 ^ 63 - 1) value)

/-- `strtol` with base 0: the value and `*endptr`. -/
def strtol0 (s : List UInt8) : Int × List UInt8 :=
  let body := s.dropWhile isspace
  let (negative, text) : Bool × List UInt8 := match body with
    | 45 :: rest => (true, rest)
    | 43 :: rest => (false, rest)
    | _ => (false, body)
  let (base, digits) := basePrefix text
  if digits.takeWhile (isDigitIn base) = [] then (0, s)
  else
    let magnitude : Int := readDigits base (digits.takeWhile (isDigitIn base))
    (clampLong (if negative then -magnitude else magnitude), digits.dropWhile (isDigitIn base))

/-- `strtoul` with base 0, without `endptr`: a number that does not fit becomes the largest one, and a
sign is applied modulo 2 ^ 64. -/
def strtoul0 (s : List UInt8) : Nat :=
  let body := s.dropWhile isspace
  let (negative, text) : Bool × List UInt8 := match body with
    | 45 :: rest => (true, rest)
    | 43 :: rest => (false, rest)
    | _ => (false, body)
  let (base, digits) := basePrefix text
  let magnitude := readDigits base (digits.takeWhile (isDigitIn base))
  if 2 ^ 64 ≤ magnitude then 2 ^ 64 - 1
  else if negative then (2 ^ 64 - magnitude) % 2 ^ 64
  else magnitude

theorem toInt_small {n : Nat} (small : n < 2 ^ 31) : toInt n = n := Int32.toInt_ofNat_of_lt small

theorem toInt_large {n : Nat} (large : 2 ^ 31 ≤ n) : toInt n < 2 ^ 31 ∧ (n < 2 ^ 32 → toInt n < 0) := by
  have wraps : toInt n = Int.bmod n (2 ^ 32) := Int32.toInt_ofNat
  rw [wraps, Int.bmod_def]
  norm_num
  split <;> omega

theorem digitValue_digitChar {d : Nat} (small : d < 10) : digitValue (digitChar d) = d := by
  have all : ∀ d < 10, digitValue (digitChar d) = d := by decide
  exact all d small

theorem digitChar_plain {d : Nat} (small : d < 10) :
    digitChar d ≠ 0 ∧ isspace (digitChar d) = false ∧ digitChar d ≠ 45 ∧ digitChar d ≠ 43 ∧
      digitChar d ≠ 120 ∧ digitChar d ≠ 88 ∧ (digitChar d = 48 → d = 0) := by
  have all : ∀ d < 10, digitChar d ≠ 0 ∧ isspace (digitChar d) = false ∧ digitChar d ≠ 45 ∧
      digitChar d ≠ 43 ∧ digitChar d ≠ 120 ∧ digitChar d ≠ 88 ∧ (digitChar d = 48 → d = 0) := by decide
  exact all d small

section Format

variable {base n : Nat}

theorem formatNat_digits (large : 1 < base) :
    ∃ digits : List Nat, formatNat base n = digits.map digitChar ∧ digits ≠ [] ∧
      (∀ d ∈ digits, d < base) ∧ (n ≠ 0 → digits.head? ≠ some 0) ∧
      digits.foldl (fun value d => value * base + d) 0 = n := by
  by_cases zero : n = 0
  · refine ⟨[0], by rw [formatNat, if_pos zero]; rfl, by simp, ?_, fun nonzero => absurd zero nonzero,
      by simp [zero]⟩
    intro d member
    rw [List.mem_singleton.mp member]
    omega
  · refine ⟨(Nat.digits base n).reverse, by rw [formatNat, if_neg zero], ?_, ?_, ?_, ?_⟩
    · have digits : Nat.digits base n ≠ [] := Nat.digits_ne_nil_iff_ne_zero.mpr zero
      simpa using digits
    · exact fun d member => Nat.digits_lt_base large (List.mem_reverse.mp member)
    · intro _ first
      rw [List.head?_reverse] at first
      have last := Nat.getLast_digit_ne_zero base zero
      rw [List.getLast?_eq_some_getLast (Nat.digits_ne_nil_iff_ne_zero.mpr zero), Option.some.injEq] at first
      exact last first
    · rw [List.foldl_reverse]
      have value := Nat.ofDigits_digits base n
      rw [Nat.ofDigits_eq_foldr] at value
      refine Eq.trans ?_ value
      congr 1
      funext d value
      simp only [Nat.cast_id]
      ring

theorem formatNat_read (large : 1 < base) (small : base ≤ 10) :
    (formatNat base n).takeWhile (isDigitIn base) = formatNat base n ∧
      (formatNat base n).dropWhile (isDigitIn base) = [] ∧ readDigits base (formatNat base n) = n := by
  obtain ⟨digits, text, -, below, -, value⟩ := formatNat_digits (n := n) large
  have valid : ∀ c ∈ formatNat base n, isDigitIn base c = true := by
    intro c member
    rw [text] at member
    obtain ⟨d, listed, same⟩ := List.mem_map.mp member
    have less := below d listed
    rw [← same, isDigitIn, digitValue_digitChar (by omega)]
    simpa using less
  refine ⟨List.takeWhile_eq_self_iff.mpr valid, List.dropWhile_eq_nil_iff.mpr valid, ?_⟩
  rw [readDigits, text, List.foldl_map]
  rw [← value]
  have step : ∀ (ds : List Nat) (start : Nat), (∀ d ∈ ds, d < base) →
      ds.foldl (fun value d => value * base + digitValue (digitChar d)) start =
        ds.foldl (fun value d => value * base + d) start := by
    intro ds
    induction ds with
    | nil => exact fun _ _ => rfl
    | cons d ds ih =>
        intro start below
        have less := below d List.mem_cons_self
        rw [List.foldl_cons, List.foldl_cons, digitValue_digitChar (by omega),
          ih _ fun d member => below d (List.mem_cons_of_mem _ member)]
  exact step digits 0 below

theorem formatNat_plain (large : 1 < base) (small : base ≤ 10) :
    formatNat base n ≠ [] ∧ 0 ∉ formatNat base n := by
  obtain ⟨digits, text, nonempty, below, -, -⟩ := formatNat_digits (n := n) large
  rw [text]
  refine ⟨by simpa using nonempty, ?_⟩
  intro member
  obtain ⟨d, listed, same⟩ := List.mem_map.mp member
  have less := below d listed
  exact (digitChar_plain (show d < 10 by omega)).1 same

theorem formatNat_length_le (large : 1 < base) {k : Nat} (some_room : 0 < k) :
    (formatNat base n).length ≤ k ↔ n < base ^ k := by
  by_cases zero : n = 0
  · rw [formatNat, if_pos zero, zero]
    exact iff_of_true some_room (Nat.pow_pos (by omega))
  · rw [formatNat, if_neg zero, List.length_map, List.length_reverse, Nat.digits_length_le_iff large]

end Format

theorem clampLong_id {value : Int} (low : -2 ^ 63 ≤ value) (high : value < 2 ^ 63) : clampLong value = value := by
  rw [clampLong]
  omega

theorem strtol0_digits {text digits : List UInt8} {base : Nat} (negative : Bool)
    (starts : ∃ c rest, text = c :: rest ∧ isspace c = false ∧ c ≠ 45 ∧ c ≠ 43)
    (prefixed : basePrefix text = (base, digits)) (nonempty : digits ≠ [])
    (whole : digits.takeWhile (isDigitIn base) = digits) (spent : digits.dropWhile (isDigitIn base) = []) :
    strtol0 (if negative then 45 :: text else text) =
      (clampLong (if negative then -(readDigits base digits : Int) else readDigits base digits), []) := by
  obtain ⟨c, rest, shape, unspaced, unsigned, unplussed⟩ := starts
  cases negative with
  | true =>
      simp only [if_true, strtol0]
      rw [List.dropWhile_cons_of_neg (by decide)]
      simp only [prefixed, whole, spent, nonempty, if_false]
      rfl
  | false =>
      simp only [Bool.false_eq_true, if_false, strtol0]
      rw [shape] at prefixed ⊢
      rw [List.dropWhile_cons_of_neg (by simp [unspaced])]
      split
      · rename_i minus
        exact absurd (List.cons.inj minus).1 unsigned
      · rename_i plus
        exact absurd (List.cons.inj plus).1 unplussed
      · simp only [prefixed, whole, spent, nonempty, if_false]
        rfl

theorem formatNat_starts (n : Nat) :
    (∃ c rest, formatNat 10 n = c :: rest ∧ isspace c = false ∧ c ≠ 45 ∧ c ≠ 43) ∧
      (n ≠ 0 → basePrefix (formatNat 10 n) = (10, formatNat 10 n)) := by
  obtain ⟨digits, text, nonempty, below, first, -⟩ := formatNat_digits (n := n) (show 1 < 10 by omega)
  obtain ⟨d, rest, shape⟩ := List.exists_cons_of_ne_nil nonempty
  obtain ⟨-, unspaced, unsigned, unplussed, -, -, zero⟩ := digitChar_plain (below d (by simp [shape]))
  rw [text, shape, List.map_cons]
  refine ⟨⟨_, _, rfl, unspaced, unsigned, unplussed⟩, fun nonzero => ?_⟩
  have other : digitChar d ≠ 48 := by
    intro same
    rw [shape, zero same] at first
    exact first nonzero rfl
  unfold basePrefix
  split
  · rename_i same
    exact absurd (List.cons.inj same).1 other
  · rename_i same
    exact absurd (List.cons.inj same).1 other
  · rfl

theorem strtol0_formatInt {n : Int} (low : -2 ^ 63 ≤ n) (high : n < 2 ^ 63) :
    strtol0 (formatInt n) = (n, []) := by
  by_cases zero : n = 0
  · subst n
    decide
  · obtain ⟨starts, prefixed⟩ := formatNat_starts n.natAbs
    obtain ⟨whole, spent, value⟩ := formatNat_read (n := n.natAbs) (show 1 < 10 by omega) (Nat.le_refl 10)
    have read := strtol0_digits (decide (n < 0)) starts (prefixed (by omega))
      (formatNat_plain (show 1 < 10 by omega) (Nat.le_refl 10)).1 whole spent
    rw [value] at read
    have text : (if decide (n < 0) = true then 45 :: formatNat 10 n.natAbs else formatNat 10 n.natAbs) =
        formatInt n := by
      rw [formatInt]
      simp
    rw [text] at read
    rw [read, Prod.mk.injEq]
    refine ⟨?_, rfl⟩
    by_cases negative : n < 0
    · simp only [negative, decide_true, if_true]
      rw [clampLong_id (by omega) (by omega)]
      omega
    · simp only [negative, decide_false, Bool.false_eq_true, if_false]
      rw [clampLong_id (by omega) (by omega)]
      omega

theorem strtoul0_formatNat {n : Nat} (small : n < 2 ^ 64) : strtoul0 (formatNat 10 n) = n := by
  by_cases zero : n = 0
  · subst n
    decide
  · obtain ⟨⟨c, rest, shape, unspaced, unsigned, unplussed⟩, prefixed⟩ := formatNat_starts n
    obtain ⟨whole, -, value⟩ := formatNat_read (n := n) (show 1 < 10 by omega) (Nat.le_refl 10)
    have body : (formatNat 10 n).dropWhile isspace = formatNat 10 n := by
      rw [shape, List.dropWhile_cons_of_neg (by simp [unspaced])]
    have sign : (match formatNat 10 n with
        | 45 :: rest => ((true, rest) : Bool × List UInt8)
        | 43 :: rest => (false, rest)
        | _ => (false, formatNat 10 n)) = (false, formatNat 10 n) := by
      rw [shape]
      split
      · rename_i same
        exact absurd (List.cons.inj same).1 unsigned
      · rename_i same
        exact absurd (List.cons.inj same).1 unplussed
      · rfl
    rw [strtoul0, body]
    simp only [sign, prefixed zero, whole, value, Bool.false_eq_true, if_false]
    rw [if_neg (by omega)]

theorem strtol0_octal {n : Nat} (small : n < 2 ^ 63) : strtol0 (48 :: formatNat 8 n) = ((n : Int), []) := by
  obtain ⟨whole, spent, value⟩ := formatNat_read (n := n) (show 1 < 8 by omega) (show 8 ≤ 10 by omega)
  have prefixed : basePrefix (48 :: formatNat 8 n) = (8, 48 :: formatNat 8 n) := by
    obtain ⟨digits, text, nonempty, below, -, -⟩ := formatNat_digits (n := n) (show 1 < 8 by omega)
    obtain ⟨d, rest, shape⟩ := List.exists_cons_of_ne_nil nonempty
    have less := below d (by simp [shape])
    obtain ⟨-, -, -, -, lower, upper, -⟩ := digitChar_plain (show d < 10 by omega)
    rw [text, shape, List.map_cons]
    cases rest with
    | nil => rfl
    | cons e rest =>
        rw [List.map_cons, basePrefix, if_neg]
        rintro ⟨x | x, -⟩
        · exact lower x
        · exact upper x
  have octal : isDigitIn 8 48 = true := by decide
  have read := strtol0_digits false ⟨48, formatNat 8 n, rfl, by decide, by decide, by decide⟩ prefixed
    (by simp) (by rw [List.takeWhile_cons_of_pos octal, whole]) (by rw [List.dropWhile_cons_of_pos octal, spent])
  have same : readDigits 8 (48 :: formatNat 8 n) = n := by
    rw [readDigits, List.foldl_cons, show 0 * 8 + digitValue 48 = 0 by decide]
    exact value
  simp only [Bool.false_eq_true, if_false, same] at read
  rw [read, clampLong_id (by omega) (by omega)]

theorem formatInt_plain (n : Int) : formatInt n ≠ [] ∧ 0 ∉ formatInt n := by
  obtain ⟨nonempty, plain⟩ := formatNat_plain (n := n.natAbs) (show 1 < 10 by omega) (Nat.le_refl 10)
  rw [formatInt]
  split
  · refine ⟨by simp, ?_⟩
    intro member
    rcases List.mem_cons.mp member with sign | digit
    · exact absurd sign (by decide)
    · exact plain digit
  · exact ⟨nonempty, plain⟩

theorem formatInt_length_le (n : Int) {k : Nat} (room : 1 < k) :
    (formatInt n).length ≤ k ↔ -(10 ^ (k - 1) : Int) < n ∧ n < 10 ^ k := by
  rw [formatInt]
  split
  · rename_i negative
    rw [List.length_cons]
    have digits := formatNat_length_le (n := n.natAbs) (show 1 < 10 by omega) (show 0 < k - 1 by omega)
    have power : (10 : Int) ^ k > 0 := Int.pow_pos (by decide)
    constructor
    · intro short
      have below := digits.mp (by omega)
      have cast : (n.natAbs : Int) < (10 : Int) ^ (k - 1) := by exact_mod_cast below
      omega
    · intro bounds
      have cast : (n.natAbs : Int) < (10 : Int) ^ (k - 1) := by omega
      have below := digits.mpr (by exact_mod_cast cast)
      omega
  · rename_i positive
    have digits := formatNat_length_le (n := n.natAbs) (show 1 < 10 by omega) (show 0 < k by omega)
    rw [digits]
    have power : (10 : Int) ^ (k - 1) > 0 := Int.pow_pos (by decide)
    constructor
    · intro below
      have cast : (n.natAbs : Int) < (10 : Int) ^ k := by exact_mod_cast below
      omega
    · intro bounds
      have cast : (n.natAbs : Int) < (10 : Int) ^ k := by omega
      exact_mod_cast cast

end Xcpu.Numerals
