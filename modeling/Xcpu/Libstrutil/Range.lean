import Xcpu.Libstrutil.TokenizeCells

/-!
`parse_range` of `range.c`. The names are formatted one after the other into the caller's string, where the
bracket was, and appended to an allocation that has as many bytes for each as the prefix, the upper bound and
a blank take: the terminator has a byte only if some name is shorter.
-/

namespace Xcpu.Libstrutil

/-- The parts of `prefix[lower-upper]`. -/
structure NodeRange where
  pfx : CStr
  lower : CStr
  upper : CStr
deriving DecidableEq

namespace NodeRange

def text (r : NodeRange) : CStr := r.pfx ++ '[' :: (r.lower ++ '-' :: (r.upper ++ [']']))

def b (r : NodeRange) : Int := toInt (strtol r.lower).1

def e (r : NodeRange) : Int := toInt (strtol r.upper).1

/-- The bytes of the caller's string from the bracket on. -/
def room (r : NodeRange) : Nat := r.lower.length + r.upper.length + 4

/-- The argument of `malloc`, as a `size_t`. -/
def size (r : NodeRange) : Nat :=
  (((r.pfx.length + 1 + r.upper.length : Nat) : Int) * (r.e - r.b + 1) % 2 ^ 64).toNat

end NodeRange

/-- `strncat` to a string in an allocation of the size. -/
def strncat (size : Nat) (p src : CStr) : Option CStr :=
  if p.length + src.length + 1 ≤ size then some (p ++ src) else none

def rangeLoop (pfx : CStr) (room size : Nat) (e : Int) : Nat → Int → CStr → Option CStr
  | 0, _, _ => none
  | fuel + 1, n, p =>
      if e < n then some p
      else do
        let p ← strncat size p pfx
        let s := formatInt n ++ [' ']
        if room < s.length + 1 then none
        else do
          let p ← strncat size p s
          if n + 1 < 2 ^ 31 then rangeLoop pfx room size e fuel (n + 1) p else none

/-- What follows the first bracket, up to the two calls of `strtol`. -/
def readBounds (pfx rest : CStr) : Option NodeRange :=
  if rest.dropWhile (· != ']') = [']'] then
    let body := rest.takeWhile (· != ']')
    match body.dropWhile (· != '-') with
    | [] => none
    | _ :: t =>
        let s := body.takeWhile (· != '-')
        if (strtol s).2 = [] ∧ (strtol t).2 = [] then some { pfx, lower := s, upper := t } else none
  else none

/-- `e - b + 1` is computed in an `int`. -/
def NodeRange.CountFits (r : NodeRange) : Prop := -2 ^ 31 ≤ r.e - r.b ∧ r.e - r.b + 1 < 2 ^ 31

instance (r : NodeRange) : Decidable r.CountFits :=
  inferInstanceAs (Decidable (-2 ^ 31 ≤ r.e - r.b ∧ r.e - r.b + 1 < 2 ^ 31))

/-- From `malloc` on. -/
def NodeRange.expand (malloc : Nat → Bool) (r : NodeRange) : Option (Int × Option (List CStr)) :=
  if ¬r.CountFits then none
  else if malloc r.size = false then some (-1, none)
  else if r.size = 0 then none
  else (rangeLoop r.pfx r.room r.size r.e ((r.e - r.b + 1).toNat + 1) r.b []).bind (tokenizeMem malloc)

/-- The result of `parse_range` and `*toks`; `none` is a write outside of a string or an allocation, or an
`int` that overflows. -/
def parseRange (malloc : Nat → Bool) (range : CStr) : Option (Int × Option (List CStr)) :=
  match range.dropWhile (· != '[') with
  | [] => tokenizeMem malloc range
  | _ :: rest =>
      match readBounds (range.takeWhile (· != '[')) rest with
      | none => some (-1, none)
      | some r => r.expand malloc

/-- The names that a range stands for. -/
def names (pfx : CStr) (first : Int) (count : Nat) : List CStr :=
  (List.range count).map fun i : Nat => pfx ++ formatInt (first + i)

/-- The names as the allocation holds them. -/
def listed (words : List CStr) : CStr := words.flatMap (· ++ [' '])

theorem names_succ (pfx : CStr) (first : Int) (count : Nat) :
    names pfx first (count + 1) = (pfx ++ formatInt first) :: names pfx (first + 1) count := by
  rw [names, List.range_succ_eq_map, List.map_cons, List.map_map, Int.natCast_zero, Int.add_zero, names]
  refine congrArg _ (List.map_congr_left fun i _ => ?_)
  rw [Function.comp_apply, Nat.succ_eq_add_one, Int.natCast_succ, Int.add_comm (i : Int), Int.add_assoc]

theorem strncat_strncat (size : Nat) (p first second : CStr) :
    ((strncat size p first).bind fun p => strncat size p second) = strncat size p (first ++ second) := by
  by_cases fits : p.length + (first ++ second).length + 1 ≤ size
  · rw [strncat, if_pos (by rw [List.length_append] at fits; omega), Option.bind_some, strncat, strncat, if_pos fits,
      if_pos (by rw [List.length_append] at *; omega), List.append_assoc]
  · rw [strncat.eq_def size p (first ++ second), if_neg fits, strncat]
    split
    · rw [Option.bind_some, strncat, if_neg (by rw [List.length_append] at *; omega)]
    · rfl

theorem rangeLoop_step {pfx : CStr} {room size : Nat} {e n : Int} (within : n ≤ e)
    (short : (formatInt n).length + 2 ≤ room) (fuel : Nat) (p : CStr) :
    rangeLoop pfx room size e (fuel + 1) n p =
      (strncat size p (pfx ++ formatInt n ++ [' '])).bind fun p =>
        if n + 1 < 2 ^ 31 then rangeLoop pfx room size e fuel (n + 1) p else none := by
  have fitting : ¬room < (formatInt n ++ [' ']).length + 1 := by
    rw [List.length_append, List.length_singleton]
    omega
  rw [rangeLoop, if_neg (by omega), List.append_assoc, ← strncat_strncat, Option.bind_assoc]
  refine Option.bind_congr fun p' _ => ?_
  rw [if_neg fitting]
  rfl

theorem rangeLoop_eq {pfx : CStr} {room size : Nat} {e : Int} (count fuel : Nat) (n : Int)
    (whole : n + count = e + 1) (enough : count < fuel) (int : e + 1 < 2 ^ 31)
    (short : ∀ m, n ≤ m → m ≤ e → (formatInt m).length + 2 ≤ room) (p : CStr) (begun : p.length < size) :
    rangeLoop pfx room size e fuel n p = strncat size p (listed (names pfx n count)) := by
  obtain ⟨fuel, rfl⟩ : ∃ left, fuel = left + 1 := ⟨fuel - 1, by omega⟩
  induction count generalizing fuel n p with
  | zero =>
      have none : listed (names pfx n 0) = [] := rfl
      rw [rangeLoop, if_pos (by omega), strncat, none, List.append_nil, List.length_nil, if_pos (by omega)]
  | succ count ih =>
      obtain ⟨fuel, rfl⟩ : ∃ left, fuel = left + 1 := ⟨fuel - 1, by omega⟩
      have text : listed (names pfx n (count + 1))
          = (pfx ++ formatInt n ++ [' ']) ++ listed (names pfx (n + 1) count) := by
        rw [names_succ, listed, List.flatMap_cons]
        rfl
      rw [rangeLoop_step (by omega) (short n (by omega) (by omega)), text,
        ← strncat_strncat size p (pfx ++ formatInt n ++ [' '])]
      refine Option.bind_congr fun p' taken => ?_
      rw [if_pos (by omega)]
      refine ih (n + 1) (by omega) (fun m above below => short m (by omega) below) p' ?_ fuel (by omega)
      rw [strncat] at taken
      split at taken
      · cases taken
        rw [List.length_append]
        omega
      · cases taken

/-- The last number of all has no successor. -/
theorem rangeLoop_overflow {pfx : CStr} {room size : Nat} {e : Int} (count fuel : Nat) (n : Int)
    (whole : n + count = e) (large : 2 ^ 31 ≤ e + 1)
    (short : ∀ m, n ≤ m → m ≤ e → (formatInt m).length + 2 ≤ room) (p : CStr) :
    rangeLoop pfx room size e fuel n p = none := by
  induction count generalizing fuel n p with
  | zero =>
      cases fuel with
      | zero => rfl
      | succ fuel =>
          rw [rangeLoop_step (by omega) (short n (by omega) (by omega)), Option.bind_eq_none_iff]
          exact fun _ _ => if_neg (by omega)
  | succ count ih =>
      cases fuel with
      | zero => rfl
      | succ fuel =>
          rw [rangeLoop_step (by omega) (short n (by omega) (by omega)), Option.bind_eq_none_iff]
          intro p' _
          split
          · exact ih fuel (n + 1) (by omega) (fun m above below => short m (by omega) below) p'
          · rfl

section Numbers

theorem ofDigitChars_lt {digits : CStr} (digit : ∀ c ∈ digits, c.isDigit = true) (before : Nat) :
    Nat.ofDigitChars 10 digits before < (before + 1) * 10 ^ digits.length := by
  induction digits generalizing before with
  | nil => simp
  | cons c digits ih =>
      have value : c.toNat - '0'.toNat < 10 := by
        have range := digit c (by simp)
        simp only [Char.isDigit, Bool.and_eq_true, decide_eq_true_eq] at range
        have below : c.toNat ≤ 57 := range.2
        change c.toNat - 48 < 10
        omega
      have rest := ih (fun d member => digit d (by simp [member])) (10 * before + (c.toNat - '0'.toNat))
      rw [Nat.ofDigitChars_cons, List.length_cons, Nat.pow_succ]
      calc Nat.ofDigitChars 10 digits (10 * before + (c.toNat - '0'.toNat))
          < (10 * before + (c.toNat - '0'.toNat) + 1) * 10 ^ digits.length := rest
        _ ≤ ((before + 1) * 10) * 10 ^ digits.length := Nat.mul_le_mul_right _ (by omega)
        _ = (before + 1) * (10 ^ digits.length * 10) := by rw [Nat.mul_assoc, Nat.mul_comm 10]

theorem strtol_bound (text : CStr) :
    (strtol text).1.natAbs < 10 ^ text.length ∧ ('-' ∉ text → 0 ≤ (strtol text).1) := by
  have positive : 0 < 10 ^ text.length := Nat.pow_pos (by decide)
  obtain ⟨negative, rest, suffix, sign, value⟩ : ∃ negative rest, rest <:+ text ∧ (negative = true → '-' ∈ text) ∧
      strtol text = if rest.takeWhile Char.isDigit = [] then (0, text) else
        (clampLong (if negative then -(Nat.ofDigitChars 10 (rest.takeWhile Char.isDigit) 0 : Int)
          else (Nat.ofDigitChars 10 (rest.takeWhile Char.isDigit) 0 : Int)), rest.dropWhile Char.isDigit) := by
    have body : text.dropWhile isSpace <:+ text := List.dropWhile_suffix _
    simp only [strtol]
    split
    · rename_i rest shape
      rw [shape] at body
      exact ⟨true, rest, (List.suffix_cons _ _).trans body, fun _ => body.subset (by simp), rfl⟩
    · rename_i rest shape
      rw [shape] at body
      exact ⟨false, rest, (List.suffix_cons _ _).trans body, fun minus => Bool.noConfusion minus, rfl⟩
    · exact ⟨false, _, body, fun minus => Bool.noConfusion minus, rfl⟩
  rw [value]
  split
  · exact ⟨positive, fun _ => Int.le_refl 0⟩
  · have magnitude := @ofDigitChars_lt (rest.takeWhile Char.isDigit) (fun c member => List.mem_takeWhile_imp member) 0
    have length : (rest.takeWhile Char.isDigit).length ≤ text.length :=
      (List.takeWhile_prefix _).length_le.trans suffix.length_le
    have power : 10 ^ (rest.takeWhile Char.isDigit).length ≤ 10 ^ text.length := Nat.pow_le_pow_right (by decide) length
    rw [Nat.zero_add, Nat.one_mul] at magnitude
    constructor
    · simp only [clampLong]
      split <;> omega
    · intro unsigned
      simp only [clampLong]
      split
      · rename_i minus
        exact absurd (sign minus) unsigned
      · omega

theorem toInt_range (value : Int) : -2 ^ 31 ≤ toInt value ∧ toInt value < 2 ^ 31 := by
  rw [toInt, Int.bmod_def]
  split <;> omega

theorem formatInt_length_nonneg {n : Int} (positive : 0 ≤ n) {k : Nat} (room : 0 < k) :
    (formatInt n).length ≤ k ↔ n < 10 ^ k := by
  rw [formatInt, if_neg (by omega), Nat.length_toDigits_le_iff (by decide) room]
  constructor
  · intro below
    have cast : (n.natAbs : Int) < (10 : Int) ^ k := by exact_mod_cast below
    omega
  · intro below
    have cast : (n.natAbs : Int) < (10 : Int) ^ k := by omega
    exact_mod_cast cast

theorem formatInt_length_int {n : Int} (low : -2 ^ 31 ≤ n) (high : n < 2 ^ 31) : (formatInt n).length ≤ 11 := by
  by_cases negative : n < 0
  · rw [formatInt, if_pos negative, List.length_cons]
    have digits := (@Nat.length_toDigits_le_iff 10 n.natAbs 10 (by decide) (by decide)).mpr (by omega)
    omega
  · exact (formatInt_length_nonneg (by omega) (by decide)).mpr (by omega)

/-- No number of the range reaches beyond the end of the caller's string. -/
theorem NodeRange.room_enough (r : NodeRange) (unsigned : '-' ∉ r.lower) (m : Int) (above : r.b ≤ m)
    (below : m ≤ r.e) : (formatInt m).length + 2 ≤ r.room := by
  rw [NodeRange.room]
  have lowInt := toInt_range (strtol r.lower).1
  have highInt := toInt_range (strtol r.upper).1
  by_cases negative : m < 0
  · -- A bound without a sign is negative only if it does not fit an `int`.
    have wide := formatInt_length_int (Int.le_trans lowInt.1 above) (by omega)
    have long : 9 ≤ r.lower.length := by
      by_contra short
      obtain ⟨value, positive⟩ := strtol_bound r.lower
      have power : 10 ^ r.lower.length ≤ 10 ^ 8 := Nat.pow_le_pow_right (by decide) (by omega)
      have exact_value := toInt_of_small (positive unsigned) (by omega)
      rw [NodeRange.b, exact_value] at above
      have := positive unsigned
      omega
    omega
  · by_cases long : 8 ≤ r.upper.length
    · have wide := (@formatInt_length_nonneg m (by omega) 10 (by decide)).mpr (by rw [NodeRange.e] at below; omega)
      omega
    · obtain ⟨value, -⟩ := strtol_bound r.upper
      have power : 10 ^ r.upper.length ≤ 10 ^ 7 := Nat.pow_le_pow_right (by decide) (by omega)
      have exact_value : r.e = (strtol r.upper).1 := by
        rw [NodeRange.e, toInt, Int.bmod_def]
        omega
      have digits := (@formatInt_length_nonneg m (by omega) (r.upper.length + 2) (by omega)).mpr (by
        have cast : ((strtol r.upper).1.natAbs : Int) < (10 : Int) ^ r.upper.length := by exact_mod_cast value
        have more : (10 : Int) ^ r.upper.length ≤ 10 ^ (r.upper.length + 2) :=
          pow_le_pow_right₀ (by decide) (by omega)
        omega)
      omega

end Numbers

section Words

theorem formatInt_plain_int (n : Int) : Plain (formatInt n) := by
  by_cases negative : n < 0
  · have digits := plain_of_digits (Nat.toDigits_ne_nil (b := 10) (n := n.natAbs)) fun _ member => toDigits_isDigit member
    rw [formatInt, if_pos negative]
    refine ⟨List.cons_ne_nil _ _, ?_, ?_⟩
    · intro c member
      rcases List.mem_cons.mp member with rfl | member
      · rfl
      · exact digits.unblank c member
    · intro member
      rcases List.mem_cons.mp member with same | member
      · exact absurd same (by decide)
      · exact digits.unquoted member
  · exact formatInt_plain (by omega)

/-- A prefix without brackets, blanks and quotes. -/
structure NamePrefix (pfx : CStr) : Prop where
  opening : '[' ∉ pfx
  closing : ']' ∉ pfx
  unblank : ∀ c ∈ pfx, isBlank c = false
  unquoted : '\'' ∉ pfx

theorem NamePrefix.names {pfx : CStr} (named : NamePrefix pfx) (first : Int) (count : Nat) :
    ∀ name ∈ names pfx first count, Plain name := by
  intro name member
  obtain ⟨i, -, rfl⟩ := List.mem_map.mp member
  have digits := formatInt_plain_int (first + i)
  refine ⟨by simp [digits.nonempty], ?_, ?_⟩
  · intro c inside
    rcases List.mem_append.mp inside with inside | inside
    · exact named.unblank c inside
    · exact digits.unblank c inside
  · intro inside
    rcases List.mem_append.mp inside with inside | inside
    · exact named.unquoted inside
    · exact digits.unquoted inside

theorem listed_cons (name : CStr) (more : List CStr) : listed (name :: more) = name ++ ' ' :: listed more := by
  rw [listed, List.flatMap_cons, List.append_assoc]
  rfl

theorem listed_dropWhile {words : List CStr} (plain : ∀ name ∈ words, Plain name) :
    (listed words).dropWhile isBlank = listed words := by
  cases words with
  | nil => rfl
  | cons name more =>
      rw [listed_cons]
      exact (plain name (by simp)).dropWhile_blank _

theorem splits_listed {words : List CStr} (plain : ∀ name ∈ words, Plain name) : Splits (listed words) words := by
  induction words with
  | nil => exact .done
  | cons name more ih =>
      have first := plain name (by simp)
      have later : ∀ other ∈ more, Plain other := fun other member => plain other (by simp [member])
      rw [listed_cons]
      refine .word first.nonempty first.unblank (fun head => first.unquoted (List.mem_of_head? head)) ?_ ?_
      · intro c head
        cases head
        rfl
      · rw [List.dropWhile_cons_of_pos (by decide), listed_dropWhile later]
        exact ih later

theorem listed_slots (words : List CStr) : words.length ≤ (listed words).countP isBlank := by
  induction words with
  | nil => exact Nat.zero_le _
  | cons name more ih =>
      rw [listed_cons, List.countP_append, List.countP_cons_of_pos (by decide), List.length_cons]
      omega

theorem tokenize_listed {words : List CStr} (plain : ∀ name ∈ words, Plain name) :
    tokenize (listed words) = ((words.length : Int), some words) := by
  have slots := listed_slots words
  refine (tokenize_eq_some_iff _ _).mpr ⟨?_, ?_⟩
  · rw [listed_dropWhile plain]
    exact splits_listed plain
  · rw [listed_dropWhile plain]
    omega

end Words

section Reading

/-- A text that `strtol` reads to its end. -/
def Numeral (text : CStr) : Prop := (strtol text).2 = []

/-- A range that `parse_range` takes for one. -/
structure NodeRange.Accepted (r : NodeRange) : Prop where
  opening : '[' ∉ r.pfx
  dash : '-' ∉ r.lower
  lowerEnd : ']' ∉ r.lower
  upperEnd : ']' ∉ r.upper
  lower : Numeral r.lower
  upper : Numeral r.upper

theorem takeWhile_ne {text : CStr} {c : Char} (apart : c ∉ text) (rest : CStr) :
    (text ++ c :: rest).takeWhile (· != c) = text ∧ (text ++ c :: rest).dropWhile (· != c) = c :: rest := by
  have inside : ∀ x ∈ text, (x != c) = true := by
    intro x member
    exact bne_iff_ne.mpr fun same => apart (same ▸ member)
  rw [List.takeWhile_append_of_pos inside, List.dropWhile_append_of_pos inside]
  simp

theorem split_at {text rest : CStr} {c d : Char} (found : text.dropWhile (· != c) = d :: rest) :
    text = text.takeWhile (· != c) ++ c :: rest ∧ c ∉ text.takeWhile (· != c) := by
  have stops := List.head?_dropWhile_not (· != c) text
  rw [found] at stops
  have same : d = c := by simpa using stops
  subst same
  constructor
  · rw [← found, List.takeWhile_append_dropWhile]
  · intro member
    simpa using List.mem_takeWhile_imp member

theorem readBounds_iff (pfx rest : CStr) (opening : '[' ∉ pfx) (r : NodeRange) :
    readBounds pfx rest = some r ↔ r.Accepted ∧ r.text = pfx ++ '[' :: rest := by
  constructor
  · intro read
    rw [readBounds] at read
    split at read
    · rename_i closes
      obtain ⟨shape, closed⟩ := split_at closes
      dsimp only at read
      split at read
      · cases read
      · rename_i t found
        obtain ⟨parts, dash⟩ := split_at found
        split at read
        · rename_i numerals
          cases read
          rw [parts] at closed
          refine ⟨⟨opening, dash, fun member => closed (List.mem_append_left _ member),
            fun member => closed (List.mem_append_right _ (List.mem_cons_of_mem _ member)), numerals.1, numerals.2⟩, ?_⟩
          rw [NodeRange.text]
          conv => rhs; rw [shape, parts]
          simp only [List.append_assoc, List.cons_append]
        · cases read
    · cases read
  · rintro ⟨accepted, whole⟩
    obtain ⟨pfx', lower, upper⟩ := r
    obtain ⟨opening', dash, lowerEnd, upperEnd, numeral, numeral'⟩ := accepted
    have first := takeWhile_ne opening rest
    have second := takeWhile_ne opening' (lower ++ '-' :: (upper ++ [']']))
    rw [NodeRange.text] at whole
    rw [whole] at second
    obtain ⟨rfl, same⟩ : pfx = pfx' ∧ '[' :: rest = '[' :: (lower ++ '-' :: (upper ++ [']'])) :=
      ⟨first.1.symm.trans second.1, first.2.symm.trans second.2⟩
    obtain rfl := (List.cons.inj same).2
    have closed : ']' ∉ lower ++ '-' :: upper := by
      simp [lowerEnd, upperEnd]
    have body := takeWhile_ne closed []
    have parts := takeWhile_ne dash upper
    have spread : lower ++ '-' :: (upper ++ [']']) = (lower ++ '-' :: upper) ++ ']' :: [] := by simp
    rw [readBounds, spread, if_pos body.2]
    simp only [body.1, parts.1, parts.2]
    exact if_pos ⟨numeral, numeral'⟩

theorem parseRange_bracket (malloc : Nat → Bool) {pfx : CStr} (opening : '[' ∉ pfx) (rest : CStr) :
    parseRange malloc (pfx ++ '[' :: rest) =
      match readBounds pfx rest with
      | none => some (-1, none)
      | some r => r.expand malloc := by
  obtain ⟨before, behind⟩ := takeWhile_ne opening rest
  rw [parseRange, behind]
  simp only [before]

theorem parseRange_accepted (malloc : Nat → Bool) {r : NodeRange} (accepted : r.Accepted) :
    parseRange malloc r.text = r.expand malloc := by
  have read := (readBounds_iff r.pfx (r.lower ++ '-' :: (r.upper ++ [']'])) accepted.opening r).mpr ⟨accepted, rfl⟩
  rw [NodeRange.text, parseRange_bracket malloc accepted.opening, read]

theorem parseRange_rejected (malloc : Nat → Bool) {range : CStr} (bracket : '[' ∈ range)
    (rejected : ∀ r : NodeRange, r.Accepted → r.text ≠ range) : parseRange malloc range = some (-1, none) := by
  obtain ⟨rest, found⟩ : ∃ rest, range.dropWhile (· != '[') = '[' :: rest := by
    cases found : range.dropWhile (· != '[') with
    | nil =>
        have all := List.dropWhile_eq_nil_iff.mp found '[' bracket
        exact absurd all (by decide)
    | cons c rest =>
        have stops := List.head?_dropWhile_not (· != '[') range
        rw [found] at stops
        have same : c = '[' := by simpa using stops
        exact ⟨rest, by rw [same]⟩
  obtain ⟨whole, opening⟩ := split_at found
  rw [whole, parseRange_bracket malloc opening]
  cases read : readBounds (range.takeWhile (· != '[')) rest with
  | none => rfl
  | some r =>
      obtain ⟨accepted, text⟩ := (readBounds_iff _ _ opening r).mp read
      exact absurd (text.trans whole.symm) (rejected r accepted)

end Reading

def NodeRange.names (r : NodeRange) : List CStr := Libstrutil.names r.pfx r.b (r.e - r.b + 1).toNat

/-- The length of the text is an `int` that `tokenize` can count with. -/
def Short (text : CStr) : Prop := (text.dropWhile isBlank).length + 1 < 2 ^ 31

theorem tokenizeMem_ne_none (malloc : Nat → Bool) (text : CStr) : tokenizeMem malloc text ≠ none ↔ Short text := by
  constructor
  · intro inside
    by_contra long
    exact inside (if_pos (Nat.not_lt.mp long))
  · intro short
    by_cases affords : Affords malloc text
    · rw [tokenizeMem_eq affords]
      exact Option.some_ne_none _
    · have refused := Bool.eq_false_iff.mpr fun given => affords ⟨short, given⟩
      simp only [tokenizeMem]
      rw [if_neg (Nat.not_le.mpr short), if_pos refused]
      exact Option.some_ne_none _

theorem tokenizeMem_nonneg {malloc : Nat → Bool} {text : CStr} {count : Int} {toks : Option (List CStr)}
    (answer : tokenizeMem malloc text = some (count, toks)) : 0 ≤ count := by
  by_cases affords : Affords malloc text
  · rw [tokenizeMem_eq affords] at answer
    rcases tokenize_answers text with ⟨tokens, read⟩ | failed
    · rw [read] at answer
      cases answer
      exact Int.natCast_nonneg _
    · rw [failed] at answer
      cases answer
      decide
  · rcases tokenizeMem_unaffordable affords with outside | refused
    · rw [outside] at answer
      cases answer
    · rw [refused] at answer
      cases answer
      decide

section Expand

variable {malloc : Nat → Bool} {r : NodeRange}

theorem NodeRange.expand_overflow (wide : ¬r.CountFits) : r.expand malloc = none := if_pos wide

theorem NodeRange.expand_refused (fits : r.CountFits) (refused : malloc r.size = false) :
    r.expand malloc = some (-1, none) := by
  rw [expand, if_neg (not_not.mpr fits), if_pos refused]

theorem NodeRange.expand_given (dash : '-' ∉ r.lower) (fits : r.CountFits) (given : malloc r.size = true) :
    r.expand malloc =
      if r.size = 0 then none
      else if r.e < r.b then tokenizeMem malloc []
      else if 2 ^ 31 ≤ r.e + 1 then none
      else (strncat r.size [] (listed r.names)).bind (tokenizeMem malloc) := by
  rw [expand, if_neg (not_not.mpr fits), if_neg (by rw [given]; exact Bool.noConfusion)]
  by_cases empty : r.size = 0
  · rw [if_pos empty, if_pos empty]
  rw [if_neg empty, if_neg empty]
  have short := r.room_enough dash
  by_cases backwards : r.e < r.b
  · rw [if_pos backwards, rangeLoop, if_pos backwards, Option.bind_some]
  · rw [if_neg backwards]
    by_cases last : 2 ^ 31 ≤ r.e + 1
    · rw [if_pos last, rangeLoop_overflow (r.e - r.b).toNat _ _ (by omega) last short, Option.bind_none]
    · rw [if_neg last, rangeLoop_eq (r.e - r.b + 1).toNat _ _ (by omega) (Nat.lt_succ_self _) (by omega) short _
        (by rw [List.length_nil]; omega)]
      rfl

/-- What the loop needs to stay in its allocation. -/
def NodeRange.Inside (malloc : Nat → Bool) (r : NodeRange) : Prop :=
  r.CountFits ∧ (malloc r.size = true → r.size ≠ 0 ∧
    (r.b ≤ r.e → r.e + 1 < 2 ^ 31 ∧ (listed r.names).length < r.size ∧ Short (listed r.names)))

theorem NodeRange.expand_ne_none (dash : '-' ∉ r.lower) : r.expand malloc ≠ none ↔ r.Inside malloc := by
  by_cases fits : r.CountFits
  · by_cases given : malloc r.size = true
    · rw [expand_given dash fits given]
      constructor
      · intro inside
        refine ⟨fits, fun _ => ?_⟩
        split at inside
        · exact absurd rfl inside
        · rename_i some_size
          refine ⟨some_size, fun forward => ?_⟩
          rw [if_neg (by omega)] at inside
          split at inside
          · exact absurd rfl inside
          · rw [strncat, List.length_nil, List.nil_append] at inside
            split at inside
            · exact ⟨by omega, by omega, (tokenizeMem_ne_none malloc _).mp inside⟩
            · exact absurd rfl inside
      · rintro ⟨-, inside⟩
        obtain ⟨some_size, forward⟩ := inside given
        rw [if_neg some_size]
        split
        · exact (tokenizeMem_ne_none malloc []).mpr (by rw [Short]; decide)
        · obtain ⟨int, room, short⟩ := forward (by omega)
          rw [if_neg (by omega), strncat, List.length_nil, List.nil_append, if_pos (by omega), Option.bind_some]
          exact (tokenizeMem_ne_none malloc _).mpr short
    · rw [expand_refused fits (Bool.eq_false_iff.mpr given)]
      exact ⟨fun _ => ⟨fits, fun yes => absurd yes given⟩, fun _ => Option.some_ne_none _⟩
  · rw [expand_overflow fits]
    exact ⟨fun inside => absurd rfl inside, fun inside => absurd inside.1 fits⟩

theorem NodeRange.expand_negative (dash : '-' ∉ r.lower) :
    (∃ count toks, r.expand malloc = some (count, toks) ∧ count < 0) ↔ r.CountFits ∧ malloc r.size = false := by
  constructor
  · rintro ⟨count, toks, answer, negative⟩
    by_cases fits : r.CountFits
    · refine ⟨fits, Bool.eq_false_iff.mpr fun given => ?_⟩
      rw [expand_given dash fits given] at answer
      have positive : 0 ≤ count := by
        split at answer
        · cases answer
        · split at answer
          · exact tokenizeMem_nonneg answer
          · split at answer
            · cases answer
            · obtain ⟨p, -, tokens⟩ := Option.bind_eq_some_iff.mp answer
              exact tokenizeMem_nonneg tokens
      omega
    · rw [expand_overflow fits] at answer
      cases answer
  · rintro ⟨fits, refused⟩
    exact ⟨-1, none, expand_refused fits refused, by decide⟩

theorem NodeRange.expand_names (accepted : r.Accepted) (named : NamePrefix r.pfx) (forward : r.b ≤ r.e)
    {answer : Int × List CStr} (counted : answer.1 = answer.2.length) :
    r.expand malloc = some (answer.1, some answer.2) ↔
      answer.2 = r.names ∧ r.CountFits ∧ malloc r.size = true ∧ r.e + 1 < 2 ^ 31 ∧
        (listed r.names).length < r.size ∧ Affords malloc (listed r.names) := by
  have plain := named.names r.b (r.e - r.b + 1).toNat
  have tokens : tokenize (listed r.names) = ((r.names.length : Int), some r.names) := tokenize_listed plain
  constructor
  · intro expanded
    have inside := (expand_ne_none accepted.dash).mp (by rw [expanded]; exact Option.some_ne_none _)
    obtain ⟨fits, room⟩ := inside
    by_cases given : malloc r.size = true
    · obtain ⟨some_size, loop⟩ := room given
      obtain ⟨int, below, -⟩ := loop forward
      rw [expand_given accepted.dash fits given, if_neg some_size, if_neg (by omega), if_neg (by omega), strncat,
        List.length_nil, List.nil_append, if_pos (by omega), Option.bind_some] at expanded
      by_cases affords : Affords malloc (listed r.names)
      · rw [tokenizeMem_eq affords, tokens, Option.some_inj] at expanded
        exact ⟨(Option.some.inj (congrArg Prod.snd expanded)).symm, fits, given, int, below, affords⟩
      · rcases tokenizeMem_unaffordable affords with outside | refused
        · rw [outside] at expanded
          cases expanded
        · rw [refused, Option.some_inj] at expanded
          exact absurd (congrArg Prod.snd expanded) (by simp)
    · rw [expand_refused fits (Bool.eq_false_iff.mpr given), Option.some_inj] at expanded
      exact absurd (congrArg Prod.snd expanded) (by simp)
  · rintro ⟨same, fits, given, int, below, affords⟩
    rw [expand_given accepted.dash fits given, if_neg (by omega), if_neg (by omega), if_neg (by omega), strncat,
      List.length_nil, List.nil_append, if_pos (by omega), Option.bind_some, tokenizeMem_eq affords, tokens, counted,
      same]

end Expand

/-- A non-negative number, with any zeros before it. -/
structure IsNumber (text : CStr) : Prop where
  nonempty : text ≠ []
  digits : ∀ c ∈ text, c.isDigit = true

def value (text : CStr) : Nat := Nat.ofDigitChars 10 text 0

theorem IsNumber.strtol {text : CStr} (number : IsNumber text) :
    Libstrutil.strtol text = (clampLong (value text), []) := strtol_digits number.nonempty number.digits

theorem IsNumber.apart {text : CStr} (number : IsNumber text) {c : Char} (other : c.isDigit = false) : c ∉ text := by
  intro member
  rw [number.digits c member] at other
  cases other

theorem toInt_strtol {text : CStr} (number : IsNumber text) (small : value text < 2 ^ 31) :
    toInt (strtol text).1 = value text := by
  rw [number.strtol, clampLong, toInt_of_small] <;> omega

theorem accepted_of_numbers {pfx lower upper : CStr} (named : NamePrefix pfx) (low : IsNumber lower)
    (high : IsNumber upper) : NodeRange.Accepted ⟨pfx, lower, upper⟩ where
  opening := named.opening
  dash := low.apart (by decide)
  lowerEnd := low.apart (by decide)
  upperEnd := high.apart (by decide)
  lower := by rw [Numeral, low.strtol]
  upper := by rw [Numeral, high.strtol]

theorem formatInt_injective {n m : Int} (same : formatInt n = formatInt m) : n = m := by
  have unsigned (k : Nat) : '-' ∉ Nat.toDigits 10 k := by
    intro member
    exact absurd (toDigits_isDigit member) (by decide)
  have digits {k l : Nat} (equal : Nat.toDigits 10 k = Nat.toDigits 10 l) : k = l := by
    rw [← @Nat.ofDigitChars_ten_toDigits k, equal, Nat.ofDigitChars_ten_toDigits]
  rw [formatInt, formatInt] at same
  split at same <;> split at same
  · have := digits (List.cons.inj same).2
    omega
  · exact absurd (same ▸ List.mem_cons_self) (unsigned _)
  · exact absurd (same.symm ▸ List.mem_cons_self) (unsigned _)
  · have := digits same
    omega

theorem names_injective {pfx : CStr} {first first' : Int} {count count' : Nat} (nonempty : 0 < count)
    (same : names pfx first count = names pfx first' count') : first = first' ∧ count = count' := by
  have length : count = count' := by
    have lengths := congrArg List.length same
    simpa [names] using lengths
  subst length
  obtain ⟨count, rfl⟩ : ∃ left, count = left + 1 := ⟨count - 1, by omega⟩
  rw [names_succ, names_succ] at same
  exact ⟨formatInt_injective (List.append_cancel_left (List.cons.inj same).1), rfl⟩

theorem expand_empty {malloc : Nat → Bool} {count : Int} {tokens : List CStr}
    (answer : tokenizeMem malloc [] = some (count, some tokens)) : tokens = [] := by
  by_cases affords : Affords malloc []
  · rw [tokenizeMem_eq affords, Option.some_inj] at answer
    exact (Option.some.inj (congrArg Prod.snd answer)).symm
  · rcases tokenizeMem_unaffordable affords with outside | refused
    · rw [outside] at answer
      cases answer
    · rw [refused, Option.some_inj] at answer
      exact absurd (congrArg Prod.snd answer) (by simp)

theorem parseRange_names_iff (malloc : Nat → Bool) {pfx lower upper : CStr} (named : NamePrefix pfx)
    (low : IsNumber lower) (high : IsNumber upper) (forward : value lower ≤ value upper) :
    parseRange malloc (NodeRange.mk pfx lower upper).text =
        some (((value upper - value lower + 1 : Nat) : Int),
          some (names pfx (value lower) (value upper - value lower + 1))) ↔
      value upper + 1 < 2 ^ 31 ∧ malloc (NodeRange.mk pfx lower upper).size = true ∧
        (listed (names pfx (value lower) (value upper - value lower + 1))).length
          < (NodeRange.mk pfx lower upper).size ∧
        Affords malloc (listed (names pfx (value lower) (value upper - value lower + 1))) := by
  set count := value upper - value lower + 1 with countEq
  set r := NodeRange.mk pfx lower upper with rEq
  have accepted : r.Accepted := accepted_of_numbers named low high
  have length : ((count : Nat) : Int) = (names pfx (value lower) count).length := by simp [names]
  rw [parseRange_accepted malloc accepted]
  by_cases small : value upper + 1 < 2 ^ 31
  · have lowEq : r.b = value lower := @toInt_strtol lower low (by omega)
    have highEq : r.e = value upper := @toInt_strtol upper high (by omega)
    have namesEq : r.names = names pfx (value lower) count := by
      rw [NodeRange.names, lowEq, highEq, countEq]
      congr 1
      omega
    have expanded := @NodeRange.expand_names malloc r accepted named (by omega)
      ((count : Int), names pfx (value lower) count) length
    rw [expanded, namesEq]
    constructor
    · rintro ⟨-, -, given, -, below, affords⟩
      exact ⟨small, given, below, affords⟩
    · rintro ⟨-, given, below, affords⟩
      refine ⟨rfl, ?_, given, by omega, below, affords⟩
      rw [NodeRange.CountFits]
      omega
  · refine ⟨fun answer => ?_, fun bounds => absurd bounds.1 small⟩
    by_cases forward' : r.b ≤ r.e
    · obtain ⟨same, -, -, int, -, -⟩ := (@NodeRange.expand_names malloc r accepted named forward'
        ((count : Int), names pfx (value lower) count) length).mp answer
      obtain ⟨first, total⟩ := names_injective (by omega) same
      omega
    · exfalso
      have inside := (r.expand_ne_none accepted.dash).mp (by rw [answer]; exact Option.some_ne_none _)
      by_cases given : malloc r.size = true
      · rw [NodeRange.expand_given accepted.dash inside.1 given, if_neg (inside.2 given).1, if_pos (by omega)] at answer
        have none := expand_empty answer
        rw [countEq, names_succ] at none
        cases none
      · rw [NodeRange.expand_refused inside.1 (Bool.eq_false_iff.mpr given), Option.some_inj] at answer
        exact absurd (congrArg Prod.snd answer) (by simp)

/-- A negative answer. -/
def Fails (malloc : Nat → Bool) (range : CStr) : Prop :=
  ∃ count toks, parseRange malloc range = some (count, toks) ∧ count < 0

/-- A bracket that no two numbers with a dash follow up to a bracket at the end. -/
def Malformed (range : CStr) : Prop :=
  '[' ∈ range ∧ ∀ pfx lower upper : CStr, '[' ∉ pfx → IsNumber lower → IsNumber upper →
    (NodeRange.mk pfx lower upper).text ≠ range

theorem fails_iff (malloc : Nat → Bool) {range : CStr} (bracket : '[' ∈ range) :
    Fails malloc range ↔
      ∀ r : NodeRange, r.Accepted → r.text = range → r.CountFits ∧ malloc r.size = false := by
  constructor
  · rintro fails r accepted rfl
    rw [Fails, parseRange_accepted malloc accepted] at fails
    exact (r.expand_negative accepted.dash).mp fails
  · intro refused
    by_cases ranged : ∃ r : NodeRange, r.Accepted ∧ r.text = range
    · obtain ⟨r, accepted, rfl⟩ := ranged
      rw [Fails, parseRange_accepted malloc accepted]
      exact (r.expand_negative accepted.dash).mpr (refused r accepted rfl)
    · exact ⟨-1, none, parseRange_rejected malloc bracket fun r accepted text => ranged ⟨r, accepted, text⟩, by decide⟩

theorem parseRange_ne_none (malloc : Nat → Bool) (range : CStr) :
    parseRange malloc range ≠ none ↔
      ('[' ∉ range → Short range) ∧ ∀ r : NodeRange, r.Accepted → r.text = range → r.Inside malloc := by
  by_cases bracket : '[' ∈ range
  · constructor
    · intro inside
      refine ⟨fun apart => absurd bracket apart, ?_⟩
      rintro r accepted rfl
      rw [parseRange_accepted malloc accepted] at inside
      exact (r.expand_ne_none accepted.dash).mp inside
    · rintro ⟨-, inside⟩
      by_cases ranged : ∃ r : NodeRange, r.Accepted ∧ r.text = range
      · obtain ⟨r, accepted, rfl⟩ := ranged
        rw [parseRange_accepted malloc accepted]
        exact (r.expand_ne_none accepted.dash).mpr (inside r accepted rfl)
      · rw [parseRange_rejected malloc bracket fun r accepted text => ranged ⟨r, accepted, text⟩]
        exact Option.some_ne_none _
  · have plain : range.dropWhile (· != '[') = [] := by
      refine List.dropWhile_eq_nil_iff.mpr fun c member => bne_iff_ne.mpr ?_
      rintro rfl
      exact bracket member
    have answer : parseRange malloc range = tokenizeMem malloc range := by
      rw [parseRange, plain]
    rw [answer, tokenizeMem_ne_none]
    constructor
    · refine fun short => ⟨fun _ => short, ?_⟩
      rintro r - rfl
      exact absurd (by simp [NodeRange.text]) bracket
    · exact fun both => both.1 bracket

theorem listed_names_length_le (pfx : CStr) (first : Int) (count width : Nat)
    (narrow : ∀ i < count, (formatInt (first + (i : Nat))).length ≤ width) :
    (listed (names pfx first count)).length ≤ count * (pfx.length + 1 + width) := by
  induction count generalizing first with
  | zero => simp [names, listed]
  | succ count ih =>
      have here := narrow 0 (by omega)
      have rest := ih (first + 1) fun i below => by
        have next := narrow (i + 1) (by omega)
        rwa [Int.natCast_succ, Int.add_comm (i : Int), ← Int.add_assoc] at next
      rw [Int.natCast_zero, Int.add_zero] at here
      rw [names_succ, listed_cons, List.length_append, List.length_append, List.length_cons, Nat.succ_mul]
      omega

theorem listed_names_length_ge (pfx : CStr) (first : Int) (count width : Nat)
    (wide : ∀ i < count, width ≤ (formatInt (first + (i : Nat))).length) :
    count * (pfx.length + 1 + width) ≤ (listed (names pfx first count)).length := by
  induction count generalizing first with
  | zero => simp
  | succ count ih =>
      have here := wide 0 (by omega)
      have rest := ih (first + 1) fun i below => by
        have next := wide (i + 1) (by omega)
        rwa [Int.natCast_succ, Int.add_comm (i : Int), ← Int.add_assoc] at next
      rw [Int.natCast_zero, Int.add_zero] at here
      rw [names_succ, listed_cons, List.length_append, List.length_append, List.length_cons, Nat.succ_mul]
      omega

theorem formatInt_length_mono {n m : Int} (positive : 0 ≤ n) (le : n ≤ m) :
    (formatInt n).length ≤ (formatInt m).length := by
  have some_room : 0 < (formatInt m).length := List.length_pos_of_ne_nil (formatInt_plain_int m).nonempty
  have below := (formatInt_length_nonneg (show 0 ≤ m by omega) some_room).mp (Nat.le_refl _)
  exact (formatInt_length_nonneg positive some_room).mpr (by omega)

/-- Where no product wraps, the allocation is large enough exactly if the first number is printed shorter
than the upper bound is written. -/
theorem room_iff_shorter {pfx lower upper : CStr} (low : IsNumber lower) (high : IsNumber upper)
    (forward : value lower ≤ value upper) (small : value upper < 2 ^ 31)
    (whole : (value upper - value lower + 1) * (pfx.length + 1 + upper.length) < 2 ^ 64) :
    (listed (names pfx (value lower) (value upper - value lower + 1))).length < (NodeRange.mk pfx lower upper).size ↔
      (formatInt (value lower)).length < upper.length := by
  set count := value upper - value lower + 1 with countEq
  have size : (NodeRange.mk pfx lower upper).size = count * (pfx.length + 1 + upper.length) := by
    have lowEq : (NodeRange.mk pfx lower upper).b = value lower := @toInt_strtol lower low (by omega)
    have highEq : (NodeRange.mk pfx lower upper).e = value upper := @toInt_strtol upper high small
    have numbers : ((value upper : Nat) : Int) - (value lower : Nat) + 1 = (count : Nat) := by omega
    rw [NodeRange.size, lowEq, highEq, numbers, ← Int.natCast_mul, Nat.mul_comm]
    change (((count * (pfx.length + 1 + upper.length) : Nat) : Int) % 2 ^ 64).toNat = _
    omega
  have some_room : 0 < upper.length := List.length_pos_of_ne_nil high.nonempty
  have upperFits : (formatInt (value upper)).length ≤ upper.length := by
    have below := ofDigitChars_lt high.digits 0
    rw [Nat.zero_add, Nat.one_mul] at below
    refine (formatInt_length_nonneg (Int.natCast_nonneg _) some_room).mpr ?_
    exact_mod_cast below
  have narrow (i : Nat) (below : i < count) : (formatInt ((value lower : Int) + (i : Nat))).length ≤ upper.length :=
    (formatInt_length_mono (by omega) (by omega)).trans upperFits
  rw [size]
  constructor
  · intro room
    by_contra wide
    have least := listed_names_length_ge pfx (value lower) count upper.length fun i below =>
      (Nat.not_lt.mp wide).trans (formatInt_length_mono (Int.natCast_nonneg _) (by omega))
    omega
  · intro shorter
    have rest := listed_names_length_le pfx ((value lower : Int) + 1) (value upper - value lower) upper.length
      fun i below => by
        have next := narrow (i + 1) (by omega)
        rwa [Int.natCast_succ, Int.add_comm (i : Int), ← Int.add_assoc] at next
    rw [countEq, names_succ, listed_cons, List.length_append, List.length_append, List.length_cons, Nat.succ_mul]
    omega

theorem parse_range_iff (malloc : Nat → Bool) :
    (∀ pfx lower upper : CStr, NamePrefix pfx → IsNumber lower → IsNumber upper →
      (value lower ≤ value upper →
        (parseRange malloc (NodeRange.mk pfx lower upper).text =
            some (((value upper - value lower + 1 : Nat) : Int),
              some (names pfx (value lower) (value upper - value lower + 1))) ↔
          value upper + 1 < 2 ^ 31 ∧ malloc (NodeRange.mk pfx lower upper).size = true ∧
            (listed (names pfx (value lower) (value upper - value lower + 1))).length
              < (NodeRange.mk pfx lower upper).size ∧
            Affords malloc (listed (names pfx (value lower) (value upper - value lower + 1))))) ∧
      (value upper < value lower →
        (Fails malloc (NodeRange.mk pfx lower upper).text ↔
          (NodeRange.mk pfx lower upper).CountFits ∧ malloc (NodeRange.mk pfx lower upper).size = false))) ∧
    (∀ range : CStr, Malformed range →
      (Fails malloc range ↔
        ∀ r : NodeRange, r.Accepted → r.text = range → r.CountFits ∧ malloc r.size = false)) ∧
    ∀ range : CStr, parseRange malloc range ≠ none ↔
      ('[' ∉ range → Short range) ∧ ∀ r : NodeRange, r.Accepted → r.text = range → r.Inside malloc := by
  refine ⟨fun pfx lower upper named low high => ⟨parseRange_names_iff malloc named low high, fun _ => ?_⟩,
    fun range malformed => fails_iff malloc malformed.1, parseRange_ne_none malloc⟩
  have accepted := accepted_of_numbers named low high
  rw [Fails, parseRange_accepted malloc accepted]
  exact NodeRange.expand_negative accepted.dash

/-- Three one-digit names leave no byte for the terminator, a range of no names is written into nothing, and
a blank does not make a range malformed. -/
theorem three_names_overrun :
    parseRange (fun size => size < 2 ^ 63) "a[1-3]".toList = none ∧
    parseRange (fun size => size < 2 ^ 63) "a[2-1]".toList = none ∧
    parseRange (fun size => size < 2 ^ 63) "[1- 2]".toList = some (2, some [['1'], ['2']]) := by
  decide

end Xcpu.Libstrutil
