import Mathlib.Data.List.Forall2
import Xcpu.Lib.Cells
import Xcpu.Libstrutil.Quote

/-!
`tokenize` and `unquotestr` as they work in memory: the slots of `toks` and the copy of the text are one
allocation, a token is the position of its first byte, and `unquotestr` moves the bytes of a quoted token
within the text that is still to be read. A byte of the text is a character or the terminator, which is
`none`; a slot is a position, or nothing. The outer `none` of a result is an access outside of the memory.
-/

namespace Xcpu.Libstrutil

open Xcpu.Cells

abbrev TextCells := List (Option Char)

/-- The loop that moves the bytes from `t` to `s`, with both when it ends. -/
def unquoteCopy : Nat → TextCells → Nat → Nat → Option (TextCells × Nat × Nat)
  | 0, _, _, _ => none
  | fuel + 1, cells, s, t =>
      match cells[t]? with
      | none => none
      | some none => some (cells, s, t)
      | some (some '\'') =>
          match cells[t + 1]? with
          | none => none
          | some (some '\'') => do
              let cells ← store cells s (some '\'')
              unquoteCopy fuel cells (s + 1) (t + 2)
          | some _ => some (cells, s, t)
      | some (some c) => do
          let cells ← store cells s (some c)
          unquoteCopy fuel cells (s + 1) (t + 1)

def inWord (cell : Option Char) : Bool := cell.any fun c => !isBlank c

def inBlank (cell : Option Char) : Bool := cell.any isBlank

/-- `unquotestr` of the text at `str`: the memory and `*eptr`, which is not set where it returns null. -/
def unquotestrCells (cells : TextCells) (str : Nat) : Option (TextCells × Option Nat) :=
  match cells[str]? with
  | none => none
  | some (some '\'') => do
      let (cells, s, t) ← unquoteCopy cells.length cells str (str + 1)
      let cells ← store cells s none
      let last ← cells[t]?
      if last = some '\'' then some (cells, some (t + 1)) else some (cells, none)
  | some _ => do
      let s := str + ((cells.drop str).takeWhile inWord).length
      let last ← cells[s]?
      if last = none then some (cells, some s)
      else do
        let cells ← store cells s none
        some (cells, some (s + 1))

/-- The token loop with its `i` and `p`. The inner `none` is the `EIO` after `free`. -/
def tokenizeCells (n : Nat) : Nat → List (Option Nat) → TextCells → Nat → Nat →
    Option (Option (List (Option Nat) × TextCells × Nat))
  | 0, _, _, _, _ => none
  | fuel + 1, toks, cells, i, p => do
      let first ← cells[p]?
      if first = none then do
        let toks ← store toks i none
        some (some (toks, cells, i))
      else if n ≤ i then some none
      else do
        let (cells, eptr) ← unquotestrCells cells p
        let toks ← store toks i (eptr.map fun _ => p)
        match eptr with
        | none => some none
        | some e => tokenizeCells n fuel toks cells (i + 1) (e + ((cells.drop e).takeWhile inBlank).length)

/-- The string that begins the cells. -/
def readString : TextCells → Option CStr
  | [] => none
  | none :: _ => some []
  | some c :: rest => (readString rest).map (c :: ·)

/-- What the caller finds in the first slots. -/
def readTokens (toks : List (Option Nat)) (cells : TextCells) (count : Nat) : Option (List CStr) :=
  (toks.take count).mapM fun slot => slot.bind fun place => readString (cells.drop place)

def enomem : Int := 12

/-- `tokenize` of a string whose length an `int` has to hold; `malloc` tells which sizes it gives. -/
def tokenizeMem (malloc : Nat → Bool) (s : CStr) : Option (Int × Option (List CStr)) :=
  let text := s.dropWhile isBlank
  let n := 1 + text.countP isBlank
  if 2 ^ 31 ≤ text.length + 1 then none
  else if malloc ((n + 1) * 8 + text.length + 1) = false then some (enomem, none)
  else
    match tokenizeCells n (text.length + 1) (List.replicate (n + 1) none) (text.map some ++ [none]) 0 0 with
    | none => none
    | some none => some (eio, none)
    | some (some (toks, cells, count)) => (readTokens toks cells count).map fun tokens => ((count : Int), some tokens)

example : tokenizeMem (fun _ => true) "exec 'it''s here' x".toList = some (tokenize "exec 'it''s here' x".toList) := by
  decide

theorem getElem?_behind (front gap back : TextCells) (place : Nat) :
    (front ++ gap ++ back)[front.length + gap.length + place]? = back[place]? := by
  rw [← List.length_append, List.getElem?_append_right (by omega), Nat.add_sub_cancel_left]

/-- One round of the loop: the byte at `s` is overwritten and the gap moves on over the bytes that are read. -/
theorem store_gap (front gap back : TextCells) (value : Option Char) (ahead : gap ≠ []) (read : TextCells) :
    store (front ++ gap ++ (read ++ back)) front.length value =
      some (front ++ [value] ++ (gap.tail ++ read) ++ back) := by
  obtain ⟨old, gap, rfl⟩ := List.exists_cons_of_ne_nil ahead
  have cells : front ++ old :: gap ++ (read ++ back) = front ++ old :: (gap ++ (read ++ back)) := by simp
  rw [cells, store_append]
  simp

theorem unquoteCopy_quote (fuel : Nat) (front gap back : TextCells) (ahead : gap ≠ []) :
    unquoteCopy (fuel + 1) (front ++ gap ++ some '\'' :: some '\'' :: back) front.length (front.length + gap.length) =
      unquoteCopy fuel (front ++ [some '\''] ++ (gap.tail ++ [some '\'', some '\'']) ++ back)
        (front ++ [some '\'']).length
        ((front ++ [some '\'']).length + (gap.tail ++ [some '\'', some '\'']).length) := by
  have first := getElem?_behind front gap (some '\'' :: some '\'' :: back) 0
  have second := getElem?_behind front gap (some '\'' :: some '\'' :: back) 1
  have stored := store_gap front gap back (some '\'') ahead [some '\'', some '\'']
  have size := List.length_pos_of_ne_nil ahead
  have moved : (front ++ [some '\'']).length + (gap.tail ++ [some '\'', some '\'']).length
      = front.length + gap.length + 2 := by
    simp only [List.length_append, List.length_cons, List.length_nil, List.length_tail]
    omega
  rw [Nat.add_zero, List.getElem?_cons_zero] at first
  rw [List.getElem?_cons_succ, List.getElem?_cons_zero] at second
  rw [moved, List.length_append, List.length_singleton, unquoteCopy]
  simp only [first, second]
  rw [List.cons_append, List.cons_append, List.nil_append] at stored
  rw [stored]
  rfl

theorem unquoteCopy_char (fuel : Nat) {c : Char} (plain : c ≠ '\'') (front gap back : TextCells) (ahead : gap ≠ []) :
    unquoteCopy (fuel + 1) (front ++ gap ++ some c :: back) front.length (front.length + gap.length) =
      unquoteCopy fuel (front ++ [some c] ++ (gap.tail ++ [some c]) ++ back) (front ++ [some c]).length
        ((front ++ [some c]).length + (gap.tail ++ [some c]).length) := by
  have first := getElem?_behind front gap (some c :: back) 0
  have stored := store_gap front gap back (some c) ahead [some c]
  have size := List.length_pos_of_ne_nil ahead
  have moved : (front ++ [some c]).length + (gap.tail ++ [some c]).length = front.length + gap.length + 1 := by
    simp only [List.length_append, List.length_cons, List.length_nil, List.length_tail]
    omega
  rw [Nat.add_zero, List.getElem?_cons_zero] at first
  rw [moved, List.length_append, List.length_singleton, unquoteCopy]
  rw [List.singleton_append] at stored
  split
  · rename_i missing
    rw [first] at missing
    cases missing
  · rename_i stop
    rw [first] at stop
    cases stop
  · rename_i quote
    rw [first] at quote
    exact absurd (Option.some.inj (Option.some.inj quote)) plain
  · rename_i other _ same
    rw [first] at same
    cases same
    rw [stored]
    rfl

theorem unquoteCopy_closed {rest token eptr : CStr} (read : unquoteBody rest = some (token, eptr)) (fuel : Nat)
    (enough : rest.length < fuel) (front gap : TextCells) (ahead : gap ≠ []) :
    ∃ junk : TextCells, junk ≠ [] ∧
      unquoteCopy fuel (front ++ gap ++ (rest.map some ++ [none])) front.length (front.length + gap.length) =
        some (front ++ token.map some ++ junk ++ some '\'' :: (eptr.map some ++ [none]),
          (front ++ token.map some).length, (front ++ token.map some).length + junk.length) := by
  obtain ⟨fuel, rfl⟩ : ∃ left, fuel = left + 1 := ⟨fuel - 1, by omega⟩
  fun_induction unquoteBody rest generalizing token fuel front gap with
  | case1 => cases read
  | case2 rest ih =>
      obtain ⟨⟨body, left⟩, inner, same⟩ := Option.map_eq_some_iff.mp read
      cases same
      simp only [List.length_cons] at enough
      obtain ⟨fuel, rfl⟩ : ∃ left, fuel = left + 1 := ⟨fuel - 1, by omega⟩
      obtain ⟨junk, filled, copied⟩ := ih inner (front ++ [some '\'']) (gap.tail ++ [some '\'', some '\'']) (by simp)
        fuel (by omega)
      refine ⟨junk, filled, ?_⟩
      rw [List.map_cons, List.map_cons, List.cons_append, List.cons_append, unquoteCopy_quote _ _ _ _ ahead, copied]
      simp
  | case3 _ single =>
      cases read
      refine ⟨gap, ahead, ?_⟩
      have first := getElem?_behind front gap (some '\'' :: (eptr.map some ++ [none])) 0
      have second := getElem?_behind front gap (some '\'' :: (eptr.map some ++ [none])) 1
      rw [Nat.add_zero, List.getElem?_cons_zero] at first
      rw [List.getElem?_cons_succ] at second
      rw [List.map_cons, List.cons_append, unquoteCopy]
      simp only [first, second, List.map_nil, List.append_nil]
      cases eptr with
      | nil => rfl
      | cons c eptr =>
          have other : c ≠ '\'' := by
            rintro rfl
            exact single eptr rfl
          simp [other]
  | case4 c rest _ plain ih =>
      obtain ⟨⟨body, left⟩, inner, same⟩ := Option.map_eq_some_iff.mp read
      cases same
      simp only [List.length_cons] at enough
      obtain ⟨fuel, rfl⟩ : ∃ left, fuel = left + 1 := ⟨fuel - 1, by omega⟩
      obtain ⟨junk, filled, copied⟩ := ih inner (front ++ [some c]) (gap.tail ++ [some c]) (by simp) fuel (by omega)
      refine ⟨junk, filled, ?_⟩
      rw [List.map_cons, List.cons_append, unquoteCopy_char _ plain _ _ _ ahead, copied]
      simp

theorem unquoteCopy_open {rest : CStr} (read : unquoteBody rest = none) (fuel : Nat) (enough : rest.length < fuel)
    (front gap : TextCells) (ahead : gap ≠ []) :
    ∃ before junk : TextCells, junk ≠ [] ∧
      unquoteCopy fuel (front ++ gap ++ (rest.map some ++ [none])) front.length (front.length + gap.length) =
        some (before ++ junk ++ [none], before.length, before.length + junk.length) := by
  obtain ⟨fuel, rfl⟩ : ∃ left, fuel = left + 1 := ⟨fuel - 1, by omega⟩
  fun_induction unquoteBody rest generalizing fuel front gap with
  | case1 =>
      have first := getElem?_behind front gap [none] 0
      rw [Nat.add_zero, List.getElem?_cons_zero] at first
      refine ⟨front, gap, ahead, ?_⟩
      rw [List.map_nil, List.nil_append, unquoteCopy]
      simp only [first]
  | case2 rest ih =>
      simp only [List.length_cons] at enough
      obtain ⟨fuel, rfl⟩ : ∃ left, fuel = left + 1 := ⟨fuel - 1, by omega⟩
      rw [List.map_cons, List.map_cons, List.cons_append, List.cons_append, unquoteCopy_quote _ _ _ _ ahead]
      exact ih (Option.map_eq_none_iff.mp read) _ _ (by simp) fuel (by omega)
  | case3 => cases read
  | case4 c rest _ plain ih =>
      simp only [List.length_cons] at enough
      obtain ⟨fuel, rfl⟩ : ∃ left, fuel = left + 1 := ⟨fuel - 1, by omega⟩
      rw [List.map_cons, List.cons_append, unquoteCopy_char _ plain _ _ _ ahead]
      exact ih (Option.map_eq_none_iff.mp read) _ _ (by simp) fuel (by omega)

theorem takeWhile_inWord (text : CStr) :
    (text.map some ++ [none]).takeWhile inWord = (text.takeWhile fun c => !isBlank c).map some := by
  induction text with
  | nil => rfl
  | cons c text ih =>
      cases blank : isBlank c with
      | true => simp [inWord, blank]
      | false => simpa [inWord, blank] using ih

theorem takeWhile_inBlank (text : CStr) :
    (text.map some ++ [none]).takeWhile inBlank = (text.takeWhile isBlank).map some := by
  induction text with
  | nil => rfl
  | cons c text ih =>
      cases blank : isBlank c with
      | true => simpa [inBlank, blank] using ih
      | false => simp [inBlank, blank]

/-- Memory with a token taken off: what is behind `eptr` is still to be read, and the token has its
terminator before that, if it is not the last word and shares the one of the text. -/
def Unquoted (front : TextCells) (token eptr : CStr) (cells : TextCells) (place : Nat) : Prop :=
  ∃ behind : TextCells, cells = behind ++ (eptr.map some ++ [none]) ∧ place = behind.length ∧
    ((∃ junk, behind = front ++ token.map some ++ none :: junk) ∨ eptr = [] ∧ behind = front ++ token.map some)

theorem unquotestrCells_some {text token eptr : CStr} (front : TextCells) (nonempty : text ≠ [])
    (read : unquotestr text = some (token, eptr)) :
    ∃ cells place, unquotestrCells (front ++ (text.map some ++ [none])) front.length = some (cells, some place) ∧
      Unquoted front token eptr cells place := by
  obtain ⟨c, text, rfl⟩ := List.exists_cons_of_ne_nil nonempty
  have first : (front ++ ((c :: text).map some ++ [none]))[front.length]? = some (some c) := by
    rw [List.getElem?_append_right (Nat.le_refl _), Nat.sub_self]
    rfl
  by_cases quote : c = '\''
  · subst quote
    obtain ⟨junk, filled, copied⟩ := unquoteCopy_closed read
      (front ++ (('\'' :: text).map some ++ [none])).length
      (by simp only [List.length_append, List.length_map, List.length_cons]; omega) front [some '\''] (by simp)
    obtain ⟨old, junk, rfl⟩ := List.exists_cons_of_ne_nil filled
    have cells : front ++ [some '\''] ++ (text.map some ++ [none]) = front ++ (('\'' :: text).map some ++ [none]) := by
      simp
    have last := getElem?_behind (front ++ token.map some) (none :: junk) (some '\'' :: (eptr.map some ++ [none])) 0
    refine ⟨front ++ token.map some ++ none :: (junk ++ [some '\'']) ++ (eptr.map some ++ [none]), _, ?_,
      _, rfl, rfl, .inl ⟨_, rfl⟩⟩
    rw [cells, List.length_singleton] at copied
    rw [Nat.add_zero, List.getElem?_cons_zero, List.length_cons, List.append_assoc, List.cons_append] at last
    rw [unquotestrCells]
    simp only [first, copied, Option.bind_eq_bind, Option.bind_some]
    rw [List.append_assoc, List.cons_append, store_append, Option.bind_some, List.length_cons, last, Option.bind_some,
      if_pos rfl]
    simp
    omega
  · rw [unquotestr_of_head_ne quote] at read
    cases read
    set token := (c :: text).takeWhile fun c => !isBlank c
    set rest := (c :: text).dropWhile fun c => !isBlank c
    have whole : c :: text = token ++ rest := List.takeWhile_append_dropWhile.symm
    have cells : front ++ ((c :: text).map some ++ [none])
        = front ++ token.map some ++ (rest.map some ++ [none]) := by
      rw [whole, List.map_append]
      simp only [List.append_assoc]
    have last := getElem?_behind front (token.map some) (rest.map some ++ [none]) 0
    have skipped : ((front ++ ((c :: text).map some ++ [none])).drop front.length).takeWhile inWord
        = token.map some := by
      rw [List.drop_left, takeWhile_inWord]
    have scanned : unquotestrCells (front ++ ((c :: text).map some ++ [none])) front.length =
        (do
          let last ← (rest.map some ++ [none])[0]?
          if last = none then some (front ++ ((c :: text).map some ++ [none]), some (front ++ token.map some).length)
          else do
            let cells ← store (front ++ ((c :: text).map some ++ [none])) (front ++ token.map some).length none
            some (cells, some ((front ++ token.map some).length + 1))) := by
      rw [unquotestrCells]
      split
      · rename_i missing
        rw [first] at missing
        cases missing
      · rename_i same
        rw [first] at same
        exact absurd (Option.some.inj (Option.some.inj same)) quote
      · rw [Nat.add_zero, ← cells] at last
        rw [skipped, ← last, List.length_append]
    rw [scanned]
    clear_value rest
    cases rest with
    | nil => exact ⟨_, _, rfl, _, cells, rfl, .inr ⟨rfl, rfl⟩⟩
    | cons d rest =>
        have spread : (d :: rest).map some ++ [none] = some d :: (rest.map some ++ [none]) := rfl
        rw [cells, spread, store_append]
        refine ⟨_, _, rfl, front ++ token.map some ++ [none], ?_, ?_, .inl ⟨[], rfl⟩⟩
        · simp
        · simp only [List.length_append, List.length_singleton]

theorem unquotestrCells_none {text : CStr} (front : TextCells) (read : unquotestr text = none) :
    ∃ cells, unquotestrCells (front ++ (text.map some ++ [none])) front.length = some (cells, none) := by
  unfold unquotestr at read
  split at read
  · rename_i rest
    obtain ⟨before, junk, filled, copied⟩ := unquoteCopy_open read
      (front ++ (('\'' :: rest).map some ++ [none])).length
      (by simp only [List.length_append, List.length_map, List.length_cons]; omega) front [some '\''] (by simp)
    obtain ⟨old, junk, rfl⟩ := List.exists_cons_of_ne_nil filled
    have first : (front ++ (('\'' :: rest).map some ++ [none]))[front.length]? = some (some '\'') := by
      rw [List.getElem?_append_right (Nat.le_refl _), Nat.sub_self]
      rfl
    have cells : front ++ [some '\''] ++ (rest.map some ++ [none]) = front ++ (('\'' :: rest).map some ++ [none]) := by
      simp
    have last := getElem?_behind before (none :: junk) [none] 0
    rw [cells, List.length_singleton] at copied
    rw [Nat.add_zero, List.getElem?_cons_zero, List.length_cons, List.append_assoc, List.cons_append] at last
    refine ⟨before ++ none :: (junk ++ [none]), ?_⟩
    rw [unquotestrCells]
    simp only [first, copied, Option.bind_eq_bind, Option.bind_some]
    rw [List.append_assoc, List.cons_append, store_append, Option.bind_some, List.length_cons, last, Option.bind_some,
      if_neg (by simp)]
  · cases read

theorem unquotestr_shorter {text token eptr : CStr} (nonempty : text ≠ [])
    (read : unquotestr text = some (token, eptr)) : eptr.length < text.length := by
  unfold unquotestr at read
  split at read
  · have shape := congrArg List.length (unquoteBody_shape read).1
    rw [List.length_append] at shape
    rw [List.length_cons]
    omega
  · cases read
    have shorter := (List.dropWhile_suffix (l := text) fun c => !isBlank c).length_le
    have size := List.length_pos_of_ne_nil nonempty
    rw [List.length_tail]
    omega

theorem readString_eq (token : CStr) (junk : TextCells) : readString (token.map some ++ none :: junk) = some token := by
  induction token with
  | nil => rfl
  | cons c token ih =>
      rw [List.map_cons, List.cons_append, readString, ih]
      rfl

theorem Unquoted.readString {front : TextCells} {token eptr : CStr} {cells : TextCells} {place : Nat}
    (unquoted : Unquoted front token eptr cells place) (later : TextCells)
    (kept : ∃ more, later = cells.take place ++ more) (alone : eptr = [] → later = cells) :
    Libstrutil.readString (later.drop front.length) = some token := by
  obtain ⟨behind, rfl, rfl, ⟨junk, rfl⟩ | ⟨rfl, rfl⟩⟩ := unquoted
  · obtain ⟨more, rfl⟩ := kept
    rw [List.take_left, List.append_assoc, List.append_assoc, List.drop_left, List.cons_append, readString_eq]
  · rw [alone rfl, List.append_assoc, List.drop_left]
    exact readString_eq token []

theorem Unquoted.skip {front : TextCells} {token eptr : CStr} {cells : TextCells} {place : Nat}
    (unquoted : Unquoted front token eptr cells place) :
    ∃ behind : TextCells, cells = behind ++ ((eptr.dropWhile isBlank).map some ++ [none]) ∧
      place + ((cells.drop place).takeWhile inBlank).length = behind.length ∧
      cells.take place <+: behind ∧ front <+: behind := by
  obtain ⟨behind, rfl, rfl, shape⟩ := unquoted
  refine ⟨behind ++ (eptr.takeWhile isBlank).map some, ?_, ?_, ?_, ?_⟩
  · have parts : eptr.map some = (eptr.takeWhile isBlank).map some ++ (eptr.dropWhile isBlank).map some := by
      rw [← List.map_append, List.takeWhile_append_dropWhile]
    rw [parts]
    simp only [List.append_assoc]
  · rw [List.drop_left, takeWhile_inBlank, List.length_append]
  · rw [List.take_left]
    exact List.prefix_append _ _
  · rcases shape with ⟨junk, rfl⟩ | ⟨-, rfl⟩
    · exact ⟨_, by rw [List.append_assoc, List.append_assoc]⟩
    · exact ⟨_, by rw [List.append_assoc]⟩

theorem tokenizeCells_step {n fuel i : Nat} {toks : List (Option Nat)} {front : TextCells} {text : CStr}
    (nonempty : text ≠ []) (room : i < n) :
    tokenizeCells n (fuel + 1) toks (front ++ (text.map some ++ [none])) i front.length =
      (unquotestrCells (front ++ (text.map some ++ [none])) front.length).bind fun (cells, eptr) =>
        (store toks i (eptr.map fun _ => front.length)).bind fun toks =>
          match eptr with
          | none => some none
          | some e => tokenizeCells n fuel toks cells (i + 1) (e + ((cells.drop e).takeWhile inBlank).length) := by
  obtain ⟨c, text, rfl⟩ := List.exists_cons_of_ne_nil nonempty
  have first : (front ++ ((c :: text).map some ++ [none]))[front.length]? = some (some c) := by
    rw [List.getElem?_append_right (Nat.le_refl _), Nat.sub_self]
    rfl
  rw [tokenizeCells, first]
  simp only [Option.bind_eq_bind, Option.bind_some, reduceCtorEq, if_false, if_neg (Nat.not_le.mpr room)]

theorem tokenizeCells_end {n fuel i : Nat} {toks : List (Option Nat)} (front : TextCells) :
    tokenizeCells n (fuel + 1) toks (front ++ [none]) i front.length =
      (store toks i none).map fun toks => some (toks, front ++ [none], i) := by
  have first : (front ++ [none])[front.length]? = some none := by
    rw [List.getElem?_append_right (Nat.le_refl _), Nat.sub_self]
    rfl
  rw [tokenizeCells, first]
  cases store toks i none <;> rfl

theorem tokenizeCells_some {left : Nat} {text : CStr} {tokens : List CStr}
    (read : tokenizeLoop left text = some tokens) (fuel : Nat) (enough : text.length < fuel) (front : TextCells)
    (slots : List Nat) :
    ∃ places : List Nat, ∃ unused : List (Option Nat), ∃ cells : TextCells,
      tokenizeCells (slots.length + left) fuel (slots.map some ++ List.replicate (left + 1) none)
          (front ++ (text.map some ++ [none])) slots.length front.length =
        some (some ((slots ++ places).map some ++ unused, cells, slots.length + places.length)) ∧
      (text = [] → cells = front ++ [none]) ∧ front <+: cells ∧
      List.Forall₂ (fun place token => readString (cells.drop place) = some token) places tokens := by
  obtain ⟨fuel, rfl⟩ : ∃ more, fuel = more + 1 := ⟨fuel - 1, by omega⟩
  induction left generalizing text tokens fuel front slots with
  | zero =>
      cases text with
      | cons c text => cases read
      | nil =>
          cases read
          refine ⟨[], [none], front ++ [none], ?_, fun _ => rfl, List.prefix_append _ _, .nil⟩
          rw [List.map_nil, List.nil_append, tokenizeCells_end]
          have slot := store_append (slots.map some) none none ([] : List (Option Nat))
          rw [List.length_map] at slot
          rw [List.append_nil]
          exact congrArg (Option.map _) slot
  | succ left ih =>
      cases text with
      | nil =>
          cases read
          refine ⟨[], none :: List.replicate (left + 1) none, front ++ [none], ?_, fun _ => rfl,
            List.prefix_append _ _, .nil⟩
          rw [List.map_nil, List.nil_append, tokenizeCells_end]
          have slot := store_append (slots.map some) none none (List.replicate (left + 1) (none : Option Nat))
          rw [List.length_map] at slot
          rw [List.append_nil]
          exact congrArg (Option.map _) slot
      | cons c text =>
          have nonempty : c :: text ≠ [] := List.cons_ne_nil _ _
          obtain ⟨⟨token, eptr⟩, first⟩ := unquotestr_of_tokenizeLoop read
          rw [tokenizeLoop_step nonempty first] at read
          obtain ⟨more, later, same⟩ := Option.map_eq_some_iff.mp read
          cases same
          obtain ⟨cells, place, taken, unquoted⟩ := unquotestrCells_some front nonempty first
          obtain ⟨behind, cellsEq, placeEq, keeps, frontKept⟩ := unquoted.skip
          have shorter := unquotestr_shorter nonempty first
          have trimmed := (List.dropWhile_suffix (l := eptr) isBlank).length_le
          obtain ⟨fuel, rfl⟩ : ∃ more, fuel = more + 1 := ⟨fuel - 1, by rw [List.length_cons] at *; omega⟩
          obtain ⟨places, unused, final, run, last, kept, reads⟩ := ih later behind (slots ++ [front.length]) fuel
            (by omega)
          have slot := store_append (slots.map some) none (some front.length)
            (List.replicate (left + 1) (none : Option Nat))
          rw [List.length_map] at slot
          refine ⟨front.length :: places, unused, final, ?_, fun empty => absurd empty nonempty,
            frontKept.trans kept, .cons ?_ reads⟩
          · rw [tokenizeCells_step nonempty (by omega), taken, Option.bind_some]
            rw [List.replicate_succ]
            simp only [Option.map_some, slot, Option.bind_some, placeEq]
            rw [cellsEq]
            rw [List.length_append, List.length_singleton] at run
            rw [show slots.length + (left + 1) = slots.length + 1 + left by omega]
            simp only [List.map_append, List.map_cons, List.map_nil, List.append_assoc, List.cons_append,
              List.nil_append, List.length_cons] at run ⊢
            rw [run, show slots.length + (places.length + 1) = slots.length + 1 + places.length by omega]
          · refine unquoted.readString final ?_ ?_
            · obtain ⟨more, rfl⟩ := keeps.trans kept
              exact ⟨more, rfl⟩
            · intro empty
              subst empty
              rw [last rfl, cellsEq]
              rfl

theorem tokenizeCells_none {left : Nat} {text : CStr} (read : tokenizeLoop left text = none) (fuel : Nat)
    (enough : text.length < fuel) (front : TextCells) (slots : List Nat) :
    tokenizeCells (slots.length + left) fuel (slots.map some ++ List.replicate (left + 1) none)
      (front ++ (text.map some ++ [none])) slots.length front.length = some none := by
  obtain ⟨fuel, rfl⟩ : ∃ more, fuel = more + 1 := ⟨fuel - 1, by omega⟩
  induction left generalizing text fuel front slots with
  | zero =>
      cases text with
      | nil => cases read
      | cons c text =>
          have first : (front ++ ((c :: text).map some ++ [none]))[front.length]? = some (some c) := by
            rw [List.getElem?_append_right (Nat.le_refl _), Nat.sub_self]
            rfl
          rw [tokenizeCells, first]
          simp
  | succ left ih =>
      cases text with
      | nil => cases read
      | cons c text =>
          have nonempty : c :: text ≠ [] := List.cons_ne_nil _ _
          have slot (value : Option Nat) := store_append (slots.map some) none value
            (List.replicate (left + 1) (none : Option Nat))
          simp only [List.length_map] at slot
          rw [tokenizeCells_step nonempty (by omega), List.replicate_succ]
          cases first : unquotestr (c :: text) with
          | none =>
              obtain ⟨cells, taken⟩ := unquotestrCells_none front first
              rw [taken, Option.bind_some]
              simp only [Option.map_none, slot, Option.bind_some]
          | some found =>
              obtain ⟨token, eptr⟩ := found
              rw [tokenizeLoop_step nonempty first, Option.map_eq_none_iff] at read
              obtain ⟨cells, place, taken, unquoted⟩ := unquotestrCells_some front nonempty first
              obtain ⟨behind, cellsEq, placeEq, -, -⟩ := unquoted.skip
              have shorter := unquotestr_shorter nonempty first
              have trimmed := (List.dropWhile_suffix (l := eptr) isBlank).length_le
              obtain ⟨fuel, rfl⟩ : ∃ more, fuel = more + 1 := ⟨fuel - 1, by rw [List.length_cons] at *; omega⟩
              have run := ih read behind (slots ++ [front.length]) fuel (by omega)
              rw [List.length_append, List.length_singleton] at run
              rw [taken, Option.bind_some, show slots.length + (left + 1) = slots.length + 1 + left by omega]
              simp only [Option.map_some, slot, Option.bind_some, placeEq]
              rw [cellsEq]
              simpa using run

theorem readTokens_eq {places : List Nat} {tokens : List CStr} {cells : TextCells}
    (reads : List.Forall₂ (fun place token => readString (cells.drop place) = some token) places tokens)
    (unused : List (Option Nat)) : readTokens (places.map some ++ unused) cells places.length = some tokens := by
  rw [readTokens, List.take_left' (by rw [List.length_map])]
  induction reads with
  | nil => rfl
  | cons first _ ih => simp [first, ih]

/-- What the allocation of `tokenize` needs of the text and of `malloc`. -/
def Affords (malloc : Nat → Bool) (s : CStr) : Prop :=
  (s.dropWhile isBlank).length + 1 < 2 ^ 31 ∧
    malloc ((1 + (s.dropWhile isBlank).countP isBlank + 1) * 8 + (s.dropWhile isBlank).length + 1) = true

/-- In memory `tokenize` stays inside its allocation and hands out the tokens of the plain function. -/
theorem tokenizeMem_eq {malloc : Nat → Bool} {s : CStr} (affords : Affords malloc s) :
    tokenizeMem malloc s = some (tokenize s) := by
  obtain ⟨short, given⟩ := affords
  have below := Nat.lt_succ_self (s.dropWhile isBlank).length
  simp only [tokenizeMem]
  rw [if_neg (Nat.not_le.mpr short), if_neg (by rw [given]; exact Bool.noConfusion)]
  simp only [tokenize]
  cases read : tokenizeLoop (1 + (s.dropWhile isBlank).countP isBlank) (s.dropWhile isBlank) with
  | none =>
      have run := tokenizeCells_none read _ below [] []
      simp only [List.length_nil, Nat.zero_add, List.map_nil, List.nil_append] at run
      rw [run]
  | some tokens =>
      obtain ⟨places, unused, cells, run, -, -, reads⟩ := tokenizeCells_some read _ below [] []
      simp only [List.length_nil, Nat.zero_add, List.map_nil, List.nil_append] at run
      rw [run]
      simp only [readTokens_eq reads unused, Option.map_some]
      rw [List.Forall₂.length_eq reads]

theorem tokenizeMem_unaffordable {malloc : Nat → Bool} {s : CStr} (short : ¬Affords malloc s) :
    tokenizeMem malloc s = none ∨ tokenizeMem malloc s = some (enomem, none) := by
  simp only [tokenizeMem]
  by_cases long : 2 ^ 31 ≤ (s.dropWhile isBlank).length + 1
  · exact .inl (if_pos long)
  · rw [if_neg long, if_pos]
    · exact .inr rfl
    · exact Bool.eq_false_iff.mpr fun given => short ⟨Nat.not_le.mp long, given⟩

/-- Quoting the words, joining them and tokenizing the line gives the words back. -/
def Restores (malloc : Nat → Bool) (words : List CStr) : Prop :=
  tokenizeMem malloc (joinWords (words.map quotestrdup)) = some ((words.length : Int), some words)

/-- `tokenize` stays in its memory, and answers a negative number or the tokens and how many there are. -/
def Counts (malloc : Nat → Bool) (text : CStr) : Prop :=
  ∃ count toks, tokenizeMem malloc text = some (count, toks) ∧
    (count < 0 ∨ ∃ tokens : List CStr, toks = some tokens ∧ count = tokens.length)

theorem restores_iff (malloc : Nat → Bool) (words : List CStr) :
    Restores malloc words ↔
      (∀ str ∈ words, Restorable str) ∧ Affords malloc (joinWords (words.map quotestrdup)) := by
  by_cases affords : Affords malloc (joinWords (words.map quotestrdup))
  · rw [Restores, tokenizeMem_eq affords, Option.some_inj, tokenize_quoted_iff]
    exact ⟨fun restorable => ⟨restorable, affords⟩, And.left⟩
  · constructor
    · intro restores
      rw [Restores] at restores
      rcases tokenizeMem_unaffordable affords with outside | refused
      · rw [outside] at restores
        cases restores
      · rw [refused, Option.some_inj] at restores
        exact absurd (congrArg Prod.snd restores) (by simp)
    · exact fun both => absurd both.2 affords

theorem counts_iff (malloc : Nat → Bool) (text : CStr) :
    Counts malloc text ↔ Affords malloc text ∧ ∃ tokens, Tokens text tokens := by
  by_cases affords : Affords malloc text
  · rw [Counts, tokenizeMem_eq affords]
    constructor
    · rintro ⟨count, toks, same, outcome⟩
      rw [Option.some_inj] at same
      refine ⟨affords, ?_⟩
      rcases outcome with negative | ⟨tokens, rfl, rfl⟩
      · rcases tokenize_answers text with ⟨tokens, read⟩ | failed
        · exact ⟨tokens, (tokenize_eq_some_iff text tokens).mp read⟩
        · rw [failed] at same
          cases same
          exact absurd negative (by decide)
      · exact ⟨tokens, (tokenize_eq_some_iff text tokens).mp same⟩
    · rintro ⟨-, tokens, splits⟩
      rw [(tokenize_eq_some_iff text tokens).mpr splits]
      exact ⟨_, _, rfl, .inr ⟨tokens, rfl, rfl⟩⟩
  · constructor
    · rintro ⟨count, toks, same, outcome⟩
      rcases tokenizeMem_unaffordable affords with outside | refused
      · rw [outside] at same
        cases same
      · rw [refused] at same
        cases same
        rcases outcome with negative | ⟨tokens, none, -⟩
        · exact absurd negative (by decide)
        · cases none
    · exact fun both => absurd both.1 affords

theorem tokenize_quotestrdup_iff (malloc : Nat → Bool) :
    (∀ words : List CStr, Restores malloc words ↔
      (∀ str ∈ words, Restorable str) ∧ Affords malloc (joinWords (words.map quotestrdup))) ∧
    ∀ text : CStr, Counts malloc text ↔ Affords malloc text ∧ ∃ tokens, Tokens text tokens :=
  ⟨restores_iff malloc, counts_iff malloc⟩

/-- The empty word is lost, and a single quote is answered with five and no tokens. -/
theorem empty_and_unclosed :
    ¬Restores (fun _ => true) [[]] ∧ ¬Counts (fun _ => true) ['\''] := by
  constructor
  · rw [Restores]
    decide
  · rintro ⟨count, toks, same, outcome⟩
    have answer : tokenizeMem (fun _ => true) ['\''] = some (5, none) := by decide
    rw [answer] at same
    cases same
    rcases outcome with negative | ⟨tokens, none, -⟩
    · exact absurd negative (by decide)
    · cases none

end Xcpu.Libstrutil
