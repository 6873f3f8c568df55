import Xcpu.Bjs.SexpRoundTrip
import Xcpu.Lib.Cells

/-!
Printing an s-expression into memory: `sexp_strlen` counts how much it takes, `sexp_snprint` writes it, and
`sexp_string` and `bjs_send_sx` give it the buffer that was counted.
-/

namespace Xcpu.Bjs.SexpBuffer

open Xcpu.Cells (store storeAll storeAll_append storeAll_front)

abbrev Cells := List (Option UInt8)

/-- The loop of `sexp_strlen`, the top of the stack first. A sum that is no `int` is not defined. -/
def strlenLoop : List Sexp → Nat → Option Int
  | [], len => some len
  | .null :: stack, len => strlenLoop stack len
  | .value val next :: stack, len =>
      if len + ((printAtom val).length + 1) < 2 ^ 31 then
        strlenLoop (next :: stack) (len + ((printAtom val).length + 1))
      else none
  | .list elts next :: stack, len =>
      if len + 2 < 2 ^ 31 then
        if stack.length + 1 < sexpParserStackSize then strlenLoop (elts :: next :: stack) (len + 2) else some (-1)
      else none
termination_by stack => (stack.map Sexp.size).sum
decreasing_by all_goals simp only [List.map_cons, List.sum_cons, Sexp.size]; omega

def sexpStrlen (sx : Sexp) : Option Int := strlenLoop [sx.elements] 2

/-- The characters of an atom, with `end` where the buffer ends, if that is known. -/
def snprintAtom (finish : Option Nat) : Bytes → Nat → Cells → Option (Nat × Cells)
  | [], str, cells => some (str, cells)
  | c :: val, str, cells =>
      if isSpecial c then
        (store cells str (some 92)).bind fun cells =>
          if finish = some (str + 1) then some (str + 1, cells)
          else (store cells (str + 1) (some c)).bind fun cells =>
            if finish = some (str + 2) then some (str + 2, cells) else snprintAtom finish val (str + 2) cells
      else
        (store cells str (some c)).bind fun cells =>
          if finish = some (str + 1) then some (str + 1, cells) else snprintAtom finish val (str + 1) cells

/-- The loop of `sexp_snprint`: where it stops, or nowhere when the stack overflows. -/
def snprintLoop (finish : Option Nat) : List Sexp → Bool → Nat → Cells → Option (Option Nat × Cells)
  | [], _, str, cells => some (some str, cells)
  | .null :: stack, _, str, cells =>
      if finish = some str then some (some str, cells)
      else (store cells str (some 41)).bind fun cells => snprintLoop finish stack false (str + 1) cells
  | .value val next :: stack, lastAtom, str, cells =>
      if finish = some str then some (some str, cells)
      else (storeAll cells str (if lastAtom then [some 32] else [])).bind fun cells =>
        (snprintAtom finish (val.takeWhile (· ≠ 0)) (str + if lastAtom then 1 else 0) cells).bind fun (str, cells) =>
          if finish = some str then some (some str, cells) else snprintLoop finish (next :: stack) true str cells
  | .list elts next :: stack, _, str, cells =>
      if finish = some str then some (some str, cells)
      else if stack.length + 1 < sexpParserStackSize then
        (store cells str (some 40)).bind fun cells =>
          if finish = some (str + 1) then some (some (str + 1), cells)
          else snprintLoop finish (elts :: next :: stack) false (str + 1) cells
      else some (none, cells)
termination_by stack => (stack.map Sexp.size).sum
decreasing_by all_goals simp only [List.map_cons, List.sum_cons, Sexp.size]; omega

/-- `sexp_snprint` with what it returns; the length -1 is no limit. -/
def sexpSnprint (cells : Cells) (len : Int) (sx : Sexp) : Option (Int × Cells) :=
  (store cells 0 (some 40)).bind fun cells =>
    (snprintLoop (if len = -1 then none else some len.toNat) [sx.elements] false 1 cells).bind fun
      | (none, cells) => some (-1, cells)
      | (some str, cells) => (store cells str (some 0)).map fun cells => (str, cells)

/-- `bjs_send_sx`: the buffer on the stack that is sent as a string. -/
def bjsSendSx (sx : Sexp) : Option Cells :=
  (sexpStrlen sx).bind fun len => (sexpSnprint (List.replicate len.toNat none) (-1) sx).map Prod.snd

def sexpString (sx : Sexp) : Option Cells :=
  (sexpStrlen sx).bind fun len => (sexpSnprint (List.replicate (len + 1).toNat none) len sx).map Prod.snd


/-- What `sexp_strlen` counts for the elements: their characters and parentheses, and a separator for each atom. -/
def width : Sexp → Nat
  | .null => 0
  | .value val next => (printAtom val).length + 1 + width next
  | .list elts next => 2 + width elts + width next

/-- There is an atom somewhere. -/
def hasAtom : Sexp → Bool
  | .null => false
  | .value _ _ => true
  | .list elts next => hasAtom elts || hasAtom next

theorem printElements_le (sx : Sexp) (lastAtom : Bool) : (printElements sx lastAtom).length ≤ width sx + 1 := by
  induction sx generalizing lastAtom with
  | null => exact Nat.le_refl _
  | value val next ih =>
      have rest := ih true
      have separator : (if lastAtom then [32] else [] : Bytes).length ≤ 1 := by cases lastAtom <;> decide
      rw [printElements, List.length_append, List.length_append, width]
      omega
  | list elts next ihElts ihNext =>
      have inner := ihElts false
      have rest := ihNext false
      rw [printElements, List.cons_append, List.length_cons, List.length_append, width]
      omega

theorem printElements_pos (sx : Sexp) (lastAtom : Bool) : 0 < (printElements sx lastAtom).length := by
  induction sx generalizing lastAtom with
  | null => exact Nat.one_pos
  | value val next ih =>
      rw [printElements, List.length_append]
      exact Nat.add_pos_right _ (ih true)
  | list elts next _ _ => exact Nat.succ_pos _

/-- The first atom has no separator before it, which leaves one character for the end. -/
theorem printElements_lt {sx : Sexp} (atom : hasAtom sx = true) : (printElements sx false).length ≤ width sx := by
  induction sx with
  | null => cases atom
  | value val next _ =>
      have rest := printElements_le next true
      rw [printElements, List.length_append, List.length_append, width]
      simp only [Bool.false_eq_true, if_false, List.length_nil]
      omega
  | list elts next ihElts ihNext =>
      have inner := printElements_le elts false
      have rest := printElements_le next false
      rw [printElements, List.cons_append, List.length_cons, List.length_append, width]
      rcases Bool.or_eq_true_iff.mp atom with atom | atom
      · have inner := ihElts atom
        omega
      · have rest := ihNext atom
        omega

theorem printElements_bare {sx : Sexp} (bare : hasAtom sx = false) (lastAtom : Bool) :
    (printElements sx lastAtom).length = width sx + 1 := by
  induction sx generalizing lastAtom with
  | null => rfl
  | value val next _ => cases bare
  | list elts next ihElts ihNext =>
      obtain ⟨first, second⟩ := Bool.or_eq_false_iff.mp bare
      rw [printElements, List.cons_append, List.length_cons, List.length_append, ihElts first, ihNext second, width]
      omega

section Strlen

variable {sx : Sexp} {stack : List Sexp} {len : Nat}

theorem strlenLoop_cons (fits : stack.length + sx.depth < sexpParserStackSize) (small : len + width sx < 2 ^ 31) :
    strlenLoop (sx :: stack) len = strlenLoop stack (len + width sx) := by
  induction sx generalizing stack len with
  | null => rw [strlenLoop, width, Nat.add_zero]
  | value val next ih =>
      rw [width, ← Nat.add_assoc] at small ⊢
      rw [strlenLoop, if_pos (by omega), ih fits small]
  | list elts next ihElts ihNext =>
      simp only [Sexp.depth] at fits
      rw [width, ← Nat.add_assoc, ← Nat.add_assoc] at small ⊢
      have inner : (next :: stack).length + elts.depth < sexpParserStackSize := by
        rw [List.length_cons]
        omega
      rw [strlenLoop, if_pos (by omega), if_pos (by omega), ihElts inner (by omega), ihNext (by omega) small]

/-- Where the count succeeds, the stack was large enough and the sum an `int`. -/
theorem strlenLoop_counted {n : Int} (room : stack.length < sexpParserStackSize) (before : len < 2 ^ 31)
    (success : 0 ≤ n) (counted : strlenLoop (sx :: stack) len = some n) :
    stack.length + sx.depth < sexpParserStackSize ∧ len + width sx < 2 ^ 31 ∧
      strlenLoop stack (len + width sx) = some n := by
  induction sx generalizing stack len with
  | null =>
      rw [strlenLoop] at counted
      exact ⟨room, before, counted⟩
  | value val next ih =>
      rw [strlenLoop] at counted
      split at counted
      · rename_i small
        rw [width, ← Nat.add_assoc]
        exact ih room small counted
      · cases counted
  | list elts next ihElts ihNext =>
      rw [strlenLoop] at counted
      split at counted
      · rename_i small
        split at counted
        · rename_i inside
          obtain ⟨deep, fits, counted⟩ := ihElts (by rw [List.length_cons]; exact inside) small counted
          obtain ⟨deep', fits', counted⟩ := ihNext room fits counted
          rw [width, ← Nat.add_assoc, ← Nat.add_assoc]
          rw [List.length_cons] at deep
          refine ⟨?_, fits', counted⟩
          rw [Sexp.depth]
          omega
        · obtain rfl := Option.some.inj counted
          exact absurd success (by decide)
      · cases counted

end Strlen

section Snprint

variable {finish : Option Nat} {sx : Sexp} {stack : List Sexp} {lastAtom : Bool} {str : Nat}

/-- A character as it is printed. -/
def escaped (c : UInt8) : Bytes := if isSpecial c then [92, c] else [c]

theorem printAtom_eq (val : Bytes) : printAtom val = (val.takeWhile (· ≠ 0)).flatMap escaped := rfl

/-- An atom that ends before the buffer does is written whole. -/
theorem snprintAtom_eq (val : Bytes) (cells : Cells)
    (far : ∀ stop, finish = some stop → str + (val.flatMap escaped).length < stop) :
    snprintAtom finish val str cells = (storeAll cells str ((val.flatMap escaped).map some)).map fun cells =>
      (str + (val.flatMap escaped).length, cells) := by
  induction val generalizing str cells with
  | nil => rfl
  | cons c val ih =>
      rw [List.flatMap_cons, escaped] at far ⊢
      rw [snprintAtom]
      by_cases special : isSpecial c = true
      · rw [if_pos special, List.length_append, List.length_cons, List.length_singleton] at far
        have first : finish ≠ some (str + 1) := fun is => by have := far _ is; omega
        have second : finish ≠ some (str + 2) := fun is => by have := far _ is; omega
        rw [if_pos special, if_pos special, List.cons_append, List.singleton_append, List.map_cons, List.map_cons,
          storeAll, Option.map_bind]
        refine congrArg (Option.bind _) (funext fun cells => ?_)
        rw [if_neg first, Function.comp, storeAll, Option.map_bind]
        refine congrArg (Option.bind _) (funext fun cells => ?_)
        rw [if_neg second, ih cells fun stop is => by have := far stop is; omega, Function.comp, List.length_cons,
          List.length_cons, Nat.add_assoc, Nat.add_assoc, Nat.add_comm 2]
      · rw [if_neg special, List.length_append, List.length_singleton] at far
        have first : finish ≠ some (str + 1) := fun is => by have := far _ is; omega
        rw [if_neg special, if_neg special, List.singleton_append, List.map_cons, storeAll, Option.map_bind]
        refine congrArg (Option.bind _) (funext fun cells => ?_)
        rw [if_neg first, ih cells fun stop is => by have := far stop is; omega, Function.comp, List.length_cons,
          Nat.add_assoc, Nat.add_comm 1]

/-- The elements on top of the stack are written whole where the buffer ends behind them. -/
theorem snprintLoop_cons (cells : Cells) (fits : stack.length + sx.depth < sexpParserStackSize)
    (far : ∀ stop, finish = some stop → str + (printElements sx lastAtom).length < stop) :
    snprintLoop finish (sx :: stack) lastAtom str cells =
      (storeAll cells str ((printElements sx lastAtom).map some)).bind fun cells =>
        snprintLoop finish stack false (str + (printElements sx lastAtom).length) cells := by
  have here : finish ≠ some str := fun is => by have := far _ is; omega
  induction sx generalizing stack lastAtom str cells with
  | null =>
      rw [snprintLoop, if_neg here, printElements, List.map_singleton, storeAll, Option.bind_assoc]
      rfl
  | value val next ih =>
      rw [printElements, List.length_append, List.length_append] at far
      rw [snprintLoop, if_neg here, printElements, List.map_append, List.map_append, storeAll_append,
        storeAll_append, Option.bind_assoc, Option.bind_assoc]
      have separator : (if lastAtom then [some 32] else [] : Cells) = (if lastAtom then [32] else []).map some := by
        cases lastAtom <;> rfl
      have length : (if lastAtom then 1 else 0) = (if lastAtom then [32] else [] : Bytes).length := by
        cases lastAtom <;> rfl
      rw [separator, length]
      refine congrArg (Option.bind _) (funext fun cells => ?_)
      rw [snprintAtom_eq _ cells fun stop is => by
        have := far stop is
        rw [printAtom_eq] at this
        omega, ← printAtom_eq, Option.bind_map, List.length_map]
      refine congrArg (Option.bind _) (funext fun cells => ?_)
      have there : finish ≠ some (str + (if lastAtom then [32] else [] : Bytes).length + (printAtom val).length) :=
        fun is => by have := far _ is; omega
      rw [Function.comp]
      dsimp only
      rw [if_neg there, ih cells fits (fun stop is => by have := far stop is; omega) there, List.length_append,
        List.length_append, List.length_append, List.length_map, List.length_map]
      simp only [Nat.add_assoc]
  | list elts next ihElts ihNext =>
      rw [Sexp.depth] at fits
      rw [printElements, List.cons_append, List.length_cons, List.length_append] at far
      have inside : finish ≠ some (str + 1) := fun is => by have := far _ is; omega
      have behind : finish ≠ some (str + 1 + (printElements elts false).length) :=
        fun is => by have := far _ is; have := printElements_pos next false; omega
      have inner : (next :: stack).length + elts.depth < sexpParserStackSize := by
        rw [List.length_cons]
        omega
      rw [snprintLoop, if_neg here, if_pos (by omega), printElements, List.cons_append, List.map_cons, List.map_append,
        storeAll, Option.bind_assoc]
      refine congrArg (Option.bind _) (funext fun cells => ?_)
      rw [if_neg inside, ihElts cells inner (fun stop is => by have := far stop is; omega) inside, storeAll_append,
        Option.bind_assoc, List.length_map]
      refine congrArg (Option.bind _) (funext fun cells => ?_)
      rw [ihNext cells (by omega) (fun stop is => by have := far stop is; omega) behind, List.length_cons,
        List.length_append]
      simp only [Nat.add_assoc, Nat.add_comm 1]

end Snprint

/-- Where the buffer ends behind the text, or nowhere, the text is written whole with its terminator. -/
theorem sexpSnprint_eq {elts next : Sexp} (fits : elts.depth < sexpParserStackSize) (cells : Cells) (len : Int)
    (far : len = -1 ∨ (printElements elts false).length + 1 < len.toNat) :
    sexpSnprint cells len (.list elts next) =
      (storeAll cells 0 ((40 :: printElements elts false ++ [0]).map some)).map fun cells =>
        ((((printElements elts false).length + 1 : Nat) : Int), cells) := by
  have ends : ∀ stop, (if len = -1 then none else some len.toNat) = some stop →
      1 + (printElements elts false).length < stop := by
    intro stop is
    split at is
    · cases is
    · rename_i limited
      obtain rfl := Option.some.inj is
      have := far.resolve_left limited
      omega
  rw [sexpSnprint, Sexp.elements, List.cons_append, List.map_cons, List.map_append, storeAll, Option.map_bind]
  refine congrArg (Option.bind _) (funext fun cells => ?_)
  rw [snprintLoop_cons cells (by simpa using fits) ends, Option.bind_assoc, Function.comp, storeAll_append,
    Option.map_bind]
  refine congrArg (Option.bind _) (funext fun cells => ?_)
  rw [snprintLoop, Option.bind_some, List.map_singleton, List.length_map, Nat.add_comm 1, Function.comp, storeAll]
  dsimp only
  rw [Nat.add_comm _ 1]
  cases store cells (1 + (printElements elts false).length) (some 0) with
  | none => rfl
  | some cells => rfl

/-- What a buffer holds: the text with its terminator. -/
def Holds (cells : Cells) (text : Bytes) : Prop := cells.take (text.length + 1) = (text ++ [0]).map some

/-- A buffer with room for it. -/
theorem sexpSnprint_room {elts next : Sexp} (fits : elts.depth < sexpParserStackSize) {size : Nat} {len : Int}
    (far : len = -1 ∨ (printElements elts false).length + 1 < len.toNat)
    (room : (printElements elts false).length + 1 < size) :
    ∃ cells, sexpSnprint (List.replicate size none) len (.list elts next) =
        some ((((printElements elts false).length + 1 : Nat) : Int), cells) ∧
      Holds cells (40 :: printElements elts false) := by
  have written := storeAll_front [] (List.replicate size (none : Option UInt8))
    ((40 :: printElements elts false ++ [0]).map some) (by simpa using room)
  rw [List.nil_append, List.nil_append, List.length_nil] at written
  refine ⟨_, by rw [sexpSnprint_eq fits _ len far, written]; rfl, ?_⟩
  rw [Holds, List.take_left' (by simp)]

/-- The buffers that are counted are large enough: `sexp_strlen` is more than the characters of `sexp_snprint`, or
both fail, and what is sent and what is returned as a string is the text of `sexp_print`. -/
structure Fits (sx : Sexp) : Prop where
  counted : ∃ n buffer k cells, sexpStrlen sx = some n ∧ sexpSnprint buffer (-1) sx = some (k, cells) ∧
    (0 ≤ k ∧ k + 1 ≤ n ∨ k = -1 ∧ n = -1)
  sent : ∃ text cells, sexpPrint sx = some text ∧ bjsSendSx sx = some cells ∧ Holds cells text
  string : ∃ text cells, sexpPrint sx = some text ∧ sexpString sx = some cells ∧ Holds cells text

/-- The buffers are large enough where there is an atom, for which a separator is counted that is not printed, and
neither the stack nor an `int` is too small. -/
theorem sexpStrlen_fits_iff (elts next : Sexp) :
    Fits (.list elts next) ↔
      hasAtom elts = true ∧ elts.depth < sexpParserStackSize ∧ 2 + width elts < 2 ^ 31 := by
  constructor
  · intro fit
    obtain ⟨n, buffer, k, cells, counted, printed, either⟩ := fit.counted
    obtain ⟨text, sent, -, sending, -⟩ := fit.sent
    have success : 0 ≤ n := by
      refine Int.not_lt.mp fun negative => ?_
      rw [bjsSendSx, counted, Option.bind_some, Int.toNat_of_nonpos (Int.le_of_lt negative)] at sending
      cases sending
    rw [sexpStrlen, Sexp.elements] at counted
    obtain ⟨deep, small, total⟩ := strlenLoop_counted (by decide) (by decide) success counted
    rw [List.length_nil, Nat.zero_add] at deep
    refine ⟨?_, deep, small⟩
    rw [strlenLoop] at total
    obtain rfl := Option.some.inj total
    rw [sexpSnprint_eq deep buffer (-1) (.inl rfl), Option.map_eq_some_iff] at printed
    obtain ⟨_, -, same⟩ := printed
    obtain ⟨rfl, -⟩ := Prod.mk.inj same
    by_contra bare
    have length := printElements_bare (Bool.eq_false_iff.mpr bare) false
    omega
  · rintro ⟨atom, deep, small⟩
    have shorter := printElements_lt atom
    have counted : sexpStrlen (.list elts next) = some ((2 + width elts : Nat) : Int) := by
      rw [sexpStrlen, Sexp.elements, strlenLoop_cons (by simpa using deep) small, strlenLoop]
    have printed := sexpPrint_eq elts next deep
    refine ⟨?_, ?_, ?_⟩
    · obtain ⟨cells, written, -⟩ := @sexpSnprint_room elts next deep (2 + width elts) (-1) (.inl rfl) (by omega)
      exact ⟨_, _, _, cells, counted, written, .inl ⟨by omega, by omega⟩⟩
    · obtain ⟨cells, written, holds⟩ := @sexpSnprint_room elts next deep (2 + width elts) (-1) (.inl rfl) (by omega)
      refine ⟨_, cells, printed, ?_, holds⟩
      rw [bjsSendSx, counted, Option.bind_some, Int.toNat_natCast, written]
      rfl
    · obtain ⟨cells, written, holds⟩ := @sexpSnprint_room elts next deep (2 + width elts + 1)
        ((2 + width elts : Nat) : Int) (.inr (by rw [Int.toNat_natCast]; omega)) (by omega)
      refine ⟨_, cells, printed, ?_, holds⟩
      rw [sexpString, counted, Option.bind_some, ← Nat.cast_succ, Int.toNat_natCast, written]
      rfl

/-- The empty list is printed with two characters and a terminator into a buffer of two bytes. -/
theorem emptyList_exceeds : ¬ Fits (.list .null .null) := by
  rintro ⟨-, ⟨text, cells, -, sent, -⟩, -⟩
  have counted : sexpStrlen (.list .null .null) = some 2 := by
    rw [sexpStrlen, Sexp.elements, strlenLoop, strlenLoop]
    rfl
  rw [bjsSendSx, counted, Option.bind_some, sexpSnprint_eq (by decide) _ _ (.inl rfl)] at sent
  cases sent

end Xcpu.Bjs.SexpBuffer
