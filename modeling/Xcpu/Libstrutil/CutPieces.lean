import Xcpu.Xcpufs.TextReads

/-!
A text that is cut out of pieces: `cutbuf` is called once for each string, at offsets that run on, and the numbers
that it returns are added up. Together the calls copy the part of the whole text that the window shows.
-/

namespace Xcpu.Libstrutil.CutPieces

open Xcpu.Overwrite
open Xcpu.Xcpufs.TextReads (Data IsInt cutbuf)

/-- The calls for the strings with their running offset, and the counts that they return. -/
def cutPieces (toffset tcount : Int) : List (List UInt8) → Data → Int → Option (Data × List Int)
  | [], target, _ => some (target, [])
  | piece :: more, target, soffset =>
      (cutbuf target toffset tcount piece soffset).bind fun (target, n) =>
        (cutPieces toffset tcount more target (soffset + piece.length)).map fun (target, counts) => (target, n :: counts)

/-- The byte of a text at `soffset` that belongs at an index of the target. -/
def shown (toffset tcount soffset : Int) (text : List UInt8) (i : Nat) : Option UInt8 :=
  if i < tcount ∧ soffset ≤ toffset + i then text[(toffset + i - soffset).toNat]? else none

/-- The bytes of the text that the window shows. -/
def shownBytes (toffset tcount soffset : Int) (text : List UInt8) : List UInt8 :=
  (List.range tcount.toNat).filterMap (shown toffset tcount soffset text)

/-- The target has the bytes that show in their places, and is as it was elsewhere. -/
structure Copied (toffset tcount soffset : Int) (text : List UInt8) (target copied : Data) : Prop where
  length : copied.length = target.length
  bytes : ∀ i < target.length, copied[i]? =
    match shown toffset tcount soffset text i with
    | some byte => some (some byte)
    | none => target[i]?

variable {toffset tcount soffset : Int} {text piece : List UInt8} {target copied : Data}

theorem shown_iff {i : Nat} :
    (shown toffset tcount soffset text i).isSome ↔
      i < tcount ∧ soffset ≤ toffset + i ∧ toffset + i < soffset + text.length := by
  rw [shown]
  split
  · rename_i inside
    rw [isSome_getElem?]
    constructor
    · intro below
      omega
    · intro below
      omega
  · rename_i outside
    simp only [Option.isSome_none, Bool.false_eq_true, false_iff]
    omega

theorem shown_none {i : Nat}
    (outside : ¬(i < tcount ∧ soffset ≤ toffset + i ∧ toffset + i < soffset + text.length)) :
    shown toffset tcount soffset text i = none := by
  rw [← Option.not_isSome_iff_eq_none, shown_iff]
  exact outside

/-- A byte of a text in two parts is a byte of the first, or of the second behind it. -/
theorem shown_append (i : Nat) :
    shown toffset tcount soffset (piece ++ text) i =
      (shown toffset tcount soffset piece i).or (shown toffset tcount (soffset + piece.length) text i) := by
  by_cases inside : i < tcount ∧ soffset ≤ toffset + i
  · by_cases first : toffset + i < soffset + piece.length
    · have here : shown toffset tcount soffset (piece ++ text) i = shown toffset tcount soffset piece i := by
        rw [shown, shown, if_pos inside, if_pos inside, List.getElem?_append_left (by omega)]
      rw [here, @shown_none _ _ _ text _ (by omega), Option.or_none]
    · have there : (toffset + i - soffset).toNat - piece.length = (toffset + i - (soffset + piece.length)).toNat := by
        omega
      rw [@shown_none _ _ _ piece _ (by omega), Option.none_or, shown, shown, if_pos inside,
        if_pos (by omega), List.getElem?_append_right (by omega), there]
  · rw [shown, shown, shown, if_neg inside, if_neg inside, if_neg (by omega), Option.or_none]

theorem countP_range_between (low high n : Nat) :
    (List.range n).countP (fun i => decide (low ≤ i ∧ i < high)) = min high n - low := by
  induction n with
  | zero => simp
  | succ n ih =>
      rw [List.range_succ, List.countP_append, ih, List.countP_singleton]
      split
      · rename_i inside
        rw [decide_eq_true_eq] at inside
        omega
      · rename_i outside
        rw [decide_eq_true_eq] at outside
        omega

theorem shownBytes_length (count : 0 ≤ tcount) :
    ((shownBytes toffset tcount soffset text).length : Int) =
      max 0 (min (soffset + text.length) (toffset + tcount) - max soffset toffset) := by
  have places : (List.range tcount.toNat).countP (fun i => (shown toffset tcount soffset text i).isSome) =
      (List.range tcount.toNat).countP
        (fun i => decide ((soffset - toffset).toNat ≤ i ∧ i < (soffset + text.length - toffset).toNat)) := by
    refine List.countP_congr fun i member => ?_
    have below := List.mem_range.mp member
    rw [shown_iff, decide_eq_true_eq]
    omega
  rw [shownBytes, List.length_filterMap_eq_countP, places, countP_range_between]
  omega

theorem shownBytes_append (count : 0 ≤ tcount) :
    (shownBytes toffset tcount soffset (piece ++ text)).length =
      (shownBytes toffset tcount soffset piece).length +
        (shownBytes toffset tcount (soffset + piece.length) text).length := by
  have whole : ((shownBytes toffset tcount soffset (piece ++ text)).length : Int) = _ := shownBytes_length count
  have first : ((shownBytes toffset tcount soffset piece).length : Int) = _ := shownBytes_length count
  have second : ((shownBytes toffset tcount (soffset + piece.length) text).length : Int) = _ :=
    shownBytes_length count
  rw [List.length_append] at whole
  omega

theorem Copied.nil : Copied toffset tcount soffset [] target target where
  length := rfl
  bytes i _ := by rw [shown_none (by rw [List.length_nil]; omega)]

theorem Copied.append {between : Data} (first : Copied toffset tcount soffset piece target between)
    (second : Copied toffset tcount (soffset + piece.length) text between copied) :
    Copied toffset tcount soffset (piece ++ text) target copied where
  length := second.length.trans first.length
  bytes i inside := by
    rw [second.bytes i (first.length ▸ inside), first.bytes i inside, shown_append]
    by_cases both : (shown toffset tcount soffset piece i).isSome
    · have apart : shown toffset tcount (soffset + piece.length) text i = none := by
        rw [shown_iff] at both
        exact shown_none (by omega)
      obtain ⟨byte, here⟩ := Option.isSome_iff_exists.mp both
      rw [apart, here, Option.some_or]
    · rw [Option.not_isSome_iff_eq_none.mp both, Option.none_or]

/-- One call copies what shows of its piece, and returns how much that is. -/
theorem cutbuf_copied (count : 0 ≤ tcount) (room : tcount ≤ target.length) (stop : IsInt (toffset + tcount))
    (first : 0 ≤ soffset) (last : IsInt (soffset + piece.length)) :
    ∃ copied, cutbuf target toffset tcount piece soffset =
        some (copied, ((shownBytes toffset tcount soffset piece).length : Int)) ∧
      Copied toffset tcount soffset piece target copied := by
  have ints : ¬(¬IsInt (piece.length : Int) ∨ ¬IsInt (soffset + piece.length)) := by
    simp only [IsInt] at last ⊢
    omega
  rw [shownBytes_length count, cutbuf]
  dsimp only
  rw [if_neg ints]
  by_cases past : toffset > soffset + piece.length
  · have none : max 0 (min (soffset + (piece.length : Int)) (toffset + tcount) - max soffset toffset) = 0 := by omega
    refine ⟨target, ?_, rfl, fun i inside => ?_⟩
    · rw [if_pos past, none]
    · rw [shown_none (by omega)]
  rw [if_neg past, if_neg (not_not.mpr stop)]
  by_cases ahead : soffset > toffset + tcount
  · have none : max 0 (min (soffset + (piece.length : Int)) (toffset + tcount) - max soffset toffset) = 0 := by omega
    refine ⟨target, ?_, rfl, fun i inside => ?_⟩
    · rw [if_pos ahead, none]
    · rw [shown_none (by omega)]
  rw [if_neg ahead]
  generalize start : max soffset toffset = b
  generalize close : min (soffset + piece.length) (toffset + tcount) = e
  have order : b ≤ e ∧ e - toffset ≤ target.length := by omega
  have size : (((piece.drop (b - soffset).toNat).take (e - b).toNat).map some).length = (e - b).toNat := by
    rw [List.length_map, List.length_take, List.length_drop]
    omega
  rw [if_pos order, Int.max_eq_right (by omega)]
  refine ⟨_, rfl, ?_, fun i inside => ?_⟩
  · exact overwrite_length _ _ _ (by omega)
  · by_cases before : i < (b - toffset).toNat
    · rw [overwrite_getElem_before _ _ _ _ before inside, shown_none (by omega)]
    by_cases within : i < (e - toffset).toNat
    · obtain ⟨k, rfl⟩ : ∃ k, i = (b - toffset).toNat + k := ⟨i - (b - toffset).toNat, by omega⟩
      have place : (toffset + ((b - toffset).toNat + k : Nat) - soffset).toNat = (b - soffset).toNat + k := by omega
      obtain ⟨byte, here⟩ : ∃ byte, piece[(b - soffset).toNat + k]? = some byte :=
        ⟨_, List.getElem?_eq_getElem (by omega)⟩
      have shows : shown toffset tcount soffset piece ((b - toffset).toNat + k) = some byte := by
        rw [shown, if_pos (by omega), place, here]
      rw [overwrite_getElem_within _ _ _ _ (by omega) (by omega), List.getElem?_map,
        List.getElem?_take_of_lt (by omega), List.getElem?_drop, here, shows, Option.map_some]
    · rw [overwrite_getElem_after _ _ _ _ (by omega) (by omega), shown_none (by omega)]

/-- The calls copy what the window shows of the whole text, each returns how much it copies, and that adds up. -/
theorem cutPieces_copied (pieces : List (List UInt8)) (count : 0 ≤ tcount) (room : tcount ≤ target.length)
    (stop : IsInt (toffset + tcount)) (first : 0 ≤ soffset) (last : IsInt (soffset + pieces.flatten.length)) :
    ∃ copied counts, cutPieces toffset tcount pieces target soffset = some (copied, counts) ∧
      Copied toffset tcount soffset pieces.flatten target copied ∧
      counts.length = pieces.length ∧ (∀ n ∈ counts, 0 ≤ n) ∧
      counts.sum = (shownBytes toffset tcount soffset pieces.flatten).length := by
  induction pieces generalizing target soffset with
  | nil =>
      refine ⟨target, [], rfl, .nil, rfl, by simp, ?_⟩
      rw [shownBytes_length count]
      simp only [List.flatten_nil, List.length_nil, List.sum_nil]
      omega
  | cons piece more ih =>
      rw [List.flatten_cons, List.length_append, Nat.cast_add, ← Int.add_assoc] at last
      have here : IsInt (soffset + piece.length) := by
        simp only [IsInt] at last ⊢
        omega
      obtain ⟨between, cut, piece_copied⟩ := cutbuf_copied count room stop first here
      obtain ⟨copied, counts, cuts, more_copied, calls, positive, sum⟩ :=
        ih (piece_copied.length ▸ room) (by omega) last
      refine ⟨copied, ((shownBytes toffset tcount soffset piece).length : Int) :: counts, ?_, piece_copied.append more_copied, ?_, ?_, ?_⟩
      · rw [cutPieces, cut, Option.bind_some]
        dsimp only
        rw [cuts, Option.map_some]
      · rw [List.length_cons, List.length_cons, calls]
      · exact List.forall_mem_cons.mpr ⟨Int.natCast_nonneg _, positive⟩
      · rw [List.sum_cons, sum, List.flatten_cons, shownBytes_append count, Nat.cast_add]

/-- A window across three strings, the middle one of which is empty. -/
theorem cutPieces_across :
    ∃ copied counts, cutPieces 1 3 [[97, 98, 99], [], [100, 101]] [none, none, none, some 7] 0 = some (copied, counts) ∧
      Copied 1 3 0 [97, 98, 99, 100, 101] [none, none, none, some 7] copied ∧
      counts.length = 3 ∧ (∀ n ∈ counts, 0 ≤ n) ∧ counts.sum = (shownBytes 1 3 0 [97, 98, 99, 100, 101]).length :=
  cutPieces_copied [[97, 98, 99], [], [100, 101]] (by decide) (by decide) (by decide) (by decide) (by decide)

end Xcpu.Libstrutil.CutPieces
