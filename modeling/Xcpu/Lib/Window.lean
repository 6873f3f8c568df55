import Xcpu.Lib.Overwrite

/-!
A buffer that shows a part of a text: its cells are those of the text from a place on, which may also be
before the text or behind it, and a cell that is outside of the text holds nothing.
-/

namespace Xcpu.Window

open Xcpu.Overwrite

variable {Byte : Type*}

def window (start : Int) (size : Nat) (text : List Byte) : List (Option Byte) :=
  (List.range size).map fun i : Nat => if 0 ≤ start + i then text[(start + i).toNat]? else none

/-- The bytes of a text from an offset on. -/
def slice (text : List Byte) (offset count : Nat) : List Byte := (text.drop offset).take count

variable {start : Int} {size : Nat} {text more : List Byte}

@[simp] theorem window_length : (window start size text).length = size := by simp [window]

theorem window_getElem? {i : Nat} (inside : i < size) :
    (window start size text)[i]? = some (if 0 ≤ start + i then text[(start + i).toNat]? else none) := by
  rw [window, List.getElem?_map, List.getElem?_range inside, Option.map_some]

theorem window_nil : window start size ([] : List Byte) = List.replicate size none := by
  refine List.ext_getElem? fun i => ?_
  by_cases inside : i < size
  · rw [window_getElem? inside, List.getElem?_replicate_of_lt inside]
    simp
  · rw [List.getElem?_eq_none (by simp; omega), List.getElem?_eq_none (by simp; omega)]

/-- Text that begins behind the window or ends before it does not show. -/
theorem window_append_outside
    (outside : (text.length + more.length : Int) ≤ start ∨ start + size ≤ text.length) :
    window start size (text ++ more) = window start size text := by
  refine List.map_congr_left fun i member => ?_
  have inside := List.mem_range.mp member
  by_cases before : 0 ≤ start + i
  · rw [if_pos before, if_pos before]
    rcases outside with past | ahead
    · rw [List.getElem?_eq_none (by rw [List.length_append]; omega), List.getElem?_eq_none (by omega)]
    · rw [List.getElem?_append_left (by omega)]
  · rw [if_neg before, if_neg before]

/-- Writing the part of the next text that shows. -/
theorem window_append {b e : Int} (first : b = max (text.length : Int) start)
    (last : e = min (text.length + more.length : Int) (start + size)) (some_bytes : b ≤ e) :
    overwrite (window start size text) (b - start).toNat
        (((more.drop (b - text.length).toNat).take (e - b).toNat).map some) =
      window start size (text ++ more) := by
  have count : (((more.drop (b - text.length).toNat).take (e - b).toNat).map some).length = (e - b).toNat := by
    rw [List.length_map, List.length_take, List.length_drop]
    omega
  have room : (b - start).toNat + (e - b).toNat ≤ size := by omega
  refine List.ext_getElem? fun i => ?_
  by_cases inside : i < size
  · rw [window_getElem? inside]
    by_cases before : i < (b - start).toNat
    · rw [overwrite_getElem_before _ _ _ _ before (by simpa using inside), window_getElem? inside]
      by_cases shown : 0 ≤ start + i
      · rw [if_pos shown, if_pos shown, List.getElem?_append_left (by omega)]
      · rw [if_neg shown, if_neg shown]
    · by_cases within : i < (b - start).toNat + (e - b).toNat
      · obtain ⟨k, rfl⟩ : ∃ k, i = (b - start).toNat + k := ⟨i - (b - start).toNat, by omega⟩
        have below : k < (e - b).toNat := by omega
        have shown : 0 ≤ start + ((b - start).toNat + k : Nat) := by omega
        rw [overwrite_getElem_within _ _ _ _ (by rw [count]; exact below) (by simp; omega), List.getElem?_map,
          List.getElem?_take_of_lt below, List.getElem?_drop, if_pos shown, List.getElem?_append_right (by omega)]
        have place : (start + ((b - start).toNat + k : Nat)).toNat - text.length
            = (b - text.length).toNat + k := by omega
        rw [place, List.getElem?_eq_getElem (by omega), Option.map_some]
      · rw [overwrite_getElem_after _ _ _ _ (by rw [count]; omega) (by simp; omega), window_getElem? inside]
        by_cases shown : 0 ≤ start + i
        · rw [if_pos shown, if_pos shown, List.getElem?_eq_none (by omega),
            List.getElem?_eq_none (by rw [List.length_append]; omega)]
        · rw [if_neg shown, if_neg shown]
  · rw [List.getElem?_eq_none, List.getElem?_eq_none (by simp; omega)]
    rw [overwrite_length _ _ _ (by rw [count, window_length]; exact room), window_length]
    omega

theorem slice_length (text : List Byte) (offset count : Nat) :
    (slice text offset count).length = min count (text.length - offset) := by
  rw [slice, List.length_take, List.length_drop]

/-- A window that begins in the text shows a slice. -/
theorem window_take {offset count shown : Nat} (inside : shown ≤ (slice text offset count).length) :
    (window (offset : Int) count text).take shown = ((slice text offset count).take shown).map some := by
  rw [slice_length] at inside
  refine List.ext_getElem? fun i => ?_
  by_cases below : i < shown
  · rw [List.getElem?_take_of_lt below, window_getElem? (by omega), if_pos (by omega), List.getElem?_map,
      List.getElem?_take_of_lt below, slice, List.getElem?_take_of_lt (by omega), List.getElem?_drop]
    have place : ((offset : Int) + (i : Nat)).toNat = offset + i := by omega
    rw [place, List.getElem?_eq_getElem (by omega), Option.map_some]
  · rw [List.getElem?_eq_none (by simp; omega), List.getElem?_eq_none (by simp; omega)]

end Xcpu.Window
