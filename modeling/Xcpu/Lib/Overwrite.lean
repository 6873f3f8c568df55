import Mathlib.Algebra.Order.Ring.Int
import Mathlib.Data.List.Basic

/-!
Writes into the middle of a buffer: into a list, as `memmove` does, and into a file
whose bytes are addressed by a 64-bit offset that wraps around.
-/

namespace Xcpu.Overwrite

variable {Byte : Type*}

def overwrite (buf : List Byte) (start : Nat) (data : List Byte) : List Byte :=
  buf.take start ++ data ++ buf.drop (start + data.length)

theorem overwrite_length (buf : List Byte) (start : Nat) (data : List Byte)
    (room : start + data.length ≤ buf.length) : (overwrite buf start data).length = buf.length := by
  simp only [overwrite, List.length_append, List.length_take, List.length_drop]
  omega

theorem overwrite_getElem_before (buf : List Byte) (start : Nat) (data : List Byte) (index : Nat)
    (before : index < start) (inside : index < buf.length) :
    (overwrite buf start data)[index]? = buf[index]? := by
  rw [overwrite, List.append_assoc, List.getElem?_append_left, List.getElem?_take_of_lt before]
  rw [List.length_take]
  omega

theorem overwrite_getElem_within (buf : List Byte) (start : Nat) (data : List Byte) (index : Nat)
    (within : index < data.length) (room : start ≤ buf.length) :
    (overwrite buf start data)[start + index]? = data[index]? := by
  have front : (buf.take start).length = start := by
    rw [List.length_take]
    omega
  rw [overwrite, List.append_assoc, List.getElem?_append_right (by omega), front,
    Nat.add_sub_cancel_left, List.getElem?_append_left within]

theorem overwrite_getElem_after (buf : List Byte) (start : Nat) (data : List Byte) (index : Nat)
    (after : start + data.length ≤ index) (room : start ≤ buf.length) :
    (overwrite buf start data)[index]? = buf[index]? := by
  have front : (buf.take start ++ data).length = start + data.length := by
    rw [List.length_append, List.length_take]
    omega
  rw [overwrite, List.getElem?_append_right (by omega), front, List.getElem?_drop, Nat.add_sub_cancel' after]

theorem overwrite_nil (buf : List Byte) (start : Nat) : overwrite buf start [] = buf := by
  rw [overwrite, List.append_nil, List.length_nil, Nat.add_zero, List.take_append_drop]

theorem overwrite_take (buf : List Byte) (start : Nat) (data : List Byte) (count : Nat) (before : count ≤ start)
    (inside : start ≤ buf.length) : (overwrite buf start data).take count = buf.take count := by
  rw [overwrite, List.append_assoc, List.take_append_of_le_length (by rw [List.length_take]; omega), List.take_take,
    Nat.min_eq_left before]

theorem overwrite_drop (buf : List Byte) (start : Nat) (data : List Byte) (count : Nat)
    (inside : count + start ≤ buf.length) :
    (overwrite buf (count + start) data).drop count = overwrite (buf.drop count) start data := by
  rw [overwrite, overwrite, List.append_assoc, List.drop_append_of_le_length (by rw [List.length_take]; omega),
    List.drop_take, Nat.add_sub_cancel_left, List.drop_drop, Nat.add_assoc, List.append_assoc]

/-- A write that starts within the buffer goes on into what follows. -/
theorem overwrite_append (buf rest : List Byte) (start : Nat) (data : List Byte) (inside : start ≤ buf.length) :
    overwrite (buf ++ rest) start data = overwrite buf start data ++ rest.drop (start + data.length - buf.length) := by
  rw [overwrite, overwrite, List.take_append_of_le_length inside, List.drop_append, List.append_assoc,
    List.append_assoc, List.append_assoc]

theorem overwrite_map {Cell : Type*} (value : Byte → Cell) (buf : List Byte) (start : Nat) (data : List Byte) :
    (overwrite buf start data).map value = overwrite (buf.map value) start (data.map value) := by
  rw [overwrite, overwrite, List.map_append, List.map_append, List.map_take, List.map_drop, List.length_map]

theorem overwrite_end (buf data : List Byte) : overwrite buf buf.length data = buf ++ data := by
  rw [overwrite, List.take_length, List.drop_of_length_le (Nat.le_add_right _ _), List.append_nil]

theorem overwrite_length_max (buf : List Byte) (start : Nat) (data : List Byte) (inside : start ≤ buf.length) :
    (overwrite buf start data).length = max buf.length (start + data.length) := by
  simp only [overwrite, List.length_append, List.length_take, List.length_drop]
  omega

def storeAt (file : UInt64 → Byte) (offset : UInt64) (data : List Byte) : UInt64 → Byte :=
  fun address => (data[(address - offset).toNat]?).getD (file address)

theorem sub_add_toNat (offset : UInt64) (distance : Nat) (small : distance < 2 ^ 64) :
    (offset + UInt64.ofNat distance - offset).toNat = distance := by
  have cancel : offset + UInt64.ofNat distance - offset = UInt64.ofNat distance := by
    rw [UInt64.add_comm, UInt64.add_sub_cancel]
  rw [cancel, UInt64.toNat_ofNat']
  omega

theorem storeAt_within (file : UInt64 → Byte) (offset : UInt64) (data : List Byte) (index : Nat)
    (within : index < data.length) (small : index < 2 ^ 64) :
    some (storeAt file offset data (offset + UInt64.ofNat index)) = data[index]? := by
  rw [storeAt, sub_add_toNat offset index small, List.getElem?_eq_getElem within, Option.getD_some]

/-- Addresses counted from a common base stay apart until the offset wraps onto the base. -/
theorem storeAt_outside (file : UInt64 → Byte) (base : UInt64) (start : Nat) (data : List Byte)
    (index : Nat) (outside : index < start ∨ start + data.length ≤ index)
    (smallEnd : start + data.length ≤ 2 ^ 64) (small : index < 2 ^ 64) :
    storeAt file (base + UInt64.ofNat start) data (base + UInt64.ofNat index) =
      file (base + UInt64.ofNat index) := by
  have far : data.length ≤
      (base + UInt64.ofNat index - (base + UInt64.ofNat start)).toNat := by
    simp only [UInt64.toNat_sub, UInt64.toNat_add, UInt64.toNat_ofNat']
    omega
  rw [storeAt, List.getElem?_eq_none far, Option.getD_none]

end Xcpu.Overwrite
