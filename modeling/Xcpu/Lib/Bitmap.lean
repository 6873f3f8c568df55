import Mathlib.Data.List.Basic
import Mathlib.Data.List.Nodup
import Mathlib.Data.List.Perm.Subperm

/-!
Sets of numbers kept as bitmaps: a list of words of one width, the bit of a number
found by division. Setting, clearing and growing change the bits they name and no other.
-/

namespace Xcpu.Bitmap

variable {width : Nat}

def bitAt (map : List (BitVec width)) (id : Nat) : Bool :=
  (map[id / width]?.getD (BitVec.ofNat width 0)).getLsbD (id % width)

def setBit (map : List (BitVec width)) (index bit : Nat) : List (BitVec width) :=
  map.modify index fun word => word ||| BitVec.ofNat width 1 <<< bit

def clearBit (map : List (BitVec width)) (index bit : Nat) : List (BitVec width) :=
  map.modify index fun word => word &&& ~~~ (BitVec.ofNat width 1 <<< bit)

@[simp] theorem setBit_length (map : List (BitVec width)) (index bit : Nat) :
    (setBit map index bit).length = map.length := List.length_modify ..

@[simp] theorem clearBit_length (map : List (BitVec width)) (index bit : Nat) :
    (clearBit map index bit).length = map.length := List.length_modify ..

theorem bitAt_outside (map : List (BitVec width)) (id : Nat) (outside : map.length ≤ id / width) :
    bitAt map id = false := by
  simp [bitAt, List.getElem?_eq_none outside]

theorem bitAt_append_zeros (map : List (BitVec width)) (count id : Nat) :
    bitAt (map ++ List.replicate count (BitVec.ofNat width 0)) id = bitAt map id := by
  rcases Nat.lt_or_ge (id / width) map.length with inside | outside
  · simp [bitAt, List.getElem?_append_left inside]
  · rw [bitAt_outside map id outside, bitAt, List.getElem?_append_right outside,
      List.getElem?_replicate]
    split <;> simp

theorem getLsbD_one_shiftLeft (bit position : Nat) (inside : position < width) :
    (BitVec.ofNat width 1 <<< bit).getLsbD position = decide (position = bit) := by
  rw [BitVec.getLsbD_shiftLeft, BitVec.getLsbD_one]
  by_cases same : position = bit
  · subst position
    simp [inside]
    omega
  · by_cases below : position < bit
    · simp [same, below]
    · simp [same]
      intros
      omega

theorem split_eq (id index bit : Nat) (small : bit < width) :
    id = index * width + bit ↔ id / width = index ∧ id % width = bit := by
  constructor
  · intro same
    subst id
    rw [Nat.mul_comm, Nat.mul_add_div (by omega), Nat.mul_add_mod, Nat.div_eq_of_lt small,
      Nat.mod_eq_of_lt small]
    exact ⟨rfl, rfl⟩
  · intro ⟨quotient, remainder⟩
    rw [← quotient, ← remainder, Nat.mul_comm]
    exact (Nat.div_add_mod id width).symm

theorem bitAt_setBit (map : List (BitVec width)) (index bit id : Nat) (small : bit < width)
    (inside : index < map.length) :
    bitAt (setBit map index bit) id = (decide (id = index * width + bit) || bitAt map id) := by
  have position : id % width < width := Nat.mod_lt _ (by omega)
  rw [bitAt, setBit, List.getElem?_modify]
  by_cases here : index = id / width
  · rw [List.getElem?_eq_getElem (here ▸ inside), Option.map_eq_map, Option.map_some,
      Option.getD_some, if_pos here, BitVec.getLsbD_or, getLsbD_one_shiftLeft _ _ position, bitAt,
      List.getElem?_eq_getElem (here ▸ inside), Option.getD_some, Bool.or_comm]
    simp only [split_eq id index bit small, here.symm, true_and]
  · have other : ¬ id = index * width + bit := fun same =>
      here ((split_eq id index bit small).mp same).1.symm
    simp [here, other, bitAt]

theorem bitAt_clearBit (map : List (BitVec width)) (index bit id : Nat) (small : bit < width) :
    bitAt (clearBit map index bit) id = (!decide (id = index * width + bit) && bitAt map id) := by
  have position : id % width < width := Nat.mod_lt _ (by omega)
  rw [bitAt, clearBit, List.getElem?_modify]
  by_cases here : index = id / width
  · rcases Nat.lt_or_ge (id / width) map.length with inside | outside
    · rw [List.getElem?_eq_getElem inside, Option.map_eq_map, Option.map_some, Option.getD_some,
        if_pos here, BitVec.getLsbD_and, BitVec.getLsbD_not, getLsbD_one_shiftLeft _ _ position, bitAt,
        List.getElem?_eq_getElem inside, Option.getD_some, Bool.and_comm]
      simp [split_eq id index bit small, here.symm, position]
    · rw [bitAt_outside map id outside, List.getElem?_eq_none outside]
      simp
  · have other : ¬ id = index * width + bit := fun same =>
      here ((split_eq id index bit small).mp same).1.symm
    simp [here, other, bitAt]

theorem bitAt_before_findIdx (map : List (BitVec width)) (id : Nat) (positive : 0 < width)
    (before : id / width < map.findIdx (· ≠ BitVec.allOnes width)) : bitAt map id = true := by
  have inside : id / width < map.length := Nat.lt_of_lt_of_le before List.findIdx_le_length
  have full := List.not_of_lt_findIdx before
  simp only [ne_eq, decide_not, Bool.not_eq_false', decide_eq_true_eq] at full
  rw [bitAt, List.getElem?_eq_getElem inside, Option.getD_some, full, BitVec.getLsbD_allOnes]
  exact decide_eq_true (Nat.mod_lt _ positive)

theorem exists_missing (members : List Nat) (bound : Nat) (fewer : members.length < bound) :
    ∃ id, id < bound ∧ id ∉ members := by
  by_contra none_missing
  have covered : List.range bound ⊆ members := by
    intro id inRange
    by_contra missing
    exact none_missing ⟨id, List.mem_range.mp inRange, missing⟩
  have length := (List.subperm_of_subset List.nodup_range covered).length_le
  rw [List.length_range] at length
  omega

theorem mem_of_length {members : List Nat} {bound : Nat} (distinct : members.Nodup)
    (below : ∀ id ∈ members, id < bound) (enough : bound ≤ members.length) :
    ∀ id < bound, id ∈ members := by
  have inside : members ⊆ List.range bound := fun id member => List.mem_range.mpr (below id member)
  have perm := (List.subperm_of_subset distinct inside).perm_of_length_le (by rw [List.length_range]; exact enough)
  intro id small
  exact perm.mem_iff.mpr (List.mem_range.mpr small)

end Xcpu.Bitmap
