import Xcpu.Lib.Overwrite

/-!
Memory that a C program has allocated, cell by cell. A cell that was never written holds nothing that
the program may look at, and there is nothing beyond the last one.
-/

namespace Xcpu.Cells

variable {Byte : Type*}

/-- `realloc`: the cells that stay, and new ones. -/
def realloc (cells : List (Option Byte)) (size : Nat) : List (Option Byte) :=
  cells.take size ++ List.replicate (size - cells.length) none

theorem length_realloc (cells : List (Option Byte)) (size : Nat) : (realloc cells size).length = size := by
  rw [realloc, List.length_append, List.length_take, List.length_replicate]
  omega

theorem realloc_front (front rest : List (Option Byte)) (more : Nat) :
    realloc (front ++ rest) (front.length + more) = front ++ realloc rest more := by
  rw [realloc, realloc, List.take_length_add_append, List.length_append, Nat.add_sub_add_left, List.append_assoc]

/-- A write into one cell, if there is such a cell. -/
def store {Cell : Type*} (cells : List Cell) (place : Nat) (value : Cell) : Option (List Cell) :=
  if place < cells.length then some (cells.set place value) else none

theorem store_append {Cell : Type*} (front : List Cell) (old value : Cell) (back : List Cell) :
    store (front ++ old :: back) front.length value = some (front ++ value :: back) := by
  rw [store, if_pos (by rw [List.length_append, List.length_cons]; omega), List.set_append_right _ _ (Nat.le_refl _),
    Nat.sub_self, List.set_cons_zero]

/-- Writes into one cell after the other. -/
def storeAll {Cell : Type*} : List Cell → Nat → List Cell → Option (List Cell)
  | cells, _, [] => some cells
  | cells, place, value :: values => (store cells place value).bind fun cells => storeAll cells (place + 1) values

theorem storeAll_append {Cell : Type*} (cells : List Cell) (place : Nat) (first second : List Cell) :
    storeAll cells place (first ++ second) =
      (storeAll cells place first).bind fun cells => storeAll cells (place + first.length) second := by
  induction first generalizing cells place with
  | nil => rfl
  | cons value values ih =>
      rw [List.cons_append, storeAll, storeAll, Option.bind_assoc]
      refine congrArg (Option.bind _) (funext fun cells => ?_)
      rw [ih, List.length_cons, Nat.add_right_comm, Nat.add_assoc]

/-- What is behind the writes stays. -/
theorem storeAll_front {Cell : Type*} (front back values : List Cell) (room : values.length ≤ back.length) :
    storeAll (front ++ back) front.length values = some (front ++ values ++ back.drop values.length) := by
  induction values generalizing front back with
  | nil => rw [storeAll, List.append_nil, List.length_nil, List.drop_zero]
  | cons value values ih =>
      obtain ⟨old, back, rfl⟩ := List.exists_cons_of_length_pos (Nat.lt_of_lt_of_le (Nat.succ_pos _) room)
      have later := ih (front ++ [value]) back (Nat.le_of_succ_le_succ room)
      rw [List.append_assoc, List.singleton_append, List.length_append, List.length_singleton] at later
      rw [storeAll, store_append, Option.bind_some, later]
      simp

/-- `memmove` out of the memory: the cells must be there, and written. -/
def load (cells : List (Option Byte)) (place count : Nat) : Option (List Byte) :=
  if place + count ≤ cells.length then ((cells.drop place).take count).mapM id else none

theorem mapM_written (bytes : List Byte) : (bytes.map some).mapM id = some bytes := by
  induction bytes with
  | nil => rfl
  | cons byte bytes ih => rw [List.map_cons, List.mapM_cons, ih]; rfl

theorem load_written {bytes : List Byte} {spare : List (Option Byte)} {place count : Nat}
    (inside : place + count ≤ bytes.length) :
    load (bytes.map some ++ spare) place count = some ((bytes.drop place).take count) := by
  have room : place + count ≤ (bytes.map some ++ spare).length := by
    rw [List.length_append, List.length_map]
    omega
  have front : ((bytes.map some ++ spare).drop place).take count = ((bytes.drop place).take count).map some := by
    rw [List.drop_append_of_le_length (by rw [List.length_map]; omega),
      List.take_append_of_le_length (by rw [List.length_drop, List.length_map]; omega), List.map_take, List.map_drop]
  rw [load, if_pos room, front, mapM_written]

theorem load_unwritten {cells : List (Option Byte)} {place count : Nat}
    (hole : none ∈ (cells.drop place).take count) : load cells place count = none := by
  have unread : ∀ cells : List (Option Byte), none ∈ cells → cells.mapM id = none := by
    intro cells hole
    induction cells with
    | nil => exact absurd hole List.not_mem_nil
    | cons cell cells ih =>
        rw [List.mapM_cons]
        cases cell with
        | none => rfl
        | some byte => rw [ih ((List.mem_cons.mp hole).resolve_left (Option.some_ne_none byte).symm)]; rfl
  rw [load, unread _ hole, ite_self]

/-- What `realloc` adds cannot be read. -/
theorem load_realloc (cells : List (Option Byte)) (size : Nat) {count : Nat} (short : cells.length < count) :
    load (realloc cells size) 0 count = none := by
  by_cases fits : count ≤ size
  · apply load_unwritten
    rw [realloc, List.drop_zero, List.take_append, List.take_replicate, List.length_take]
    exact List.mem_append_right _ (List.mem_replicate.mpr ⟨by omega, rfl⟩)
  · rw [load, length_realloc, if_neg (by omega)]

/-- Writes between two places of the cells, and what they leave on both sides. -/
theorem storeAll_within {Cell : Type*} (cells values : List Cell) (place : Nat)
    (inside : place + values.length ≤ cells.length) :
    storeAll cells place values = some (Overwrite.overwrite cells place values) := by
  have front : (cells.take place).length = place := by
    rw [List.length_take]
    omega
  have stored := storeAll_front (cells.take place) (cells.drop place) values (by rw [List.length_drop]; omega)
  rw [front, List.take_append_drop, List.drop_drop] at stored
  exact stored

/-- `strchr` in a string: what is before the byte, and what is behind it. The inner `none` tells that the
string ends before. -/
def strchr (c : UInt8) : List (Option UInt8) → Option (Option (List UInt8 × List (Option UInt8)))
  | [] => none
  | none :: _ => none
  | some b :: rest =>
      if b = c then some (some ([], rest))
      else if b = 0 then some none
      else (strchr c rest).map (Option.map fun found => (b :: found.1, found.2))

/-- The string at the beginning of the memory. -/
def cstring : List (Option UInt8) → Option (List UInt8)
  | [] => none
  | none :: _ => none
  | some b :: rest => if b = 0 then some [] else (cstring rest).map (b :: ·)

variable {c : UInt8} {text : List UInt8} {rest : List (Option UInt8)}

theorem strchr_found (plain : c ∉ text) (whole : 0 ∉ text) :
    strchr c (text.map some ++ some c :: rest) = some (some (text, rest)) := by
  induction text with
  | nil => exact if_pos rfl
  | cons b text ih =>
      have other := List.ne_of_not_mem_cons plain
      have nonzero := List.ne_of_not_mem_cons whole
      rw [List.map_cons, List.cons_append, strchr, if_neg other.symm, if_neg nonzero.symm,
        ih (List.not_mem_of_not_mem_cons plain) (List.not_mem_of_not_mem_cons whole)]
      rfl

theorem cstring_eq (whole : 0 ∉ text) : cstring (text.map some ++ some 0 :: rest) = some text := by
  induction text with
  | nil => exact if_pos rfl
  | cons b text ih =>
      have nonzero := List.ne_of_not_mem_cons whole
      rw [List.map_cons, List.cons_append, cstring, if_neg nonzero.symm, ih (List.not_mem_of_not_mem_cons whole)]
      rfl

theorem cstring_unwritten (whole : 0 ∉ text) : cstring (text.map some ++ none :: rest) = none := by
  induction text with
  | nil => rfl
  | cons b text ih =>
      have nonzero := List.ne_of_not_mem_cons whole
      rw [List.map_cons, List.cons_append, cstring, if_neg nonzero.symm, ih (List.not_mem_of_not_mem_cons whole)]
      rfl

theorem strchr_unwritten (c : UInt8) (whole : 0 ∉ text) :
    strchr c (text.map some ++ none :: rest) = none ∨
      ∃ before after : List UInt8,
        strchr c (text.map some ++ none :: rest) = some (some (before, after.map some ++ none :: rest)) ∧
          after.length < text.length ∧ 0 ∉ after := by
  induction text with
  | nil => exact .inl rfl
  | cons b text ih =>
      have nonzero := List.ne_of_not_mem_cons whole
      have whole' := List.not_mem_of_not_mem_cons whole
      rw [List.map_cons, List.cons_append, strchr]
      by_cases here : b = c
      · exact .inr ⟨[], text, by rw [if_pos here], by simp, whole'⟩
      · rw [if_neg here, if_neg nonzero.symm]
        rcases ih whole' with endless | ⟨before, after, found, shorter, plain⟩
        · exact .inl (by rw [endless]; rfl)
        · refine .inr ⟨b :: before, after, by rw [found]; rfl, ?_, plain⟩
          rw [List.length_cons]
          omega

end Xcpu.Cells
