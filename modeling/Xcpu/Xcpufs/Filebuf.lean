import Xcpu.Lib.Cells
import Xcpu.Lib.Transition
import Mathlib.Data.UInt

/-!
The buffers of the `argv` and `env` files (`xcpufs.c`) against arrays of bytes. Offsets have 64 bits, counts
32, and the size is an `int`.
-/

namespace Xcpu.Xcpufs.Filebuf

open Xcpu.Cells Xcpu.Overwrite Xcpu.Transition

/-- `buf` is the memory that has been allocated, which may go on behind the size. -/
structure Xfilebuf where
  size : Int32
  buf : List (Option UInt8)
  deriving DecidableEq

/-- The size in a comparison with 64-bit numbers. -/
def Xfilebuf.bound (fbuf : Xfilebuf) : Nat := (fbuf.size.toInt % 2 ^ 64).toNat

/-- `offset+count` -/
def sum (offset : UInt64) (count : Nat) : Nat := (offset.toNat + count) % 2 ^ 64

/-- The count that is left when the end is behind the size; it is unsigned, so that it is never below 0. -/
def clip (fbuf : Xfilebuf) (offset : UInt64) (count : Nat) : Nat :=
  if fbuf.bound < sum offset count then (fbuf.bound + 2 ^ 64 - offset.toNat) % 2 ^ 64 % 2 ^ 32 else count

/-- The bytes that are copied. Nothing may be read behind the memory, or written behind the room for the reply. -/
def bufread (fbuf : Xfilebuf) (offset : UInt64) (count : UInt32) : Option (List (Option UInt8)) :=
  let left := clip fbuf offset count.toNat
  if left = 0 then some []
  else if offset.toNat + left ≤ fbuf.buf.length ∧ left ≤ count.toNat then
    some ((fbuf.buf.drop offset.toNat).take left)
  else none

/-- `realloc` for an end behind the size. -/
def grow (allocates : Bool) (fbuf : Xfilebuf) (size : Nat) : Xfilebuf :=
  if fbuf.bound < size ∧ allocates then { size := Int32.ofNat size, buf := realloc fbuf.buf size } else fbuf

/-- How much of the data has been written is told with the buffer. -/
def bufwrite (allocates : Bool) (fbuf : Xfilebuf) (offset : UInt64) (data : List UInt8) : Option (Xfilebuf × Nat) :=
  let fbuf := grow allocates fbuf (sum offset data.length)
  let left := clip fbuf offset data.length
  if left = 0 then some (fbuf, 0)
  else if offset.toNat + left ≤ fbuf.buf.length ∧ left ≤ data.length then
    some ({ fbuf with buf := overwrite fbuf.buf offset.toNat ((data.take left).map some) }, left)
  else none

/-- The buffer has these bytes. -/
structure Holds (fbuf : Xfilebuf) (bytes : List UInt8) : Prop where
  size : fbuf.size.toInt = bytes.length
  cells : fbuf.buf.take bytes.length = bytes.map some

/-- The array after a write: what is between its end and the offset is zero. -/
def stored (bytes : List UInt8) (offset : Nat) (data : List UInt8) : List UInt8 :=
  overwrite (bytes ++ List.replicate (offset + data.length - bytes.length) 0) offset data

/-- The array after a write that cannot make it longer. -/
def storedInside (bytes : List UInt8) (offset : Nat) (data : List UInt8) : List UInt8 :=
  overwrite bytes offset (data.take (bytes.length - offset))

def loaded (bytes : List UInt8) (offset count : Nat) : List UInt8 := (bytes.drop offset).take count

/-- What is done to a buffer. -/
inductive Access where
  | read (offset : UInt64) (count : UInt32)
  | write (allocates : Bool) (offset : UInt64) (data : {data : List UInt8 // data.length < 2 ^ 32})

/-- A buffer and an array of bytes side by side, with what has been read from each, and whether the writes without
new memory have kept to the size. -/
structure Sides where
  fbuf : Xfilebuf
  kept : Bool := true
  got : List (List (Option UInt8)) := []
  bytes : List UInt8
  want : List (List UInt8) := []

def step (sides : Sides) : Access → Option Sides
  | .read offset count => do
      let data ← bufread sides.fbuf offset count
      return { sides with got := sides.got ++ [data], want := sides.want ++ [loaded sides.bytes offset.toNat count.toNat] }
  | .write allocates offset data => do
      let (fbuf, count) ← bufwrite allocates sides.fbuf offset data
      let bytes := if allocates then stored sides.bytes offset.toNat data else storedInside sides.bytes offset.toNat data
      let kept := sides.kept && (allocates || count = 0 || offset.toNat + count ≤ sides.bytes.length)
      return { sides with fbuf, bytes, kept }

/-- The buffer has the bytes of the array, and the same has been read from both. -/
structure Same (sides : Sides) : Prop where
  holds : Holds sides.fbuf sides.bytes
  kept : sides.kept = true
  reads : sides.got = sides.want.map (List.map some)

/-- Behind the end, the count that is left over in 32 bits is 0. -/
def MissesEnd (fbuf : Xfilebuf) (offset : UInt64) (count : Nat) : Prop :=
  fbuf.bound < sum offset count ∧ (fbuf.bound + 2 ^ 64 - offset.toNat) % 2 ^ 32 = 0

/-- A read or a write without memory begins inside, or nothing is left of it; a write with memory ends inside, or
where an `int` can say and with zeros in the memory up to its offset. -/
def Fits (sides : Sides) : Access → Prop
  | .read offset count => offset.toNat ≤ sides.fbuf.bound ∨ MissesEnd sides.fbuf offset count.toNat
  | .write true offset ⟨data, _⟩ => offset.toNat + data.length ≤ sides.fbuf.bound ∨
      offset.toNat + data.length < 2 ^ 31 ∧
        ∀ i, sides.fbuf.bound ≤ i → i < offset.toNat → sides.fbuf.buf[i]? = some (some 0)
  | .write false offset ⟨data, _⟩ => offset.toNat ≤ sides.fbuf.bound ∨ MissesEnd sides.fbuf offset data.length

section Clipping

variable {fbuf : Xfilebuf} {bytes : List UInt8} {offset : UInt64} {count : Nat}

theorem Holds.bound (holds : Holds fbuf bytes) : fbuf.bound = bytes.length ∧ bytes.length < 2 ^ 31 := by
  have most := fbuf.size.toInt_lt
  rw [holds.size] at most
  rw [Xfilebuf.bound, holds.size]
  omega

theorem Holds.room (holds : Holds fbuf bytes) : bytes.length ≤ fbuf.buf.length := by
  have same := congrArg List.length holds.cells
  rw [List.length_take, List.length_map] at same
  omega

theorem clip_inside (holds : Holds fbuf bytes) (inside : offset.toNat ≤ bytes.length) (small : count < 2 ^ 32) :
    clip fbuf offset count = min count (bytes.length - offset.toNat) := by
  obtain ⟨same, less⟩ := holds.bound
  rw [clip, same, sum]
  split <;> omega

theorem clip_outside (holds : Holds fbuf bytes) (outside : bytes.length < offset.toNat) :
    clip fbuf offset count = 0 ↔ MissesEnd fbuf offset count := by
  obtain ⟨same, less⟩ := holds.bound
  have wide := offset.toNat_lt
  rw [clip, MissesEnd, same, sum]
  split <;> omega

theorem Holds.cells_inside (holds : Holds fbuf bytes) {start length : Nat} (inside : start + length ≤ bytes.length) :
    (fbuf.buf.drop start).take length = ((bytes.drop start).take length).map some := by
  have first : (fbuf.buf.drop start).take length = ((fbuf.buf.take bytes.length).drop start).take length := by
    rw [List.drop_take, List.take_take, min_eq_left (by omega)]
  rw [first, holds.cells, List.map_take, List.map_drop]

theorem bufread_iff (holds : Holds fbuf bytes) (count : UInt32) :
    bufread fbuf offset count = some ((loaded bytes offset.toNat count.toNat).map some) ↔
      offset.toNat ≤ fbuf.bound ∨ MissesEnd fbuf offset count.toNat := by
  have room := holds.room
  have small := count.toNat_lt
  rw [holds.bound.1, bufread, loaded]
  by_cases inside : offset.toNat ≤ bytes.length
  · have left : (bytes.drop offset.toNat).take count.toNat =
        (bytes.drop offset.toNat).take (min count.toNat (bytes.length - offset.toNat)) := by
      rw [List.take_eq_take_iff, List.length_drop]
      omega
    rw [clip_inside holds inside small, left]
    refine iff_of_true ?_ (.inl inside)
    split
    · rename_i nothing
      rw [nothing, List.take_zero]
      rfl
    · rw [if_pos (by omega), holds.cells_inside (by omega)]
  · have outside := not_le.mp inside
    have none_ : (bytes.drop offset.toNat).take count.toNat = [] := by
      rw [List.drop_eq_nil_of_le outside.le, List.take_nil]
    rw [or_iff_right inside, ← clip_outside holds outside, none_]
    constructor
    · intro copied
      by_contra some_
      rw [if_neg some_] at copied
      split at copied
      · rename_i within
        have length := congrArg List.length (Option.some.inj copied)
        rw [List.length_take, List.length_drop, List.map_nil, List.length_nil] at length
        omega
      · cases copied
    · intro nothing
      rw [if_pos nothing]
      rfl

theorem Holds.overwrite (holds : Holds fbuf bytes) {start : Nat} {data : List UInt8}
    (inside : start + data.length ≤ bytes.length) :
    Holds { fbuf with buf := Overwrite.overwrite fbuf.buf start (data.map some) }
      (Overwrite.overwrite bytes start data) := by
  have same := overwrite_length bytes start data inside
  have room := holds.room
  constructor
  · rw [same]
    exact holds.size
  · have front : fbuf.buf.take start = (bytes.take start).map some := by
      rw [List.map_take, ← holds.cells, List.take_take, min_eq_left (by omega)]
    have back : (fbuf.buf.drop (start + data.length)).take (bytes.length - (start + data.length)) =
        (bytes.drop (start + data.length)).map some := by
      rw [List.map_drop, ← holds.cells, List.drop_take]
    have size : (fbuf.buf.take start).length = start := by
      rw [List.length_take]
      omega
    have first : (fbuf.buf.take start).take bytes.length = fbuf.buf.take start :=
      List.take_of_length_le (by omega)
    have middle : (data.map some).take (bytes.length - start) = data.map some :=
      List.take_of_length_le (by rw [List.length_map]; omega)
    rw [same, Overwrite.overwrite, Overwrite.overwrite, List.length_map, List.append_assoc, List.take_append, size,
      List.take_append, List.length_map, first, middle, Nat.sub_sub, back, front, List.map_append, List.map_append,
      List.append_assoc]

theorem bufwrite_false_iff (holds : Holds fbuf bytes) {data : List UInt8} (small : data.length < 2 ^ 32) :
    (∃ next left, bufwrite false fbuf offset data = some (next, left) ∧
      Holds next (storedInside bytes offset.toNat data) ∧ (left = 0 ∨ offset.toNat + left ≤ bytes.length)) ↔
    offset.toNat ≤ fbuf.bound ∨ MissesEnd fbuf offset data.length := by
  have room := holds.room
  have still : grow false fbuf (sum offset data.length) = fbuf := if_neg (by simp)
  rw [holds.bound.1, bufwrite, still, storedInside]
  by_cases inside : offset.toNat ≤ bytes.length
  · rw [clip_inside holds inside small]
    refine iff_of_true ?_ (.inl inside)
    have part : data.take (min data.length (bytes.length - offset.toNat)) =
        data.take (bytes.length - offset.toNat) := by
      rw [List.take_eq_take_iff]
      omega
    split
    · rename_i nothing
      have none_ : data.take (bytes.length - offset.toNat) = [] := by
        rw [← part, nothing, List.take_zero]
      refine ⟨fbuf, 0, rfl, ?_, .inl rfl⟩
      rw [none_, overwrite_nil]
      exact holds
    · rw [if_pos (by omega), part]
      refine ⟨_, _, rfl, holds.overwrite ?_, .inr (by omega)⟩
      rw [List.length_take]
      omega
  · have outside := not_le.mp inside
    have none_ : data.take (bytes.length - offset.toNat) = [] := by
      rw [Nat.sub_eq_zero_of_le outside.le, List.take_zero]
    rw [or_iff_right inside, ← clip_outside holds outside, none_, overwrite_nil]
    constructor
    · rintro ⟨next, left, written, -, kept⟩
      by_contra some_
      rw [if_neg some_] at written
      split at written
      · rw [Option.some.injEq, Prod.mk.injEq] at written
        obtain ⟨-, rfl⟩ := written
        omega
      · cases written
    · intro nothing
      rw [if_pos nothing]
      exact ⟨fbuf, 0, rfl, holds, .inl rfl⟩

theorem realloc_take_iff (holds : Holds fbuf bytes) {start size : Nat} (inside : start ≤ size) :
    (realloc fbuf.buf size).take start = ((bytes ++ List.replicate (size - bytes.length) 0).take start).map some ↔
      ∀ i, bytes.length ≤ i → i < start → fbuf.buf[i]? = some (some 0) := by
  have room := holds.room
  have old : ∀ i, i < bytes.length → fbuf.buf[i]? = (bytes[i]?).map some := by
    intro i early
    have same : (fbuf.buf.take bytes.length)[i]? = (bytes.map some)[i]? := congrArg (·[i]?) holds.cells
    rw [List.getElem?_take_of_lt early, List.getElem?_map] at same
    exact same
  have new : ∀ i, i < size → (realloc fbuf.buf size)[i]? =
      if i < fbuf.buf.length then fbuf.buf[i]? else some none := by
    intro i early
    rw [realloc]
    by_cases had : i < fbuf.buf.length
    · rw [if_pos had, List.getElem?_append_left (by rw [List.length_take]; omega), List.getElem?_take_of_lt early]
    · rw [if_neg had, List.getElem?_append_right (by rw [List.length_take]; omega), List.length_take,
        List.getElem?_replicate, if_pos (by omega)]
  have zeros : ∀ i, bytes.length ≤ i → i < size →
      (bytes ++ List.replicate (size - bytes.length) (0 : UInt8))[i]? = some 0 := by
    intro i late early
    rw [List.getElem?_append_right late, List.getElem?_replicate, if_pos (by omega)]
  constructor
  · intro same i late early
    have cell : (_ : List (Option UInt8))[i]? = (_ : List (Option UInt8))[i]? := congrArg (·[i]?) same
    rw [List.getElem?_take_of_lt early, new i (by omega), List.getElem?_map, List.getElem?_take_of_lt early,
      zeros i late (by omega)] at cell
    split at cell
    · exact cell
    · cases cell
  · intro zero
    refine List.ext_getElem? fun i => ?_
    by_cases early : i < start
    · rw [List.getElem?_take_of_lt early, new i (by omega), List.getElem?_map, List.getElem?_take_of_lt early]
      by_cases late : bytes.length ≤ i
      · have there := zero i late early
        have had := (List.getElem?_eq_some_iff.mp there).1
        rw [if_pos had, there, zeros i late (by omega)]
        rfl
      · have first := not_le.mp late
        rw [if_pos (by omega), old i first, List.getElem?_append_left first]
    · rw [List.getElem?_eq_none (by rw [List.length_take]; omega),
        List.getElem?_eq_none (by rw [List.length_map, List.length_take]; omega)]

theorem stored_length (start : Nat) (data : List UInt8) :
    (stored bytes start data).length = max bytes.length (start + data.length) := by
  have size : (bytes ++ List.replicate (start + data.length - bytes.length) (0 : UInt8)).length =
      max bytes.length (start + data.length) := by
    rw [List.length_append, List.length_replicate]
    omega
  rw [stored, overwrite_length _ _ _ (by omega), size]

theorem bufwrite_grows (holds : Holds fbuf bytes) {data : List UInt8} (longer : bytes.length < offset.toNat + data.length)
    (small : offset.toNat + data.length < 2 ^ 31) : bufwrite true fbuf offset data =
      some (⟨Int32.ofNat (offset.toNat + data.length), Overwrite.overwrite
        (realloc fbuf.buf (offset.toNat + data.length)) offset.toNat (data.map some)⟩, data.length) := by
  have same := holds.bound.1
  have whole : sum offset data.length = offset.toNat + data.length := Nat.mod_eq_of_lt (by omega)
  have grown : grow true fbuf (offset.toNat + data.length) =
      ⟨Int32.ofNat (offset.toNat + data.length), realloc fbuf.buf (offset.toNat + data.length)⟩ :=
    if_pos ⟨by omega, rfl⟩
  have left : clip ⟨Int32.ofNat (offset.toNat + data.length), realloc fbuf.buf (offset.toNat + data.length)⟩ offset
      data.length = data.length := by
    rw [clip, whole, Xfilebuf.bound, Int32.toInt_ofNat_of_lt small, if_neg (by omega)]
  rw [bufwrite, whole, grown, left]
  by_cases nothing : data.length = 0
  · rw [if_pos nothing, List.length_eq_zero_iff.mp nothing, List.map_nil, overwrite_nil]
    rfl
  · rw [if_neg nothing, length_realloc, if_pos ⟨le_refl _, le_refl _⟩, List.take_length]

/-- With new memory the buffer becomes the array exactly when the write ends inside, or where an `int` can say and
behind zeros. -/
theorem bufwrite_true_iff (holds : Holds fbuf bytes) {data : List UInt8} (small : data.length < 2 ^ 32) :
    (∃ next left, bufwrite true fbuf offset data = some (next, left) ∧ Holds next (stored bytes offset.toNat data)) ↔
    offset.toNat + data.length ≤ fbuf.bound ∨ offset.toNat + data.length < 2 ^ 31 ∧
      ∀ i, fbuf.bound ≤ i → i < offset.toNat → fbuf.buf[i]? = some (some 0) := by
  obtain ⟨same, less⟩ := holds.bound
  have room := holds.room
  rw [same]
  by_cases inside : offset.toNat + data.length ≤ bytes.length
  · refine iff_of_true ?_ (.inl inside)
    have still : grow true fbuf (sum offset data.length) = fbuf := by
      refine if_neg fun grows => ?_
      have whole : sum offset data.length = offset.toNat + data.length := Nat.mod_eq_of_lt (by omega)
      omega
    have plain : stored bytes offset.toNat data = Overwrite.overwrite bytes offset.toNat data := by
      rw [stored, Nat.sub_eq_zero_of_le inside, List.replicate_zero, List.append_nil]
    rw [bufwrite, still, clip_inside holds (by omega) small, min_eq_left (by omega), plain]
    split
    · rename_i nothing
      rw [List.length_eq_zero_iff.mp nothing, overwrite_nil]
      exact ⟨fbuf, 0, rfl, holds⟩
    · rw [if_pos ⟨by omega, le_refl _⟩, List.take_length]
      exact ⟨_, _, rfl, holds.overwrite inside⟩
  · have longer := not_le.mp inside
    rw [or_iff_right inside]
    have size := @stored_length bytes offset.toNat data
    rw [max_eq_right longer.le] at size
    by_cases fits : offset.toNat + data.length < 2 ^ 31
    · rw [and_iff_right fits, bufwrite_grows holds longer fits,
        ← realloc_take_iff holds (Nat.le_add_right offset.toNat data.length)]
      have cells : Holds ⟨Int32.ofNat (offset.toNat + data.length), Overwrite.overwrite
            (realloc fbuf.buf (offset.toNat + data.length)) offset.toNat (data.map some)⟩
            (stored bytes offset.toNat data) ↔
          (realloc fbuf.buf (offset.toNat + data.length)).take offset.toNat =
            ((bytes ++ List.replicate (offset.toNat + data.length - bytes.length) 0).take offset.toNat).map some := by
        have whole : (realloc fbuf.buf (offset.toNat + data.length)).drop (offset.toNat + data.length) = [] :=
          List.drop_eq_nil_of_le (length_realloc _ _).le
        have rest : (bytes ++ List.replicate (offset.toNat + data.length - bytes.length) (0 : UInt8)).drop
            (offset.toNat + data.length) = [] := by
          refine List.drop_eq_nil_of_le ?_
          rw [List.length_append, List.length_replicate]
          omega
        have all : (Overwrite.overwrite (realloc fbuf.buf (offset.toNat + data.length)) offset.toNat
            (data.map some)).take (offset.toNat + data.length) = Overwrite.overwrite
            (realloc fbuf.buf (offset.toNat + data.length)) offset.toNat (data.map some) := by
          refine List.take_of_length_le ?_
          rw [overwrite_length _ _ _ (by rw [length_realloc, List.length_map]), length_realloc]
        constructor
        · intro after
          have cells := after.cells
          rw [size, all, stored, Overwrite.overwrite, Overwrite.overwrite, List.length_map, whole, rest, List.append_nil,
            List.append_nil, List.map_append] at cells
          exact List.append_cancel_right cells
        · intro gap
          refine ⟨?_, ?_⟩
          · rw [size, Int32.toInt_ofNat_of_lt fits]
          · rw [size, all, stored, Overwrite.overwrite, Overwrite.overwrite, List.length_map, whole, rest,
              List.append_nil, List.append_nil, List.map_append, gap]
      rw [← cells]
      constructor
      · rintro ⟨next, left, written, holds⟩
        rw [Option.some.injEq, Prod.mk.injEq] at written
        exact written.1 ▸ holds
      · exact fun holds => ⟨_, _, rfl, holds⟩
    · refine iff_of_false ?_ fun all => fits all.1
      rintro ⟨next, left, -, holds⟩
      have most := holds.bound.2
      omega

end Clipping

theorem step_same_iff (sides : Sides) (access : Access) (same : Same sides) :
    (∃ next, step sides access = some next ∧ Same next) ↔ Fits sides access := by
  obtain ⟨holds, kept, reads⟩ := same
  cases access with
  | read offset count =>
      rw [Fits, ← bufread_iff holds]
      constructor
      · rintro ⟨next, stepped, -, -, after⟩
        obtain ⟨data, copied, stepped⟩ := Option.bind_eq_some_iff.mp stepped
        rw [Option.pure_def, Option.some.injEq] at stepped
        subst stepped
        rw [List.map_append, reads, List.map_singleton] at after
        have last := List.append_cancel_left after
        rw [List.cons.injEq] at last
        rw [copied, last.1]
      · intro copied
        refine ⟨_, Option.bind_eq_some_iff.mpr ⟨_, copied, rfl⟩, holds, kept, ?_⟩
        rw [List.map_append, reads, List.map_singleton]
  | write allocates offset data =>
      obtain ⟨data, small⟩ := data
      cases allocates with
      | true =>
          rw [Fits, ← bufwrite_true_iff holds small]
          constructor
          · rintro ⟨next, stepped, after, -, -⟩
            obtain ⟨⟨fbuf, left⟩, written, stepped⟩ := Option.bind_eq_some_iff.mp stepped
            rw [Option.pure_def, Option.some.injEq] at stepped
            subst stepped
            exact ⟨fbuf, left, written, after⟩
          · rintro ⟨fbuf, left, written, after⟩
            refine ⟨_, Option.bind_eq_some_iff.mpr ⟨_, written, rfl⟩, after, ?_, reads⟩
            dsimp only
            rw [kept]
            rfl
      | false =>
          rw [Fits, ← bufwrite_false_iff holds small]
          constructor
          · rintro ⟨next, stepped, after, inside, -⟩
            obtain ⟨⟨fbuf, left⟩, written, stepped⟩ := Option.bind_eq_some_iff.mp stepped
            rw [Option.pure_def, Option.some.injEq] at stepped
            subst stepped
            refine ⟨fbuf, left, written, after, ?_⟩
            simpa [kept] using inside
          · rintro ⟨fbuf, left, written, after, inside⟩
            refine ⟨_, Option.bind_eq_some_iff.mpr ⟨_, written, rfl⟩, after, ?_, reads⟩
            simpa [kept] using inside

/-- Along any accesses the buffer is the array of bytes exactly when each access fits. -/
theorem accesses_same_iff (sides : Sides) (same : Same sides) (accesses : List Access) :
    Throughout step Same sides accesses ↔ Guarded step Fits sides accesses :=
  throughout_iff_guarded step (fun sides access same => step_same_iff sides access same)
    (fun _ _ _ _ _ same => same) accesses same

/-- An empty buffer. -/
def noBytes : Sides := { fbuf := ⟨0, []⟩, bytes := [] }

theorem same_noBytes : Same noBytes := ⟨⟨rfl, rfl⟩, rfl, rfl⟩

theorem accesses_same_two : Throughout step Same noBytes [.write true 0 ⟨[97], by decide⟩, .read 0 4] ↔
    Guarded step Fits noBytes [.write true 0 ⟨[97], by decide⟩, .read 0 4] :=
  accesses_same_iff noBytes same_noBytes _

/-- A read behind the end goes outside the memory. -/
theorem read_behind : Same noBytes ∧ ¬Throughout step Same noBytes [.read 1 1] := by
  refine ⟨same_noBytes, ?_⟩
  rintro ⟨next, stepped, -⟩
  have outside : bufread noBytes.fbuf 1 1 = none := by decide
  rw [step, outside] at stepped
  cases stepped

end Xcpu.Xcpufs.Filebuf
