import Xcpu.Xcpufs.Filebuf

/-!
The length that `filebuf_wstat` (`xcpufs.c`) gives to the buffer of an `argv` or `env` file: a 64-bit length, of
which all ones means that it is not to be touched, goes through an `int`.
-/

namespace Xcpu.Xcpufs.Filebuf

def bufsetsize (allocates : Bool) (fbuf : Xfilebuf) (size : Int32) : Option Xfilebuf :=
  if fbuf.size < size then (bufwrite allocates fbuf (UInt64.ofInt size.toInt) []).map Prod.fst
  else some { fbuf with size }

/-- `length` is that of the file, which other operations change. -/
def filebufWstat (allocates : Bool) (length : UInt64) (fbuf : Xfilebuf) (statLength : UInt64) : Option Xfilebuf :=
  if length ≠ statLength then bufsetsize allocates fbuf (Int32.ofNat statLength.toNat) else some fbuf

/-- The length of a blank stat. -/
def dontTouch : UInt64 := 2 ^ 64 - 1

/-- The bytes with a length, with zeros where there were none. -/
def resized (bytes : List UInt8) (length : Nat) : List UInt8 :=
  bytes.take length ++ List.replicate (length - bytes.length) 0

/-- The buffer has the length of the stat if it carries one, and is as it was if not. -/
def Follows (allocates : Bool) (length : UInt64) (fbuf : Xfilebuf) (bytes : List UInt8) (statLength : UInt64) : Prop :=
  ∃ next, filebufWstat allocates length fbuf statLength = some next ∧
    Holds next (if statLength = dontTouch then bytes else resized bytes statLength.toNat)

/-- A blank length finds the length of the file blank too; another one is that of the file and the buffer, or is not
larger than the buffer, or can be an `int` and finds zeros in the memory that there is for it. -/
def WstatFits (allocates : Bool) (length : UInt64) (fbuf : Xfilebuf) (statLength : UInt64) : Prop :=
  if statLength = dontTouch then length = dontTouch
  else if length = statLength then statLength.toNat = fbuf.bound
  else statLength.toNat ≤ fbuf.bound ∨ allocates = true ∧ statLength.toNat < 2 ^ 31 ∧
    ∀ i, fbuf.bound ≤ i → i < statLength.toNat → fbuf.buf[i]? = some (some 0)

section Length

variable {allocates : Bool} {length statLength : UInt64} {fbuf next : Xfilebuf} {bytes : List UInt8} {size : Nat}

theorem resized_length : (resized bytes size).length = size := by
  rw [resized, List.length_append, List.length_take, List.length_replicate]
  omega

theorem Holds.shrink (holds : Holds fbuf bytes) (inside : size ≤ bytes.length) :
    Holds { fbuf with size := Int32.ofNat size } (resized bytes size) := by
  have less := holds.bound.2
  have short : resized bytes size = bytes.take size := by
    rw [resized, Nat.sub_eq_zero_of_le inside, List.replicate_zero, List.append_nil]
  constructor
  · rw [resized_length, Int32.toInt_ofNat_of_lt (by omega)]
  · rw [resized_length, short, List.map_take, ← holds.cells, List.take_take, min_eq_left inside]

theorem bufsetsize_longer (holds : Holds fbuf bytes) (longer : bytes.length < size) (small : size < 2 ^ 31) :
    (∃ next, bufsetsize allocates fbuf (Int32.ofNat size) = some next ∧ Holds next (resized bytes size)) ↔
      allocates = true ∧ ∀ i, bytes.length ≤ i → i < size → fbuf.buf[i]? = some (some 0) := by
  obtain ⟨same, less⟩ := holds.bound
  have int : (Int32.ofNat size).toInt = size := Int32.toInt_ofNat_of_lt small
  have offset : (UInt64.ofInt (Int32.ofNat size).toInt).toNat = size := by
    rw [int, UInt64.ofInt, Int.emod_eq_of_lt (by omega) (by omega), Int.toNat_natCast, UInt64.toNat_ofNat']
    omega
  have grows : fbuf.size < Int32.ofNat size := by
    rw [Int32.lt_iff_toInt_lt, int, holds.size]
    omega
  rw [bufsetsize, if_pos grows]
  cases allocates with
  | true =>
      have written := @bufwrite_true_iff fbuf bytes (UInt64.ofInt (Int32.ofNat size).toInt) holds []
        (Nat.two_pow_pos 32)
      have bytes_eq : stored bytes size [] = resized bytes size := by
        rw [stored, Overwrite.overwrite_nil, resized, List.take_of_length_le longer.le]
        rfl
      rw [offset, same, bytes_eq, List.length_nil, Nat.add_zero, or_iff_right (not_le.mpr longer),
        and_iff_right small] at written
      rw [eq_self_iff_true, true_and, ← written]
      constructor
      · rintro ⟨next, set, after⟩
        obtain ⟨⟨fbuf, left⟩, wrote, rfl⟩ := Option.map_eq_some_iff.mp set
        exact ⟨fbuf, left, wrote, after⟩
      · rintro ⟨fbuf, left, wrote, after⟩
        exact ⟨fbuf, Option.map_eq_some_iff.mpr ⟨_, wrote, rfl⟩, after⟩
  | false =>
      refine iff_of_false ?_ (by simp)
      rintro ⟨next, set, -⟩
      obtain ⟨⟨fbuf', left⟩, wrote, -⟩ := Option.map_eq_some_iff.mp set
      have still : grow false fbuf (sum (UInt64.ofInt (Int32.ofNat size).toInt) ([] : List UInt8).length) = fbuf :=
        if_neg (by simp)
      have garbage : clip fbuf (UInt64.ofInt (Int32.ofNat size).toInt) ([] : List UInt8).length ≠ 0 := by
        rw [clip, sum, offset, same, List.length_nil]
        split <;> omega
      rw [bufwrite, still, if_neg garbage] at wrote
      split at wrote
      · rename_i inside
        exact garbage (Nat.le_zero.mp inside.2)
      · cases wrote

theorem minusOne_toInt : (-1 : Int32).toInt = -1 := rfl

theorem bufsetsize_blank (holds : Holds fbuf bytes) :
    bufsetsize allocates fbuf (Int32.ofNat dontTouch.toNat) = some { fbuf with size := -1 } := by
  have int : Int32.ofNat dontTouch.toNat = -1 := by decide +kernel
  have kept : ¬fbuf.size < -1 := by
    rw [Int32.lt_iff_toInt_lt, holds.size, minusOne_toInt]
    omega
  rw [bufsetsize, int, if_neg kept]

theorem bufsetsize_shorter (holds : Holds fbuf bytes) (inside : size ≤ bytes.length) :
    bufsetsize allocates fbuf (Int32.ofNat size) = some { fbuf with size := Int32.ofNat size } := by
  have less := holds.bound.2
  have kept : ¬fbuf.size < Int32.ofNat size := by
    rw [Int32.lt_iff_toInt_lt, holds.size, Int32.toInt_ofNat_of_lt (by omega)]
    omega
  rw [bufsetsize, if_neg kept]

/-- The buffer follows the length of the stat exactly when that fits. -/
theorem filebufWstat_follows_iff (holds : Holds fbuf bytes) (allocates : Bool) (length statLength : UInt64) :
    Follows allocates length fbuf bytes statLength ↔ WstatFits allocates length fbuf statLength := by
  obtain ⟨same, less⟩ := holds.bound
  rw [Follows, WstatFits, filebufWstat, same]
  by_cases blank : statLength = dontTouch
  · rw [if_pos blank, if_pos blank]
    by_cases kept : length = dontTouch
    · rw [if_neg (not_not.mpr (kept.trans blank.symm))]
      exact iff_of_true ⟨fbuf, rfl, holds⟩ kept
    · rw [if_pos (blank ▸ kept), blank, bufsetsize_blank holds]
      refine iff_of_false ?_ kept
      rintro ⟨next, set, after⟩
      have size := after.size
      rw [← Option.some.inj set, minusOne_toInt] at size
      omega
  · rw [if_neg blank, if_neg blank]
    by_cases kept : length = statLength
    · rw [if_pos kept, if_neg (not_not.mpr kept)]
      constructor
      · rintro ⟨next, set, after⟩
        have size := after.size
        rw [← Option.some.inj set, holds.size, resized_length] at size
        omega
      · intro length
        refine ⟨fbuf, rfl, ?_⟩
        rw [length, resized, List.take_length, Nat.sub_self, List.replicate_zero, List.append_nil]
        exact holds
    · rw [if_neg kept, if_pos kept]
      by_cases inside : statLength.toNat ≤ bytes.length
      · rw [bufsetsize_shorter holds inside]
        exact iff_of_true ⟨_, rfl, holds.shrink inside⟩ (.inl inside)
      · rw [or_iff_right inside]
        by_cases small : statLength.toNat < 2 ^ 31
        · rw [bufsetsize_longer holds (not_le.mp inside) small, and_iff_right small]
        · refine iff_of_false ?_ fun fits => small fits.2.1
          rintro ⟨next, -, after⟩
          have most := after.bound.2
          rw [resized_length] at most
          exact small most

end Length

theorem holds_nothing : Holds ⟨0, []⟩ [] := ⟨rfl, rfl⟩

theorem filebufWstat_follows_empty :
    Follows true 0 ⟨0, []⟩ [] 4 ↔ WstatFits true 0 ⟨0, []⟩ 4 :=
  filebufWstat_follows_iff holds_nothing true 0 4

/-- A stat with a blank length, as one that changes the name only, makes the size of an empty buffer negative. -/
theorem filebufWstat_blank : Holds ⟨0, []⟩ [] ∧ ¬Follows true 0 ⟨0, []⟩ [] dontTouch ∧
    filebufWstat true 0 ⟨0, []⟩ dontTouch = some ⟨-1, []⟩ := by
  have size : filebufWstat true 0 ⟨0, []⟩ dontTouch = some ⟨-1, []⟩ := by decide +kernel
  refine ⟨holds_nothing, ?_, size⟩
  rintro ⟨next, set, after⟩
  have below := after.size
  rw [← Option.some.inj (size.symm.trans set)] at below
  revert below
  decide

end Xcpu.Xcpufs.Filebuf
