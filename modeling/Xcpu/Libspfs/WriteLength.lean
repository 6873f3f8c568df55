import Mathlib.Data.UInt
import Mathlib.Order.MinMax

/-!
The length that `spfile_write` (`file.c`) leaves behind: the end of the write is computed in 64 bits from an
`int`, which is -1 when the operation fails or answers later.
-/

namespace Xcpu.Libspfs.WriteLength

/-- The fields of a `Spfile` that a write changes. -/
structure Spfile (User : Type) where
  length : UInt64
  muid : User
  mtime : Nat
  atime : Nat
  version : UInt32

/-- What the write operation of a file returns, and whether it has set an error. -/
structure Wrote where
  n : Int32
  error : Bool

def oappend : Nat := 128

variable {User : Type}

def spfileModified (now : Nat) (f : Spfile User) (u : User) : Spfile User :=
  { f with muid := u, mtime := now, atime := now, version := f.version + 1 }

/-- Where the data goes. -/
def effectiveOffset (omode : Nat) (file : Spfile User) (offset : UInt64) : UInt64 :=
  if omode &&& oappend ≠ 0 then file.length else offset

/-- The end of what has been written, as it is computed. -/
def writeEnd (offset : UInt64) (n : Int32) : UInt64 := offset + UInt64.ofInt n.toInt

/-- `spfile_write`, with the count of the Rwrite if there is one. -/
def spfileWrite (now : Nat) (user : User) (omode : Nat) (write : Option (UInt64 → UInt32 → List UInt8 → Wrote))
    (file : Spfile User) (offset : UInt64) (count : UInt32) (data : List UInt8) : Spfile User × Option Int32 :=
  match write with
  | none => (file, none)
  | some write =>
      let offset := effectiveOffset omode file offset
      let wrote := write offset count data
      let file := if file.length < writeEnd offset wrote.n then { file with length := writeEnd offset wrote.n } else file
      let file := if wrote.error then file else spfileModified now file user
      (file, if 0 ≤ wrote.n then some wrote.n else none)

/-- The end of the last byte that has been accepted, counted without a limit. -/
def acceptedEnd (offset : UInt64) (n : Int32) (old : UInt64) : Nat :=
  if 0 < n.toInt then max old.toNat (offset.toNat + n.toInt.toNat) else old.toNat

/-- The write leaves the length that it should. -/
def LengthRight (now : Nat) (user : User) (omode : Nat) (write : Option (UInt64 → UInt32 → List UInt8 → Wrote))
    (file : Spfile User) (offset : UInt64) (count : UInt32) (data : List UInt8) : Prop :=
  let after := (spfileWrite now user omode write file offset count data).1.length
  match write with
  | none => after = file.length
  | some write =>
      let offset := effectiveOffset omode file offset
      after.toNat = acceptedEnd offset (write offset count data).n file.length

/-- The computed end does not wrap around where bytes were accepted, and is not behind the old length where none
were. -/
def EndFits (omode : Nat) (write : Option (UInt64 → UInt32 → List UInt8 → Wrote)) (file : Spfile User)
    (offset : UInt64) (count : UInt32) (data : List UInt8) : Prop :=
  ∀ operation, write = some operation →
    let offset := effectiveOffset omode file offset
    let n := (operation offset count data).n
    if 0 < n.toInt then offset.toNat + n.toInt < 2 ^ 64 else writeEnd offset n ≤ file.length

theorem writeEnd_toNat {offset : UInt64} {n : Int32} (positive : 0 < n.toInt) :
    (writeEnd offset n).toNat = (offset.toNat + n.toInt.toNat) % 2 ^ 64 := by
  have small := n.toInt_lt
  have cast : UInt64.ofInt n.toInt = UInt64.ofNat n.toInt.toNat := by
    rw [UInt64.ofInt, Int.emod_eq_of_lt positive.le (by omega)]
  rw [writeEnd, cast, UInt64.toNat_add, UInt64.toNat_ofNat']
  omega

theorem spfileWrite_length {now : Nat} {user : User} {omode : Nat} {file : Spfile User} {offset : UInt64}
    {count : UInt32} {data : List UInt8} (write : UInt64 → UInt32 → List UInt8 → Wrote) :
    (spfileWrite now user omode (some write) file offset count data).1.length.toNat =
      max file.length.toNat (writeEnd (effectiveOffset omode file offset)
        (write (effectiveOffset omode file offset) count data).n).toNat := by
  have kept : ∀ (file : Spfile User) (error : Bool),
      (if error then file else spfileModified now file user).length = file.length := by
    intro file error
    split <;> rfl
  rw [spfileWrite]
  dsimp only
  rw [kept]
  split
  · rename_i grows
    rw [UInt64.lt_iff_toNat_lt] at grows
    exact (max_eq_right_of_lt grows).symm
  · rename_i stays
    rw [UInt64.lt_iff_toNat_lt, not_lt] at stays
    exact (max_eq_left stays).symm

/-- A write leaves the right length exactly when the end that it computes fits. -/
theorem spfileWrite_length_iff (now : Nat) (user : User) (omode : Nat)
    (write : Option (UInt64 → UInt32 → List UInt8 → Wrote)) (file : Spfile User) (offset : UInt64) (count : UInt32)
    (data : List UInt8) :
    LengthRight now user omode write file offset count data ↔ EndFits omode write file offset count data := by
  cases write with
  | none =>
      refine ⟨fun _ operation there => ?_, fun _ => rfl⟩
      cases there
  | some write =>
      rw [LengthRight, EndFits]
      dsimp only
      simp only [Option.some.injEq, forall_eq', spfileWrite_length]
      generalize effectiveOffset omode file offset = offset
      generalize (write offset count data).n = n
      rw [acceptedEnd]
      by_cases positive : 0 < n.toInt
      · rw [if_pos positive, if_pos positive, writeEnd_toNat positive]
        have below := file.length.toNat_lt
        constructor
        · intro same
          by_contra wraps
          have far : 2 ^ 64 ≤ offset.toNat + n.toInt.toNat := by omega
          have less := Nat.mod_lt (offset.toNat + n.toInt.toNat) (show 0 < 2 ^ 64 by decide)
          omega
        · intro fits
          rw [Nat.mod_eq_of_lt (by omega)]
      · rw [if_neg positive, if_neg positive, UInt64.le_iff_toNat_le]
        omega

/-- An empty file after a write at its beginning that is answered later. -/
def laterAnswered : UInt64 := (spfileWrite 0 () 1 (some fun _ _ _ => ⟨-1, false⟩) ⟨0, (), 0, 0, 0⟩ 0 1 [10]).1.length

/-- It has the largest length there is. -/
theorem laterAnswered_longest : laterAnswered = 2 ^ 64 - 1 ∧
    ¬LengthRight 0 () 1 (some fun _ _ _ => ⟨-1, false⟩) ⟨0, (), 0, 0, 0⟩ 0 1 [10] := by
  have longest : laterAnswered = 2 ^ 64 - 1 := by decide +kernel
  refine ⟨longest, fun right => ?_⟩
  have empty : laterAnswered.toNat = 0 := right
  rw [longest] at empty
  exact absurd empty (by decide +kernel)

end Xcpu.Libspfs.WriteLength
