import Mathlib.Data.List.OfFn
import Mathlib.Data.UInt
import Xcpu.Xcpufs.Auth

/-!
`xauth_write` on the record of an auth fid as it lies in memory: the challenge, the pointer to
the user, and the response behind them. The sum of the offset and the count is taken in 64 bits.
-/

namespace Xcpu.Xcpufs.XauthWrite

open Xcpu.Overwrite Xcpu.Transition Xcpu.Xcpufs.Auth

def authidSize : Nat := 16
def pointerSize : Nat := 8

-- where `response` starts in the record
def responseStart : Nat := authidSize + pointerSize

/-- The record up to the end of `response`, and `resplen` behind that. -/
structure Xauth where
  block : Bytes
  resplen : Nat

def Xauth.authid (auth : Xauth) : Bytes := auth.block.take authidSize

/-- The bytes of the pointer to the user. -/
def Xauth.user (auth : Xauth) : Bytes := (auth.block.drop authidSize).take pointerSize

def Xauth.response (auth : Xauth) : Bytes := auth.block.drop responseStart

/-- The record that `xauth_startauth` leaves. -/
def xauthStartauth (random : Fin 16 → UInt8) (user : Fin 8 → UInt8) : Xauth :=
  ⟨List.ofFn random ++ (List.ofFn user ++ List.replicate responseSize 0), 0⟩

/-- The arguments of a call; the count is that of the data. -/
structure Write where
  offset : UInt64
  data : Bytes
  counted : data.length < 2 ^ 32

def Write.count (write : Write) : UInt32 := UInt32.ofNat write.data.length

/-- The displacement that a 64-bit offset is when it is added to a pointer. -/
def displacement (offset : UInt64) : Int :=
  if offset.toNat < 2 ^ 63 then offset.toNat else offset.toNat - 2 ^ 64

/-- `xauth_write`: what it returns and the record. A `memmove` that leaves the record up to the end of the
response has no result. -/
def xauthWrite (auth : Xauth) (write : Write) : Option (Int × Xauth) :=
  let stop := write.offset + write.count.toUInt64
  if stop.toNat > responseSize then some (-1, auth)
  else if write.count ≤ 0 then some (0, auth)
  else
    let start := responseStart + displacement write.offset
    if 0 ≤ start ∧ start + write.data.length ≤ responseStart + responseSize then
      some (write.count.toNat, {
        block := overwrite auth.block start.toNat write.data
        resplen := if stop.toNat > auth.resplen then stop.toNat else auth.resplen })
    else none

/-- One call on the record; the number is what the call before returned. -/
def step (state : Int × Xauth) (write : Write) : Option (Int × Xauth) := xauthWrite state.2 write

/-- What a write is for a file of `responseSize` bytes, which the record holds besides the challenge and the user. -/
structure FileWrite (before : Int × Xauth) (write : Write) (after : Int × Xauth) : Prop where
  authid : after.2.authid = before.2.authid
  user : after.2.user = before.2.user
  accepted : write.offset.toNat + write.data.length ≤ responseSize →
    after.1 = write.data.length ∧ after.2.response = overwrite before.2.response write.offset.toNat write.data ∧
      after.2.resplen = max before.2.resplen (write.offset.toNat + write.data.length)
  refused : responseSize < write.offset.toNat + write.data.length → after = (-1, before.2)

/-- The sum does not come around to the response, and an empty write does not start behind what was written. -/
def Plain (state : Int × Xauth) (write : Write) : Prop :=
  (write.offset.toNat + write.data.length < 2 ^ 64 ∨
    2 ^ 64 + responseSize < write.offset.toNat + write.data.length) ∧
  (write.data = [] → write.offset.toNat ≤ state.2.resplen ∨ responseSize < write.offset.toNat)

structure Sized (state : Int × Xauth) : Prop where
  block : state.2.block.length = responseStart + responseSize
  resplen : state.2.resplen ≤ responseSize

section Writes

variable {state next : Int × Xauth} {write : Write}

theorem count_toNat (write : Write) : write.count.toNat = write.data.length := by
  rw [Write.count, UInt32.toNat_ofNat']
  exact Nat.mod_eq_of_lt write.counted

theorem stop_toNat (write : Write) : (write.offset + write.count.toUInt64).toNat =
    (write.offset.toNat + write.data.length) % 2 ^ 64 := by
  rw [UInt64.toNat_add, UInt32.toNat_toUInt64, count_toNat]

theorem count_le_zero : write.count ≤ 0 ↔ write.data = [] := by
  rw [UInt32.le_iff_toNat_le, count_toNat, ← List.length_eq_zero_iff]
  exact Nat.le_zero

/-- A range inside the response is written there and nowhere else. -/
theorem step_inside (filled : write.data ≠ [])
    (inside : write.offset.toNat + write.data.length ≤ responseSize) :
    step state write = some ((write.data.length : Int), {
      block := overwrite state.2.block (responseStart + write.offset.toNat) write.data
      resplen := max state.2.resplen (write.offset.toNat + write.data.length) }) := by
  have stop := stop_toNat write
  rw [Nat.mod_eq_of_lt (by rw [responseSize] at inside; omega)] at stop
  have small : write.offset.toNat < 2 ^ 63 := by
    rw [responseSize] at inside
    omega
  have longest : (if write.offset.toNat + write.data.length > state.2.resplen then
      write.offset.toNat + write.data.length else state.2.resplen) =
        max state.2.resplen (write.offset.toNat + write.data.length) := by
    split <;> omega
  rw [step, xauthWrite]
  dsimp only
  rw [stop, if_neg (by omega), if_neg (mt count_le_zero.mp filled), displacement, if_pos small,
    if_pos ⟨by omega, by omega⟩, count_toNat, longest]
  rfl

theorem step_empty (empty : write.data = []) (inside : write.offset.toNat ≤ responseSize) :
    step state write = some (0, state.2) := by
  have stop := stop_toNat write
  rw [empty, List.length_nil, Nat.add_zero, Nat.mod_eq_of_lt write.offset.toNat_lt] at stop
  rw [step, xauthWrite]
  dsimp only
  rw [stop, if_neg (by omega), if_pos (count_le_zero.mpr empty)]

theorem step_refused (large : responseSize < (write.offset.toNat + write.data.length) % 2 ^ 64) :
    step state write = some (-1, state.2) := by
  rw [step, xauthWrite]
  dsimp only
  rw [stop_toNat, if_pos large]

/-- A range that comes around is not refused. -/
theorem step_wrapped (filled : write.data ≠ [])
    (small : (write.offset.toNat + write.data.length) % 2 ^ 64 ≤ responseSize) (stepped : step state write = some next) :
    next.1 = write.data.length := by
  rw [step, xauthWrite] at stepped
  dsimp only at stepped
  rw [stop_toNat, if_neg (by omega), if_neg (mt count_le_zero.mp filled)] at stepped
  split at stepped
  · rw [Option.some.injEq] at stepped
    rw [← stepped, count_toNat]
  · cases stepped

theorem overwritten_fields (sized : Sized state) (inside : write.offset.toNat + write.data.length ≤ responseSize)
    (resplen : Nat) :
    Xauth.authid ⟨overwrite state.2.block (responseStart + write.offset.toNat) write.data, resplen⟩ =
        state.2.authid ∧
      Xauth.user ⟨overwrite state.2.block (responseStart + write.offset.toNat) write.data, resplen⟩ = state.2.user ∧
      Xauth.response ⟨overwrite state.2.block (responseStart + write.offset.toNat) write.data, resplen⟩ =
        overwrite state.2.response write.offset.toNat write.data := by
  have length := sized.block
  have room : responseStart + write.offset.toNat ≤ state.2.block.length := by omega
  refine ⟨?_, ?_, ?_⟩
  · exact overwrite_take _ _ _ _ (by rw [responseStart]; omega) room
  · have behind : responseStart + write.offset.toNat = authidSize + (pointerSize + write.offset.toNat) := by
      rw [responseStart, Nat.add_assoc]
    rw [Xauth.user, behind, overwrite_drop _ _ _ _ (by omega),
      overwrite_take _ _ _ _ (Nat.le_add_right ..) (by rw [List.length_drop]; omega)]
    rfl
  · exact overwrite_drop _ _ _ _ room

/-- A call is that of a file exactly where the sum does not come around. -/
theorem step_file_iff (sized : Sized state) (write : Write) :
    (∃ next, step state write = some next ∧ FileWrite state write next) ↔ Plain state write := by
  have small := write.offset.toNat_lt
  have counted := write.counted
  have size : responseSize = 4096 := rfl
  by_cases inside : write.offset.toNat + write.data.length ≤ responseSize
  · by_cases empty : write.data = []
    · have length : write.data.length = 0 := by rw [empty, List.length_nil]
      have stepped := @step_empty state write empty (by omega)
      constructor
      · rintro ⟨next, same, file⟩
        rw [stepped, Option.some.injEq] at same
        subst same
        obtain ⟨-, -, longest⟩ := file.accepted inside
        exact ⟨.inl (by omega), fun _ => .inl (by dsimp only at longest; omega)⟩
      · rintro ⟨-, start⟩
        have start := start empty
        refine ⟨_, stepped, rfl, rfl, fun _ => ⟨by omega, ?_, by dsimp only; omega⟩, fun outside => by omega⟩
        rw [empty, overwrite_nil]
    · refine iff_of_true ⟨_, step_inside empty inside, ?_⟩ ⟨.inl (by omega), fun none => absurd none empty⟩
      obtain ⟨authid, user, response⟩ := overwritten_fields sized inside
        (max state.2.resplen (write.offset.toNat + write.data.length))
      exact ⟨authid, user, fun _ => ⟨rfl, response, rfl⟩, fun outside => by omega⟩
  · by_cases wraps : 2 ^ 64 ≤ write.offset.toNat + write.data.length ∧
        (write.offset.toNat + write.data.length) % 2 ^ 64 ≤ responseSize
    · have filled : write.data ≠ [] := by
        intro empty
        rw [empty, List.length_nil] at wraps
        omega
      refine iff_of_false ?_ fun plain => by
        have apart := plain.1
        omega
      rintro ⟨next, stepped, file⟩
      have returned := step_wrapped filled wraps.2 stepped
      rw [file.refused (by omega)] at returned
      dsimp only at returned
      omega
    · refine iff_of_true ⟨_, step_refused (by omega), rfl, rfl, fun within => absurd within inside, fun _ => rfl⟩
        ⟨by omega, fun empty => .inr ?_⟩
      rw [empty, List.length_nil] at inside
      omega

theorem step_sized (sized : Sized state) (file : FileWrite state write next) (stepped : step state write = some next) :
    Sized next := by
  by_cases inside : write.offset.toNat + write.data.length ≤ responseSize
  · by_cases empty : write.data = []
    · rw [step_empty empty (by omega), Option.some.injEq] at stepped
      exact stepped ▸ ⟨sized.block, sized.resplen⟩
    · rw [step_inside empty inside, Option.some.injEq] at stepped
      have length := sized.block
      refine stepped ▸ ⟨?_, Nat.max_le.mpr ⟨sized.resplen, inside⟩⟩
      rw [← length]
      exact overwrite_length _ _ _ (by omega)
  · rw [file.refused (by omega)]
    exact ⟨sized.block, sized.resplen⟩

/-- A record that names its user, with the pointer to that user. -/
def inMemory {User : Type} (pointer : Bytes) (auth : Auth.Xauth User) : Xauth :=
  ⟨auth.authid ++ (pointer ++ auth.response), auth.resplen⟩

/-- A call that keeps to the response does the same in memory. -/
theorem xauthWrite_inMemory {User : Type} {pointer : Bytes} {auth written : Auth.Xauth User}
    (challenge : auth.authid.length = authidSize) (pointed : pointer.length = pointerSize)
    (wrote : Auth.xauthWrite auth write.offset write.data = some written) :
    ∃ returned, xauthWrite (inMemory pointer auth) write = some (returned, inMemory pointer written) := by
  have size : responseSize = 4096 := rfl
  have stop : (write.offset + UInt64.ofNat write.data.length).toNat =
      (write.offset.toNat + write.data.length) % 2 ^ 64 := by
    rw [UInt64.toNat_add, UInt64.toNat_ofNat', Nat.add_mod_mod]
  rw [Auth.xauthWrite, stop] at wrote
  by_cases large : (write.offset.toNat + write.data.length) % 2 ^ 64 > responseSize
  · rw [if_pos large, Option.some.injEq] at wrote
    exact ⟨-1, wrote ▸ @step_refused (0, inMemory pointer auth) write large⟩
  by_cases empty : write.data = []
  · rw [if_neg large, if_pos empty, Option.some.injEq] at wrote
    rw [empty, List.length_nil, Nat.add_zero, Nat.mod_eq_of_lt write.offset.toNat_lt] at large
    exact ⟨0, wrote ▸ @step_empty (0, inMemory pointer auth) write empty (by omega)⟩
  by_cases inside : write.offset.toNat + write.data.length ≤ responseSize
  · rw [if_neg large, if_neg empty, if_pos inside, Nat.mod_eq_of_lt (by omega), Option.some.injEq] at wrote
    refine ⟨write.data.length, (@step_inside (0, inMemory pointer auth) write empty inside).trans ?_⟩
    rw [← wrote]
    have front : responseStart = (auth.authid ++ pointer).length := by
      rw [List.length_append, challenge, pointed]
      rfl
    have moved : overwrite (auth.authid ++ pointer ++ auth.response) (responseStart + write.offset.toNat) write.data =
        auth.authid ++ pointer ++ overwrite auth.response write.offset.toNat write.data := by
      rw [front, overwrite, overwrite, List.take_append, List.take_of_length_le (by omega), Nat.add_sub_cancel_left,
        Nat.add_assoc, List.drop_append, List.drop_eq_nil_of_le (by omega), Nat.add_sub_cancel_left, List.nil_append]
      simp only [List.append_assoc]
    have longest : (if write.offset.toNat + write.data.length > auth.resplen then
        write.offset.toNat + write.data.length else auth.resplen) =
          max auth.resplen (write.offset.toNat + write.data.length) := by
      split <;> omega
    rw [inMemory, inMemory, ← List.append_assoc, ← List.append_assoc, moved, longest]
  · rw [if_neg large, if_neg empty, if_neg inside] at wrote
    cases wrote

end Writes

theorem xauthStartauth_sized (random : Fin 16 → UInt8) (user : Fin 8 → UInt8) : Sized (0, xauthStartauth random user) where
  block := by
    simp only [xauthStartauth, List.length_append, List.length_ofFn, List.length_replicate]
    rfl
  resplen := Nat.zero_le _

/-- The writes to an auth fid are those to a file exactly as long as no sum comes around. -/
theorem xauthWrite_file_iff (random : Fin 16 → UInt8) (user : Fin 8 → UInt8) (writes : List Write) :
    EachStep step FileWrite (0, xauthStartauth random user) writes ↔
      Guarded step Plain (0, xauthStartauth random user) writes :=
  eachStep_iff_guarded step (fun _ write sized => step_file_iff sized write)
    (fun _ _ _ sized stepped file => step_sized sized file stepped) writes (xauthStartauth_sized random user)

/-- Twenty-four bytes that end where the response starts. -/
def backwards : Write := ⟨0 - 24, List.replicate 24 7, by decide⟩

/-- Their sum is 0, so they are accepted, and they replace the challenge and the pointer to the user. -/
theorem backwards_challenge :
    ¬EachStep step FileWrite (0, xauthStartauth (fun _ => 1) fun _ => 2) [backwards] ∧
    (step (0, xauthStartauth (fun _ => 1) fun _ => 2) backwards).map (fun after => (after.1, after.2.authid)) =
      some (24, List.replicate 16 7) := by
  have stepped : (step (0, xauthStartauth (fun _ => 1) fun _ => 2) backwards).map
      (fun after => (after.1, after.2.authid)) = some (24, List.replicate 16 7) := by decide
  refine ⟨?_, stepped⟩
  rintro ⟨next, same, file, -⟩
  rw [same, Option.map_some, Option.some.injEq, file.authid, Prod.mk.injEq] at stepped
  exact absurd stepped.2 (by decide)

end Xcpu.Xcpufs.XauthWrite
