import Mathlib.Algebra.GroupWithZero.Nat
import Mathlib.Data.List.Basic
import Mathlib.Data.List.Induction
import Xcpu.Lib.Overwrite

/-!
`npc_write` and `npc_read` of libnpclient, against a server that stores each Twrite and may answer a Tread with
less than it asks for. Both hand `buf` itself, not `buf + n`, to each message of a transfer.
-/

namespace Xcpu.Libnpclient

open Xcpu.Overwrite

/-- A fid, with the `msize` of its file system. -/
structure Npcfid where
  fid : UInt32
  iounit : UInt32
  msize : UInt32

def iohdrsz : UInt32 := 24

/-- The memory of a caller: its length is the `count` of the call. -/
structure Buffer where
  bytes : List UInt8
  small : bytes.length < 2 ^ 32

abbrev File := UInt64 → UInt8

/-- What the server keeps, and how much of it the answer to the `k`-th Tread of a call may have. -/
structure Server where
  file : File
  limit : Nat → Nat

structure Twrite where
  fid : UInt32
  offset : UInt64
  data : List UInt8

/-- `none`: the size is negative as an `int`, the message comes out null, and `npc_rpcnb` follows it. -/
def npCreateTwrite (fid : UInt32) (offset : UInt64) (count : Nat) (data : List UInt8) : Option Twrite :=
  if 4 + 1 + 2 + (4 + 8 + 4 + count) < 2 ^ 31 then some ⟨fid, offset, data.take count⟩ else none

/-- How much a message may carry. -/
def Npcfid.chunk (fid : Npcfid) : Nat := (fid.msize - iohdrsz).toNat

-- The loop of `npc_write`; `none` also stands for the overflow of the `int` sum `n + l`.
def npcWriteLoop (fid : Npcfid) (buf : Buffer) (offset : UInt64) (n : Nat) (file : File) : Option (Nat × File) :=
  if n < buf.bytes.length then
    let i := min (buf.bytes.length - n) fid.chunk
    match npCreateTwrite fid.fid (offset + UInt64.ofNat n) i buf.bytes with
    | none => none
    | some tc =>
        let file := storeAt file tc.offset tc.data
        let l := tc.data.length
        if l = 0 then some (n, file)
        else if n + l < 2 ^ 31 then npcWriteLoop fid buf offset (n + l) file
        else none
  else some (n, file)
termination_by buf.bytes.length - n
decreasing_by omega

def npcWrite (fid : Npcfid) (buf : Buffer) (offset : UInt64) (file : File) : Option (Nat × File) :=
  npcWriteLoop fid buf offset 0 file

def readAt (file : File) (offset : UInt64) (count : Nat) : List UInt8 :=
  (List.range count).map fun index => file (offset + UInt64.ofNat index)

@[simp]
theorem readAt_length (file : File) (offset : UInt64) (count : Nat) : (readAt file offset count).length = count := by
  simp [readAt]

theorem readAt_getElem {file : File} {offset : UInt64} {count index : Nat} (inside : index < count) :
    (readAt file offset count)[index]? = some (file (offset + UInt64.ofNat index)) := by
  simp [readAt, inside]

-- The loop of `npc_read`, with the number `k` of the message. The whole of `buf` is there for each reply.
def npcReadLoop (fid : Npcfid) (count : Nat) (offset : UInt64) (server : Server) (k n : Nat) (buf : List UInt8) :
    Option (Nat × List UInt8) :=
  if n < count then
    let i := min (count - n) fid.chunk
    let data := readAt server.file (offset + UInt64.ofNat n) (min i (server.limit k))
    let l := if data.length > count then count else data.length
    let buf := overwrite buf 0 (data.take l)
    if l = 0 then some (n, buf)
    else if n + l < 2 ^ 31 then npcReadLoop fid count offset server (k + 1) (n + l) buf
    else none
  else some (n, buf)
termination_by count - n
decreasing_by
  rename_i more nothing _
  exact Nat.sub_lt_sub_left more (Nat.lt_add_of_pos_right (Nat.pos_of_ne_zero nothing))

def npcRead (fid : Npcfid) (buf : Buffer) (offset : UInt64) (server : Server) : Option (Nat × List UInt8) :=
  npcReadLoop fid buf.bytes.length offset server 0 0 buf.bytes

section Write

variable {fid : Npcfid} {buf : Buffer} {offset : UInt64}

/-- The file has the first `n` bytes of the buffer at the offset. -/
def Stored (buf : Buffer) (offset : UInt64) (file : File) (n : Nat) : Prop :=
  ∀ index < n, some (file (offset + UInt64.ofNat index)) = buf.bytes[index]?

theorem npCreateTwrite_some {number : UInt32} {start : UInt64} {count : Nat} {data : List UInt8} {tc : Twrite}
    (created : npCreateTwrite number start count data = some tc) :
    23 + count < 2 ^ 31 ∧ tc = ⟨number, start, data.take count⟩ := by
  rw [npCreateTwrite] at created
  split at created
  · exact ⟨by omega, (Option.some.inj created).symm⟩
  · cases created

/-- Each chunk leaves the beginning of the buffer at its own place in the file. -/
theorem npcWriteLoop_stores {n : Nat} {file : File} (some_ : 0 < fid.chunk)
    (fits : 23 + min buf.bytes.length fid.chunk < 2 ^ 31) (total : buf.bytes.length < 2 ^ 31)
    (within : n ≤ buf.bytes.length) (aligned : n < buf.bytes.length → n % fid.chunk = 0) :
    ∃ final, npcWriteLoop fid buf offset n file = some (buf.bytes.length, final) ∧
      (∀ index < n, final (offset + UInt64.ofNat index) = file (offset + UInt64.ofNat index)) ∧
      ∀ index, n ≤ index → index < buf.bytes.length →
        some (final (offset + UInt64.ofNat index)) = buf.bytes[index % fid.chunk]? := by
  induction left : buf.bytes.length - n using Nat.strong_induction_on generalizing n file with
  | _ left ih =>
      rw [npcWriteLoop]
      by_cases more : n < buf.bytes.length
      · have created : npCreateTwrite fid.fid (offset + UInt64.ofNat n) (min (buf.bytes.length - n) fid.chunk) buf.bytes =
            some ⟨fid.fid, offset + UInt64.ofNat n, buf.bytes.take (min (buf.bytes.length - n) fid.chunk)⟩ := by
          rw [npCreateTwrite, if_pos (by omega)]
        rw [if_pos more]
        simp only [created]
        generalize asked : min (buf.bytes.length - n) fid.chunk = i
        have length : (buf.bytes.take i).length = i := by
          rw [List.length_take]
          omega
        rw [length, if_neg (by omega), if_pos (by omega)]
        have next : n + i < buf.bytes.length → (n + i) % fid.chunk = 0 := by
          intro before
          have whole : i = fid.chunk := by omega
          rw [whole, Nat.add_mod_right]
          exact aligned more
        obtain ⟨final, ran, kept, stored⟩ := @ih (buf.bytes.length - (n + i)) (by omega) (n + i)
          (storeAt file (offset + UInt64.ofNat n) (buf.bytes.take i)) (by omega) next rfl
        refine ⟨final, ran, ?_, ?_⟩
        · intro index before
          rw [kept index (by omega)]
          exact storeAt_outside file offset n _ index (.inl before) (by omega) (by omega)
        · intro index reached inside
          by_cases later : n + i ≤ index
          · exact stored index later inside
          · obtain ⟨distance, rfl⟩ := Nat.exists_eq_add_of_le reached
            have address : offset + UInt64.ofNat (n + distance) = offset + UInt64.ofNat n + UInt64.ofNat distance := by
              rw [UInt64.ofNat_add, UInt64.add_assoc]
            have place : (n + distance) % fid.chunk = distance := by
              rw [Nat.add_mod, aligned more, Nat.zero_add, Nat.mod_mod, Nat.mod_eq_of_lt (by omega)]
            rw [kept _ (by omega), address, storeAt_within _ _ _ distance (by omega) (by omega),
              List.getElem?_take_of_lt (by omega), place]
      · rw [if_neg more]
        obtain rfl : n = buf.bytes.length := by omega
        exact ⟨file, rfl, fun _ _ => rfl, fun index reached inside => absurd inside (by omega)⟩

theorem npcWriteLoop_total {n : Nat} {file : File} {result : Nat × File}
    (ran : npcWriteLoop fid buf offset n file = some result) (low : n < 2 ^ 31) :
    result.1 < 2 ^ 31 ∧ (0 < fid.chunk → buf.bytes.length < 2 ^ 31) := by
  induction left : buf.bytes.length - n using Nat.strong_induction_on generalizing n file with
  | _ left ih =>
      rw [npcWriteLoop] at ran
      by_cases more : n < buf.bytes.length
      · rw [if_pos more] at ran
        dsimp only at ran
        split at ran
        · cases ran
        · rename_i tc created
          obtain ⟨-, rfl⟩ := npCreateTwrite_some created
          have length : (buf.bytes.take (min (buf.bytes.length - n) fid.chunk)).length =
              min (buf.bytes.length - n) fid.chunk := by
            rw [List.length_take]
            omega
          rw [length] at ran
          split at ran
          · rename_i nothing
            cases ran
            exact ⟨low, fun some_ => by omega⟩
          · rename_i something
            split at ran
            · rename_i below
              exact ih _ (by omega) ran below rfl
            · cases ran
      · rw [if_neg more] at ran
        cases ran
        exact ⟨low, fun _ => by omega⟩

/-- The buffer repeats itself after each chunk. -/
def Repeats (fid : Npcfid) (buf : Buffer) : Prop :=
  ∀ index < buf.bytes.length, buf.bytes[index]? = buf.bytes[index % fid.chunk]?

theorem npcWrite_stored_iff (fid : Npcfid) (buf : Buffer) (offset : UInt64) (file : File) :
    (∃ n final, npcWrite fid buf offset file = some (n, final) ∧ Stored buf offset final n) ↔
      fid.chunk = 0 ∨ (23 + min buf.bytes.length fid.chunk < 2 ^ 31 ∧ buf.bytes.length < 2 ^ 31 ∧ Repeats fid buf) := by
  rcases Nat.eq_zero_or_pos fid.chunk with none | some_
  · refine iff_of_true ?_ (.inl none)
    rw [npcWrite, npcWriteLoop]
    split
    · simp only [none, Nat.min_zero, npCreateTwrite]
      exact ⟨0, _, rfl, fun index inside => absurd inside (Nat.not_lt_zero index)⟩
    · exact ⟨0, _, rfl, fun index inside => absurd inside (Nat.not_lt_zero index)⟩
  · constructor
    · rintro ⟨n, final, ran, stored⟩
      have total := (npcWriteLoop_total ran (by omega)).2 some_
      have fits : 23 + min buf.bytes.length fid.chunk < 2 ^ 31 := by
        by_cases empty : buf.bytes.length = 0
        · omega
        · rw [npcWrite, npcWriteLoop, if_pos (by omega)] at ran
          dsimp only at ran
          split at ran
          · cases ran
          · rename_i tc created
            have := (npCreateTwrite_some created).1
            omega
      obtain ⟨final', ran', -, chunked⟩ := @npcWriteLoop_stores fid buf offset 0 file some_ fits total
        (Nat.zero_le _) (fun _ => Nat.zero_mod _)
      rw [npcWrite, ran'] at ran
      cases ran
      refine .inr ⟨fits, total, fun index inside => ?_⟩
      rw [← stored index inside, chunked index (Nat.zero_le _) inside]
    · rintro (none | ⟨fits, total, repeated⟩)
      · omega
      · obtain ⟨final, ran, -, chunked⟩ := @npcWriteLoop_stores fid buf offset 0 file some_ fits total
          (Nat.zero_le _) (fun _ => Nat.zero_mod _)
        refine ⟨_, final, ran, fun index inside => ?_⟩
        rw [chunked index (Nat.zero_le _) inside, repeated index inside]

end Write

section Read

variable {fid : Npcfid} {count : Nat} {offset : UInt64} {server : Server}

/-- One answer to a Tread: where in the transfer it belongs, and how many bytes it has. -/
structure Reply where
  start : Nat
  length : Nat

/-- The answers with data, from the `k`-th message and the byte `n` on. -/
def replies (fid : Npcfid) (count : Nat) (limit : Nat → Nat) (k n : Nat) : List Reply :=
  if n < count then
    let l := min (min (count - n) fid.chunk) (limit k)
    if l = 0 then [] else ⟨n, l⟩ :: replies fid count limit (k + 1) (n + l)
  else []
termination_by count - n
decreasing_by omega

/-- How many bytes come. -/
def received (rs : List Reply) : Nat := (rs.map Reply.length).sum

/-- The last answer that reaches a byte of the buffer. -/
def lastAt (rs : List Reply) (index : Nat) : Option Reply := rs.reverse.find? fun r => index < r.length

/-- Each byte is that of the file: in the last answer that reaches it, or before the call where none does. -/
def Aligned (file : File) (buf : Buffer) (offset : UInt64) (rs : List Reply) : Prop :=
  ∀ index < received rs,
    match lastAt rs index with
    | some r => file (offset + UInt64.ofNat r.start + UInt64.ofNat index) = file (offset + UInt64.ofNat index)
    | none => buf.bytes[index]? = some (file (offset + UInt64.ofNat index))

/-- The buffer has the first `n` bytes of the file at the offset. -/
def Placed (file : File) (offset : UInt64) (n : Nat) (out : List UInt8) : Prop :=
  ∀ index < n, out[index]? = some (file (offset + UInt64.ofNat index))

theorem overwrite_front (buf data : List UInt8) (index : Nat) :
    (overwrite buf 0 data)[index]? = if index < data.length then data[index]? else buf[index]? := by
  rw [overwrite, List.take_zero, List.nil_append, Nat.zero_add]
  split
  · rw [List.getElem?_append_left (by assumption)]
  · rw [List.getElem?_append_right (by omega), List.getElem?_drop]
    congr 1
    omega

/-- The buffer after the answers. -/
def overlay (file : File) (offset : UInt64) (rs : List Reply) (buf : List UInt8) : List UInt8 :=
  rs.foldl (fun buf r => overwrite buf 0 (readAt file (offset + UInt64.ofNat r.start) r.length)) buf

theorem overlay_getElem (file : File) (rs : List Reply) (buf : List UInt8) (index : Nat) :
    (overlay file offset rs buf)[index]? =
      match lastAt rs index with
      | some r => some (file (offset + UInt64.ofNat r.start + UInt64.ofNat index))
      | none => buf[index]? := by
  induction rs using List.reverseRecOn with
  | nil => rfl
  | append_singleton rs r ih =>
      rw [overlay, List.foldl_concat, overwrite_front, readAt_length]
      rw [lastAt, List.reverse_concat, List.find?_cons]
      by_cases reaches : index < r.length
      · simp only [reaches, if_true, decide_true, readAt_getElem reaches]
      · simp only [reaches, if_false, decide_false]
        exact ih

theorem npcReadLoop_overlay (k n : Nat) (buf : List UInt8) (low : n < 2 ^ 31) :
    npcReadLoop fid count offset server k n buf =
      if n + received (replies fid count server.limit k n) < 2 ^ 31 then
        some (n + received (replies fid count server.limit k n),
          overlay server.file offset (replies fid count server.limit k n) buf)
      else none := by
  induction left : count - n using Nat.strong_induction_on generalizing n k buf with
  | _ left ih =>
      rw [npcReadLoop, replies]
      by_cases more : n < count
      · rw [if_pos more, if_pos more]
        dsimp only
        generalize arrived : min (min (count - n) fid.chunk) (server.limit k) = l
        have inside : ¬ l > count := by omega
        simp only [readAt_length, inside, if_false]
        rw [List.take_of_length_le (by simp)]
        by_cases nothing : l = 0
        · subst nothing
          have empty : overwrite buf 0 (readAt server.file (offset + UInt64.ofNat n) 0) = buf := overwrite_nil _ _
          rw [empty]
          simpa [received, overlay] using low
        · rw [if_neg nothing, if_neg nothing]
          have sum : received (⟨n, l⟩ :: replies fid count server.limit (k + 1) (n + l)) =
              l + received (replies fid count server.limit (k + 1) (n + l)) := by
            simp [received]
          by_cases below : n + l < 2 ^ 31
          · rw [if_pos below, ih _ (by omega) _ _ _ below rfl, sum, Nat.add_assoc]
            rfl
          · rw [if_neg below, sum, if_neg (by omega)]
      · rw [if_neg more, if_neg more]
        simpa [received, overlay] using low

theorem npcRead_placed_iff (fid : Npcfid) (buf : Buffer) (offset : UInt64) (server : Server) :
    (∃ n out, npcRead fid buf offset server = some (n, out) ∧ Placed server.file offset n out) ↔
      received (replies fid buf.bytes.length server.limit 0 0) < 2 ^ 31 ∧
        Aligned server.file buf offset (replies fid buf.bytes.length server.limit 0 0) := by
  rw [npcRead, npcReadLoop_overlay 0 0 buf.bytes (by omega), Nat.zero_add]
  generalize replies fid buf.bytes.length server.limit 0 0 = rs
  by_cases below : received rs < 2 ^ 31
  · rw [if_pos below]
    have same : Placed server.file offset (received rs) (overlay server.file offset rs buf.bytes) ↔
        Aligned server.file buf offset rs := by
      refine forall₂_congr fun index inside => ?_
      rw [overlay_getElem]
      cases lastAt rs index <;> simp
    constructor
    · rintro ⟨n, out, ran, placed⟩
      cases ran
      exact ⟨below, same.mp placed⟩
    · rintro ⟨-, aligned⟩
      exact ⟨_, _, rfl, same.mpr aligned⟩
  · rw [if_neg below]
    constructor
    · rintro ⟨n, out, ran, -⟩
      cases ran
    · rintro ⟨fits, -⟩
      exact absurd fits below

end Read

end Xcpu.Libnpclient
