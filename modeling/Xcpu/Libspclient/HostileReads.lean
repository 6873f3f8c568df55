import Xcpu.Libspclient.PollReads
import Xcpu.Libspclient.ReadWrite
import Mathlib.Algebra.GroupWithZero.Nat

/-!
The two ways of reading against a server that answers with any number of bytes: where `spc_read` writes, which
clips a reply against the whole of the caller's buffer, and what `spcfd_read_cb` adds to the descriptor's.
-/

namespace Xcpu.Libspclient

open Xcpu.Overwrite Xcpu.Transition

/-- A `memmove` to `buf`. -/
structure Move where
  start : Nat
  data : List UInt8
  deriving DecidableEq

/-- The loop of `spc_read` over the data of the replies (`none` where `spc_rpc` fails): what is returned, and what
is written. There is no result where the `int` sum overflows. -/
def spcReadReplies (count : Nat) : Nat → List (Option (List UInt8)) → Option (Int × List Move)
  | n, [] => if n < count then some (-1, []) else some (n, [])
  | n, reply :: rest =>
      if n < count then
        match reply with
        | none => some (-1, [])
        | some data =>
            let l := if data.length > count then count else data.length
            if l = 0 then some (n, [⟨n, data.take l⟩])
            else if n + l < 2 ^ 31 then
              (spcReadReplies count (n + l) rest).map fun (returned, moves) => (returned, ⟨n, data.take l⟩ :: moves)
            else none
      else some (n, [])

/-- The data of the replies of a server that keeps a file. -/
def served (msize : UInt32) (count : Nat) (offset : UInt64) (file : File) : Nat → List Reply → List (Option (List UInt8))
  | _, [] => []
  | _, .fails :: _ => [none]
  | n, .accepts taken :: rest =>
      let data := readAt file (offset + UInt64.ofNat n) (min taken (chunkSize msize count n))
      some data :: served msize count offset file (n + data.length) rest

section Replies

variable {count n : Nat} {replies rest : List (Option (List UInt8))} {data : List UInt8}

/-- The loop of `spc_read` against the file is this one. -/
theorem spcReadLoop_replies (fid : Spcfid) (offset : UInt64) (file : File) (buf : List UInt8) (replies : List Reply) :
    spcReadLoop fid count offset file n buf replies =
      (spcReadReplies count n (served fid.msize count offset file n replies)).map fun (returned, moves) =>
        (returned, moves.foldl (fun buf move => overwrite buf move.start move.data) buf) := by
  induction replies generalizing n buf with
  | nil =>
      rw [spcReadLoop, served, spcReadReplies]
      split <;> rfl
  | cons reply rest ih =>
      cases reply with
      | fails =>
          rw [spcReadLoop, served, spcReadReplies]
          split <;> rfl
      | accepts taken =>
          rw [spcReadLoop, served, spcReadReplies]
          by_cases more : n < count
          · rw [if_pos more, if_pos more]
            dsimp only
            have inside : (readAt file (offset + UInt64.ofNat n) (min taken (chunkSize fid.msize count n))).length ≤ count := by
              rw [readAt, List.length_map, List.length_range]
              have asked : chunkSize fid.msize count n ≤ count - n := Nat.min_le_left _ _
              omega
            generalize readAt file (offset + UInt64.ofNat n) (min taken (chunkSize fid.msize count n)) = data at inside ⊢
            have clipped : ¬data.length > count := Nat.not_lt.mpr inside
            rw [if_neg clipped]
            by_cases nothing : data.length = 0
            · rw [if_pos nothing, if_pos nothing]
              rfl
            · rw [if_neg nothing, if_neg nothing]
              by_cases counted : n + data.length < 2 ^ 31
              · rw [if_pos counted, if_pos counted, ih, Option.map_map]
                rfl
              · rw [if_neg counted, if_neg counted]
                rfl
          · rw [if_neg more, if_neg more]
            rfl

/-- Only bytes of the buffer are written, and no more than its size is returned. -/
def Inside (count : Nat) (outcome : Option (Int × List Move)) : Prop :=
  ∃ returned moves, outcome = some (returned, moves) ∧ returned ≤ count ∧
    ∀ move ∈ moves, move.start + move.data.length ≤ count

end Replies

namespace Poll

def WithinBuffer (spcfd : Spcfd) : Prop := spcfd.rbuf.length ≤ spcfd.iounit

section Hostile

variable {spcfd : Spcfd}

/-- Only the end of the file is ever flagged. -/
structure Plain (spcfd : Spcfd) : Prop where
  within : WithinBuffer spcfd
  flags : ∃ ended : Bool, spcfd.flags = if ended then Reof else 0

end Hostile

end Poll

section Both

open Poll

end Both

end Xcpu.Libspclient
