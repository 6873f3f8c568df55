import Xcpu.Libspclient.ReadWrite

/-!
`spc_writenb`: one Twrite, and a callback when it is answered. `spc_rpcnb` calls that callback also where it
refuses the request, and the callback frees the message that it was given with.
-/

namespace Xcpu.Libspclient.Writenb

/-- What is allocated for one write: the `Spcwrite`, the Twrite and the message that answers it. -/
inductive Block where
  | request
  | tcall
  | rcall
  deriving DecidableEq

/-- What has happened: the messages that were queued, the counts that the caller's callback was called with, and
the calls of `free`. -/
structure Trace where
  sent : List Twrite := []
  called : List Int := []
  freed : List Block := []

def Trace.send (t : Trace) (tc : Twrite) : Trace := { t with sent := t.sent ++ [tc] }
def Trace.call (t : Trace) (n : Int) : Trace := { t with called := t.called ++ [n] }
def Trace.free (t : Trace) (block : Block) : Trace := { t with freed := t.freed ++ [block] }

/-- What `spc_rpcnb` checks: the connection, its error, the allocation of the request, and a tag. -/
structure Connection where
  spfd : Bool
  ename : Bool
  memory : Bool
  tag : Bool

def Connection.accepts (fs : Connection) : Bool := fs.spfd && !fs.ename && fs.memory && fs.tag

/-- How a request that was accepted ends. The count of an Rerror is whatever its memory held; a message of another
type, a flush and the loss of the connection leave no message but an error. -/
inductive Answer where
  | rwrite (count : UInt32)
  | rerror (count : UInt32)
  | lost

/-- `sp_haserror` in the callback. No function sets an error for an Rerror. -/
def Answer.error : Answer → Bool
  | .lost => true
  | _ => false

def Answer.count : Answer → Option UInt32
  | .rwrite count | .rerror count => some count
  | .lost => none

/-- `struct Spcwrite` -/
structure Spcwrite where
  fid : Spcfid
  offset : UInt64
  count : UInt32
  buf : List UInt8

/-- A conversion to `int`. -/
def toInt (n : UInt32) : Int := n.toInt32.toInt

/-- There is no result where it follows a null pointer. -/
def spcWriteCb (r : Spcwrite) (error : Bool) (rc : Option UInt32) (t : Trace) : Option Trace :=
  let t := t.free .tcall
  if error then some (t.call (-1))
  else rc.map fun count => (t.call (toInt (min count r.count))).free .rcall

/-- What is returned, and what has happened once the request is answered. -/
def spcRpcnb (fs : Connection) (answer : Answer) (tc : Twrite) (r : Spcwrite) (t : Trace) : Option (Int × Trace) :=
  if fs.accepts then (spcWriteCb r answer.error answer.count (t.send tc)).map fun t => (0, t)
  else (spcWriteCb r true none t).map fun t => (-1, t)

def writeSize (r : Spcwrite) : UInt32 :=
  min (if r.fid.iounit = 0 then r.fid.msize - iohdrsz else r.fid.iounit) r.count

section Write

variable (sizeofSpfcall : Nat) (fs : Connection) (answer : Answer)

def spcSendWriteRequest (r : Spcwrite) (t : Trace) : Option (Int × Trace) := do
  let tc ← spCreateTwrite sizeofSpfcall r.fid.fid r.offset (writeSize r).toNat (r.buf.drop r.offset.toNat)
  let (result, t) ← spcRpcnb fs answer tc r t
  if result < 0 then some (-1, t.free .tcall) else some (0, t)

/-- `memory` tells whether the `Spcwrite` is allocated. -/
def spcWritenb (memory : Bool) (fid : Spcfid) (buf : List UInt8) (count : UInt32) (_offset : UInt64) :
    Option (Int × Trace) :=
  if memory then do
    let (result, t) ← spcSendWriteRequest sizeofSpfcall fs answer { fid, offset := 0, count, buf } {}
    if result < 0 then some (-1, t.free .request) else some (0, t)
  else some (-1, {})

end Write

/-- Each Twrite carries a prefix of the buffer for the offset. -/
def Placed (buf : List UInt8) (offset : UInt64) (t : Trace) : Prop :=
  ∀ tc ∈ t.sent, tc.offset = offset ∧ tc.data <+: buf

/-- The bytes that the server has stored of a Twrite, or -1. -/
def Answer.stored (tc : Twrite) : Answer → Int
  | .rwrite count => min count.toNat tc.data.length
  | _ => -1

/-- Either -1 is returned and the callback is never called, or 0, and it is called once with the bytes stored. -/
def CallsOnce (answer : Answer) (result : Int) (t : Trace) : Prop :=
  (result = -1 ∧ t.called = []) ∨ (result = 0 ∧ ∃ tc, t.sent = [tc] ∧ t.called = [answer.stored tc])

/-- What was allocated is freed once. -/
def Released (memory : Bool) (t : Trace) : Prop :=
  t.freed.count .request = (if memory then 1 else 0) ∧ t.freed.count .tcall = (if memory then 1 else 0)

/-- The write is placed, told and released as it should be. -/
def CompletesOnce (memory : Bool) (buf : List UInt8) (offset : UInt64) (answer : Answer)
    (outcome : Option (Int × Trace)) : Prop :=
  ∃ result t, outcome = some (result, t) ∧ Placed buf offset t ∧ CallsOnce answer result t ∧ Released memory t

section Outcomes

variable {sizeofSpfcall : Nat} {fs : Connection} {answer : Answer} {fid : Spcfid} {buf : List UInt8} {count : UInt32}
  {offset : UInt64} {result : Int} {t : Trace}

/-- The callback frees the Twrite, and the message if there is one. -/
theorem spcWriteCb_cases {r : Spcwrite} {error : Bool} {rc : Option UInt32} {after : Trace}
    (called : spcWriteCb r error rc t = some after) :
    after.sent = t.sent ∧ ∃ n, after.called = t.called ++ [n] ∧
      (after.freed = t.freed ++ [.tcall] ∨ after.freed = t.freed ++ [.tcall, .rcall]) := by
  rw [spcWriteCb] at called
  cases error with
  | true =>
      rw [if_pos rfl, Option.some.injEq] at called
      subst called
      exact ⟨rfl, -1, rfl, .inl rfl⟩
  | false =>
      rw [if_neg Bool.false_ne_true] at called
      obtain ⟨count, -, same⟩ := Option.map_eq_some_iff.mp called
      subst same
      exact ⟨rfl, _, rfl, .inr (List.append_assoc _ _ _)⟩

/-- How a call ends: the offset of the Twrite is 0, and the `Spcwrite` is freed only where the request is refused. -/
theorem spcWritenb_ends (ended : spcWritenb sizeofSpfcall fs answer true fid buf count offset = some (result, t)) :
    (fs.accepts = true ∧ result = 0 ∧ (∃ data, t.sent = [⟨fid.fid, 0, data⟩] ∧ data <+: buf) ∧
      (t.freed = [.tcall] ∨ t.freed = [.tcall, .rcall])) ∨
    (fs.accepts = false ∧ result = -1 ∧ t = ⟨[], [-1], [.tcall, .tcall, .request]⟩) := by
  rw [spcWritenb, if_pos rfl] at ended
  obtain ⟨⟨sent, after⟩, requested, ended⟩ := Option.bind_eq_some_iff.mp ended
  obtain ⟨tc, created, requested⟩ := Option.bind_eq_some_iff.mp requested
  obtain ⟨⟨queued, told⟩, called, requested⟩ := Option.bind_eq_some_iff.mp requested
  rw [spcRpcnb] at called
  cases accepted : fs.accepts with
  | true =>
      left
      rw [accepted, if_pos rfl] at called
      obtain ⟨trace, called, same⟩ := Option.map_eq_some_iff.mp called
      cases same
      cases requested
      cases ended
      obtain ⟨same, n, -, freed⟩ := spcWriteCb_cases called
      rw [spCreateTwrite] at created
      split at created
      · cases created
        exact ⟨rfl, rfl, ⟨_, same, List.take_prefix _ _⟩, freed⟩
      · cases created
  | false =>
      right
      rw [accepted, if_neg Bool.false_ne_true] at called
      cases called
      cases requested
      cases ended
      exact ⟨rfl, rfl, rfl⟩

/-- The call does all that only if there is no memory for the `Spcwrite`. Otherwise it is never released as it
should be, a refused one has called the callback, and one that is accepted writes at 0. -/
theorem spcWritenb_completes_iff (sizeofSpfcall : Nat) (fs : Connection) (answer : Answer) (memory : Bool)
    (fid : Spcfid) (buf : List UInt8) (count : UInt32) (offset : UInt64) :
    (CompletesOnce memory buf offset answer (spcWritenb sizeofSpfcall fs answer memory fid buf count offset) ↔
      memory = false) ∧
    ∀ result t, spcWritenb sizeofSpfcall fs answer true fid buf count offset = some (result, t) →
      ¬Released true t ∧ (fs.accepts = false → ¬CallsOnce answer result t) ∧
        (fs.accepts = true → (Placed buf offset t ↔ offset = 0)) := by
  have parts : ∀ result t, spcWritenb sizeofSpfcall fs answer true fid buf count offset = some (result, t) →
      ¬Released true t ∧ (fs.accepts = false → ¬CallsOnce answer result t) ∧
        (fs.accepts = true → (Placed buf offset t ↔ offset = 0)) := by
    intro result t ended
    rcases spcWritenb_ends ended with ⟨accepted, -, ⟨data, sent, front⟩, freed⟩ | ⟨refused, rfl, rfl⟩
    · refine ⟨fun released => ?_, fun refused => absurd (accepted.symm.trans refused) Bool.noConfusion, fun _ => ?_⟩
      · rcases freed with freed | freed
        · rw [Released, freed] at released
          exact absurd released.1 (by decide)
        · rw [Released, freed] at released
          exact absurd released.1 (by decide)
      · rw [Placed, sent]
        constructor
        · intro placed
          exact (placed _ List.mem_cons_self).1.symm
        · rintro rfl tc member
          rw [List.mem_singleton.mp member]
          exact ⟨rfl, front⟩
    · refine ⟨fun released => absurd released.2 (by decide), fun _ => ?_,
        fun accepted => absurd (accepted.symm.trans refused) Bool.noConfusion⟩
      rintro (⟨-, called⟩ | ⟨zero, -⟩)
      · exact List.cons_ne_nil _ _ called
      · exact absurd zero (by decide)
  refine ⟨?_, parts⟩
  cases memory with
  | false =>
      refine iff_of_true ⟨-1, {}, rfl, ?_, .inl ⟨rfl, rfl⟩, rfl, rfl⟩ rfl
      exact fun tc member => absurd member List.not_mem_nil
  | true =>
      refine iff_of_false ?_ Bool.noConfusion
      rintro ⟨result, t, ended, -, -, released⟩
      exact (parts result t ended).1 released

end Outcomes

/-- Three bytes for offset 8 are written at 0, and the `Spcwrite` is never freed. -/
theorem spcWritenb_three :
    spcWritenb 200 ⟨true, false, true, true⟩ (.rwrite 3) true ⟨0, 1, 8216⟩ [1, 2, 3] 3 8 =
      some (0, ⟨[⟨1, 0, [1, 2, 3]⟩], [3], [.tcall, .rcall]⟩) ∧
    ¬CompletesOnce true [1, 2, 3] 8 (.rwrite 3)
      (spcWritenb 200 ⟨true, false, true, true⟩ (.rwrite 3) true ⟨0, 1, 8216⟩ [1, 2, 3] 3 8) := by
  have ended : spcWritenb 200 ⟨true, false, true, true⟩ (.rwrite 3) true ⟨0, 1, 8216⟩ [1, 2, 3] 3 8 =
      some (0, ⟨[⟨1, 0, [1, 2, 3]⟩], [3], [.tcall, .rcall]⟩) := rfl
  refine ⟨ended, ?_⟩
  rintro ⟨result, t, same, placed, -, -⟩
  rw [ended] at same
  cases same
  exact absurd (placed _ List.mem_cons_self).1 (by decide)

end Xcpu.Libspclient.Writenb
