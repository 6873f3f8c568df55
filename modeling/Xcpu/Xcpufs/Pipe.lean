import Xcpu.Lib.Outbound
import Xcpu.Lib.Transition

/-!
The pipe to the standard input of a session. Twrites wait in a queue sorted by fid, and
`buflen` counts the bytes of the first one that the descriptor has taken.
-/

namespace Xcpu.Xcpufs

open Xcpu.Transition Xcpu.Outbound

/-- `seq` stands for the address of the request and numbers the requests as they arrive. -/
structure Xpipereq where
  seq : Nat
  fid : Nat
  payload : List UInt8
deriving DecidableEq

inductive PipeAnswer where
  | rwrite (count : Nat)
  | rread (count : Nat)
  | rerror
deriving DecidableEq

/-- `opened` is whether `lspfd` is set. The fields from `writes` on are the history of the pipe,
which no function reads: what each write delivered and for which request, and what became of
the requests. -/
structure Xfilepipe where
  opened : Bool
  reqs : List Xpipereq
  buflen : Nat
  nextSeq : Nat
  answers : List (Xpipereq × PipeAnswer)
  writes : List (Nat × List UInt8)
  completed : List Xpipereq
  flushed : List Xpipereq
  lost : List Xpipereq

def pipCreate : Xfilepipe := ⟨true, [], 0, 0, [], [], [], [], []⟩

/-- What the poll flags say: how much a write would take, and whether the peer is gone. -/
structure Ready where
  takes : Option Nat
  error : Bool

/-- One pass over the requests of `pip_read_buf`, whose counter starts again with each fid. -/
def readBuf (buflen : Nat) : List Xpipereq → Nat → Nat → Nat →
    List Xpipereq × List (Xpipereq × PipeAnswer) × Nat
  | [], _, n, len => ([], [], min len n)
  | preq :: rest, fid, n, len =>
      let count := if preq.fid = fid then n else 0
      let least := if preq.fid = fid then len else min len n
      if count ≤ buflen then
        let m := min (buflen - count) preq.payload.length
        let (kept, answers, shortest) := readBuf buflen rest preq.fid (count + m) least
        (kept, (preq, .rread m) :: answers, shortest)
      else
        let (kept, answers, shortest) := readBuf buflen rest preq.fid count least
        (preq :: kept, answers, shortest)

/-- `pip_read` calls this on an error, whatever the direction of the pipe. -/
def pipReadBuf (p : Xfilepipe) : Xfilepipe :=
  match p.reqs with
  | [] => p
  | first :: _ =>
      let (kept, answers, len) := readBuf p.buflen p.reqs first.fid 0 p.buflen
      { p with reqs := kept, buflen := p.buflen - len, answers := answers.reverse ++ p.answers }

def Xfilepipe.wrote (p : Xfilepipe) (preq : Xpipereq) (rest : List Xpipereq) (count : Nat) :
    Xfilepipe :=
  if p.buflen + count = preq.payload.length then
    { p with
      writes := p.writes ++ [(preq.seq, chunk Xpipereq.payload preq p.buflen count)]
      answers := (preq, .rwrite (p.buflen + count)) :: p.answers
      reqs := rest
      buflen := 0
      completed := p.completed ++ [preq] }
  else
    { p with
      writes := p.writes ++ [(preq.seq, chunk Xpipereq.payload preq p.buflen count)]
      buflen := p.buflen + count }

/-- `none` when the position is past the end of the payload, or for a descriptor that takes
more than it is offered. -/
def pipWrite (p : Xfilepipe) (takes : Option Nat) : Option Xfilepipe :=
  match p.reqs with
  | [] => some p
  | preq :: rest =>
      match takes with
      | none => some p
      | some count =>
          if 0 < count ∧ p.buflen + count ≤ preq.payload.length then some (p.wrote preq rest count)
          else none

def pipDisconnect (p : Xfilepipe) : Xfilepipe :=
  { p with
    opened := false
    answers :=
      match p.reqs with
      | [] => p.answers
      | first :: rest =>
          (rest.map fun preq => (preq, .rwrite 0)) ++ (first, .rwrite p.buflen) :: p.answers
    reqs := []
    buflen := 0
    lost := p.lost ++ if p.opened then p.reqs.take 1 else [] }

def pipNotify (p : Xfilepipe) (ready : Ready) : Option Xfilepipe :=
  let read := if 0 < p.buflen ∧ ready.error then pipReadBuf p else p
  (pipWrite read ready.takes).map fun written => if ready.error then pipDisconnect written else written

def pipAddreq (p : Xfilepipe) (fid : Nat) (payload : List UInt8) (ready : Ready) :
    Option Xfilepipe :=
  let r : Xpipereq := ⟨p.nextSeq, fid, payload⟩
  let queued := { p with
    reqs := p.reqs.takeWhile (·.fid ≤ fid) ++ r :: p.reqs.dropWhile (·.fid ≤ fid)
    nextSeq := p.nextSeq + 1 }
  if p.opened then pipNotify queued ready
  else some { queued with answers := (r, .rerror) :: queued.answers }

def pipFlushreq (p : Xfilepipe) (seq : Nat) : Xfilepipe :=
  match p.reqs.find? (·.seq == seq) with
  | some preq => { p with reqs := p.reqs.eraseP (·.seq == seq), flushed := preq :: p.flushed }
  | none => p

inductive PipeEvent where
  | addreq (fid : Nat) (payload : List UInt8) (ready : Ready)
  | notify (ready : Ready)
  | flushreq (seq : Nat)

def Xfilepipe.step (p : Xfilepipe) : PipeEvent → Option Xfilepipe
  | .addreq fid payload ready => pipAddreq p fid payload ready
  | .notify ready => if p.opened then pipNotify p ready else some p
  | .flushreq seq => some (pipFlushreq p seq)

end Xcpu.Xcpufs
