import Xcpu.Lib.Ledger
import Xcpu.Lib.Numerals
import Xcpu.Xcpufs.Session

/-!
The file `wait` of a session. A read waits until the process of the session exits or the session is
wiped, unless it is flushed. The requests and the fids are those of the server, which frees them
when nothing refers to them; an access to one that was freed leaves the defined behaviour.
-/

namespace Xcpu.Xcpufs.WaitReads

open Xcpu.Keyed Xcpu.Ledger Xcpu.Transition Xcpu.Xcpufs.Session

/-- A Tread of `wait`, with its place among all of them. -/
structure Waitreq where
  number : Nat
  fid : Nat
  offset : Nat
  count : Nat
  deriving DecidableEq

/-- A fid that has `wait` open: the table refers to it until a Tclunk, and each outstanding
request does. -/
structure Waitfid where
  fid : Nat
  refcount : Int
  deriving DecidableEq

/-- The bytes of an Rread; `none` for those that nothing was written to. -/
abbrev Data := List (Option UInt8)

/-- `waitreqs` is the list of the session and `workreqs` the outstanding requests of the server.
`others` counts the fids on other files of the session, `next` all reads so far. -/
structure Server where
  xs : Xsession
  exitstatus : Option (List UInt8) := none
  waitreqs : List Waitreq := []
  fids : List Waitfid := []
  others : Nat := 1
  workreqs : List Waitreq := []
  answered : List (Waitreq × Data) := []
  flushed : List Waitreq := []
  next : Nat := 0
  deriving DecidableEq

def cutbuf (toffset tcount : Int) (src : List UInt8) (soffset : Int) : Data :=
  let slen : Int := src.length
  if toffset > soffset + slen then []
  else if soffset > toffset + tcount then []
  else
    let b := max soffset toffset
    let e := min (soffset + slen) (toffset + tcount)
    (List.replicate (b - toffset).toNat none ++
      ((src.drop (b - soffset).toNat).take (e - b).toNat).map some).take (e - b).toNat

def cutstr (toffset tcount : Int) (src : Option (List UInt8)) (soffset : Int) : Data :=
  match src with
  | none => []
  | some src => cutbuf toffset tcount src soffset

/-- The offset and the count are passed as `int`. -/
def argInt (value : Nat) : Int := (Int32.ofNat value).toInt

/-- What a read of `wait` is answered with. -/
def waitData (exitstatus : Option (List UInt8)) (wreq : Waitreq) : Data :=
  cutstr (argInt wreq.offset) (argInt wreq.count) exitstatus 0

def findFid (server : Server) (fid : Nat) : Option Waitfid := server.fids.find? (·.fid == fid)

/-- `sp_fid_decref`. The last reference destroys the fid, and with it a hold of the session. -/
def fidDecref (decref : Server → Option Server) (server : Server) (fid : Nat) : Option Server :=
  match findFid server fid with
  | none => none
  | some f =>
      if f.refcount - 1 = 0 then decref { server with fids := server.fids.eraseP (·.fid == fid) }
      else
        some { server with fids := update Waitfid.fid server.fids fid fun f => { f with refcount := f.refcount - 1 } }

/-- `sp_respond`; without `data` the request is flushed. -/
def respond (decref : Server → Option Server) (server : Server) (wreq : Waitreq) (data : Option Data) :
    Option Server :=
  if wreq ∈ server.workreqs then do
    let server ← fidDecref decref { server with workreqs := server.workreqs.erase wreq } wreq.fid
    match data with
    | some data => some { server with answered := (wreq, data) :: server.answered }
    | none => some { server with flushed := wreq :: server.flushed }
  else none

/-- The loop over the requests that were taken off the session. -/
def replyAll (decref : Server → Option Server) (server : Server) : List Waitreq → Option Server
  | [] => some server
  | wreq :: rest =>
      if server.xs.listed then do
        let server ← respond decref server wreq (some (waitData server.exitstatus wreq))
        replyAll decref server rest
      else none

def sessionWipe (decref : Server → Option Server) (server : Server) : Option Server :=
  if server.xs.state = .wiped then some server
  else do
    let xs ← Session.sessionWipe server.xs
    replyAll decref { server with xs, waitreqs := [] } server.waitreqs

/-- `session_decref`; `depth` is how far the calls can nest, since an answer to a read may give up
the hold of its fid. -/
def sessionDecref : Nat → Server → Option Server
  | 0, _ => none
  | depth + 1, server =>
      if server.xs.listed then
        let server := { server with xs := { server.xs with refcount := server.xs.refcount - 1 } }
        if server.xs.refcount ≠ 0 then some server
        else do
          let server ←
            if server.xs.mode = .normal ∧ server.xs.state ≠ .running then sessionWipe (sessionDecref depth) server
            else some server
          some { server with xs := { srootDecref server.xs with released := server.xs.released + 1 } }
      else none

/-- An answer to a read that an answer to a read caused would be the second in a row. -/
def decref : Server → Option Server := sessionDecref 2

/-- `wait_read`, and `sp_respond` where it answers at once. -/
def waitRead (server : Server) (f : Waitfid) (offset count : Nat) : Option Server :=
  let wreq : Waitreq := { number := server.next, fid := f.fid, offset, count }
  let server := { server with
    fids := update Waitfid.fid server.fids f.fid fun f => { f with refcount := f.refcount + 1 }
    workreqs := wreq :: server.workreqs
    next := server.next + 1 }
  if server.xs.listed then
    if server.xs.state = .finished ∨ server.xs.state = .wiped then
      respond decref server wreq (some (waitData server.exitstatus wreq))
    else some { server with waitreqs := wreq :: server.waitreqs }
  else none

/-- `sp_flush` of a read, and `wait_flush`: a request that is not in the list is not flushed. -/
def waitFlush (server : Server) (number : Nat) : Option Server :=
  match server.workreqs.find? (·.number == number) with
  | none => some server
  | some wreq =>
      if server.xs.listed then
        if wreq ∈ server.waitreqs then respond decref { server with waitreqs := server.waitreqs.erase wreq } wreq none
        else some server
      else none

/-- `sigchld_notify`, for one process that has ended. -/
def sigchldNotify (server : Server) (pid : Nat) (status : Int) : Option Server :=
  if server.xs.listed ∧ server.xs.pid = some pid then do
    let state := if server.xs.state ≠ .wiped then .finished else server.xs.state
    let server ← replyAll decref
      { server with
        xs := { server.xs with state, pid := none }
        exitstatus := some (Numerals.formatInt status)
        waitreqs := [] } server.waitreqs
    decref server
  else some server

/-- What happens to a session: fids come to `wait` or to other files and leave them, commands,
reads and their flushes, and the end of processes. A command comes through a fid on another file. -/
inductive Event where
  | openWait (fid : Nat)
  | hold
  | release
  | exec (pid : Nat)
  | wipe
  | type (mode : SessionMode)
  | read (fid offset count : Nat)
  | flush (number : Nat)
  | exited (pid : Nat) (status : Int)
  | clunk (fid : Nat)
  deriving DecidableEq

def step (server : Server) : Event → Option Server
  | .openWait fid =>
      if server.xs.inTree ∧ findFid server fid = none then
        if server.xs.listed then
          some { server with xs := sessionIncref server.xs, fids := { fid, refcount := 1 } :: server.fids }
        else none
      else some server
  | .hold =>
      if server.xs.inTree ∨ 0 < server.others then
        if server.xs.listed then some { server with xs := sessionIncref server.xs, others := server.others + 1 }
        else none
      else some server
  | .release =>
      if 0 < server.others then decref { server with others := server.others - 1 } else some server
  | .exec pid =>
      if 0 < server.others ∧ server.xs.state ≠ .wiped then
        some { server with xs := sessionIncref { server.xs with state := .running, pid := some pid } }
      else some server
  | .wipe => if 0 < server.others then sessionWipe decref server else some server
  | .type mode =>
      if 0 < server.others then some { server with xs := { server.xs with mode } } else some server
  | .read fid offset count =>
      match findFid server fid with
      | none => some server
      | some f => waitRead server f offset count
  | .flush number => waitFlush server number
  | .exited pid status => sigchldNotify server pid status
  | .clunk fid =>
      match findFid server fid with
      | none => some server
      | some f => fidDecref decref server f.fid

/-- A new session, with the fid that opened `clone`. -/
def start : Server := { xs := sessionCreate }

end Xcpu.Xcpufs.WaitReads
