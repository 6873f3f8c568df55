import Xcpu.Lib.Outbound
import Xcpu.Libspclient.Pool

/-!
The connection of the client library: requests wait to be written, have been sent, or were
answered while a Tflush for them was on its way. One event is one call into the library,
one poll notification, or one iteration of a loop of `spc_flush_requests`, so that the
callbacks between two iterations are events of their own.
-/

namespace Xcpu.Libspclient

open Xcpu.Bitmap Xcpu.Transition Xcpu.Outbound

def Tversion : Nat := 100
def Tflush : Nat := 108
def NOTAG : Nat := 65535

structure Tcall where
  type : Nat
  fid : Nat
  pkt : List UInt8

def spSetTag (tc : Tcall) (tag : Nat) : Tcall :=
  { tc with pkt := (tc.pkt.set 5 (UInt8.ofNat tag)).set 6 (UInt8.ofNat (tag / 256)) }

/-- The constructor zeroes every field it does not write, the fid among them. -/
def spCreateTflush (oldtag : Nat) : Tcall where
  type := Tflush
  fid := 0
  pkt := [9, 0, 0, 0, 108, 255, 255, UInt8.ofNat oldtag, UInt8.ofNat (oldtag / 256)]

/-- `flushCb` is `spc_flush_cb` with the request it flushes. -/
inductive Callback where
  | user
  | flushCb (request : Nat)

/-- `ref` stands for the address of the request. -/
structure Spcreq where
  ref : Nat
  tag : Nat
  tc : Tcall
  cb : Callback
  flushed : Bool

def Spcreq.bytes (req : Spcreq) : List UInt8 := req.tc.pkt

/-- The last four fields are the history of the connection, which no function reads: `lost` is
the request that was being written when the connection ended. -/
structure Spcfsys where
  connected : Bool
  tagpool : Spcpool
  pend : List Spcreq
  pendPos : Nat
  sent : List Spcreq
  answered : List Spcreq
  flushing : List Nat
  nextRef : Nat
  wire : List UInt8
  completed : List Spcreq
  removed : List Spcreq
  lost : List Spcreq

def spcCreateFsys : Spcfsys where
  connected := true
  tagpool := spcCreatePool 65535
  pend := []
  pendPos := 0
  sent := []
  answered := []
  flushing := []
  nextRef := 0
  wire := []
  completed := []
  removed := []
  lost := []

def Spcfsys.putTag (fs : Spcfsys) (tag : Nat) : Option Spcfsys :=
  (spcPutId fs.tagpool tag).map fun pool => { fs with tagpool := pool }

def Spcfsys.unlink (fs : Spcfsys) (ref : Nat) : Spcfsys :=
  { fs with sent := fs.sent.eraseP (·.ref == ref) }

/-- `spc_request_flushed`, with the callback of a request that was still waiting. -/
def spcRequestFlushed (fs : Spcfsys) (ref : Nat) : Option Spcfsys :=
  match _found : fs.sent.find? (·.ref == ref) with
  | some req =>
      match req.cb with
      | .user => (fs.unlink ref).putTag req.tag
      | .flushCb request =>
          (spcRequestFlushed (fs.unlink ref) request).bind fun rest => rest.putTag req.tag
  | none =>
      match fs.answered.find? (·.ref == ref) with
      | some req => { fs with answered := fs.answered.eraseP (·.ref == ref) }.putTag req.tag
      | none => none
termination_by fs.sent.length
decreasing_by
  have member := List.mem_of_find?_eq_some _found
  have same := List.find?_some _found
  have positive := List.length_pos_of_mem member
  have shorter : (fs.sent.eraseP (·.ref == ref)).length = fs.sent.length - 1 :=
    List.length_eraseP_of_mem member same
  simp only [Spcfsys.unlink]
  omega

def Spcfsys.callback (fs : Spcfsys) : Callback → Option Spcfsys
  | .user => some fs
  | .flushCb request => spcRequestFlushed fs request

theorem spcRequestFlushed_waiting {fs : Spcfsys} {ref : Nat} {req : Spcreq}
    (found : fs.sent.find? (·.ref == ref) = some req) :
    spcRequestFlushed fs ref =
      ((fs.unlink ref).callback req.cb).bind fun rest => rest.putTag req.tag := by
  rw [spcRequestFlushed]
  split
  · rename_i other found'
    rw [found, Option.some.injEq] at found'
    subst other
    cases req.cb <;> rfl
  · rename_i missing
    rw [found] at missing
    contradiction

theorem spcRequestFlushed_answered {fs : Spcfsys} {ref : Nat} {req : Spcreq}
    (missing : fs.sent.find? (·.ref == ref) = none)
    (found : fs.answered.find? (·.ref == ref) = some req) :
    spcRequestFlushed fs ref =
      { fs with answered := fs.answered.eraseP (·.ref == ref) }.putTag req.tag := by
  rw [spcRequestFlushed]
  split
  · rename_i other found'
    rw [missing] at found'
    contradiction
  · rw [found]

/-- A flushed request either still waits for its reply, or is only kept until the Rflush. -/
theorem spcRequestFlushed_cases {fs next : Spcfsys} {ref : Nat}
    (flushed : spcRequestFlushed fs ref = some next) :
    (∃ req middle, fs.sent.find? (·.ref == ref) = some req ∧
      (fs.unlink ref).sent.length < fs.sent.length ∧
      (fs.unlink ref).callback req.cb = some middle ∧ middle.putTag req.tag = some next) ∨
    ∃ req, fs.answered.find? (·.ref == ref) = some req ∧
      { fs with answered := fs.answered.eraseP (·.ref == ref) }.putTag req.tag = some next := by
  cases found : fs.sent.find? (·.ref == ref) with
  | some req =>
      left
      rw [spcRequestFlushed_waiting found] at flushed
      obtain ⟨middle, called, put⟩ := Option.bind_eq_some_iff.mp flushed
      have member := List.mem_of_find?_eq_some found
      have same := List.find?_some found
      have shorter : (fs.sent.eraseP (·.ref == ref)).length = fs.sent.length - 1 :=
        List.length_eraseP_of_mem member same
      have positive := List.length_pos_of_mem member
      refine ⟨req, middle, rfl, ?_, called, put⟩
      simp only [Spcfsys.unlink]
      omega
  | none =>
      right
      cases kept : fs.answered.find? (·.ref == ref) with
      | some req =>
          rw [spcRequestFlushed_answered found kept] at flushed
          exact ⟨req, rfl, flushed⟩
      | none =>
          rw [spcRequestFlushed] at flushed
          split at flushed
          · rename_i other found'
            rw [found] at found'
            contradiction
          · rw [kept] at flushed
            contradiction

/-- The requests that are freed get their callbacks; nothing is sent any more. -/
def spcDisconnectFsys (fs : Spcfsys) : Spcfsys :=
  { fs with
    connected := false
    pend := []
    sent := []
    answered := []
    lost := fs.lost ++ if fs.connected then fs.pend.take 1 else [] }

/-- What the socket does when it is offered the rest of a message. -/
inductive Socket where
  | refuses
  | closed
  | takes (count : Nat)

def Spcfsys.wrote (fs : Spcfsys) (req : Spcreq) (rest : List Spcreq) (count : Nat) : Spcfsys :=
  if fs.pendPos + count = req.tc.pkt.length then
    { fs with
      wire := fs.wire ++ chunk Spcreq.bytes req fs.pendPos count
      pendPos := 0
      pend := rest
      sent := req :: fs.sent
      completed := fs.completed ++ [req] }
  else
    { fs with
      wire := fs.wire ++ chunk Spcreq.bytes req fs.pendPos count
      pendPos := fs.pendPos + count }

/-- `none` when the position is past the end of the message, or for a socket that takes
nothing yet reports a count, or more than it was offered. -/
def spcFdWrite (fs : Spcfsys) (socket : Socket) : Option Spcfsys :=
  match fs.pend with
  | [] => some fs
  | req :: rest =>
      if req.tc.pkt.length < fs.pendPos then none
      else match socket with
        | .refuses => some fs
        | .closed => some (spcDisconnectFsys fs)
        | .takes count =>
            if 0 < count ∧ fs.pendPos + count ≤ req.tc.pkt.length then
              some (fs.wrote req rest count)
            else none

/-- What `spc_rpcnb` depends on besides its arguments: its two allocations and the socket. -/
structure Surroundings where
  allocates : Bool
  grows : Bool
  socket : Socket

def Spcfsys.enqueue (fs : Spcfsys) (tc : Tcall) (tag : Nat) (cb : Callback) (socket : Socket) :
    Option Spcfsys :=
  let queued := { fs with
    pend := fs.pend ++ [⟨fs.nextRef, tag, tc, cb, false⟩]
    nextRef := fs.nextRef + 1 }
  if fs.pend = [] then spcFdWrite queued socket else some queued

def Spcfsys.tagged (fs : Spcfsys) (tc : Tcall) (cb : Callback) (socket : Socket)
    (id : Nat) (pool : Spcpool) : Option Spcfsys :=
  if id % 65536 = NOTAG then { fs with tagpool := pool }.callback cb
  else { fs with tagpool := pool }.enqueue (spSetTag tc (id % 65536)) (id % 65536) cb socket

def spcRpcnb (fs : Spcfsys) (tc : Tcall) (cb : Callback) (around : Surroundings) :
    Option Spcfsys :=
  if ¬ fs.connected ∨ ¬ around.allocates then fs.callback cb
  else if tc.type = Tversion then fs.enqueue tc NOTAG cb around.socket
  else fs.tagged tc cb around.socket (spcGetId fs.tagpool around.grows).1
    (spcGetId fs.tagpool around.grows).2

/-- `spc_fd_read` once a whole message with this tag has been read. -/
def spcFdRead (fs : Spcfsys) (tag : Nat) : Option Spcfsys :=
  match fs.sent.find? (·.tag == tag) with
  | none => some fs
  | some req =>
      ({ fs with sent := fs.sent.eraseP (·.tag == tag) }.callback req.cb).bind fun rest =>
        if req.flushed then some { rest with answered := req :: rest.answered }
        else rest.putTag req.tag

/-- One iteration over the unsent requests. -/
def flushUnsent (fs : Spcfsys) (index fid : Nat) : Option Spcfsys :=
  match fs.pend[index]? with
  | none => some fs
  | some req =>
      if req.tc.fid = fid then
        { fs with pend := fs.pend.eraseIdx index, removed := req :: fs.removed }.callback req.cb
      else some fs

def Spcreq.markFlushed (req : Spcreq) : Spcreq := { req with flushed := true }

/-- `spc_flush_request`. Without the poll loop it waits for the reply, and the event
`flushAnswered` is the rest of it. -/
def spcFlushRequest (fs : Spcfsys) (index : Nat) (polling : Bool) (around : Surroundings) :
    Option Spcfsys :=
  match fs.sent[index]? with
  | none => some fs
  | some req =>
      if req.flushed then some fs
      else if polling then
        spcRpcnb { fs with sent := fs.sent.modify index Spcreq.markFlushed }
          (spCreateTflush req.tag) (.flushCb req.ref) around
      else
        spcRpcnb { fs with
            sent := fs.sent.modify index Spcreq.markFlushed
            flushing := req.ref :: fs.flushing }
          (spCreateTflush req.tag) .user around

inductive FsysEvent where
  | rpcnb (tc : Tcall) (around : Surroundings)
  | write (socket : Socket)
  | reply (tag : Nat)
  | flushUnsent (index fid : Nat)
  | flushRequest (index : Nat) (polling : Bool) (around : Surroundings)
  | flushAnswered (ref : Nat)
  | disconnect

def Spcfsys.step (fs : Spcfsys) : FsysEvent → Option Spcfsys
  | .rpcnb tc around => spcRpcnb fs tc .user around
  | .write socket => spcFdWrite fs socket
  | .reply tag => spcFdRead fs tag
  | .flushUnsent index fid => Libspclient.flushUnsent fs index fid
  | .flushRequest index polling around => spcFlushRequest fs index polling around
  | .flushAnswered ref =>
      if ref ∈ fs.flushing then
        spcRequestFlushed { fs with flushing := fs.flushing.erase ref } ref
      else none
  | .disconnect => some (spcDisconnectFsys fs)

end Xcpu.Libspclient
