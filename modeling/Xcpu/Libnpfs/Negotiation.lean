import Xcpu.Lib.Transition
import Xcpu.Libspfs.NpRoundTrip
import Xcpu.Libnpfs.Np

/-!
The message size of a connection of the threaded server. `np_default_version` answers with the
smaller of the two sizes and passes it to `np_conn_reset`, which takes it for a flag only: the
receive loop and `np_read` go on with the size of the server.
-/

namespace Xcpu.Libnpfs.Negotiation

open Xcpu.Packet Xcpu.Libspfs Xcpu.Transition

def iohdrsz : Nat := 24

/-- What a constructor returned for `rcall`. -/
structure Npreply where
  rcall : Message
  dotu : Bool
  pkt : List UInt8
  created : rcall.create .libnpfs dotu = some pkt

structure Npreq where
  ref : Nat
  tcall : Npfcall
  pkt : List UInt8
  working : Bool := false
  rcall : Option Npreply := none

structure Npconn where
  msize : Nat
  srvDotu : Bool
  dotu : Bool
  shut : Bool := false
  reqs : List Npreq := []
  sent : List (List UInt8) := []
  /-- the size in the last Rversion sent, until the next Tversion comes in -/
  agreed : Option Nat := none

inductive Event where
  -- the next message of the stream is complete, or as much of it as the buffer holds
  | receive (ref : Nat) (prev : Npfcall) (pkt : List UInt8)
  -- a worker takes the first request of the queue
  | work
  -- `np_process_request`: of a Tversion, and of any other message with what its handler returns
  | version (ref : Nat)
  | process (ref : Nat) (reply : Message)
  | respond (ref : Nat)
  -- flushed, or answered by a constructor that found no room
  | drop (ref : Nat)
  | hangup

def Npconn.find (conn : Npconn) (ref : Nat) : Option Npreq := conn.reqs.find? (·.ref == ref)

def Npconn.remove (conn : Npconn) (ref : Nat) : Npconn :=
  { conn with reqs := conn.reqs.filter (·.ref != ref) }

/-- A request whose reply is `reply`, or which goes unanswered where there is no packet. -/
def Npreq.answer (req : Npreq) (reply : Message) (dotu : Bool) : Npreq :=
  match created : reply.create .libnpfs dotu with
  | none => req
  | some pkt => { req with rcall := some ⟨reply, dotu, pkt, created⟩ }

def Npconn.update (conn : Npconn) (ref : Nat) (change : Npreq → Npreq) : Npconn :=
  { conn with reqs := conn.reqs.map fun req => if req.ref = ref then change req else req }

/-- The receive loop of `np_conn_read_proc`; a buffer that is full and holds no message ends it. -/
def npConnReceive (conn : Npconn) (ref : Nat) (prev : Npfcall) (pkt : List UInt8) : Npconn :=
  if conn.msize < pkt.length then { conn with shut := true }
  else
    match npDeserialize prev pkt conn.dotu with
    | none => { conn with shut := true }
    | some tcall =>
        { conn with
          reqs := conn.reqs ++ [{ ref, tcall, pkt }]
          agreed := if tcall.type = .tversion then none else conn.agreed }

/-- The `msize` that it gets says whether the connection lives on, and is not stored. -/
def npConnReset (conn : Npconn) (_msize : Nat) (dotu : Bool) : Npconn :=
  { conn with
    reqs := conn.reqs.filter fun req => req.working && req.tcall.type == .tversion
    dotu }

def nineP2000 : List UInt8 := [57, 80, 50, 48, 48, 48]
def nineP2000u : List UInt8 := nineP2000 ++ [46, 117]

/-- The version strings without the NUL that ends them. -/
def npVersionString (version : List UInt8) (srvDotu : Bool) : Option (List UInt8) :=
  if version = nineP2000u ∧ srvDotu = true then some nineP2000u
  else if version.take 6 = nineP2000 then some nineP2000
  else none

def msizeTooSmall : List UInt8 := [109, 115, 105, 122, 101, 32, 116, 111, 111, 32, 115, 109, 97, 108, 108]
def eio : Int32 := 5

/-- The index into `np_fcalls`. -/
def handler (tcall : Npfcall) : Nat := (tcall.type.number - 100) / 2

/-- `np_version` and `np_default_version`; where that sets no reply the worker frees whatever its
variable holds. A message of type Rversion comes here too, and `np_conn_reset` waits for it. -/
def npVersion (conn : Npconn) (req : Npreq) : Option Npconn :=
  if req.tcall.msize < iohdrsz + 1 then
    some (conn.update req.ref (·.answer (.rerror msizeTooSmall eio) conn.dotu))
  else if min req.tcall.msize conn.msize < iohdrsz ∨ req.tcall.type ≠ .tversion then none
  else
    match npVersionString ((req.pkt.drop (req.tcall.version.str.getD 0)).take req.tcall.version.len) conn.srvDotu with
    | none => none
    | some version =>
        let dotu := version == nineP2000u
        some ((npConnReset conn (min req.tcall.msize conn.msize) dotu).update req.ref
          (·.answer (.rversion (.ofNat (min req.tcall.msize conn.msize)) version) dotu))

/-- The check of `np_read`, in 32 bits. -/
def tooLarge (conn : Npconn) (tcall : Npfcall) : Bool :=
  decide (conn.msize < (tcall.count + iohdrsz) % 2 ^ 32)

/-- What a handler may return: an error, or the reply of its own kind; a read callback is asked for
`count` bytes, and the third entry of the table is NULL. -/
def returns (conn : Npconn) (tcall : Npfcall) : Message → Bool
  | .rerror ename _ => handler tcall != 0 && decide (ename.length < 65536)
  | .rerror1 _ _ => false
  | .rwalk wqids => handler tcall == 5 && decide (wqids.length ≤ maxwelem)
  | .rread data => handler tcall == 8 && !tooLarge conn tcall && decide (data.length ≤ tcall.count) &&
      decide (data.length < 2 ^ 32)
  | .rstat wstat => handler tcall == 12 && decide (sizeWstat wstat conn.dotu + 2 < 65536)
  | reply => handler tcall != 0 && reply.type.number == 2 * handler tcall + 101

/-- `np_respond` and `np_conn_respond`. -/
def npRespond (conn : Npconn) (req : Npreq) (reply : Npreply) : Npconn :=
  let conn := conn.remove req.ref
  if conn.shut then conn
  else
    { conn with
      sent := conn.sent ++ [reply.pkt]
      agreed := match reply.rcall with
        | .rversion msize _ => some msize.toNat
        | _ => conn.agreed }

def step (conn : Npconn) : Event → Option Npconn
  | .receive ref prev pkt =>
      if conn.shut = false ∧ conn.find ref = none ∧ 7 ≤ pkt.length ∧ sizeField pkt = pkt.length then
        some (npConnReceive conn ref prev pkt)
      else none
  | .work => (conn.reqs.find? (!·.working)).map fun req => conn.update req.ref ({ · with working := true })
  | .version ref => (conn.find ref).bind fun req =>
      if req.working = true ∧ req.rcall.isNone = true ∧ handler req.tcall = 0 then npVersion conn req
      else none
  | .process ref reply => (conn.find ref).bind fun req =>
      if req.working = true ∧ req.rcall.isNone = true ∧ returns conn req.tcall reply = true then
        some (conn.update ref (·.answer reply conn.dotu))
      else none
  | .respond ref => (conn.find ref).bind fun req => req.rcall.map (npRespond conn req)
  | .drop ref => (conn.find ref).map fun _ => conn.remove ref
  | .hangup => some { conn with shut := true }

def npConnCreate (srvMsize : UInt32) (srvDotu : Bool) : Npconn :=
  { msize := srvMsize.toNat, srvDotu, dotu := srvDotu }

/-- While a size is agreed on, a step sends nothing longer and takes in nothing longer. -/
def Respects (conn : Npconn) (event : Event) (next : Npconn) : Prop :=
  ∀ msize, conn.agreed = some msize →
    (∀ pkt ∈ next.sent.drop conn.sent.length, pkt.length ≤ msize) ∧
    ∀ ref prev pkt, event = .receive ref prev pkt → msize < pkt.length →
      next.shut = true ∧ next.reqs = conn.reqs

/-- The size of a reply, for the kinds that have no fixed one. -/
def contentSize (dotu : Bool) : Message → Option Nat
  | .rerror ename _ => some (9 + ename.length + if dotu then 4 else 0)
  | .rwalk wqids => some (9 + 13 * wqids.length)
  | .rread data => some (11 + data.length)
  | .rstat wstat => some (11 + sizeWstat wstat dotu)
  | _ => none

/-- The client itself keeps to what it asked for, and no reply happens to have more content. -/
def Kept (conn : Npconn) : Event → Prop
  | .receive ref prev pkt => (step conn (.receive ref prev pkt)).isSome = true →
      ∀ msize, conn.agreed = some msize → msize < pkt.length →
        conn.msize < pkt.length ∨ npDeserialize prev pkt conn.dotu = none
  | .respond ref => ∀ msize req reply size, conn.agreed = some msize → conn.find ref = some req →
      req.rcall = some reply → conn.shut = false → contentSize reply.dotu reply.rcall = some size → size ≤ msize
  | _ => True

section Sizes

/-- What the handlers make: an Rversion of a size that was agreed on, and replies whose strings,
names and stats the wire can hold. -/
def Npreply.Sound (reply : Npreply) : Prop :=
  match reply.rcall with
  | .rversion msize version => iohdrsz ≤ msize.toNat ∧ version.length ≤ 8
  | .rerror ename _ => ename.length < 65536
  | .rwalk wqids => wqids.length ≤ maxwelem
  | .rread data => data.length < 2 ^ 32
  | .rstat wstat => sizeWstat wstat reply.dotu + 2 < 65536
  | .rauth _ | .rflush | .rattach _ | .ropen _ _ | .rcreate _ _ | .rwrite _ | .rclunk | .rremove | .rwstat => True
  | _ => False

variable {reply : Npreply}

end Sizes

section Steps

variable {conn next : Npconn} {req old : Npreq} {reply : Npreply}

structure Inv (conn : Npconn) : Prop where
  word : conn.msize < 2 ^ 32
  sound : ∀ req ∈ conn.reqs, ∀ reply, req.rcall = some reply → reply.Sound
  agreed : ∀ msize, conn.agreed = some msize → iohdrsz ≤ msize

theorem find_mem {ref : Nat} (found : conn.find ref = some req) : req ∈ conn.reqs ∧ req.ref = ref :=
  ⟨List.mem_of_find?_eq_some found, by simpa using List.find?_some found⟩

end Steps

theorem kept_of_server_size {conn : Npconn} (agreed : conn.agreed = some conn.msize) (ref : Nat) (prev : Npfcall)
    (pkt : List UInt8) : Kept conn (.receive ref prev pkt) := by
  intro _ msize same long
  rw [agreed] at same
  exact .inl (Option.some.inj same ▸ long)

theorem rread_fits {conn : Npconn} {tcall : Npfcall} {data : List UInt8}
    (returned : returns conn tcall (.rread data) = true) (unwrapped : tcall.count + iohdrsz < 2 ^ 32) :
    11 + data.length ≤ conn.msize := by
  simp only [returns, tooLarge, Bool.and_eq_true, Bool.not_eq_true', decide_eq_false_iff_not,
    decide_eq_true_eq] at returned
  obtain ⟨⟨⟨-, checked⟩, asked⟩, -⟩ := returned
  rw [Nat.mod_eq_of_lt unwrapped] at checked
  simp only [iohdrsz] at checked
  omega

end Xcpu.Libnpfs.Negotiation
