import Xcpu.Lib.Keyed
import Xcpu.Libspfs.Np

/-!
The server side of one libspfs connection: its table of fids (`fidpool.c`), the requests
being worked on, and `sp_respond`. Addresses of fids and requests are numbers, `ref`, that
are never used again. `none` is a step that leaves defined behaviour: a reference to freed
memory, a loop that does not end, or a variable that was never assigned.
-/

namespace Xcpu.Libspfs

open Xcpu.Keyed

def omodeNone : Nat := 65535
def qtdir : Nat := 128
def qtauth : Nat := 8

structure Spfid (User Aux : Type) where
  ref : Nat
  fid : Nat
  refcount : Int := 0
  omode : Nat := omodeNone
  type : Nat := 0
  diroffset : Nat := 0
  user : Option User := none
  aux : Option Aux := none

/-- What the server reads of a reply it is about to send. -/
structure Rcall where
  type : FcallType
  qidType : Nat := 0
  count : Nat := 0
  deriving DecidableEq

/-- A handler's or callback's reply, and whether it left an error set. -/
structure Outcome where
  rc : Option Rcall
  error : Bool
  deriving DecidableEq

def Outcome.failed : Outcome := ⟨none, true⟩

def Outcome.replied (type : FcallType) : Outcome := ⟨some { type }, false⟩

/-- What a callback of the file tree does: the tree and the fid's `aux` afterwards, its result
if it is not NULL or 0, and whether it left an error set. -/
structure Back (Tree Aux Value : Type) where
  tree : Tree
  aux : Option Aux
  value : Option Value
  error : Bool

def Back.outcome {Tree Aux : Type} (back : Back Tree Aux Rcall) : Outcome := ⟨back.value, back.error⟩

structure Spreq where
  ref : Nat
  tag : Nat
  tcall : Spfcall
  fid : Option Nat := none
  flushreq : Option Nat := none

abbrev Packet := List UInt8

def Spstr.bytes (str : Spstr) (pkt : Packet) : List UInt8 := (pkt.drop (str.str.getD 0)).take str.len

/-- A server: its limits, its user pool and the callbacks of its file tree. A callback that is
given a fid sees the fid's fields and returns its `aux`. -/
structure Spsrv (Tree User Aux : Type) where
  msize : Nat
  dotu : Bool
  finduser : Tree → Spfcall → Packet → Option User
  auth : Bool
  startauth : Tree → Spfid User Aux → List UInt8 → Back Tree Aux Spqid
  checkauth : Tree → Spfid User Aux → Option (Spfid User Aux) → List UInt8 → Back Tree Aux Unit
  authread : Tree → Spfid User Aux → Spfcall → Back Tree Aux Nat
  authwrite : Tree → Spfid User Aux → Spfcall → Packet → Back Tree Aux Nat
  authclunk : Tree → Spfid User Aux → Back Tree Aux Unit
  attach : Tree → Spfid User Aux → Option (Spfid User Aux) → Spfcall → Packet → Back Tree Aux Rcall
  flush : Tree → Spreq → Tree × Bool
  clone : Tree → Spfid User Aux → Spfid User Aux → Back Tree Aux Unit
  walk : Tree → Spfid User Aux → List UInt8 → Back Tree Aux Spqid
  «open» : Tree → Spfid User Aux → Nat → Back Tree Aux Rcall
  create : Tree → Spfid User Aux → Spfcall → Packet → Back Tree Aux Rcall
  read : Tree → Spfid User Aux → Spfcall → Spreq → Back Tree Aux Rcall
  write : Tree → Spfid User Aux → Spfcall → Packet → Spreq → Back Tree Aux Rcall
  clunk : Tree → Spfid User Aux → Back Tree Aux Rcall
  remove : Tree → Spfid User Aux → Back Tree Aux Rcall
  stat : Tree → Spfid User Aux → Back Tree Aux Rcall
  wstat : Tree → Spfid User Aux → Spstat → Packet → Back Tree Aux Rcall
  fiddestroy : Tree → Spfid User Aux → Tree

/-- `pool` is whether `fidpool` is allocated, `workreqs` begins with the newest request, and
`sent` are the replies queued so far, with the request each answers. -/
structure Spconn (Tree User Aux : Type) where
  pool : Bool
  fids : List (Spfid User Aux)
  workreqs : List Spreq
  nextRef : Nat
  tree : Tree
  msize : Nat
  dotu : Bool
  sent : List (Nat × FcallType)

section Server

variable {Tree User Aux : Type} (srv : Spsrv Tree User Aux)

def spConnCreate (tree : Tree) : Spconn Tree User Aux := ⟨false, [], [], 0, tree, srv.msize, false, []⟩

def spFidFind (conn : Spconn Tree User Aux) (fid : Nat) : Option (Spfid User Aux) :=
  conn.fids.find? (·.fid == fid)

def Spconn.fidAt (conn : Spconn Tree User Aux) (ref : Nat) : Option (Spfid User Aux) :=
  conn.fids.find? (·.ref == ref)

def Spconn.setFid (conn : Spconn Tree User Aux) (ref : Nat)
    (change : Spfid User Aux → Spfid User Aux) : Spconn Tree User Aux :=
  { conn with fids := update Spfid.ref conn.fids ref change }

def Spconn.reqAt (conn : Spconn Tree User Aux) (ref : Nat) : Option Spreq :=
  conn.workreqs.find? (·.ref == ref)

def Spconn.setReq (conn : Spconn Tree User Aux) (ref : Nat) (change : Spreq → Spreq) :
    Spconn Tree User Aux :=
  { conn with workreqs := update Spreq.ref conn.workreqs ref change }

/-- The address of the new fid, or NULL when the number is in use or there is no pool. -/
def spFidCreate (conn : Spconn Tree User Aux) (fid : Nat) : Option Nat × Spconn Tree User Aux :=
  if conn.pool ∧ spFidFind conn fid = none then
    (some conn.nextRef,
      { conn with fids := { ref := conn.nextRef, fid } :: conn.fids, nextRef := conn.nextRef + 1 })
  else (none, conn)

def spFidIncref (conn : Spconn Tree User Aux) (ref : Nat) : Spconn Tree User Aux :=
  conn.setFid ref fun f => { f with refcount := f.refcount + 1 }

def spFidDestroy (conn : Spconn Tree User Aux) (f : Spfid User Aux) : Spconn Tree User Aux :=
  match conn.fids.find? (·.fid == f.fid) with
  | some found => { conn with
      fids := conn.fids.eraseP (·.fid == f.fid)
      tree := srv.fiddestroy conn.tree found }
  | none => conn

def spFidDecref (conn : Spconn Tree User Aux) (ref : Nat) : Option (Spconn Tree User Aux) :=
  match conn.fidAt ref with
  | none => none
  | some f =>
      if f.refcount - 1 = 0 then some (spFidDestroy srv conn f)
      else some (conn.setFid ref fun f => { f with refcount := f.refcount - 1 })

/-- `sp_fid_decref` of a pointer that may be NULL. -/
def spFidDecref? (conn : Spconn Tree User Aux) : Option Nat → Option (Spconn Tree User Aux)
  | none => some conn
  | some ref => spFidDecref srv conn ref

/-- The requests that hang off a request, in the order they are answered. -/
@[simp]
def flushChain (workreqs : List Spreq) : Nat → Option Nat → Option (List Nat)
  | _, none => some []
  | 0, some _ => none
  | steps + 1, some ref =>
      match workreqs.find? (·.ref == ref) with
      | none => none
      | some freq => (flushChain workreqs steps freq.flushreq).map (ref :: ·)

/-- The next directory offset, which an Rread from a directory fid leaves behind. -/
def noteDiroffset (conn : Spconn Tree User Aux) (req : Spreq) (rc : Option Rcall) :
    Option (Spconn Tree User Aux) :=
  match rc with
  | some ⟨.rread, _, count⟩ =>
      match req.fid with
      | none => none
      | some ref =>
          match conn.fidAt ref with
          | none => none
          | some f =>
              if f.type &&& qtdir ≠ 0 then
                some (conn.setFid ref fun f =>
                  { f with diroffset := (req.tcall.offset + count) % 4294967296 })
              else some conn
  | _ => some conn

/-- `sp_conn_respond` queues the reply; without one it only frees the message. -/
def spConnRespond (conn : Spconn Tree User Aux) (ref : Nat) (rc : Option Rcall) :
    Spconn Tree User Aux :=
  match rc with
  | some rc => { conn with sent := conn.sent ++ [(ref, rc.type)] }
  | none => conn

def spRespond (conn : Spconn Tree User Aux) (ref : Nat) (rc : Option Rcall) :
    Option (Spconn Tree User Aux) :=
  match conn.reqAt ref with
  | none => none
  | some req =>
      (flushChain conn.workreqs conn.workreqs.length req.flushreq).bind fun chain =>
      (noteDiroffset { conn with workreqs := conn.workreqs.filter (·.ref ∉ ref :: chain) } req rc).bind
        fun noted => (spFidDecref? srv noted req.fid).map fun dropped =>
          chain.foldl (fun conn freq => spConnRespond conn freq (some { type := .rflush }))
            (spConnRespond dropped ref rc)

end Server

end Xcpu.Libspfs
