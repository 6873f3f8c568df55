import Xcpu.Lib.Transition
import Xcpu.Libspfs.Fcall

/-!
The dispatch of messages to their handlers (`sp_srv_process_fcall`), and a connection as a
machine: it gets a message, or a callback answers one that it had put off.
-/

namespace Xcpu.Libspfs

open Xcpu.Transition

section Dispatch

variable {Tree User Aux : Type} (srv : Spsrv Tree User Aux)

/-- The table `sp_fcalls`; the fourth entry is NULL. -/
def spFcalls (conn : Spconn Tree User Aux) (req : Nat) (tc : Spfcall) (pkt : Packet) :
    Nat → Option (Option (Spconn Tree User Aux × Outcome))
  | 0 => some (spVersion srv conn req tc pkt)
  | 1 => some (spAuth srv conn req tc pkt)
  | 2 => some (spAttach srv conn req tc pkt)
  | 4 => some (spFlush srv conn req tc)
  | 5 => some (spWalk srv conn req tc pkt)
  | 6 => some (spOpen srv conn req tc)
  | 7 => some (spCreate srv conn req tc pkt)
  | 8 => some (spRead srv conn req tc)
  | 9 => some (spWrite srv conn req tc pkt)
  | 10 => some (spClunk srv conn req tc)
  | 11 => some (spRemove srv conn req tc)
  | 12 => some (spStat srv conn req tc)
  | 13 => some (spWstat srv conn req tc pkt)
  | _ => none

/-- A handler that left an error set is answered with Rerror, whatever it returned. -/
def answerOutcome (conn : Spconn Tree User Aux) (req : Nat) (outcome : Outcome) :
    Option (Spconn Tree User Aux) :=
  if outcome.error then spRespond srv conn req (some { type := .rerror })
  else match outcome.rc with
    | none => some conn
    | some rc => spRespond srv conn req (some rc)

def Spconn.accept (conn : Spconn Tree User Aux) (tc : Spfcall) : Spconn Tree User Aux :=
  { conn with
    workreqs := { ref := conn.nextRef, tag := tc.tag, tcall := tc } :: conn.workreqs
    nextRef := conn.nextRef + 1 }

/-- The range check before the table can never fail a message. Without a handler the reply is
never assigned, and then freed. -/
def spSrvProcessFcall (conn : Spconn Tree User Aux) (tc : Spfcall) (pkt : Packet) :
    Option (Spconn Tree User Aux) :=
  match spFcalls srv (conn.accept tc) conn.nextRef tc pkt ((tc.type.number - 100) / 2) with
  | none => none
  | some handled => handled.bind fun (conn', outcome) => answerOutcome srv conn' conn.nextRef outcome

/-- `answer` is `sp_respond` from a callback that was given the request; only requests with a
fid are given to callbacks. -/
inductive ConnEvent where
  | message (tc : Spfcall) (pkt : Packet)
  | answer (req : Nat) (rc : Rcall)

def Spconn.step (conn : Spconn Tree User Aux) : ConnEvent → Option (Spconn Tree User Aux)
  | .message tc pkt => spSrvProcessFcall srv conn tc pkt
  | .answer ref rc =>
      match conn.reqAt ref with
      | none => some conn
      | some req => if req.fid = none then some conn else spRespond srv conn ref (some rc)

end Dispatch

-- the server and the messages of the runs on fixed inputs

/-- A server whose files are all one and whose callbacks answer at once. -/
def oneFile : Spsrv Unit Unit Unit where
  msize := 8192
  dotu := false
  finduser _ _ _ := some ()
  auth := false
  startauth _ _ _ := ⟨(), none, none, false⟩
  checkauth _ _ _ _ := ⟨(), none, some (), false⟩
  authread _ _ _ := ⟨(), none, none, false⟩
  authwrite _ _ _ _ := ⟨(), none, none, false⟩
  authclunk _ _ := ⟨(), none, none, false⟩
  attach _ _ _ _ _ := ⟨(), some (), some { type := .rattach }, false⟩
  flush _ _ := ((), true)
  clone _ _ _ := ⟨(), some (), some (), false⟩
  walk _ _ _ := ⟨(), some (), some {}, false⟩
  «open» _ _ _ := ⟨(), some (), some { type := .ropen }, false⟩
  create _ _ _ _ := ⟨(), some (), none, true⟩
  read _ _ _ _ := ⟨(), some (), none, false⟩
  write _ _ _ _ _ := ⟨(), some (), none, false⟩
  clunk _ _ := ⟨(), some (), some { type := .rclunk }, false⟩
  remove _ _ := ⟨(), some (), none, true⟩
  stat _ _ := ⟨(), some (), some { type := .rstat }, false⟩
  wstat _ _ _ _ := ⟨(), some (), none, true⟩
  fiddestroy _ _ := ()

def version : ConnEvent :=
  .message { type := .tversion, msize := 8192, version := ⟨6, some 0⟩ } [57, 80, 50, 48, 48, 48]

def attach (fid : Nat) : ConnEvent := .message { type := .tattach, fid, afid := nofid } []

def walk (fid newfid : Nat) : ConnEvent := .message { type := .twalk, fid, newfid } []

def clunk (fid : Nat) : ConnEvent := .message { type := .tclunk, fid } []

end Xcpu.Libspfs
