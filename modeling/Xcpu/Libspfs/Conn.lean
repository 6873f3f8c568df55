import Xcpu.Lib.Transition
import Xcpu.Lib.Outbound
import Xcpu.Libspfs.Fcall

/-!
The buffers and the two byte streams of a libspfs connection (`conn.c`). The messages are read
into the incoming fcall, which is handed to `sp_srv_process_fcall` once it is whole; the
answers wait in a queue to be written. `none` is an access past the end of a buffer, or what
the socket cannot do.
-/

namespace Xcpu.Libspfs.Conn

open Xcpu.Packet Xcpu.Transition Xcpu.Outbound

/-- An fcall that messages are read into: the room behind it, and the bytes read so far. -/
structure Incall where
  capacity : Nat
  bytes : List UInt8 := []

structure Request where
  ref : Nat
  fc : Incall
  tc : Spfcall

/-- A reply that waits to be written, with the request it answers. -/
structure Reply where
  ref : Nat
  pkt : List UInt8

/-- `wire` are the bytes written, `completed` the replies that are written whole, `dropped`
those that were freed unwritten, and `handed` the messages handed on so far. -/
structure Spconn where
  closed : Bool
  srvMsize : Nat
  srvDotu : Bool
  msize : Nat
  dotu : Bool
  ifcall : Option Incall
  freercnum : Nat
  freerclist : List Incall
  requests : List Request
  nextRef : Nat
  ofcalls : List Reply
  ofcallPos : Nat
  nextReply : Nat
  wire : List UInt8
  completed : List Reply
  dropped : List Reply
  handed : List (List UInt8)

def spConnCreate (srvMsize : Nat) (srvDotu : Bool) : Spconn where
  closed := false
  srvMsize := srvMsize
  srvDotu := srvDotu
  msize := srvMsize
  dotu := srvDotu
  ifcall := none
  freercnum := 0
  freerclist := []
  requests := []
  nextRef := 0
  ofcalls := []
  ofcallPos := 0
  nextReply := 0
  wire := []
  completed := []
  dropped := []
  handed := []

def spConnNewIncall (conn : Spconn) : Incall × Spconn :=
  match conn.freerclist with
  | fc :: rest => (⟨fc.capacity, []⟩, { conn with freerclist := rest, freercnum := conn.freercnum - 1 })
  | [] => (⟨conn.msize, []⟩, conn)

def spConnFreeIncall (conn : Spconn) : Option Incall → Spconn
  | none => conn
  | some fc =>
      if conn.freercnum < 64 then
        { conn with freerclist := fc :: conn.freerclist, freercnum := conn.freercnum + 1 }
      else conn

def Spconn.wrote (conn : Spconn) (rc : Reply) (rest : List Reply) (count : Nat) : Spconn :=
  if conn.ofcallPos + count = rc.pkt.length then
    { conn with
      wire := conn.wire ++ chunk Reply.pkt rc conn.ofcallPos count
      ofcallPos := 0
      ofcalls := rest
      completed := conn.completed ++ [rc] }
  else
    { conn with
      wire := conn.wire ++ chunk Reply.pkt rc conn.ofcallPos count
      ofcallPos := conn.ofcallPos + count }

/-- The socket has room for `count` bytes. -/
def spConnWrite (conn : Spconn) (count : Nat) : Spconn :=
  match conn.ofcalls with
  | [] => conn
  | rc :: rest =>
      if min count (rc.pkt.length - conn.ofcallPos) = 0 then conn
      else conn.wrote rc rest (min count (rc.pkt.length - conn.ofcallPos))

def Spconn.queue (conn : Spconn) (pkt : List UInt8) : Spconn :=
  { conn with
    ofcalls := conn.ofcalls ++ [⟨conn.nextReply, pkt⟩]
    nextReply := conn.nextReply + 1 }

/-- The reply is written at once when it is the only one. -/
def spConnRespond (conn : Spconn) (req : Request) (rc : Option (List UInt8)) (count : Nat) : Spconn :=
  match rc with
  | none => spConnFreeIncall conn (some req.fc)
  | some pkt =>
      let queued := (spConnFreeIncall conn (some req.fc)).queue pkt
      if conn.ofcalls = [] then spConnWrite queued count else queued

/-- What `sp_conn_reset` does once no request is outstanding any more. -/
def spConnReset (conn : Spconn) (msize : Nat) (dotu : Bool) : Spconn :=
  { spConnFreeIncall conn conn.ifcall with
    ifcall := none
    dropped := conn.ofcalls ++ conn.dropped
    ofcalls := []
    ofcallPos := 0
    freerclist := []
    msize := msize
    dotu := dotu }

def Spconn.buffer (conn : Spconn) : List UInt8 := (conn.ifcall.map Incall.bytes).getD []

/-- The first half of `sp_conn_read`: the bytes that one read returns. -/
def spConnReceive (conn : Spconn) (data : List UInt8) : Option Spconn :=
  let (fc, conn) := match conn.ifcall with
    | some fc => (fc, conn)
    | none => spConnNewIncall conn
  if fc.bytes.length + data.length ≤ min conn.msize fc.capacity then
    some { conn with ifcall := some { fc with bytes := fc.bytes ++ data } }
  else none

/-- Whether the loop of `sp_conn_read` goes on: the size field, an `int`, is not more than was read. -/
def Spconn.ready (conn : Spconn) : Bool :=
  !conn.closed && 4 ≤ conn.buffer.length && int32 (sizeField conn.buffer) ≤ conn.buffer.length

def Spconn.handOn (conn : Spconn) (fc : Incall) (size : Nat) (tc : Spfcall) : Option Spconn :=
  let (fc1, conn) := spConnNewIncall conn
  if fc.bytes.length - size ≤ fc1.capacity then
    some { conn with
      ifcall := some { fc1 with bytes := fc.bytes.drop size }
      requests := ⟨conn.nextRef, { fc with bytes := fc.bytes.take size }, tc⟩ :: conn.requests
      nextRef := conn.nextRef + 1
      handed := conn.handed ++ [fc.bytes.take size] }
  else none

/-- One round of the loop, up to the call of `sp_srv_process_fcall`. `sp_deserialize` reads the
first `size` bytes only. -/
def spConnNext (conn : Spconn) : Option Spconn :=
  match conn.ifcall with
  | none => some conn
  | some fc =>
      if ¬ conn.ready then some conn
      else if sizeField fc.bytes > conn.msize then some { conn with closed := true }
      else if sizeField fc.bytes > fc.bytes.length then none
      else match spDeserialize (fc.bytes.take (sizeField fc.bytes)) conn.dotu with
        | none => some { conn with closed := true }
        | some tc => conn.handOn fc (sizeField fc.bytes) tc

/-- The new message size of a Tversion that resets the connection. -/
def newMsize (conn : Spconn) (tc : Spfcall) : Nat := min tc.msize conn.srvMsize

/-- `sp_version` once the other requests are flushed: `rc` is the Rversion, or the Rerror for
a message size that is too small. In its other two errors it returns a variable it has not
assigned. -/
def spVersion (conn : Spconn) (rc : List UInt8) (count : Nat) : Option Spconn :=
  match conn.requests with
  | [req] =>
      if req.tc.type ≠ .tversion then none
      else if req.tc.msize < iohdrsz + 1 then
        some (spConnRespond { conn with requests := [] } req (some rc) count)
      else match spVersionDotu conn.srvDotu (req.tc.version.bytes req.fc.bytes) with
        | none => none
        | some dotu =>
            if newMsize conn req.tc < iohdrsz then none
            else some (spConnRespond
              (spConnReset { conn with requests := [] } (newMsize conn req.tc) dotu) req (some rc) count)
  | _ => none

def spAnswer (conn : Spconn) (ref : Nat) (rc : Option (List UInt8)) (count : Nat) : Spconn :=
  match conn.requests.find? (·.ref == ref) with
  | none => conn
  | some req =>
      spConnRespond { conn with requests := conn.requests.filter (·.ref ≠ ref) } req rc count

/-- `answer` is a request answered by its handler, its callback or a flush, with the bytes the
socket takes of a reply that is written at once. -/
inductive ConnEvent where
  | receive (data : List UInt8)
  | next
  | version (rc : List UInt8) (count : Nat)
  | answer (ref : Nat) (rc : Option (List UInt8)) (count : Nat)
  | write (count : Nat)

def Spconn.step (conn : Spconn) : ConnEvent → Option Spconn
  | .receive data => if conn.closed then some conn else spConnReceive conn data
  | .next => spConnNext conn
  | .version rc count => spVersion conn rc count
  | .answer ref rc count => some (spAnswer conn ref rc count)
  | .write count => some (spConnWrite conn count)

/-- The loop of `sp_conn_read`, with what happens while each message is processed. -/
def spConnAgain (during : Nat → List ConnEvent) : Nat → Spconn → Option Spconn
  | 0, conn => some conn
  | rounds + 1, conn =>
      if conn.ready then
        (spConnNext conn).bind fun conn => (run Spconn.step conn (during rounds)).bind
          (spConnAgain during rounds)
      else some conn

/-- A message takes at least one byte, so there are never more rounds than bytes. -/
def spConnRead (conn : Spconn) (data : List UInt8) (during : Nat → List ConnEvent) : Option Spconn :=
  if conn.closed then some conn
  else (spConnReceive conn data).bind fun conn => spConnAgain during conn.buffer.length conn

theorem spConnFreeIncall_frame (conn : Spconn) (fc : Option Incall) :
    ∃ freerclist freercnum, spConnFreeIncall conn fc =
      { conn with freerclist := freerclist, freercnum := freercnum } := by
  unfold spConnFreeIncall
  split
  · exact ⟨_, _, rfl⟩
  · split
    · exact ⟨_, _, rfl⟩
    · exact ⟨_, _, rfl⟩

theorem spConnNewIncall_frame (conn : Spconn) :
    ∃ freerclist freercnum, (spConnNewIncall conn).2 =
      { conn with freerclist := freerclist, freercnum := freercnum } := by
  unfold spConnNewIncall
  split
  · exact ⟨_, _, rfl⟩
  · exact ⟨_, _, rfl⟩

theorem spConnNewIncall_bytes (conn : Spconn) : (spConnNewIncall conn).1.bytes = [] := by
  unfold spConnNewIncall
  split <;> rfl

-- packets of the runs on fixed inputs: a Tversion by the low bytes of its msize, and a Tclunk
def tversion (low high : UInt8) : List UInt8 :=
  [19, 0, 0, 0, 100, 255, 255, low, high, 0, 0, 6, 0, 57, 80, 50, 48, 48, 48]

def tclunk : List UInt8 := [11, 0, 0, 0, 120, 1, 0, 7, 0, 0, 0]

def rclunk : List UInt8 := [7, 0, 0, 0, 121, 1, 0]

end Xcpu.Libspfs.Conn
