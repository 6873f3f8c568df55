import Xcpu.Lib.Transition

/-!
The buffered descriptor of the client library. What is written goes to a buffer, and a Twrite of the
buffer is sent when none is outstanding; a Tread fills another buffer. The two share the offset.
The answers come from the connection, also when it fails; an access to a descriptor that was freed
leaves the defined behaviour.
-/

namespace Xcpu.Libspclient.Poll

/-- The flags, in the order of the enumeration. -/
def Error : Nat := 0
def Remove : Nat := 1
def Reof : Nat := 2

structure Twrite where
  offset : UInt64
  data : List UInt8
  deriving DecidableEq

/-- A descriptor on a fid, with the bytes below `rpos` and `wpos` of its buffers; `rtc` tells whether
a Tread is outstanding. -/
structure Spcfd where
  flags : Nat := 0
  iounit : Nat
  offset : UInt64
  rbuf : List UInt8 := []
  wbuf : List UInt8 := []
  rtc : Bool := false
  wtc : Option Twrite := none
  freed : Bool := false
  deriving DecidableEq

/-- An answer to a request. `lost` stands for no message: the connection was lost or the request
was not sent, with the error that is set then. -/
inductive Answer (Reply : Type) where
  | reply (reply : Reply)
  | rerror (ecode : Int)
  | lost (ecode : Int)
  deriving DecidableEq

/-- `spcfd_check_error` and `sp_rerror`. -/
def Answer.error {Reply : Type} : Answer Reply → Int
  | .reply _ => 0
  | .rerror ecode => ecode
  | .lost ecode => ecode

def ECONNRESET : Int := 104

def spcfdHasError (spcfd : Spcfd) : Bool := spcfd.flags &&& Error ≠ 0

def spcfdCanWrite (spcfd : Spcfd) : Bool := spcfd.wbuf.length < spcfd.iounit

def spcfdRemove (spcfd : Spcfd) : Spcfd :=
  if 0 < spcfd.wbuf.length ∨ spcfd.rtc then { spcfd with flags := spcfd.flags ||| Remove }
  else { spcfd with freed := true }

/-- The end of both callbacks. -/
def doNotify (spcfd : Spcfd) : Spcfd :=
  if spcfd.flags &&& Remove ≠ 0 then spcfdRemove spcfd else spcfd

def spcfdWriteCb (spcfd : Spcfd) (answer : Answer Nat) : Option Spcfd :=
  if answer.error ≠ 0 then some (doNotify { spcfd with flags := spcfd.flags ||| Error, wtc := none })
  else
    match answer with
    | .reply count =>
        -- a count above `wpos` leaves the buffer
        if count ≤ spcfd.wbuf.length then
          some (doNotify { spcfd with
            offset := spcfd.offset + UInt64.ofNat count
            wbuf := spcfd.wbuf.drop count
            wtc := none })
        else none
    -- there is no message, or it has no count
    | _ => none

def spcfdReadCb (spcfd : Spcfd) (answer : Answer (List UInt8)) : Option Spcfd :=
  if answer.error ≠ 0 then some (doNotify { spcfd with flags := spcfd.flags ||| Error, rtc := false })
  else
    match answer with
    | .reply data =>
        if data = [] then some (doNotify { spcfd with flags := spcfd.flags ||| Reof, rtc := false })
        else if spcfd.rbuf.length + data.length ≤ spcfd.iounit then
          some (doNotify { spcfd with
            offset := spcfd.offset + UInt64.ofNat data.length
            rbuf := spcfd.rbuf ++ data
            rtc := false })
        else none
    | _ => none

/-- `spc_rpcnb` either sends the Tread or answers it at once. -/
def spcfdSendReadRequest (spcfd : Spcfd) (sends : Bool) : Option Spcfd :=
  if spcfd.rtc = false ∧ spcfd.flags &&& Reof = 0 then
    if sends then some { spcfd with rtc := true }
    else spcfdReadCb { spcfd with rtc := true } (.lost ECONNRESET)
  else some spcfd

/-- What is read is not part of the model. -/
def spcfdRead (spcfd : Spcfd) (buflen : Nat) (sends : Bool) : Option Spcfd :=
  if spcfd.flags &&& Reof ≠ 0 then some spcfd
  else if spcfd.rbuf = [] then some spcfd
  else spcfdSendReadRequest { spcfd with rbuf := spcfd.rbuf.drop (min buflen spcfd.rbuf.length) } sends

/-- The count that is returned, which is `none` for an error, and the descriptor. -/
def spcfdWrite (spcfd : Spcfd) (buf : List UInt8) (sends : Bool) : Option (Option Nat × Spcfd) :=
  if spcfd.wbuf.length = spcfd.iounit then some (none, spcfd)
  else
    let n := min (spcfd.iounit - spcfd.wbuf.length) buf.length
    let wbuf := spcfd.wbuf ++ buf.take n
    if spcfd.wtc = none then
      let spcfd := { spcfd with wbuf, wtc := some { offset := spcfd.offset, data := wbuf } }
      if sends then some (some n, spcfd)
      else do
        let spcfd ← spcfdWriteCb spcfd (.lost ECONNRESET)
        some (none, { spcfd with wtc := none })
    else some (some n, { spcfd with wbuf })

/-- The descriptor, what `spcfd_write` accepted, and what the file got at which offsets. `failed` tells
whether a Twrite was answered with an error or not at all, `removed` whether the client is done
with the descriptor. -/
structure Client where
  spcfd : Spcfd
  accepted : List UInt8 := []
  log : List (UInt64 × List UInt8) := []
  failed : Bool := false
  removed : Bool := false
  deriving DecidableEq

inductive Event where
  | write (buf : List UInt8) (sends : Bool)
  | read (buflen : Nat) (sends : Bool)
  | startLoop (sends : Bool)
  | writeAnswer (answer : Answer Nat)
  | readAnswer (answer : Answer (List UInt8))
  | remove
  deriving DecidableEq

/-- A Twrite is to be sent by the next `spcfd_write`. -/
def Client.sendsTwrite (client : Client) : Bool :=
  client.spcfd.wtc = none && client.spcfd.wbuf.length ≠ client.spcfd.iounit

/-- The file takes as many bytes of a Twrite as the answer says. -/
def Client.took (client : Client) (tw : Twrite) : Answer Nat → Client
  | .reply count => { client with log := client.log ++ [(tw.offset, tw.data.take count)] }
  | _ => { client with failed := true }

/-- After its `spcfd_remove` the client does not use the descriptor, but answers still come. -/
def step (client : Client) : Event → Option Client
  | .write buf sends =>
      if client.removed then some client
      else if client.spcfd.freed then none
      else do
        let (written, spcfd) ← spcfdWrite client.spcfd buf sends
        some { client with
          spcfd
          accepted := client.accepted ++ buf.take (written.getD 0)
          failed := client.failed || (client.sendsTwrite && !sends) }
  | .read buflen sends =>
      if client.removed then some client
      else if client.spcfd.freed then none
      else do
        let spcfd ← spcfdRead client.spcfd buflen sends
        some { client with spcfd }
  | .startLoop sends =>
      if client.spcfd.freed then some client
      else do
        let spcfd ← spcfdSendReadRequest client.spcfd sends
        some { client with spcfd }
  | .writeAnswer answer =>
      match client.spcfd.wtc with
      | none => some client
      | some tw =>
          if client.spcfd.freed then none
          else do
            let spcfd ← spcfdWriteCb client.spcfd answer
            some { client.took tw answer with spcfd }
  | .readAnswer answer =>
      if client.spcfd.rtc then
        if client.spcfd.freed then none
        else do
          let spcfd ← spcfdReadCb client.spcfd answer
          some { client with spcfd }
      else some client
  | .remove =>
      if client.removed then some client
      else if client.spcfd.freed then none
      else some { client with spcfd := spcfdRemove client.spcfd, removed := true }

/-- `spcfd_add`, before its Tread when the fid is open for reading. -/
def spcfdAdd (iounit : Nat) (offset : UInt64) : Client := { spcfd := { iounit, offset } }

end Xcpu.Libspclient.Poll
