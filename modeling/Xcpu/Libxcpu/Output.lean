import Xcpu.Lib.Pieces
import Xcpu.Libspclient.Poll

/-!
The output of a session's process, which the client reads from `stdout` and `stderr` and passes to the
callbacks of the command, by lines or as it comes. `wait` brings the exit code, and a session that has
no descriptor left counts as finished.
-/

namespace Xcpu.Libxcpu.Output

open Xcpu.Libspclient.Poll

def newline : UInt8 := 10

/-- The size of `outbuf` and of `errbuf`. -/
def bufSize : Nat := 512

/-- `stdout` or `stderr`: the descriptor, what is in the buffer, what was passed to the callback, and
what the answers brought. -/
structure Output where
  spcfd : Option Spcfd := none
  buf : List UInt8 := []
  calls : List (List UInt8) := []
  received : List UInt8 := []
  deriving DecidableEq

/-- `finished` counts how often the session was taken off `tcnt`. -/
structure Xpsession where
  lineOut : Bool
  out : Output
  err : Output
  wspcfd : Option Spcfd
  exitcode : List UInt8 := []
  finished : Nat := 0
  deriving DecidableEq

def spcfdCanRead (spcfd : Spcfd) : Bool := 0 < spcfd.rbuf.length || spcfd.flags &&& Reof ≠ 0

/-- The bytes that `spcfd_read` returns of a descriptor that can be read. -/
def readBytes (spcfd : Spcfd) (buflen : Nat) : List UInt8 :=
  if spcfd.flags &&& Reof ≠ 0 then [] else spcfd.rbuf.take buflen

/-- The loop over the lines of the buffer: the calls, and what is left after the last newline. -/
def eachLine (line : List UInt8) : List UInt8 → List (List UInt8) × List UInt8
  | [] => ([], line)
  | c :: rest =>
      if c = newline then ((line ++ [c]) :: (eachLine [] rest).1, (eachLine [] rest).2)
      else eachLine (line ++ [c]) rest

/-- What of the buffer is passed on, and what is left in it. -/
def passOn (lineOut : Bool) (buf : List UInt8) : List (List UInt8) × List UInt8 :=
  if lineOut then
    let (calls, rest) := eachLine [] buf
    if rest.length = bufSize then (calls ++ [rest], []) else (calls, rest)
  else ([buf], [])

/-- The loop of `xp_command_stdout_recv` and `xp_command_stderr_recv`; it tells whether it came to the
end of file. Each turn but the last takes bytes off the descriptor. -/
def recvLoop (lineOut : Bool) : Nat → Spcfd → Output → Option (Output × Bool)
  | 0, _, _ => none
  | fuel + 1, spcfd, output =>
      if spcfdCanRead spcfd then
        let room := bufSize - output.buf.length
        let data := readBytes spcfd room
        if data = [] then some ({ output with spcfd := none }, true)
        else do
          let spcfd ← spcfdRead spcfd room true
          let (calls, buf) := passOn lineOut (output.buf ++ data)
          recvLoop lineOut fuel spcfd { output with buf, calls := output.calls ++ calls }
      else some ({ output with spcfd := some spcfd }, false)

def recv (lineOut : Bool) (spcfd : Spcfd) (output : Output) : Option (Output × Bool) :=
  if spcfdHasError spcfd then some ({ output with spcfd := none }, false)
  else recvLoop lineOut (spcfd.rbuf.length + 1) spcfd output

/-- The end of the three callbacks. -/
def Xpsession.ended (session : Xpsession) (eof : Bool) : Xpsession :=
  if eof ∧ session.wspcfd = none ∧ session.out.spcfd = none ∧ session.err.spcfd = none then
    { session with finished := session.finished + 1 }
  else session

def xpCommandStdoutRecv (session : Xpsession) (spcfd : Spcfd) : Option Xpsession := do
  let (out, eof) ← recv session.lineOut spcfd session.out
  some ({ session with out }.ended eof)

def xpCommandStderrRecv (session : Xpsession) (spcfd : Spcfd) : Option Xpsession := do
  let (err, eof) ← recv session.lineOut spcfd session.err
  some ({ session with err }.ended eof)

/-- The loop of `xp_command_wait_recv`, with the size of its buffer. -/
def waitLoop : Nat → Spcfd → List UInt8 → Option (Option Spcfd × List UInt8)
  | 0, _, _ => none
  | fuel + 1, spcfd, exitcode =>
      if spcfdCanRead spcfd then
        let data := readBytes spcfd 32
        if data = [] then some (none, exitcode)
        else do
          let spcfd ← spcfdRead spcfd 32 true
          waitLoop fuel spcfd (exitcode ++ data)
      else some (some spcfd, exitcode)

/-- For a command without a callback for the exit code. -/
def xpCommandWaitRecv (session : Xpsession) (spcfd : Spcfd) : Option Xpsession :=
  if spcfdHasError spcfd then some { session with wspcfd := none }
  else do
    let (wspcfd, exitcode) ← waitLoop (spcfd.rbuf.length + 1) spcfd session.exitcode
    some ({ session with wspcfd, exitcode }.ended wspcfd.isNone)

/-- The answers to the Treads of the descriptors; one without bytes is the end of the file. -/
inductive Event where
  | out (data : List UInt8)
  | err (data : List UInt8)
  | wait (data : List UInt8)
  deriving DecidableEq

/-- The answer to an outstanding Tread, and the callback of the descriptor. -/
def step (session : Xpsession) : Event → Option Xpsession
  | .out data =>
      match session.out.spcfd with
      | none => some session
      | some spcfd =>
          if spcfd.rtc then do
            let spcfd ← spcfdReadCb spcfd (.reply data)
            xpCommandStdoutRecv
              { session with out := { session.out with received := session.out.received ++ data } } spcfd
          else some session
  | .err data =>
      match session.err.spcfd with
      | none => some session
      | some spcfd =>
          if spcfd.rtc then do
            let spcfd ← spcfdReadCb spcfd (.reply data)
            xpCommandStderrRecv
              { session with err := { session.err with received := session.err.received ++ data } } spcfd
          else some session
  | .wait data =>
      match session.wspcfd with
      | none => some session
      | some spcfd =>
          if spcfd.rtc then do
            let spcfd ← spcfdReadCb spcfd (.reply data)
            xpCommandWaitRecv session spcfd
          else some session

/-- A descriptor that reads, with its first Tread sent. -/
def reading (iounit : Nat) : Spcfd := { iounit, offset := 0, rtc := true }

/-- A session in `xp_commands_wait`, with a descriptor of the given unit for each callback that the
command has. -/
def start (lineOut : Bool) (stdoutUnit stderrUnit : Option Nat) (waitUnit : Nat) : Xpsession where
  lineOut := lineOut
  out := { spcfd := stdoutUnit.map reading }
  err := { spcfd := stderrUnit.map reading }
  wspcfd := some (reading waitUnit)

end Xcpu.Libxcpu.Output
