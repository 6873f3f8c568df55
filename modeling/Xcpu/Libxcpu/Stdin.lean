import Xcpu.Lib.Numerals
import Xcpu.Libspclient.Poll

/-!
The standard input of a command. `xp_command_send` puts the bytes into the input buffer of each session,
`xp_command_stdin_send` moves them on to the buffer of its descriptor, and `xp_command_close_stdin` writes
"close stdin" to the control file of a session, or leaves that to `xp_command_stdin_send`. A step that is
`none` leaves the defined behaviour.
-/

namespace Xcpu.Libxcpu.Stdin

open Xcpu.Libspclient.Poll Xcpu.Numerals

/-- A session with the descriptor of its standard input, which stays when `ispcfd` is set to NULL. `taken` is
what the server took, `closes` holds what it had taken at each "close stdin" that was written, and `asked`
tells whether the session was asked to close. -/
structure Xpsession where
  spcfd : Spcfd
  ispcfd : Bool := true
  connected : Bool := true
  inbuf : List UInt8 := []
  insize : Nat := 0
  closein : Bool := false
  taken : List UInt8 := []
  closes : List (List UInt8) := []
  asked : Bool := false
  deriving DecidableEq

def xpSessionCloseStdin (s : Xpsession) : Xpsession :=
  if s.inbuf ≠ [] then { s with closein := true }
  -- the reply to the Twrite is waited for, or it is not sent
  else if s.connected then { s with closes := s.closes ++ [s.taken] }
  else s

/-- The end of `xp_command_stdin_send` after an error. -/
def stdinError (s : Xpsession) : Option Xpsession :=
  if s.ispcfd then some { s with spcfd := spcfdRemove s.spcfd, ispcfd := false }
  else none

/-- The end of the callbacks of the descriptor, unless it is removed. -/
def notified (notify : Xpsession → Option Xpsession) (s : Xpsession) : Option Xpsession :=
  if s.spcfd.flags &&& Remove ≠ 0 then some s else notify s

/-- The size of the input buffer after the `realloc` at the end. -/
def resized (insize inpos : Nat) : Nat :=
  if 64 < toInt (insize + inpos) ∧ 0 < toInt (inpos + 64) then inpos + 64 else insize

/-- It comes back to itself when a Twrite is not sent: each time the buffer of the descriptor is fuller. -/
def xpCommandStdinSend : Nat → Xpsession → Option Xpsession
  | 0, _ => none
  | fuel + 1, s =>
      if spcfdHasError s.spcfd then stdinError s
      else if !spcfdCanWrite s.spcfd || s.inbuf = [] then some s
      else do
        let (n, spcfd) ← spcfdWrite s.spcfd s.inbuf s.connected
        match n with
        | none => do
            let s ← notified (xpCommandStdinSend fuel) { s with spcfd }
            stdinError s
        | some 0 => stdinError { s with spcfd }
        | some n =>
            let s := { s with spcfd, inbuf := s.inbuf.drop n }
            let s := if s.inbuf = [] ∧ s.closein then xpSessionCloseStdin s else s
            some { s with insize := resized s.insize s.inbuf.length }

/-- The function is called on the session. -/
def stdinSend (s : Xpsession) : Option Xpsession := xpCommandStdinSend (s.spcfd.iounit + 1) s

/-- The size of the input buffer for the bytes that are added, or `none` when there is no memory. -/
def grown (insize inpos datalen : Nat) : Option Nat :=
  let n := toInt (inpos + datalen)
  if (insize : Int) < n then
    let m := n + (if n % 32 ≠ 0 then 32 else 0)
    if m < 2 ^ 31 then some m.toNat else none
  else some insize

/-- The bytes are put behind those that wait, and sent on when they are the first. -/
def appendInbuf (data : List UInt8) (insize : Nat) (s : Xpsession) : Option Xpsession :=
  let s := { s with inbuf := s.inbuf ++ data, insize }
  if s.inbuf.length = data.length then stdinSend s else some s

/-- The loop over the sessions. It returns with an error at the first one that does not take the bytes. -/
def xpCommandSend (data : List UInt8) : List Xpsession → Option (Bool × List Xpsession)
  | [] => some (true, [])
  | s :: ss =>
      if s.ispcfd = false then some (false, s :: ss)
      else
        match grown s.insize s.inbuf.length data.length with
        | none => some (false, s :: ss)
        | some insize =>
            if s.inbuf.length + data.length ≤ insize then do
              let s ← appendInbuf data insize s
              let (sent, ss) ← xpCommandSend data ss
              some (sent, s :: ss)
            else none

/-- The server takes as many bytes as it answers, of those it got. -/
def Xpsession.tookOf (s : Xpsession) (tw : Twrite) : Answer Nat → Xpsession
  | .reply count => { s with taken := s.taken ++ tw.data.take count }
  | _ => s

/-- The answer to the Twrite that is outstanding. -/
def writeAnswered (s : Xpsession) (answer : Answer Nat) : Option Xpsession :=
  match s.spcfd.wtc with
  | none => some s
  | some tw =>
      if s.spcfd.freed then none
      else do
        let spcfd ← spcfdWriteCb s.spcfd answer
        notified stdinSend { s.tookOf tw answer with spcfd }

/-- The connection of the session is lost. -/
def disconnected (s : Xpsession) : Option Xpsession :=
  writeAnswered { s with connected := false } (.lost ECONNRESET)

/-- The sessions, all bytes that were sent, and whether the command was asked to close. -/
structure Xpcommand where
  sessions : List Xpsession
  sent : List UInt8 := []
  closing : Bool := false
  deriving DecidableEq

/-- `closeStdin` is one round of the loop of `xp_command_close_stdin`: answers come in between, while the
reply to a "close stdin" is waited for. -/
inductive Event where
  | send (data : List UInt8)
  | answer (i : Nat) (answer : Answer Nat)
  | disconnect (i : Nat)
  | closeStdin (i : Nat)
  deriving DecidableEq

def Xpcommand.onSession (cm : Xpcommand) (i : Nat) (change : Xpsession → Option Xpsession) : Option Xpcommand :=
  match cm.sessions[i]? with
  | none => some cm
  | some s => do
      let s ← change s
      some { cm with sessions := cm.sessions.set i s }

/-- Nothing is sent after the command was asked to close. -/
def step (cm : Xpcommand) : Event → Option Xpcommand
  | .send data =>
      if cm.closing then some cm
      else do
        let (_, sessions) ← xpCommandSend data cm.sessions
        some { cm with sessions, sent := cm.sent ++ data }
  | .answer i answer => cm.onSession i (writeAnswered · answer)
  | .disconnect i => cm.onSession i disconnected
  | .closeStdin i =>
      { cm with closing := true }.onSession i fun s =>
        some (if s.asked then s else { xpSessionCloseStdin s with asked := true })

/-- The sessions of a command that runs, with the iounits of their files. -/
def start (iounits : List Nat) : Xpcommand where
  sessions := iounits.map fun iounit => { spcfd := { iounit, offset := 0 } }

end Xcpu.Libxcpu.Stdin
