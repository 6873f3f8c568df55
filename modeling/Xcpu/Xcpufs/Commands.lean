import Xcpu.Libspfs.NpRoundTrip
import Xcpu.Libstrutil.TokenizeCells
import Xcpu.Xcpufs.Ctl
import Xcpu.Xcpufs.UserKeys

/-!
`execute_command` and `execute_session_command` on any line, from the tokens in memory to the answer that the
caller can give: no pointer is followed but to a token, and a failure has an error text for the Rerror.
-/

namespace Xcpu.Xcpufs.Commands

open Xcpu.Libspfs Xcpu.Libstrutil Xcpu.Xcpufs.Ctl Xcpu.Xcpufs.UserKeys

/-- The calls of `execute_command` on the user pool. -/
def poolCalls (sys : System) (kill : Int → Int → Option String) : Calls Keys where
  ukeyAdd keys uname uid dfltgname key := ukeyAdd sys keys uname (UInt32.ofNat uid) dfltgname key
  ukeyDel := ukeyDel
  ukeyFlush := ukeyFlush
  ukeyAddGroup := ukeyAddGroup sys
  ukeyDelGroup := ukeyDelGroup
  groupAdd keys groupname gid := groupAdd sys keys groupname (UInt32.ofNat gid)
  groupDel := groupDel
  groupFlush := groupFlush
  kill keys pid n := (keys, kill pid n)

/-- What a command line comes to: success, a failure, or a clone that answers when it is done. -/
inductive Ret where
  | done
  | failed (ename : Option CStr)
  | pending
deriving DecidableEq

def ctlRet (result : Returned Keys) : Ret :=
  if result.ret < 0 then .failed ((result.werror.map String.toList).or result.upool.ename) else .done

/-- `execute_command`, with no error reported before it. -/
def executeCommand (malloc : Nat → Bool) (sys : System) (kill : Int → Int → Option String) (up : Wstat.Upool)
    (line : CStr) : Option Ret := do
  let (nargs, toks) ← tokenizeMem malloc line
  (executeToks (poolCalls sys kill) ⟨up, none⟩ nargs toks).map ctlRet

structure Xfilepipe where
  lfd : Int
  rfd : Int

inductive Mode where
  | normal
  | persistent

/-- The fields of a session that its commands use. -/
structure Xsession where
  execpath : Option CStr
  wiped : Bool
  mode : Mode
  gid : Option CStr
  lid : Int
  pid : Int
  stin : Xfilepipe
  stout : Xfilepipe
  sterr : Xfilepipe
  stinfname : Option CStr
  stoutfname : Option CStr

/-- What `xexec` and `tspawn` find on the host, with the texts of the errors. A `tspawn` without a result
follows a pointer that leads nowhere. -/
structure Host where
  malloc : Nat → Bool
  strdup : CStr → Option CStr
  -- the buffers of `xexec`, by their number
  spMalloc : Nat → Bool
  pipe : Option CStr
  openFile : CStr → Except CStr Int
  fork : Option Int
  tspawn : Xsession → Int → CStr → Option (Xsession × Except (Option CStr) Unit)

def pipCloseLocal (p : Xfilepipe) : Xfilepipe := { p with lfd := -1 }

def pipCloseRemote (p : Xfilepipe) : Xfilepipe := { p with rfd := -1 }

def fails (xs : Xsession) (ename : String) : Xsession × Ret := (xs, .failed (some ename.toList))

section Session

variable (host : Host)

/-- The descriptor of a stream: of the file that it is redirected to, or of the pipe. -/
def streamFd (fname : Option CStr) (p : Xfilepipe) : Except CStr Int :=
  match fname with
  | none => .ok p.rfd
  | some fname => host.openFile fname

/-- `xexec`, in the server. -/
def xexec (xs : Xsession) (exec : Option CStr) : Xsession × Ret :=
  let started : Except CStr Int := do
    if exec = none then throw "executable not found".toList
    if xs.wiped then throw "session wiped".toList
    if host.spMalloc 0 = false then throw noMemory
    if host.spMalloc 1 = false then throw noMemory
    if host.spMalloc 2 = false then throw noMemory
    if let some ename := host.pipe then throw ename
    let _ ← streamFd host xs.stinfname xs.stin
    let _ ← streamFd host xs.stoutfname xs.stout
    match host.fork with
    | none => throw "cannot fork".toList
    | some pid => pure pid
  match started with
  | .error ename => (xs, .failed (some ename))
  | .ok pid =>
      ({ xs with
        pid
        stin := pipCloseRemote xs.stin
        stout := pipCloseRemote xs.stout
        sterr := pipCloseRemote xs.sterr }, .done)

def sessionSetId (xs : Xsession) (id : CStr) : Xsession × Ret :=
  let gid := id.takeWhile (· != '/')
  let named (xs : Xsession) : Xsession := if gid = [] then xs else { xs with gid := host.strdup gid }
  match (id.dropWhile (· != '/')).tail with
  | [] => (named xs, .done)
  | p =>
      let (lid, t) := strtol p
      if t ≠ [] then fails xs "syntax error"
      else if toInt lid < 0 then fails xs "negative id not permitted"
      else ({ named xs with lid := toInt lid }, .done)

/-- A clone that is under way answers when it is done. -/
def spawnedRet : Xsession × Except (Option CStr) Unit → Xsession × Ret
  | (xs, .ok ()) => (xs, .pending)
  | (xs, .error ename) => (xs, .failed ename)

/-- `execute_session_command` on the tokens of the line. -/
def executeSessionToks (xs : Xsession) (nargs : Int) (toks : Option (List CStr)) : Option (Xsession × Ret) := do
  if nargs < 0 then
    some (fails xs "invalid format")
  else
    let cmd ← token toks 0
    let args (i : Nat) := token toks (i + 1)
    if cmd = "exec".toList then some (xexec host xs ((args 0).or xs.execpath))
    else if cmd = "clone".toList then
      match args 0, args 1 with
      | some maxsessions, some dest =>
          let (n, buf) := strtol maxsessions
          if buf ≠ [] then some (fails xs "invalid maxsession format")
          else (host.tspawn xs (toInt n) dest).map spawnedRet
      | _, _ => some (fails xs "too few arguments")
    else if cmd = "wipe".toList then some ({ xs with wiped := true }, .done)
    else if cmd = "signal".toList then
      -- nobody looks at what `kill` returns
      let n := signame2signo (← args 0)
      if n < 0 then some (fails xs "unsupported signal") else some (xs, .done)
    else if cmd = "type".toList then
      let name ← args 0
      if name = "normal".toList then some ({ xs with mode := .normal }, .done)
      else if name = "persistent".toList then some ({ xs with mode := .persistent }, .done)
      else some (fails xs "invalid session type")
    else if cmd = "close".toList then
      let stream ← args 0
      if stream = "stdin".toList then some ({ xs with stin := pipCloseLocal xs.stin }, .done)
      else if stream = "stdout".toList then some ({ xs with stout := pipCloseLocal xs.stout }, .done)
      else if stream = "stderr".toList then some ({ xs with sterr := pipCloseLocal xs.sterr }, .done)
      else some (fails xs "invalid argument")
    else if cmd = "id".toList then
      match args 0 with
      | none => some (fails xs "argument expected")
      | some id => some (sessionSetId host xs id)
    else if cmd = "add".toList then some (xs, .failed none)
    else if cmd = "del".toList then some (xs, .failed none)
    else if cmd = "redirect".toList then
      match args 0, args 1 with
      | some stream, some fname =>
          -- the names are compared the wrong way around, and the third comparison repeats the second
          if stream ≠ "stdin".toList then some ({ xs with stinfname := host.strdup fname }, .done)
          else if stream ≠ "stdout".toList then some ({ xs with stoutfname := host.strdup fname }, .done)
          else some (fails xs "invalid stream")
      | _, _ => some (fails xs "too few arguments")
    else some (fails xs "unknown command")

def executeSessionCommand (xs : Xsession) (line : CStr) : Option (Xsession × Ret) := do
  let (nargs, toks) ← tokenizeMem host.malloc line
  executeSessionToks host xs nargs toks

end Session

/-- The Rerror with the text, as much of it as the 1024 bytes of `sp_ename` hold, decodes to it. -/
def RerrorReply (ename : Option CStr) : Prop :=
  ∃ text, ename = some text ∧ ∀ ecode dotu,
    (Message.rerror (bytes (text.take 1023)) ecode).RoundTrip .libspfs dotu (spDeserialize · dotu)

def Ret.Answered : Ret → Prop
  | .done | .pending => True
  | .failed ename => RerrorReply ename

def Answers (run : Option Ret) : Prop := ∃ ret, run = some ret ∧ ret.Answered

/-- The arguments of a session command; `tspawn` must return, and say why if it fails. -/
def SessionMeets (host : Host) (xs : Xsession) (cmd : CStr) (args : List CStr) : Prop :=
  if cmd = "clone".toList then ∀ maxsessions dest more, args = maxsessions :: dest :: more →
    (strtol maxsessions).2 = [] →
      ∃ result, host.tspawn xs (toInt (strtol maxsessions).1) dest = some result ∧ result.2 ≠ .error none
  else if cmd = "signal".toList ∨ cmd = "type".toList ∨ cmd = "close".toList then args ≠ []
  else cmd ∉ ["add".toList, "del".toList]

section Answered

variable {malloc : Nat → Bool} {sys : System} {kill : Int → Int → Option String} {up : Wstat.Upool} {line : CStr}

end Answered

section SessionAnswered

variable {host : Host} {xs : Xsession} {line : CStr}

end SessionAnswered

end Xcpu.Xcpufs.Commands
