import Xcpu.Lib.Transition
import Xcpu.Libstrutil.Tokenize

/-!
The execution of a command. `xp_command_exec` copies the files of the command to some of the sessions;
the others are entries of the `clone` commands of these. It then waits for `tcnt`, which the callback
of each copy decrements, and executes the program when it is zero.
-/

namespace Xcpu.Libxcpu.Command

open Xcpu.Libstrutil

def Bufsize : Nat := 32768

/-- A buffer, or a local file, which has a length when it can be opened and read. -/
inductive Content where
  | buf (buflen : Nat)
  | path (length : Option Nat)
  deriving DecidableEq

def Content.buflen : Content → Nat
  | .buf buflen => buflen
  | .path _ => 0

/-- `dir` is the bit `Dmdir` of the permissions. -/
structure Xpfile where
  dir : Bool
  content : Content
  deriving DecidableEq

/-- The copy of a session's files, the current one at the front of `files`; `unread` is what its
descriptor has left, once it is open. `finish` tells whether there is a callback, `calls` counts its
calls, and `ended` tells whether the copy came to its end or to an error. -/
structure Xpcopy where
  iounit : Nat
  files : List Xpfile := []
  pos : Nat := 0
  buflen : Nat := 0
  unread : Option Nat := none
  wpos : Nat := 0
  outstanding : Bool := false
  finish : Bool := false
  calls : Nat := 0
  ended : Bool := false
  deriving DecidableEq

def Xpcopy.callFinish (c : Xpcopy) : Xpcopy :=
  { c with calls := c.calls + (if c.finish then 1 else 0), ended := true }

inductive Filled where
  | nextFile
  | error
  | data (c : Xpcopy)

/-- The part of `xp_file_notify` before its write. -/
def fill (f : Xpfile) (c : Xpcopy) : Filled :=
  if c.pos < c.buflen then .data c
  else
    match f.content with
    | .buf _ => .nextFile
    | .path none => .error
    | .path (some length) =>
        let unread := c.unread.getD length
        let n := min Bufsize unread
        if n = 0 then .nextFile
        else .data { c with unread := some (unread - n), buflen := n, pos := 0 }

/-- `xp_file_notify` when no error is set: the copy, and whether it is over, with an error or not.
`sends` tells whether the connection takes the Twrite. -/
def xpFileNotify (sends : Bool) (f : Xpfile) (nextFile : Xpcopy × Option Bool) (c : Xpcopy) :
    Xpcopy × Option Bool :=
  if c.wpos < c.iounit then
    match fill f c with
    | .nextFile => nextFile
    | .error => (c, some true)
    | .data c =>
        if sends then
          let n := min (c.iounit - c.wpos) (c.buflen - c.pos)
          ({ c with wpos := c.wpos + n, pos := c.pos + n, outstanding := true }, none)
        else (c, some true)
  else (c, none)

/-- `xp_file_copy`, with a new descriptor for the next file that is no directory. -/
def xpFileCopy (sends : Bool) (c : Xpcopy) : List Xpfile → Xpcopy × Option Bool
  | [] => ({ c with files := [] }, some false)
  | f :: rest =>
      if f.dir then xpFileCopy sends c rest
      else
        xpFileNotify sends f (xpFileCopy sends c rest)
          { c with files := f :: rest, pos := 0, buflen := f.content.buflen, unread := none, wpos := 0 }

/-- `spcfd_write_cb`: the answer to the outstanding Twrite is a count or an error. -/
def spcfdWriteCb (c : Xpcopy) (count : Option Nat) : Xpcopy × Option Bool :=
  let c := { c with outstanding := false }
  match count, c.files with
  | none, _ => (c, some true)
  | some _, [] => (c, none)
  | some count, f :: rest =>
      xpFileNotify true f (xpFileCopy true c rest) { c with wpos := c.wpos - count }

/-- `xp_file_copy_start`, whose copy has no callback. -/
def xpFileCopyStart (sends : Bool) (iounit : Nat) (files : List Xpfile) : Xpcopy :=
  match xpFileCopy sends { iounit } files with
  | (c, none) => c
  | (c, some _) => c.callFinish

/-- The units are those of the session's connection. -/
structure Xpsession where
  addr : CStr
  sid : CStr
  pk : CStr
  iounit : Nat
  deriving DecidableEq

/-- `copy` are the files that are found below the paths of `deps`. -/
structure Xpcommand where
  nspawn : Int
  env : Option CStr
  argv : Option CStr
  copy : List Xpfile
  sessions : List Xpsession
  deriving DecidableEq

def strlen (s : CStr) : Nat := (s.takeWhile (· ≠ '\x00')).length

def xpFileCreateFromBuf (buf : CStr) : Xpfile := { dir := false, content := .buf (strlen buf) }

/-- The list that `xp_session_setup_start` makes. -/
def sessionFiles (cm : Xpcommand) (ctl : Option CStr) : List Xpfile :=
  (cm.env.map xpFileCreateFromBuf).toList ++ (cm.argv.map xpFileCreateFromBuf).toList ++ cm.copy ++
    (ctl.map xpFileCreateFromBuf).toList

def cloneEntry (ss : Xpsession) : CStr := ss.addr ++ '/' :: (ss.sid ++ '/' :: (ss.pk ++ [',']))

def cloneCommand (nspawn : Int) (clones : List Xpsession) : Option CStr :=
  if clones = [] then none
  else some ("clone ".toList ++ formatInt nspawn ++ ' ' :: (clones.flatMap cloneEntry ++ ['\n']))

/-- `n` sessions get the files, those before `ce` with up to `m - 1` clones each. -/
structure Cut where
  n : Nat
  m : Nat
  ce : Nat
  deriving DecidableEq

/-- Without sessions the number of clones is a division by zero. -/
def cutSessions (nspawn : Int) (nnodes : Nat) : Option Cut := do
  let (n, m) ←
    if nspawn > 0 then
      let n := min nspawn.toNat nnodes
      if n = 0 then none else some (n, nnodes / n + (if nnodes % n ≠ 0 then 1 else 0))
    else some (nnodes, 1)
  let cn := if m > 1 then (nnodes - n) / (m - 1) + (if (nnodes - n) % (m - 1) ≠ 0 then 1 else 0) else 0
  some { n, m, ce := min (nnodes - n + cn) nnodes }

/-- A session that was set up, and the ones that it clones itself to. -/
structure Setup where
  session : Nat
  clones : List Nat
  copyf : Xpcopy
  deriving DecidableEq

def Setup.covers (setup : Setup) : List Nat := setup.session :: setup.clones

/-- `xp_command_exec` on its way: the sessions before `i` are set up. `ename` tells whether a copy
failed, `returned` whether the function has returned, `execs` the sessions with an `exec` command. -/
structure Exec where
  cut : Cut
  tcnt : Int
  i : Nat := 0
  setups : List Setup := []
  ename : Bool := false
  returned : Bool := false
  execs : List Nat := []
  deriving DecidableEq

def xpCommandExec (cm : Xpcommand) : Option Exec := do
  let cut ← cutSessions cm.nspawn cm.sessions.length
  some { cut, tcnt := cut.n }

/-- The first session behind the next one and its clones. -/
def Exec.groupEnd (exec : Exec) : Nat :=
  if exec.i < exec.cut.ce then min (exec.i + exec.cut.m) exec.cut.ce else exec.i + 1

/-- The sessions that the next one clones itself to. -/
def Exec.nextClones (exec : Exec) : List Nat := List.range' (exec.i + 1) (exec.groupEnd - (exec.i + 1))

def nextFiles (cm : Xpcommand) (exec : Exec) : List Xpfile :=
  sessionFiles cm (cloneCommand cm.nspawn (exec.nextClones.filterMap (cm.sessions[·]?)))

def xpCommandFinishCopy (exec : Exec) (failed : Bool) : Exec :=
  { exec with ename := exec.ename || failed, tcnt := exec.tcnt - 1 }

inductive Event where
  | setup (sends : Bool)
  | setupFails
  | answer (k : Nat) (count : Option Nat)
  | poll
  deriving DecidableEq

variable (cm : Xpcommand)

/-- One round of the loops that set up the sessions. -/
def setupNext (exec : Exec) (ss : Xpsession) (sends : Bool) : Option Exec :=
  let files := nextFiles cm exec
  -- without files there is no copy, and `copyf` is null
  if files = [] then none
  else
    let copyf := { xpFileCopyStart sends ss.iounit files with finish := true }
    let setup := { session := exec.i, clones := exec.nextClones, copyf }
    some { exec with i := exec.groupEnd, setups := exec.setups ++ [setup] }

def answerWrite (exec : Exec) (k : Nat) (setup : Setup) (count : Option Nat) : Exec :=
  match spcfdWriteCb setup.copyf count with
  | (c, none) => { exec with setups := exec.setups.set k { setup with copyf := c } }
  | (c, some failed) =>
      let exec := { exec with setups := exec.setups.set k { setup with copyf := c.callFinish } }
      if setup.copyf.finish then xpCommandFinishCopy exec failed else exec

/-- The sessions are set up in turn, and answers come at any time. A poll leaves the loop on `tcnt` when
its condition fails. -/
def step (exec : Exec) (event : Event) : Option Exec :=
  if exec.returned then some exec
  else
    match event with
    | .setup sends =>
        match cm.sessions[exec.i]? with
        | some ss => setupNext cm exec ss sends
        | none => some exec
    | .setupFails =>
        if exec.i < cm.sessions.length then some { exec with returned := true } else some exec
    | .answer k count =>
        match exec.setups[k]? with
        | some setup =>
            -- no more is answered than was sent
            if setup.copyf.outstanding ∧ count.getD 0 ≤ setup.copyf.wpos then
              some (answerWrite exec k setup count)
            else some exec
        | none => some exec
    | .poll =>
        if exec.i < cm.sessions.length ∨ (exec.ename = false ∧ 0 < exec.tcnt) then some exec
        else if exec.ename then some { exec with returned := true }
        else some { exec with returned := true, execs := List.range cm.sessions.length }

end Xcpu.Libxcpu.Command
