import Xcpu.Lib.Keyed
import Xcpu.Lib.Transition

/-!
Sessions and what keeps them: the files of a session and the fids on them, the fid that opened
`clone`, and the process. `session_decref` wipes a session that nothing keeps. An access to
a session that was freed leaves the defined behaviour.
-/

namespace Xcpu.Xcpufs.Session

open Xcpu.Keyed

inductive SessionState where
  | initializing
  | running
  | finished
  | wiped
  deriving DecidableEq

inductive SessionMode where
  | normal
  | persistent
  deriving DecidableEq

/-- A session, with the reference count of its root directory in `sroot`. `inTree` tells whether
the directory of the tree lists it, `listed` whether `sessions` does, which is until
`session_destroy` frees it, and `released` counts the `spfile_decref(sroot)` of
`session_decref`. -/
structure Xsession where
  refcount : Int
  state : SessionState
  mode : SessionMode
  pid : Option Nat
  sroot : Int
  inTree : Bool
  listed : Bool
  released : Nat
  deriving DecidableEq

inductive SessionFile where
  | ctl
  | exec
  | argv
  | env
  | stdin
  | stdout
  | stderr
  | stdio
  | wait
  | id
  | fs
  deriving DecidableEq

/-- The files that `session_add_dir` creates, in their order. -/
def sessionFiles : List (List Char × SessionFile) :=
  [(['c', 't', 'l'], .ctl), (['e', 'x', 'e', 'c'], .exec), (['a', 'r', 'g', 'v'], .argv), (['e', 'n', 'v'], .env),
    (['s', 't', 'd', 'i', 'n'], .stdin), (['s', 't', 'd', 'o', 'u', 't'], .stdout),
    (['s', 't', 'd', 'e', 'r', 'r'], .stderr), (['s', 't', 'd', 'i', 'o'], .stdio), (['w', 'a', 'i', 't'], .wait),
    (['i', 'd'], .id), (['f', 's'], .fs)]

/-- The files that `fsinit` creates besides `clone`. -/
def rootFiles : List (List Char) :=
  [['c', 't', 'l'], ['a', 'r', 'c', 'h'], ['e', 'n', 'v'], ['p', 'r', 'o', 'c', 's'], ['s', 't', 'a', 't', 'e'],
    ['p', 'a', 's', 's', 'k', 'e', 'y'], ['p', 'w', 'e', 'n', 't'], ['g', 'r', 'e', 'n', 't']]

/-- `session_create` and `session_add_dir`: `create_file` takes one reference of the directory,
and each file in it another. -/
def sessionCreate : Xsession where
  refcount := 1
  state := .initializing
  mode := .normal
  pid := none
  sroot := 1 + sessionFiles.length
  inTree := true
  listed := true
  released := 0

def sessionIncref (xs : Xsession) : Xsession := { xs with refcount := xs.refcount + 1 }

def srootIncref (xs : Xsession) : Xsession := { xs with sroot := xs.sroot + 1 }

/-- `spfile_decref` of the root directory, which is destroyed with its session. -/
def srootDecref (xs : Xsession) : Xsession :=
  { xs with sroot := xs.sroot - 1, listed := decide (xs.sroot - 1 ≠ 0) }

/-- Each file leaves its reference of the directory in `session_remove_dir`. A directory that
is in no list any more has no `prev`. -/
def sessionRemoveDir (xs : Xsession) : Option Xsession :=
  if xs.inTree ∧ sessionFiles.length < xs.sroot then
    some { xs with inTree := false, sroot := xs.sroot - sessionFiles.length }
  else none

def sessionWipe (xs : Xsession) : Option Xsession :=
  if xs.state = .wiped then some xs
  else sessionRemoveDir { xs with state := .wiped }

def sessionDecref (xs : Xsession) : Option Xsession :=
  let xs := { xs with refcount := xs.refcount - 1 }
  if xs.refcount ≠ 0 then some xs
  else do
    let xs ← if xs.mode = .normal ∧ xs.state ≠ .running then sessionWipe xs else some xs
    let xs := srootDecref xs
    some { xs with released := xs.released + 1 }

inductive Spfile where
  | root
  | file (clone : Bool)
  | sroot (session : Nat)
  | child (session : Nat) (file : SessionFile)
  deriving DecidableEq

/-- What the aux of a fid stands for: a file of the tree, or a path below the directory of a
session's process. -/
inductive Current where
  | file (file : Spfile)
  | fs (session : Nat) (path : List Char)
  deriving DecidableEq

/-- A fid; `session` is the aux that `clone_openfid` sets. -/
structure Spfilefid where
  fid : Nat
  current : Current
  opened : Bool := false
  session : Option Nat := none
  deriving DecidableEq

/-- The server: a session's number is its place in `sessions`, and `forked` counts the
processes. -/
structure Host where
  sessions : List Xsession := []
  fids : List Spfilefid := []
  forked : Nat := 0
  deriving DecidableEq

/-- What the code finds at a session that is not freed. -/
def Host.session (host : Host) (session : Nat) : Option Xsession := do
  let xs ← host.sessions[session]?
  if xs.listed then some xs else none

def Host.put (host : Host) (session : Nat) (xs : Xsession) : Host :=
  { host with sessions := host.sessions.set session xs }

def Host.on (host : Host) (session : Nat) (change : Xsession → Option Xsession) : Option Host := do
  let xs ← host.session session
  let xs ← change xs
  some (host.put session xs)

def Host.find (host : Host) (fid : Nat) : Option Spfilefid := host.fids.find? (·.fid == fid)

def Host.move (host : Host) (fid : Nat) (current : Current) : Host :=
  { host with fids := update Spfilefid.fid host.fids fid fun f => { f with current } }

def spfileIncref (host : Host) : Spfile → Option Host
  | .sroot session => host.on session (some <| srootIncref ·)
  | _ => some host

def spfileDecref (host : Host) : Spfile → Option Host
  | .sroot session => host.on session (some <| srootDecref ·)
  | _ => some host

/-- `reftrack_ref`, on the files whose operations have it. -/
def spfileRef (host : Host) : Spfile → Option Host
  | .sroot session => host.on session (some <| sessionIncref ·)
  | .child session file => if file = .fs then some host else host.on session (some <| sessionIncref ·)
  | _ => some host

/-- `reftrack_unref`, on the files whose operations have it. -/
def spfileUnref (host : Host) : Spfile → Option Host
  | .sroot session => host.on session sessionDecref
  | .child session file => if file = .fs then some host else host.on session sessionDecref
  | _ => some host

/-- The directories of sessions among the files of the root, from session `number` on. -/
def findSession (name : List Char) : Nat → List Xsession → Option (Option Nat)
  | _, [] => some none
  | number, xs :: rest =>
      if xs.inTree then
        if !xs.listed then none
        else if Nat.toDigits 10 number = name then some (some number)
        else findSession name (number + 1) rest
      else findSession name (number + 1) rest

def dotdot : List Char := ['.', '.']

/-- `spfile_find` before it takes a reference: the file of that name, if there is one. -/
def lookup (host : Host) (dir : Spfile) (name : List Char) : Option (Option Spfile) :=
  match dir with
  | .root =>
      if name = dotdot then some (some .root)
      else if name = ['c', 'l', 'o', 'n', 'e'] then some (some (.file true))
      else if name ∈ rootFiles then some (some (.file false))
      else (findSession name 0 host.sessions).map (·.map .sroot)
  | .sroot session => do
      let xs ← host.session session
      -- a wiped session has no parent and no files
      if !xs.inTree then some none
      else if name = dotdot then some (some .root)
      else some ((sessionFiles.lookup name).map (.child session))
  | .file _ => some (if name = dotdot then some .root else none)
  | .child session _ => some (if name = dotdot then some (.sroot session) else none)

/-- `spfile_find`: there is no reference for a parent. -/
def spfileFind (host : Host) (dir : Spfile) (name : List Char) : Option (Option Spfile × Host) := do
  let found ← lookup host dir name
  match found with
  | none => some (none, host)
  | some nfile =>
      if name = dotdot then some (some nfile, host)
      else do
        let host ← spfileIncref host nfile
        some (some nfile, host)

/-- The execute permission of a directory; `permitted` is that of a session's `fs`, and the
other files have none. -/
def executable (permitted : Bool) : Spfile → Bool
  | .root | .sroot _ => true
  | .child _ .fs => permitted
  | _ => false

def spfileWalk (host : Host) (fid : Nat) (dir : Spfile) (name : List Char) (permitted : Bool) : Option Host :=
  if executable permitted dir then do
    let (found, host) ← spfileFind host dir name
    match found with
    | none => some host
    | some nfile =>
        let host ← spfileUnref host dir
        let host := host.move fid (.file nfile)
        let host ← spfileDecref host dir
        spfileRef host nfile
  else some host

/-- `ufs_attach`, where `stat` tells whether the directory of the process is there. -/
def ufsAttach (host : Host) (fid session : Nat) (stat : Bool) : Option Host := do
  -- the directory's path is that of the session
  let _ ← host.session session
  let host := host.move fid (.fs session [])
  if stat then host.on session (some <| sessionIncref ·) else some host

/-- `ufs_walk`: the path that it tries. -/
def ufsPath (path name : List Char) : List Char :=
  if name = dotdot then ((path.reverse.dropWhile (· ≠ '/')).drop 1).reverse
  else path ++ '/' :: name

/-- The end of `xwalk`: a fid that has come to `fs` goes on in the directory of the process. -/
def xwalkEnd (host : Host) (fid : Nat) (stat : Bool) : Option Host :=
  match host.find fid with
  | some { current := .file (.child session .fs), .. } => ufsAttach host fid session stat
  | _ => some host

def xwalk (host : Host) (f : Spfilefid) (name : List Char) (permitted stat : Bool) : Option Host :=
  match f.current with
  | .file dir => do
      let host ← spfileWalk host f.fid dir name permitted
      xwalkEnd host f.fid stat
  | .fs session path =>
      if name = dotdot ∧ path = [] then do
        let _ ← host.session session
        let host := host.move f.fid (.file (.child session .fs))
        let host ← spfileWalk host f.fid (.child session .fs) name permitted
        xwalkEnd host f.fid stat
      else if stat then some (host.move f.fid (.fs session (ufsPath path name)))
      else some host

def spfileFidalloc (host : Host) (file : Spfile) (newfid : Nat) : Option Host := do
  let host ← spfileIncref host file
  let host ← spfileRef host file
  some { host with fids := host.fids ++ [{ fid := newfid, current := .file file }] }

def xclone (host : Host) (f : Spfilefid) (newfid : Nat) : Option Host :=
  match f.current with
  | .file file => spfileFidalloc host file newfid
  | .fs session path => do
      let host ← host.on session (some <| sessionIncref ·)
      some { host with fids := host.fids ++ [{ fid := newfid, current := .fs session path }] }

/-- `xopen`, and `sp_open`, which marks the fid as open also where it fails. -/
def xopen (host : Host) (f : Spfilefid) (permitted : Bool) : Host :=
  if f.current = .file (.file true) ∧ permitted then
    { host with
      sessions := host.sessions ++ [sessionCreate]
      fids := update Spfilefid.fid host.fids f.fid fun f =>
        { f with opened := true, session := some host.sessions.length } }
  else { host with fids := update Spfilefid.fid host.fids f.fid fun f => { f with opened := true } }

inductive Command where
  | exec (forks : Bool)
  | wipe
  | type (mode : SessionMode)

/-- `execute_session_command`, for the commands that change what keeps the session. -/
def executeSessionCommand (host : Host) (session : Nat) : Command → Option Host
  | .exec forks => do
      let xs ← host.session session
      if xs.state = .wiped ∨ !forks then some host
      else do
        let host ← host.on session fun xs =>
          some (sessionIncref { xs with state := .running, pid := some host.forked })
        some { host with forked := host.forked + 1 }
  | .wipe => host.on session sessionWipe
  | .type mode => host.on session fun xs => some { xs with mode }

def findPid (host : Host) (pid : Nat) : Option Nat :=
  host.sessions.findIdx? fun xs => xs.listed && xs.pid == some pid

/-- `sigchld_notify`, for one process that has ended. -/
def sigchldNotify (host : Host) (pid : Nat) : Option Host :=
  match findPid host pid with
  | none => some host
  | some session => host.on session fun xs =>
      sessionDecref { xs with state := if xs.state ≠ .wiped then .finished else xs.state, pid := none }

def xfiddestroy (host : Host) (f : Spfilefid) : Option Host := do
  let host := { host with fids := host.fids.eraseP (·.fid == f.fid) }
  match f.current with
  | .file file =>
      let host ← match f.session with
        | none => some host
        | some session => host.on session sessionDecref
      let host ← spfileUnref host file
      spfileDecref host file
  | .fs session _ => host.on session sessionDecref

/-- What the requests of the clients, and the end of a process, make the server do. -/
inductive Event where
  | attach (fid : Nat)
  | clone (fid newfid : Nat)
  | walk (fid : Nat) (name : List Char) (permitted stat : Bool)
  | openfid (fid : Nat) (permitted : Bool)
  | ctl (fid : Nat) (command : Command)
  | exited (pid : Nat)
  | destroy (fid : Nat)

def Host.step (host : Host) : Event → Option Host
  | .attach fid => if (host.find fid).isNone then spfileFidalloc host .root fid else some host
  | .clone fid newfid =>
      match host.find fid with
      | none => some host
      | some f => if !f.opened ∧ (host.find newfid).isNone then xclone host f newfid else some host
  | .walk fid name permitted stat =>
      match host.find fid with
      | none => some host
      | some f => if f.opened then some host else xwalk host f name permitted stat
  | .openfid fid permitted =>
      match host.find fid with
      | none => some host
      | some f => if f.opened then some host else some (xopen host f permitted)
  | .ctl fid command =>
      match host.find fid with
      | some { current := .file (.child session .ctl), opened := true, .. } =>
          executeSessionCommand host session command
      | _ => some host
  | .exited pid => sigchldNotify host pid
  | .destroy fid =>
      match host.find fid with
      | none => some host
      | some f => xfiddestroy host f

end Xcpu.Xcpufs.Session
