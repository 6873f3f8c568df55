import Xcpu.Lib.Numerals
import Xcpu.Lib.Paths
import Xcpu.Libspfs.Held

/-!
The directory of a session's process as files of the server (`ufs.c`), beside the synthetic files,
and the callbacks of `xcpufs.c` that choose between the two. What the node's file system answers is
a parameter, and so are the synthetic files.
-/

namespace Xcpu.Xcpufs.Ufs

open Xcpu.Libspfs Xcpu.Numerals Xcpu.Paths

/-- What `ufs.c` reads of a `struct stat`. -/
structure Stat where
  mode : Nat
  ino : Nat
  mtime : Nat
  size : Nat
  deriving DecidableEq

/-- `S_ISDIR` -/
def Stat.isDir (st : Stat) : Bool := st.mode &&& 0o170000 == 0o040000

/-- `S_ISLNK` -/
def Stat.isLnk (st : Stat) : Bool := st.mode &&& 0o170000 == 0o120000

/-- Why a message is refused. -/
inductive Refusal where
  | errno (number : Nat)
  | exist
  | dirchange
  | unknownUser
  | unknownFid
  | format
  deriving DecidableEq

def ENOENT : Nat := 2

/-- The system calls: an error number, or what they leave of the file system. `fidPath` is the path
of the fid with the number that a Dmlink names (`none` if there was nothing to scan), `malloc` what
memory holds before it is written, and the last ones are the functions of `ufs.c` that leave the
path of a fid alone, with their reply and whether they set an error. -/
structure Os (Disk : Type) where
  lstat : Disk → Path → Except Nat Stat
  mkdir : Disk → Path → Nat → Except Nat Disk
  opendir : Disk → Path → Except Nat Unit
  creat : Disk → Path → Nat → Nat → Except Nat Disk
  symlink : Disk → Path → Path → Except Nat Disk
  link : Disk → Path → Path → Except Nat Disk
  mknod : Disk → Path → Nat → Nat × Nat → Except Nat Disk
  rmdir : Disk → Path → Disk
  remove : Disk → Path → Disk
  rename : Disk → Path → Path → Except Nat Disk
  chmod : Disk → Path → Nat → Except Nat Disk
  utime : Disk → Path → Nat → Except Nat Disk
  chown : Disk → Path → Nat → Nat → Except Nat Disk
  truncate : Disk → Path → Nat → Except Nat Disk
  uname2user : Disk → Path → Option Nat
  gname2group : Disk → Path → Option Nat
  fidPath : Disk → Option Int → Option Path
  dotu : Disk → Bool
  malloc : Stat
  ufsOpen : Disk → Path → Nat → Disk × Option Rcall × Bool
  ufsRead : Disk → Path → Spfcall → Disk × Option Rcall × Bool
  ufsWrite : Disk → Path → Spfcall → Packet → Disk × Option Rcall × Bool
  ufsClunk : Disk → Path → Disk × Option Rcall × Bool
  ufsRemove : Disk → Path → Disk × Option Rcall × Bool
  ufsStat : Disk → Path → Disk × Option Rcall × Bool
  ufsFiddestroy : Disk → Path → Disk

/-- The directory that `session_create` makes with `mkdtemp`: `tmppath` and `/xcpu-XXXXXX` with
other characters for the last six. -/
structure Dirpath where
  tmppath : Path
  unique : Path
  tmppath_string : 0 ∉ tmppath
  unique_string : 0 ∉ unique
  unique_name : 47 ∉ unique

/-- `xcpu-` and six characters. -/
def Dirpath.name (dir : Dirpath) : Path := [120, 99, 112, 117, 45] ++ dir.unique

def Dirpath.path (dir : Dirpath) : Path := dir.tmppath ++ 47 :: dir.name

variable {Disk User File Value : Type}

/-- The fields of a session that `xwalk` and `ufs.c` read. -/
structure Xsession (File : Type) where
  sid : Nat
  dirpath : Dirpath
  fsdir : File

structure Fsfid (File : Type) where
  xs : Xsession File
  path : Path
  stat : Stat

/-- What the aux of a fid stands for: a file of the tree, or a file of a session's process. -/
inductive Aux (File : Type) where
  | file (file : File)
  | fs (f : Fsfid File)

/-- The file system, and the files that were created or renamed to so far, with the directory of
the session. -/
structure World (Disk : Type) where
  disk : Disk
  made : List (Path × Path)

def World.making (world : World Disk) (f : Fsfid File) (path : Path) (disk : Disk) : World Disk :=
  ⟨disk, (f.xs.dirpath.path, path) :: world.made⟩

/-- A buffer of bytes as the system calls read it. -/
def cstr (text : List UInt8) : Path := text.takeWhile (· ≠ 0)

def dotdot : Path := [46, 46]

def ustat2qidtype (st : Stat) : Nat := (if st.isDir then 0x80 else 0) ||| (if st.isLnk then 0x02 else 0)

/-- `QPATH(id)` is an `int`. -/
def ustat2qid (st : Stat) (id : Nat) : Spqid where
  type := ustat2qidtype st
  version := (st.mtime ^^^ (st.size <<< 8)) % 2 ^ 32
  path := st.ino &&& ((st.ino &&& (2 ^ 64 - 2 ^ 24)) |||
    ((BitVec.ofNat 32 ((id + 1) <<< 24)).signExtend 64).toNat)

/-- An error number is positive, and the callers look for a negative one. -/
def fidstat (os : Os Disk) (disk : Disk) (f : Fsfid File) : Fsfid File :=
  match os.lstat disk f.path with
  | .error _ => f
  | .ok st => { f with stat := if st.isDir then { st with size := 0 } else st }

def ufsAttach (os : Os Disk) (disk : Disk) (xs : Xsession File) : Fsfid File × Spqid :=
  let f := fidstat os disk { xs, path := xs.dirpath.path, stat := os.malloc }
  (f, ustat2qid f.stat xs.sid)

def ufsClone (os : Os Disk) (f : Fsfid File) : Fsfid File := { xs := f.xs, path := f.path, stat := os.malloc }

/-- The path that `ufs_walk` tries. -/
def walkPath (f : Fsfid File) (wname : List UInt8) : Path :=
  if wname = dotdot then (beforeLast f.path).getD f.path else cstr (f.path ++ 47 :: wname)

def ufsWalk (os : Os Disk) (disk : Disk) (f : Fsfid File) (wname : List UInt8) : Fsfid File × Except Refusal Spqid :=
  let f := fidstat os disk f
  match os.lstat disk (walkPath f wname) with
  | .error errno => (f, .error (.errno errno))
  | .ok st => ({ f with path := walkPath f wname }, .ok (ustat2qid st f.xs.sid))

def dmsymlink : Nat := 0x02000000
def dmlink : Nat := 0x01000000
def dmdevice : Nat := 0x00800000
def dmnamedpipe : Nat := 0x00200000
def dmsocket : Nat := 0x00100000
def dmsetuid : Nat := 0x00080000
def dmsetgid : Nat := 0x00040000

def np2umode (mode : Nat) (extension : List UInt8) (dotu : Bool) : Nat :=
  let ret := (mode &&& 0o777) ||| (if mode &&& Dmdir ≠ 0 then 0o040000 else 0)
  let ret := if dotu then
      ret ||| (if mode &&& dmsymlink ≠ 0 then 0o120000 else 0) |||
        (if mode &&& dmsocket ≠ 0 then 0o140000 else 0) |||
        (if mode &&& dmnamedpipe ≠ 0 then 0o010000 else 0) |||
        (if mode &&& dmdevice ≠ 0 then if extension.head? = some 99 then 0o020000 else 0o060000 else 0)
    else ret
  let ret := if ret >>> 9 = 0 then ret ||| 0o100000 else ret
  ret ||| (if mode &&& dmsetuid ≠ 0 then 0o4000 else 0) ||| (if mode &&& dmsetgid ≠ 0 then 0o2000 else 0)

/-- `%u` or `%d` of `sscanf`: the number and the rest. -/
def scanNumber (text : List UInt8) : Option (Int × List UInt8) :=
  let (negative, digits) : Bool × List UInt8 := match text.dropWhile isspace with
    | 45 :: rest => (true, rest)
    | 43 :: rest => (false, rest)
    | rest => (false, rest)
  if digits.takeWhile (isDigitIn 10) = [] then none
  else
    let magnitude : Int := readDigits 10 (digits.takeWhile (isDigitIn 10))
    some (if negative then -magnitude else magnitude, digits.dropWhile (isDigitIn 10))

/-- `sscanf(ext, "%c %u %u", …)` with its three results. -/
def scanDevice (ext : Path) : Option (UInt8 × Nat × Nat) := do
  let (ctype, rest) ← ext.head?.map (·, ext.tail)
  let (major, rest) ← scanNumber rest
  let (minor, _) ← scanNumber rest
  return (ctype, (major % 2 ^ 32).toNat, (minor % 2 ^ 32).toNat)

def refused {Value : Type} : Except Nat Value → Except Refusal Value
  | .error errno => .error (.errno errno)
  | .ok value => .ok value

/-- `!perm&Dmnamedpipe` and `!perm&Dmsymlink` are never set, so the extension is not checked for
being empty and the mode is not changed afterwards. -/
def ufsCreateSpecial (os : Os Disk) (disk : Disk) (path : Path) (perm : Nat) (extension : List UInt8) :
    Except Refusal Disk :=
  let umode := np2umode perm extension (os.dotu disk)
  let ext := cstr extension
  if perm &&& dmsymlink ≠ 0 then refused (os.symlink disk ext path)
  else if perm &&& dmlink ≠ 0 then
    -- 0 conversions are an error, and the end of the text is not
    if scanNumber ext = none ∧ ext.dropWhile isspace ≠ [] then .error .format
    else match os.fidPath disk ((scanNumber ext).map Prod.fst) with
      | none => .error .unknownFid
      | some of => refused (os.link disk of path)
  else if perm &&& dmdevice ≠ 0 then
    match scanDevice ext with
    | none => .error .format
    | some (ctype, major, minor) =>
        if ctype = 99 then refused (os.mknod disk path (0o020000 ||| (perm &&& 0o777)) (major, minor))
        else if ctype = 98 then refused (os.mknod disk path (0o060000 ||| (perm &&& 0o777)) (major, minor))
        else .error .format
  else refused (os.mknod disk path (0o010000 ||| (umode &&& 0o777)) (0, 0))

def dmextended : Nat := dmnamedpipe ||| dmsymlink ||| dmlink ||| dmdevice

/-- The call of `ufs_create` that makes the file. -/
def createCall (os : Os Disk) (disk : Disk) (npath : Path) (perm mode : Nat) (extension : List UInt8) :
    Except Refusal Disk :=
  if perm &&& Dmdir ≠ 0 then refused (os.mkdir disk npath (perm &&& 0o777))
  else if perm &&& dmextended ≠ 0 then ufsCreateSpecial os disk npath perm extension
  else refused (os.creat disk npath mode (perm &&& 0o777))

/-- What `ufs_create` does with the file that was made: a file that it cannot use goes again. -/
def ufsCreated (os : Os Disk) (world : World Disk) (f : Fsfid File) (npath : Path) (perm : Nat) :
    World Disk × Fsfid File × Except Refusal Spqid :=
  match os.lstat world.disk npath with
  | .error errno =>
      let disk := if perm &&& Dmdir ≠ 0 then os.rmdir world.disk npath else os.remove world.disk npath
      ({ world with disk }, f, .error (.errno errno))
  | .ok st =>
      let f := { f with stat := st }
      match if perm &&& Dmdir ≠ 0 then os.opendir world.disk npath else .ok () with
      | .error errno => ({ world with disk := os.remove world.disk npath }, f, .error (.errno errno))
      | .ok () => (world, { f with path := npath }, .ok (ustat2qid st f.xs.sid))

def createPath (f : Fsfid File) (name : List UInt8) : Path := cstr (f.path ++ 47 :: name)

def ufsCreate (os : Os Disk) (world : World Disk) (f : Fsfid File) (name : List UInt8) (perm mode : Nat)
    (extension : List UInt8) : World Disk × Fsfid File × Except Refusal Spqid :=
  let f := fidstat os world.disk f
  if os.lstat world.disk (createPath f name) = .error ENOENT then
    match createCall os world.disk (createPath f name) perm mode extension with
    | .error refusal => (world, f, .error refusal)
    | .ok disk => ufsCreated os (world.making f (createPath f name) disk) f (createPath f name) perm
  else (world, f, .error .exist)

def allOnes : Nat := 2 ^ 32 - 1

/-- The number of a user or group in a Twstat: its own field, or else that of the name. -/
def statId (find : Path → Option Nat) (number : Nat) (name : List UInt8) : Except Refusal Nat :=
  if number = allOnes ∧ name ≠ [] then
    match find (cstr name) with
    | none => .error .unknownUser
    | some id => .ok id
  else .ok number

/-- One call of `ufs_wstat` that is made unless the field says that nothing should change. -/
def changing (wanted : Bool) (call : Disk → Except Nat Disk) (disk : Disk) : Disk × Option Refusal :=
  if wanted then
    match call disk with
    | .error errno => (disk, some (.errno errno))
    | .ok disk => (disk, none)
  else (disk, none)

/-- `ufs_wstat` as far as the owner, the mode and the time go. -/
def ufsSetAttributes (os : Os Disk) (disk : Disk) (f : Fsfid File) (stat : Spstat) (pkt : Packet) :
    Disk × Option Refusal :=
  match statId (os.uname2user disk) (if os.dotu disk then stat.nUid else allOnes) (stat.uid.bytes pkt) with
  | .error refusal => (disk, some refusal)
  | .ok uid =>
      match statId (os.gname2group disk) (if os.dotu disk then stat.nGid else allOnes) (stat.gid.bytes pkt) with
      | .error refusal => (disk, some refusal)
      | .ok gid =>
          if stat.mode ≠ allOnes ∧ stat.mode &&& Dmdir ≠ 0 ∧ ¬ f.stat.isDir then (disk, some .dirchange)
          else
            let umode := np2umode stat.mode (stat.extension.bytes pkt) (os.dotu disk)
            match changing (stat.mode ≠ allOnes) (os.chmod · f.path umode) disk with
            | (disk, some refusal) => (disk, some refusal)
            | (disk, none) =>
                match changing (stat.mtime ≠ allOnes) (os.utime · f.path stat.mtime) disk with
                | (disk, some refusal) => (disk, some refusal)
                | (disk, none) => changing (gid ≠ allOnes) (os.chown · f.path uid gid) disk

/-- The path that `ufs_wstat` renames to. -/
def renamePath (f : Fsfid File) (name : List UInt8) : Path := cstr ((beforeLast f.path).getD f.path ++ 47 :: name)

def ufsRename (os : Os Disk) (world : World Disk) (f : Fsfid File) (name : List UInt8) :
    World Disk × Fsfid File × Option Refusal :=
  if name ≠ [] ∧ renamePath f name ≠ f.path then
    match os.rename world.disk f.path (renamePath f name) with
    | .error errno => (world, f, some (.errno errno))
    | .ok disk => (world.making f (renamePath f name) disk, { f with path := renamePath f name }, none)
  else (world, f, none)

def ufsWstat (os : Os Disk) (world : World Disk) (f : Fsfid File) (stat : Spstat) (pkt : Packet) :
    World Disk × Fsfid File × Option Refusal :=
  let f := fidstat os world.disk f
  match ufsSetAttributes os world.disk f stat pkt with
  | (disk, some refusal) => ({ world with disk }, f, some refusal)
  | (disk, none) =>
      match ufsRename os { world with disk } f (stat.name.bytes pkt) with
      | (world, f, some refusal) => (world, f, some refusal)
      | (world, f, none) =>
          let (disk, refusal) := changing (stat.length ≠ 2 ^ 64 - 1) (os.truncate · f.path stat.length) world.disk
          ({ world with disk }, f, refusal)

/-- The fid as the callbacks of the synthetic files see it. -/
def asFile (fid : Spfid User (Aux File)) : Spfid User File :=
  { fid with aux := fid.aux.bind fun
    | .file file => some file
    | .fs _ => none }

def World.calling (world : World Disk) (back : Back Disk File Value) : Back (World Disk) (Aux File) Value :=
  ⟨{ world with disk := back.tree }, back.aux.map .file, back.value, back.error⟩

/-- `if (f->file) spfile_… else ufs_…`, where the latter leaves the fid as it was. -/
def choose (world : World Disk) (fid : Spfid User (Aux File))
    (spfile : Disk → Spfid User File → Back Disk File Value)
    (ufs : Disk → Path → Disk × Option Value × Bool) : Back (World Disk) (Aux File) Value :=
  match fid.aux with
  | some (.fs f) =>
      let (disk, value, error) := ufs world.disk f.path
      ⟨{ world with disk }, fid.aux, value, error⟩
  | _ => world.calling (spfile world.disk (asFile fid))

variable (files : Spsrv Disk User File) (fsSession : File → Option (Xsession File)) (os : Os Disk)

/-- The end of `xwalk`: the file without operations is a session's `fs`, and the fid goes on in the
directory of its process. -/
def xwalkEnd (back : Back (World Disk) (Aux File) Spqid) : Back (World Disk) (Aux File) Spqid :=
  match back.aux with
  | some (.file file) =>
      match fsSession file with
      | some xs =>
          let (f, qid) := ufsAttach os back.tree.disk xs
          { back with aux := some (.fs f), value := back.value.map fun _ => qid }
      | none => back
  | _ => back

def xwalk (world : World Disk) (fid : Spfid User (Aux File)) (wname : List UInt8) :
    Back (World Disk) (Aux File) Spqid :=
  match fid.aux with
  | some (.fs f) =>
      if wname = dotdot ∧ f.path = f.xs.dirpath.path then
        xwalkEnd fsSession os
          (world.calling (files.walk world.disk { asFile fid with aux := some f.xs.fsdir } wname))
      else
        match ufsWalk os world.disk f wname with
        | (f, .error _) => ⟨world, some (.fs f), none, true⟩
        | (f, .ok qid) => ⟨world, some (.fs f), some qid, false⟩
  | _ => xwalkEnd fsSession os (world.calling (files.walk world.disk (asFile fid) wname))

def xclone (world : World Disk) (fid newfid : Spfid User (Aux File)) : Back (World Disk) (Aux File) Unit :=
  match fid.aux with
  | some (.fs f) => ⟨world, some (.fs (ufsClone os f)), some (), false⟩
  | _ => world.calling (files.clone world.disk (asFile fid) (asFile newfid))

def xcreate (world : World Disk) (fid : Spfid User (Aux File)) (tc : Spfcall) (pkt : Packet) :
    Back (World Disk) (Aux File) Rcall :=
  match fid.aux with
  | some (.fs f) =>
      match ufsCreate os world f (tc.name.bytes pkt) tc.perm tc.mode (tc.extension.bytes pkt) with
      | (world, f, .error _) => ⟨world, some (.fs f), none, true⟩
      | (world, f, .ok qid) => ⟨world, some (.fs f), some { type := .rcreate, qidType := qid.type }, false⟩
  | _ => world.calling (files.create world.disk (asFile fid) tc pkt)

def xwstat (world : World Disk) (fid : Spfid User (Aux File)) (stat : Spstat) (pkt : Packet) :
    Back (World Disk) (Aux File) Rcall :=
  match fid.aux with
  | some (.fs f) =>
      match ufsWstat os world f stat pkt with
      | (world, f, some _) => ⟨world, some (.fs f), none, true⟩
      | (world, f, none) => ⟨world, some (.fs f), some { type := .rwstat }, false⟩
  | _ => world.calling (files.wstat world.disk (asFile fid) stat pkt)

/-- The server. A fid of an authentication is one of the synthetic files here. -/
def xsrv : Spsrv (World Disk) User (Aux File) where
  msize := files.msize
  dotu := files.dotu
  finduser world := files.finduser world.disk
  auth := files.auth
  startauth world afid aname := world.calling (files.startauth world.disk (asFile afid) aname)
  checkauth world fid afid aname := world.calling (files.checkauth world.disk (asFile fid) (afid.map asFile) aname)
  authread world fid tc := choose world fid (files.authread · · tc) fun disk _ => (disk, none, true)
  authwrite world fid tc pkt := choose world fid (files.authwrite · · tc pkt) fun disk _ => (disk, none, true)
  authclunk world fid := choose world fid files.authclunk fun disk _ => (disk, none, true)
  attach world fid afid tc pkt := world.calling (files.attach world.disk (asFile fid) (afid.map asFile) tc pkt)
  flush world req :=
    let (disk, flushed) := files.flush world.disk req
    ({ world with disk }, flushed)
  clone := xclone files os
  walk := xwalk files fsSession os
  «open» world fid mode := choose world fid (files.open · · mode) (os.ufsOpen · · mode)
  create := xcreate files os
  read world fid tc req := choose world fid (files.read · · tc req) (os.ufsRead · · tc)
  write world fid tc pkt req := choose world fid (files.write · · tc pkt req) (os.ufsWrite · · tc pkt)
  clunk world fid := choose world fid files.clunk os.ufsClunk
  remove world fid := choose world fid files.remove os.ufsRemove
  stat world fid := choose world fid files.stat os.ufsStat
  wstat := xwstat files os
  fiddestroy world fid := { world with disk := match fid.aux with
    | some (.fs f) => os.ufsFiddestroy world.disk f.path
    | _ => files.fiddestroy world.disk (asFile fid) }

/-- A message on the connection, a callback that answers later, or something else that changes
the file system. -/
inductive Event (Disk : Type) where
  | conn (event : ConnEvent)
  | elsewhere (disk : Disk)

def step (conn : Spconn (World Disk) User (Aux File)) : Event Disk → Option (Spconn (World Disk) User (Aux File))
  | .conn event => conn.step (xsrv files fsSession os) event
  | .elsewhere disk => some { conn with tree := { conn.tree with disk } }

end Xcpu.Xcpufs.Ufs
