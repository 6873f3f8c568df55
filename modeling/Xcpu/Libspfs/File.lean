import Xcpu.Libspfs.Fcall

/-!
The synthetic file tree (`file.c`): files that directories list and fids stand at, each with a
count of its references. A file that was destroyed stays in `files`, and `fault` records that
one was used.
-/

namespace Xcpu.Libspfs.File

open Xcpu.Keyed

/-- A file; one that no directory lists has no parent, and the root is its own. -/
structure Spfile (User Group : Type) where
  ref : Nat
  name : List UInt8
  parent : Option Nat
  mode : Nat
  uid : Option User
  gid : Option Group
  excl : Bool := false
  refcount : Int := 0
  live : Bool := true

/-- The aux of a fid; no `omode` is the ~0 of a fid that is not open. `granted` are the
permissions that its user had on the file when it was opened or created. -/
structure Spfilefid where
  file : Nat
  omode : Option Nat := none
  dirent : Option Nat := none
  granted : Nat := 0

/-- An operation of a file that was invoked for a fid. -/
structure Invocation where
  fid : Nat
  file : Nat
  write : Bool
  granted : Nat
  deriving DecidableEq

/-- What an operation of a file leaves: the state of the server, its result unless that is NULL,
0 or negative, and whether it set an error. -/
structure Called (State Value : Type) where
  state : State
  value : Option Value
  error : Bool

/-- What a `wstat` may change of a file. -/
structure Attributes (User Group : Type) where
  name : List UInt8
  mode : Nat
  uid : Option User
  gid : Option Group

/-- The operations that the files of a server have; `lists` is for `first` and `next`, and
`wstat` has no stat where `Otrunc` asks for the length 0 alone. -/
structure Fileops (State User Group : Type) where
  ismember : User → Option Group → Bool
  lists : Spfile User Group → Bool
  statsize : Spfile User Group → Nat
  create : Spfile User Group → Option (State → List UInt8 → Nat → Called State Nat)
  remove : Spfile User Group → Option (State → Spfile User Group → Called State Unit)
  wstat : Spfile User Group → Option (State → Option Spstat → Called State (Attributes User Group))
  read : Spfile User Group → Option (State → Spfilefid → Nat → Nat → Called State Nat)
  write : Spfile User Group → Option (State → Spfilefid → Nat → Nat → Called State Nat)
  openfid : Spfile User Group → Option (State → Spfilefid → Called State Unit)
  closefid : Spfile User Group → Option (State → Spfilefid → State)

structure Files (State User Group : Type) where
  files : List (Spfile User Group)
  root : Nat
  next : Nat
  state : State
  invoked : List Invocation := []
  fault : Bool := false

section Tree

variable {State User Group : Type}

def Spfile.isDir (file : Spfile User Group) : Bool := decide (file.mode &&& Dmdir ≠ 0)

/-- The type of a file's qid. -/
def Spfile.qidType (file : Spfile User Group) : Nat := file.mode >>> 24

def Files.file (tree : Files State User Group) (ref : Nat) : Option (Spfile User Group) :=
  tree.files.find? (·.ref == ref)

def Files.set (tree : Files State User Group) (ref : Nat) (change : Spfile User Group → Spfile User Group) :
    Files State User Group :=
  { tree with files := update Spfile.ref tree.files ref change }

def Files.faulted (tree : Files State User Group) : Files State User Group := { tree with fault := true }

/-- The files from `dirfirst` on. -/
def Files.children (tree : Files State User Group) (dir : Nat) : List Nat :=
  (tree.files.filter fun file => file.parent = some dir ∧ file.ref ≠ dir).map Spfile.ref

def spfileIncref (tree : Files State User Group) (ref : Nat) : Files State User Group :=
  match tree.file ref with
  | none => tree.faulted
  | some file =>
      if file.live then tree.set ref fun file => { file with refcount := file.refcount + 1 }
      else tree.faulted

def spfileDecref (tree : Files State User Group) (ref : Nat) : Files State User Group :=
  match tree.file ref with
  | none => tree.faulted
  | some file =>
      if file.live then tree.set ref fun file =>
        { file with refcount := file.refcount - 1, live := decide (file.refcount - 1 ≠ 0) }
      else tree.faulted

/-- The same for a pointer that may be NULL. -/
def spfileIncref? (tree : Files State User Group) : Option Nat → Files State User Group
  | none => tree
  | some ref => spfileIncref tree ref

def spfileDecref? (tree : Files State User Group) : Option Nat → Files State User Group
  | none => tree
  | some ref => spfileDecref tree ref

/-- The loop of `spfile_find`, over the files that the directory lists. -/
def findFrom (tree : Files State User Group) (name : List UInt8) : List Nat → Option Nat × Files State User Group
  | [] => (none, tree)
  | child :: rest =>
      let tree := spfileIncref tree child
      if (tree.file child).map (·.name) = some name then (some child, tree)
      else findFrom (spfileDecref tree child) name rest

def dotdot : List UInt8 := [46, 46]

variable (ops : Fileops State User Group)

/-- `spfile_find`, and whether it sets an error. The operations of a file that is no directory are
not those that it takes them for. -/
def spfileFind (tree : Files State User Group) (dir : Spfile User Group) (name : List UInt8) :
    Option Nat × Files State User Group × Bool :=
  if name = dotdot then (dir.parent, tree, false)
  else if !dir.isDir then (none, tree.faulted, true)
  else if ops.lists dir then
    let (found, tree) := findFrom tree name (tree.children dir.ref)
    (found, tree, false)
  else (none, tree, true)

variable [DecidableEq User]

def checkPerm (fperm : Nat) (fuid : Option User) (fgid : Option Group) (user : Option User) (perm : Nat) : Bool :=
  match user with
  | none => false
  | some user =>
      if perm &&& 7 = 0 then true
      else if fperm &&& 7 &&& (perm &&& 7) ≠ 0 then true
      else if fuid = some user ∧ (fperm >>> 6) &&& 7 &&& (perm &&& 7) ≠ 0 then true
      else (fperm >>> 3) &&& 7 &&& (perm &&& 7) ≠ 0 && ops.ismember user fgid

def spfileCheckperm (file : Spfile User Group) (user : Option User) (perm : Nat) : Bool :=
  checkPerm ops file.mode file.uid file.gid user perm

def mode2perm (mode : Nat) : Nat :=
  (if mode &&& 3 = Oread then 4 else if mode &&& 3 = Owrite then 2 else if mode &&& 3 = Ordwr then 6 else 1) |||
    if mode &&& Otrunc ≠ 0 then 2 else 0

/-- The permissions that a user has, one by one. -/
def granted (file : Spfile User Group) (user : Option User) : Nat :=
  (if spfileCheckperm ops file user 4 then 4 else 0) ||| (if spfileCheckperm ops file user 2 then 2 else 0) |||
    if spfileCheckperm ops file user 1 then 1 else 0

/-- A reply, or NULL with an error set. -/
def refused {Value : Type} (tree : Files State User Group) (aux : Option Spfilefid) :
    Back (Files State User Group) Spfilefid Value :=
  ⟨tree, aux, none, true⟩

/-- The callbacks of a fid start from its aux and the file there. -/
def withFile {Value : Type} (tree : Files State User Group) (aux : Option Spfilefid)
    (body : Spfilefid → Spfile User Group → Back (Files State User Group) Spfilefid Value) :
    Back (Files State User Group) Spfilefid Value :=
  match aux with
  | none => refused tree.faulted none
  | some f =>
      match tree.file f.file with
      | none => refused tree.faulted (some f)
      | some file => if file.live then body f file else refused tree.faulted (some f)

def spfileFidalloc (tree : Files State User Group) (file : Nat) : Files State User Group × Spfilefid :=
  (spfileIncref tree file, { file })

def spfileAttach (tree : Files State User Group) (user : Option User) :
    Back (Files State User Group) Spfilefid Rcall :=
  match tree.file tree.root with
  | none => refused tree.faulted none
  | some root =>
      if spfileCheckperm ops root user 4 then
        let (tree, f) := spfileFidalloc tree tree.root
        ⟨tree, some f, some { type := .rattach, qidType := root.qidType }, false⟩
      else refused tree none

def spfileClone (tree : Files State User Group) (aux : Option Spfilefid) : Back (Files State User Group) Spfilefid Unit :=
  withFile tree aux fun f _ =>
    let (tree, f) := spfileFidalloc tree f.file
    ⟨tree, some f, some (), false⟩

def spfileWalk (tree : Files State User Group) (user : Option User) (aux : Option Spfilefid) (name : List UInt8) :
    Back (Files State User Group) Spfilefid Spqid :=
  withFile tree aux fun f dir =>
    if spfileCheckperm ops dir user 1 then
      match spfileFind ops tree dir name with
      | (none, tree, _) => refused tree (some f)
      | (some nfile, tree, error) =>
          let tree := spfileDecref tree dir.ref
          let type := ((tree.file nfile).map (·.qidType)).getD 0
          ⟨tree, some { f with file := nfile }, some { type }, error⟩
    else refused tree (some f)

/-- The state that an operation leaves. -/
def Files.called {Value : Type} (tree : Files State User Group) (back : Called State Value) : Files State User Group :=
  { tree with state := back.state }

/-- The truncation that `Otrunc` asks for: the file's `wstat` and its result. -/
def truncate (tree : Files State User Group) (file : Spfile User Group) :
    Files State User Group × Bool × Bool :=
  match ops.wstat file with
  | none => (tree, false, true)
  | some wstat =>
      let back := wstat tree.state none
      let tree := tree.called back
      match back.value with
      | none => (tree, false, back.error)
      | some new => (tree.set file.ref fun file =>
          { file with name := new.name, mode := new.mode, uid := new.uid, gid := new.gid }, true, back.error)

/-- `openfid`, where the file has it, and its result. -/
def openFile (tree : Files State User Group) (file : Spfile User Group) (f : Spfilefid) :
    Files State User Group × Bool × Bool :=
  match ops.openfid file with
  | none => (tree, true, false)
  | some openfid =>
      let back := openfid tree.state f
      (tree.called back, back.value.isSome, back.error)

def spfileOpen (tree : Files State User Group) (user : Option User) (aux : Option Spfilefid) (mode : Nat) :
    Back (Files State User Group) Spfilefid Rcall :=
  withFile tree aux fun f file =>
    let f := { f with granted := granted ops file user }
    if !spfileCheckperm ops file user (mode2perm mode) then refused tree (some f)
    else if mode &&& Oexcl ≠ 0 ∧ file.excl then refused tree (some f)
    else
      let tree := if mode &&& Oexcl ≠ 0 then tree.set file.ref fun file => { file with excl := true } else tree
      let f := { f with omode := some mode }
      let reply : Rcall := { type := .ropen, qidType := file.qidType }
      if file.isDir then ⟨tree, some { f with dirent := none }, some reply, false⟩
      else
        let (tree, truncated, error) := if mode &&& Otrunc ≠ 0 then truncate ops tree file else (tree, true, false)
        if truncated then
          let (tree, opened, more) := openFile ops tree file f
          ⟨tree, some f, if opened then some reply else none, error || more⟩
        else ⟨tree, some f, none, error⟩

/-- The permissions of a new file, after those of its directory. -/
def createPerm (dir : Spfile User Group) (perm : Nat) : Nat :=
  let perm := if perm &&& 0x02000000 ≠ 0 then perm ||| 0o777 else perm
  if perm &&& Dmdir ≠ 0 then perm &&& ((0xFFFFFFFF - 0o777) ||| (dir.mode &&& 0o777))
  else perm &&& ((0xFFFFFFFF - 0o666) ||| (dir.mode &&& 0o666))

/-- The file that a directory's `create` makes: it has one reference for the directory's list and
one that is returned, and holds its directory. -/
def Files.add (tree : Files State User Group) (dir : Nat) (file : Spfile User Group) : Files State User Group :=
  let tree := spfileIncref tree dir
  { tree with files := tree.files ++ [file], next := tree.next + 1 }

def spfileCreate (tree : Files State User Group) (user : Option User) (aux : Option Spfilefid) (name : List UInt8)
    (perm mode : Nat) : Back (Files State User Group) Spfilefid Rcall :=
  withFile tree aux fun f dir =>
    match spfileFind ops tree dir name with
    | (_, tree, true) => refused tree (some f)
    | (some _, tree, false) => refused tree (some f)
    | (none, tree, false) =>
        if name = [46] ∨ name = dotdot then refused tree (some f)
        else if !spfileCheckperm ops dir user 2 then refused tree (some f)
        else if !checkPerm ops (createPerm dir perm) user dir.gid user (mode2perm mode) then refused tree (some f)
        else
          match ops.create dir with
          | none => refused tree (some f)
          | some create =>
              let back := create tree.state name (createPerm dir perm)
              let tree := tree.called back
              match back.value with
              | none => ⟨tree, some f, none, back.error⟩
              | some fmode =>
                  let file : Spfile User Group := {
                    ref := tree.next, name, parent := some dir.ref, mode := fmode, uid := user, gid := dir.gid
                    excl := decide (mode &&& Oexcl ≠ 0), refcount := 2 }
                  let tree := tree.add dir.ref file
                  let f := { f with file := file.ref, omode := some mode, granted := granted ops file user }
                  let reply : Rcall := { type := .rcreate, qidType := file.qidType }
                  if file.isDir then ⟨tree, some { f with dirent := none }, some reply, back.error⟩
                  else
                    let (tree, _, error) := openFile ops tree file f
                    ⟨tree, some f, some reply, back.error || error⟩

/-- The files that follow one in its directory's list. -/
def Files.successors (tree : Files State User Group) (dir file : Nat) : List Nat :=
  if file ∈ tree.children dir then ((tree.children dir).dropWhile (· ≠ file)).drop 1 else []

/-- The loop of `spfile_read` over the files from `f->dirent` on, with `n` bytes stored. -/
def readEntries (tree : Files State User Group) (count : Nat) : Nat → List Nat → Files State User Group × Option Nat × Nat
  | n, [] => (tree, none, n)
  | n, cf :: later =>
      match tree.file cf with
      | none => (tree.faulted, none, n)
      | some file =>
          if n + ops.statsize file < count then
            let tree := spfileIncref? tree later.head?
            readEntries (spfileDecref tree cf) count (n + ops.statsize file) later
          else (tree, some cf, n)

/-- The children that a read of a directory goes through, and the tree with a reference for the
first of them. -/
def readStart (tree : Files State User Group) (f : Spfilefid) (dir offset : Nat) : Files State User Group × List Nat :=
  if offset = 0 then
    let tree := spfileDecref? tree f.dirent
    (spfileIncref? tree (tree.children dir).head?, tree.children dir)
  else
    match f.dirent with
    | none => (tree, [])
    | some cf => (tree, cf :: tree.successors dir cf)

def spfileRead (tree : Files State User Group) (fid : Nat) (aux : Option Spfilefid) (offset count : Nat) :
    Back (Files State User Group) Spfilefid Rcall :=
  withFile tree aux fun f file =>
    if file.isDir then
      if !ops.lists file then ⟨tree, some f, some { type := .rread, count }, true⟩
      else
        let (tree, entries) := readStart tree f file.ref offset
        let (tree, dirent, n) := readEntries ops tree count 0 entries
        let tree := { tree with invoked := tree.invoked ++ [⟨fid, file.ref, false, f.granted⟩] }
        ⟨tree, some { f with dirent }, some { type := .rread, count := n }, false⟩
    else
      match ops.read file with
      | none => ⟨tree, some f, some { type := .rread, count }, true⟩
      | some read =>
          let back := read tree.state f offset count
          let tree := { tree.called back with invoked := tree.invoked ++ [⟨fid, file.ref, false, f.granted⟩] }
          ⟨tree, some f, back.value.map fun n => { type := .rread, count := n }, back.error⟩

def spfileWrite (tree : Files State User Group) (fid : Nat) (aux : Option Spfilefid) (offset count : Nat) :
    Back (Files State User Group) Spfilefid Rcall :=
  withFile tree aux fun f file =>
    if file.isDir then refused tree.faulted (some f)
    else
      match ops.write file with
      | none => refused tree (some f)
      | some write =>
          let back := write tree.state f offset count
          let tree := { tree.called back with invoked := tree.invoked ++ [⟨fid, file.ref, true, f.granted⟩] }
          ⟨tree, some f, back.value.map fun n => { type := .rwrite, count := n }, back.error⟩

/-- `spfile_remove`; the root is in no directory's list, so no `remove` takes it out of one. -/
def spfileRemove (tree : Files State User Group) (user : Option User) (aux : Option Spfilefid) :
    Back (Files State User Group) Spfilefid Rcall :=
  withFile tree aux fun f file =>
    if file.isDir ∧ (!ops.lists file ∨ tree.children file.ref ≠ []) then refused tree (some f)
    else
      match file.parent.bind tree.file with
      | none => refused tree.faulted (some f)
      | some parent =>
          if !spfileCheckperm ops parent user 2 then refused tree (some f)
          else
            match ops.remove parent with
            | none => refused tree (some f)
            | some remove =>
                let back := remove tree.state file
                let tree := tree.called back
                match back.value with
                | none => ⟨tree, some f, none, back.error⟩
                | some () =>
                    if file.ref = tree.root then ⟨tree, some f, none, true⟩
                    else
                      let tree := tree.set file.ref fun file => { file with parent := none }
                      let tree := spfileDecref (spfileDecref tree file.ref) parent.ref
                      ⟨tree, some f, some { type := .rremove }, back.error⟩

def spfileStat (tree : Files State User Group) (aux : Option Spfilefid) : Back (Files State User Group) Spfilefid Rcall :=
  withFile tree aux fun f _ => ⟨tree, some f, some { type := .rstat }, false⟩

def spfileWstat (tree : Files State User Group) (user : Option User) (aux : Option Spfilefid) (stat : Spstat) :
    Back (Files State User Group) Spfilefid Rcall :=
  withFile tree aux fun f file =>
    let parent := file.parent.bind tree.file
    if stat.name.len ≠ 0 ∧ parent.isNone then refused tree.faulted (some f)
    else if stat.name.len ≠ 0 ∧ !(parent.map (spfileCheckperm ops · user 2)).getD false then refused tree (some f)
    else if stat.length ≠ 2 ^ 64 - 1 ∧ !spfileCheckperm ops file user 2 then refused tree (some f)
    else if stat.mode ≠ 2 ^ 32 - 1 ∧ file.uid ≠ user then refused tree (some f)
    else if stat.mtime ≠ 2 ^ 32 - 1 ∧ !spfileCheckperm ops file user 2 then refused tree (some f)
    else
      match ops.wstat file with
      | none => refused tree (some f)
      | some wstat =>
          let back := wstat tree.state (some stat)
          let tree := tree.called back
          match back.value with
          | none => ⟨tree, some f, none, back.error⟩
          | some new => ⟨tree.set file.ref fun file =>
              { file with name := new.name, mode := new.mode, uid := new.uid, gid := new.gid }, some f,
              some { type := .rwstat }, back.error⟩

def spfileFiddestroy (tree : Files State User Group) (aux : Option Spfilefid) : Files State User Group :=
  match aux with
  | none => tree
  | some f =>
      match tree.file f.file with
      | none => tree.faulted
      | some file =>
          let tree :=
            if f.omode = none then tree
            else
              let tree := match if file.isDir then none else ops.closefid file with
                | none => tree
                | some closefid => { tree with state := closefid tree.state f }
              spfileDecref? tree f.dirent
          spfileDecref tree file.ref

/-- A server of a tree, with what it has of its own: its users and how it gives requests up. It
asks for no authentication. -/
def spfileInitSrv (msize : Nat) (finduser : State → Spfcall → Packet → Option User)
    (flush : State → Spreq → State × Bool) : Spsrv (Files State User Group) User Spfilefid where
  msize := msize
  dotu := true
  finduser tree := finduser tree.state
  auth := false
  startauth tree f _ := ⟨tree, f.aux, none, true⟩
  checkauth tree f _ _ := ⟨tree, f.aux, none, true⟩
  authread tree f _ := ⟨tree, f.aux, none, true⟩
  authwrite tree f _ _ := ⟨tree, f.aux, none, true⟩
  authclunk tree f := ⟨tree, f.aux, none, true⟩
  attach tree f _ _ _ := spfileAttach ops tree f.user
  flush tree req := ({ tree with state := (flush tree.state req).1 }, (flush tree.state req).2)
  clone tree f _ := spfileClone tree f.aux
  walk tree f name := spfileWalk ops tree f.user f.aux name
  «open» tree f mode := spfileOpen ops tree f.user f.aux mode
  create tree f tc pkt := spfileCreate ops tree f.user f.aux (tc.name.bytes pkt) tc.perm tc.mode
  read tree f tc _ := spfileRead ops tree f.fid f.aux tc.offset tc.count
  write tree f tc _ _ := spfileWrite ops tree f.fid f.aux tc.offset tc.count
  clunk tree f := ⟨tree, f.aux, some { type := .rclunk }, false⟩
  remove tree f := spfileRemove ops tree f.user f.aux
  stat tree f := spfileStat tree f.aux
  wstat tree f stat _ := spfileWstat ops tree f.user f.aux stat
  fiddestroy tree f := spfileFiddestroy ops tree f.aux

end Tree

end Xcpu.Libspfs.File
