import Xcpu.Lib.Encoding
import Xcpu.Libspfs.Np

/-!
The encoding half of `np.c`: the `buf_put_*` functions over the cursor and the constructors
of all messages. libspfs and libnpfs each have a copy of the file; `Library` tells them apart
where the copies differ.
-/

namespace Xcpu.Libspfs

open Xcpu.Packet

inductive Library where
  | libspfs
  | libnpfs
  deriving DecidableEq

/-- One call of a `buf_put_*` function. `text` is the `buf_alloc` and `memmove` of
`sp_create_rerror1`, `block` those of a data block. -/
inductive Put where
  | int (width value : Nat)
  | str (s : Option (List UInt8))
  | text (bytes : List UInt8)
  | block (bytes : List UInt8)

@[simp]
def Put.bytes : Put → List UInt8
  | .int width value => littleBytes width value
  | .str s => littleBytes 2 (s.getD []).length ++ s.getD []
  | .text bytes => bytes
  | .block bytes => bytes

def bufPut (bytes : List UInt8) (buf : Cbuf) : List UInt8 × Cbuf :=
  match bufCheckSize buf bytes.length with
  | (true, buf) => (bytes, { buf with p := buf.p + bytes.length })
  | (false, buf) => ([], buf)

/-- The bytes that the calls store. None where a `memmove` leaves the packet: from a NULL
pointer, or with more bytes than the negative length that `buf_alloc` was given. -/
def runPuts : List Put → Cbuf → Option (List UInt8 × Cbuf)
  | [], buf => some ([], buf)
  | .text bytes :: puts, buf =>
      match bufAlloc buf bytes.length with
      | (none, _) => none
      | (some _, buf) => (runPuts puts buf).map fun (rest, final) => (bytes ++ rest, final)
  | .block bytes :: puts, buf =>
      match bufAlloc buf (int32 bytes.length) with
      | (none, buf) => runPuts puts buf
      | (some _, buf) =>
          if int32 bytes.length < 0 then none
          else (runPuts puts buf).map fun (rest, final) => (bytes ++ rest, final)
  | put :: puts, buf =>
      let (bytes, buf) := bufPut put.bytes buf
      (runPuts puts buf).map fun (rest, final) => (bytes ++ rest, final)

def sizeofSpfcall : Nat := 888
def notag : Nat := 2 ^ 16 - 1

/-- `sp_malloc` takes an `int`; `malloc` is assumed to find the memory. -/
def Library.allocates (size : Nat) : Library → Bool
  | .libspfs => decide (0 ≤ int32 (sizeofSpfcall + size))
  | .libnpfs => true

/-- `sp_create_common`, the calls of one constructor and `sp_post_check`: the bytes of the
packet, or none where there is no packet. -/
def createPacket (lib : Library) (id : FcallType) (size : Nat) (puts : List Put) : Option (List UInt8) :=
  let size := (size + 4 + 1 + 2) % 2 ^ 32
  if lib.allocates size then
    (runPuts (.int 4 size :: .int 1 id.number :: .int 2 notag :: puts) ⟨0, int32 size⟩).bind
      fun (written, buf) => if buf.p > buf.ep then none else some written
  else none

structure Qid where
  type : UInt8
  version : UInt32
  path : UInt64

def Qid.stored (qid : Qid) : Spqid := ⟨qid.type.toNat, qid.version.toNat, qid.path.toNat⟩

def bufPutQid (qid : Qid) : List Put :=
  [.int 1 qid.type.toNat, .int 4 qid.version.toNat, .int 8 qid.path.toNat]

structure Spwstat where
  type : UInt16
  dev : UInt32
  qid : Qid
  mode : UInt32
  atime : UInt32
  mtime : UInt32
  length : UInt64
  name : Option (List UInt8)
  uid : Option (List UInt8)
  gid : Option (List UInt8)
  muid : Option (List UInt8)
  extension : Option (List UInt8)
  nUid : UInt32
  nGid : UInt32
  nMuid : UInt32

def strlen (s : Option (List UInt8)) : Nat := (s.getD []).length

def sizeWstat (wstat : Spwstat) (dotu : Bool) : Nat :=
  2 + 4 + 13 + 4 + 4 + 4 + 8 + 8 + strlen wstat.name + strlen wstat.uid + strlen wstat.gid +
    strlen wstat.muid + if dotu then 4 + 4 + 4 + 2 + strlen wstat.extension else 0

def bufPutWstat (wstat : Spwstat) (statsz : Nat) (dotu : Bool) : List Put :=
  [.int 2 statsz, .int 2 wstat.type.toNat, .int 4 wstat.dev.toNat] ++ bufPutQid wstat.qid ++
    [.int 4 wstat.mode.toNat, .int 4 wstat.atime.toNat, .int 4 wstat.mtime.toNat,
      .int 8 wstat.length.toNat, .str wstat.name, .str wstat.uid, .str wstat.gid, .str wstat.muid] ++
    if dotu then
      [.str wstat.extension, .int 4 wstat.nUid.toNat, .int 4 wstat.nGid.toNat, .int 4 wstat.nMuid.toNat]
    else []

section Constructors

variable (lib : Library)

def createTversion (msize : UInt32) (version : List UInt8) : Option (List UInt8) :=
  createPacket lib .tversion (4 + 2 + version.length) [.int 4 msize.toNat, .str (some version)]

def createRversion (msize : UInt32) (version : List UInt8) : Option (List UInt8) :=
  createPacket lib .rversion (4 + 2 + version.length) [.int 4 msize.toNat, .str (some version)]

def createTauth (fid : UInt32) (uname aname : Option (List UInt8)) (nUname : UInt32) (dotu : Bool) :
    Option (List UInt8) :=
  let size := 4 + 2 + 2 + strlen uname + strlen aname
  let size := match lib with
    | .libspfs => if dotu then size + 4 else size
    -- `np_create_tauth` has no room for n_uname
    | .libnpfs => size
  createPacket lib .tauth size ([.int 4 fid.toNat, .str uname, .str aname] ++
    if dotu then [.int 4 nUname.toNat] else [])

def createRauth (aqid : Qid) : Option (List UInt8) := createPacket lib .rauth 13 (bufPutQid aqid)

def createRerror (ename : List UInt8) (ecode : Int32) (dotu : Bool) : Option (List UInt8) :=
  let size := 2 + ename.length
  createPacket lib .rerror (if dotu then size + 4 else size) (.str (some ename) ::
    if dotu then [.int 4 ecode.toUInt32.toNat] else [])

def createRerror1 (ename : List UInt8) (ecode : Int32) (dotu : Bool) : Option (List UInt8) :=
  createPacket lib .rerror (2 + ename.length + if dotu then 4 else 0) (.text ename ::
    if dotu then [.int 4 ecode.toUInt32.toNat] else [])

def createTflush (oldtag : UInt16) : Option (List UInt8) :=
  createPacket lib .tflush 2 [.int 2 oldtag.toNat]

def createRflush : Option (List UInt8) := createPacket lib .rflush 0 []

def createTattach (fid afid : UInt32) (uname aname : Option (List UInt8)) (nUname : UInt32) (dotu : Bool) :
    Option (List UInt8) :=
  let size := 4 + 4 + 2 + 2 + strlen uname + strlen aname
  createPacket lib .tattach (if dotu then size + 4 else size)
    ([.int 4 fid.toNat, .int 4 afid.toNat, .str uname, .str aname] ++
      if dotu then [.int 4 nUname.toNat] else [])

def createRattach (qid : Qid) : Option (List UInt8) := createPacket lib .rattach 13 (bufPutQid qid)

def createTwalk (fid newfid : UInt32) (wnames : List (List UInt8)) : Option (List UInt8) :=
  if wnames.length > maxwelem then none
  else
    createPacket lib .twalk (4 + 4 + 2 + wnames.length * 2 + (wnames.map List.length).sum)
      ([.int 4 fid.toNat, .int 4 newfid.toNat, .int 2 wnames.length] ++
        wnames.map fun wname => .str (some wname))

def createRwalk (wqids : List Qid) : Option (List UInt8) :=
  if wqids.length > maxwelem then none
  else
    createPacket lib .rwalk (2 + wqids.length * 13) (.int 2 wqids.length :: wqids.flatMap bufPutQid)

def createTopen (fid : UInt32) (mode : UInt8) : Option (List UInt8) :=
  createPacket lib .topen (4 + 1) [.int 4 fid.toNat, .int 1 mode.toNat]

def createRopen (qid : Qid) (iounit : UInt32) : Option (List UInt8) :=
  createPacket lib .ropen (13 + 4) (bufPutQid qid ++ [.int 4 iounit.toNat])

/-- `np_create_tcreate` takes no extension. -/
def createTcreate (fid : UInt32) (name : List UInt8) (perm : UInt32) (mode : UInt8)
    (extension : Option (List UInt8)) (dotu : Bool) : Option (List UInt8) :=
  let size := 4 + 2 + name.length + 4 + 1
  let puts : List Put := [.int 4 fid.toNat, .str (some name), .int 4 perm.toNat, .int 1 mode.toNat]
  match lib with
  | .libspfs =>
      createPacket lib .tcreate (if dotu then size + 2 + strlen extension else size)
        (puts ++ if dotu then [.str extension] else [])
  | .libnpfs => createPacket lib .tcreate size puts

def createRcreate (qid : Qid) (iounit : UInt32) : Option (List UInt8) :=
  createPacket lib .rcreate (13 + 4) (bufPutQid qid ++ [.int 4 iounit.toNat])

def createTread (fid : UInt32) (offset : UInt64) (count : UInt32) : Option (List UInt8) :=
  createPacket lib .tread (4 + 8 + 4) [.int 4 fid.toNat, .int 8 offset.toNat, .int 4 count.toNat]

/-- With `sp_alloc_rread`, which makes room for the block that is copied here. -/
def createRread (data : List UInt8) : Option (List UInt8) :=
  createPacket lib .rread (4 + data.length) [.int 4 data.length, .block data]

def createTwrite (fid : UInt32) (offset : UInt64) (data : List UInt8) : Option (List UInt8) :=
  createPacket lib .twrite (4 + 8 + 4 + data.length)
    [.int 4 fid.toNat, .int 8 offset.toNat, .int 4 data.length, .block data]

def createRwrite (count : UInt32) : Option (List UInt8) :=
  createPacket lib .rwrite 4 [.int 4 count.toNat]

def createTclunk (fid : UInt32) : Option (List UInt8) := createPacket lib .tclunk 4 [.int 4 fid.toNat]

def createRclunk : Option (List UInt8) := createPacket lib .rclunk 0 []

def createTremove (fid : UInt32) : Option (List UInt8) := createPacket lib .tremove 4 [.int 4 fid.toNat]

def createRremove : Option (List UInt8) := createPacket lib .rremove 0 []

def createTstat (fid : UInt32) : Option (List UInt8) := createPacket lib .tstat 4 [.int 4 fid.toNat]

def createRstat (wstat : Spwstat) (dotu : Bool) : Option (List UInt8) :=
  let statsz := sizeWstat wstat dotu
  createPacket lib .rstat (2 + 2 + statsz) (.int 2 (statsz + 2) :: bufPutWstat wstat statsz dotu)

def createTwstat (fid : UInt32) (wstat : Spwstat) (dotu : Bool) : Option (List UInt8) :=
  let statsz := sizeWstat wstat dotu
  createPacket lib .twstat (4 + 2 + 2 + statsz)
    (.int 4 fid.toNat :: .int 2 (statsz + 2) :: bufPutWstat wstat statsz dotu)

def createRwstat : Option (List UInt8) := createPacket lib .rwstat 0 []

end Constructors

/-- A constructor with its arguments. -/
inductive Message where
  | tversion (msize : UInt32) (version : List UInt8)
  | rversion (msize : UInt32) (version : List UInt8)
  | tauth (fid : UInt32) (uname aname : Option (List UInt8)) (nUname : UInt32)
  | rauth (aqid : Qid)
  | rerror (ename : List UInt8) (ecode : Int32)
  | rerror1 (ename : List UInt8) (ecode : Int32)
  | tflush (oldtag : UInt16)
  | rflush
  | tattach (fid afid : UInt32) (uname aname : Option (List UInt8)) (nUname : UInt32)
  | rattach (qid : Qid)
  | twalk (fid newfid : UInt32) (wnames : List (List UInt8))
  | rwalk (wqids : List Qid)
  | topen (fid : UInt32) (mode : UInt8)
  | ropen (qid : Qid) (iounit : UInt32)
  | tcreate (fid : UInt32) (name : List UInt8) (perm : UInt32) (mode : UInt8)
      (extension : Option (List UInt8))
  | rcreate (qid : Qid) (iounit : UInt32)
  | tread (fid : UInt32) (offset : UInt64) (count : UInt32)
  | rread (data : List UInt8)
  | twrite (fid : UInt32) (offset : UInt64) (data : List UInt8)
  | rwrite (count : UInt32)
  | tclunk (fid : UInt32)
  | rclunk
  | tremove (fid : UInt32)
  | rremove
  | tstat (fid : UInt32)
  | rstat (wstat : Spwstat)
  | twstat (fid : UInt32) (wstat : Spwstat)
  | rwstat

@[simp]
def Message.create (lib : Library) (dotu : Bool) : Message → Option (List UInt8)
  | .tversion msize version => createTversion lib msize version
  | .rversion msize version => createRversion lib msize version
  | .tauth fid uname aname nUname => createTauth lib fid uname aname nUname dotu
  | .rauth aqid => createRauth lib aqid
  | .rerror ename ecode => createRerror lib ename ecode dotu
  | .rerror1 ename ecode => createRerror1 lib ename ecode dotu
  | .tflush oldtag => createTflush lib oldtag
  | .rflush => createRflush lib
  | .tattach fid afid uname aname nUname => createTattach lib fid afid uname aname nUname dotu
  | .rattach qid => createRattach lib qid
  | .twalk fid newfid wnames => createTwalk lib fid newfid wnames
  | .rwalk wqids => createRwalk lib wqids
  | .topen fid mode => createTopen lib fid mode
  | .ropen qid iounit => createRopen lib qid iounit
  | .tcreate fid name perm mode extension => createTcreate lib fid name perm mode extension dotu
  | .rcreate qid iounit => createRcreate lib qid iounit
  | .tread fid offset count => createTread lib fid offset count
  | .rread data => createRread lib data
  | .twrite fid offset data => createTwrite lib fid offset data
  | .rwrite count => createRwrite lib count
  | .tclunk fid => createTclunk lib fid
  | .rclunk => createRclunk lib
  | .tremove fid => createTremove lib fid
  | .rremove => createRremove lib
  | .tstat fid => createTstat lib fid
  | .rstat wstat => createRstat lib wstat dotu
  | .twstat fid wstat => createTwstat lib fid wstat dotu
  | .rwstat => createRwstat lib

end Xcpu.Libspfs
