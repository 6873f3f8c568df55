import Xcpu.Lib.Packet

/-!
The decoding half of `np.c`: the `cbuf` cursor with its bounds check, the message
layouts of `sp_deserialize`, and the run of a layout over the cursor. Pointers into the
packet are offsets from its first byte, and each access is recorded beside the result.
-/

namespace Xcpu.Libspfs

open Xcpu.Packet

structure Cbuf where
  p : Int
  ep : Int
  deriving DecidableEq, Repr

/-- At the very end (`p = ep`) a failed check leaves the cursor as it is. -/
def bufCheckSize (buf : Cbuf) (len : Int) : Bool × Cbuf :=
  if buf.p + len > buf.ep then
    (false, if buf.p < buf.ep then { buf with p := buf.ep + 1 } else buf)
  else (true, buf)

def bufAlloc (buf : Cbuf) (len : Int) : Option Int × Cbuf :=
  match bufCheckSize buf len with
  | (true, buf) => (some buf.p, { buf with p := buf.p + len })
  | (false, buf) => (none, buf)

/-- `buf_get_int8` to `buf_get_int64`, by the number of bytes. -/
def bufGetInt (data : List UInt8) (width : Nat) (buf : Cbuf) : Option Nat × Cbuf :=
  match bufCheckSize buf width with
  | (true, buf) => (some (littleEndian data buf.p.toNat width), { buf with p := buf.p + width })
  | (false, buf) => (none, buf)

/-- The conversion of a `u32` to `int`. -/
@[irreducible] def int32 (value : Nat) : Int :=
  if value % 2 ^ 32 < 2 ^ 31 then (value % 2 ^ 32 : Nat) else (value % 2 ^ 32 : Nat) - 2 ^ 32

-- A scalar that was asked for, or a slice that was stored with its declared length.
structure Access where
  slice : Bool
  start : Int
  length : Nat
  got : Bool
  deriving DecidableEq, Repr

/-- A layout run over the cursor as the C code does; a failed scalar is stored as zero. -/
@[simp]
def runCbuf {Value : Type} (data : List UInt8) :
    Reader Value → Cbuf → Option Value × Cbuf × List Access
  | .done value, buf => (some value, buf, [])
  | .reject, buf => (none, buf, [])
  | .int width next, buf =>
      let (value, buf') := bufGetInt data width buf
      let (result, final, log) := runCbuf data (next (value.getD 0)) buf'
      (result, final, ⟨false, buf.p, width, value.isSome⟩ :: log)
  | .slice length next, buf =>
      let (str, buf') := bufAlloc buf length
      let (result, final, log) := runCbuf data (next (str.map Int.toNat)) buf'
      (result, final, ⟨true, buf.p, length, str.isSome⟩ :: log)
  | .atEnd next, buf => runCbuf data (next (buf.p == buf.ep)) buf
  | .counted finish, buf =>
      let (count, buf') := bufGetInt data 4 buf
      let (str, final) := bufAlloc buf' (int32 (count.getD 0))
      (some (finish (count.getD 0) (str.map Int.toNat)), final,
        [⟨false, buf.p, 4, count.isSome⟩, ⟨true, buf'.p, count.getD 0, str.isSome⟩])

structure Spstr where
  len : Nat := 0
  str : Option Nat := none
  deriving DecidableEq, Repr

structure Spqid where
  type : Nat := 0
  version : Nat := 0
  path : Nat := 0
  deriving DecidableEq, Repr

def nofid : Nat := 2 ^ 32 - 1
def nouid : Nat := 2 ^ 32 - 1
def maxwelem : Nat := 16

structure Spstat where
  size : Nat := 0
  type : Nat := 0
  dev : Nat := 0
  qid : Spqid := {}
  mode : Nat := 0
  atime : Nat := 0
  mtime : Nat := 0
  length : Nat := 0
  name : Spstr := {}
  uid : Spstr := {}
  gid : Spstr := {}
  muid : Spstr := {}
  extension : Spstr := {}
  nUid : Nat := nouid
  nGid : Nat := nouid
  nMuid : Nat := nouid
  deriving DecidableEq, Repr

inductive FcallType where
  | tversion | rversion | tauth | rauth | tattach | rattach | rerror | tflush | rflush | twalk
  | rwalk | topen | ropen | tcreate | rcreate | tread | rread | twrite | rwrite | tclunk | rclunk
  | tremove | rremove | tstat | rstat | twstat | rwstat
  deriving DecidableEq, Repr

/-- The cases of the switch in `sp_deserialize`; `Terror` (106) is not one. -/
def FcallType.ofNat? : Nat → Option FcallType
  | 100 => some .tversion
  | 101 => some .rversion
  | 102 => some .tauth
  | 103 => some .rauth
  | 104 => some .tattach
  | 105 => some .rattach
  | 107 => some .rerror
  | 108 => some .tflush
  | 109 => some .rflush
  | 110 => some .twalk
  | 111 => some .rwalk
  | 112 => some .topen
  | 113 => some .ropen
  | 114 => some .tcreate
  | 115 => some .rcreate
  | 116 => some .tread
  | 117 => some .rread
  | 118 => some .twrite
  | 119 => some .rwrite
  | 120 => some .tclunk
  | 121 => some .rclunk
  | 122 => some .tremove
  | 123 => some .rremove
  | 124 => some .tstat
  | 125 => some .rstat
  | 126 => some .twstat
  | 127 => some .rwstat
  | _ => none

def FcallType.number : FcallType → Nat
  | .tversion => 100
  | .rversion => 101
  | .tauth => 102
  | .rauth => 103
  | .tattach => 104
  | .rattach => 105
  | .rerror => 107
  | .tflush => 108
  | .rflush => 109
  | .twalk => 110
  | .rwalk => 111
  | .topen => 112
  | .ropen => 113
  | .tcreate => 114
  | .rcreate => 115
  | .tread => 116
  | .rread => 117
  | .twrite => 118
  | .rwrite => 119
  | .tclunk => 120
  | .rclunk => 121
  | .tremove => 122
  | .rremove => 123
  | .tstat => 124
  | .rstat => 125
  | .twstat => 126
  | .rwstat => 127

structure Spfcall where
  size : Nat := 0
  type : FcallType := .tversion
  tag : Nat := 0
  fid : Nat := nofid
  msize : Nat := 0
  version : Spstr := {}
  afid : Nat := nofid
  uname : Spstr := {}
  aname : Spstr := {}
  qid : Spqid := {}
  ename : Spstr := {}
  oldtag : Nat := 0
  newfid : Nat := nofid
  nwname : Nat := 0
  wnames : List Spstr := []
  nwqid : Nat := 0
  wqids : List Spqid := []
  mode : Nat := 0
  iounit : Nat := 0
  name : Spstr := {}
  perm : Nat := 0
  offset : Nat := 0
  count : Nat := 0
  data : Option Nat := none
  stat : Spstat := {}
  ecode : Nat := 0
  extension : Spstr := {}
  nUname : Nat := nouid
  deriving DecidableEq, Repr

section Layouts

variable {Value : Type}

def bufGetStr (next : Spstr → Reader Value) : Reader Value :=
  .int 2 fun len => .slice len fun str => next ⟨len, str⟩

def bufGetQid (next : Spqid → Reader Value) : Reader Value :=
  .int 1 fun type => .int 4 fun version => .int 8 fun path => next ⟨type, version, path⟩

def bufGetStrs : Nat → (List Spstr → Reader Value) → Reader Value
  | 0, next => next []
  | n + 1, next => bufGetStr fun str => bufGetStrs n fun strs => next (str :: strs)

def bufGetQids : Nat → (List Spqid → Reader Value) → Reader Value
  | 0, next => next []
  | n + 1, next => bufGetQid fun qid => bufGetQids n fun qids => next (qid :: qids)

def bufGetStat (dotu : Bool) (next : Spstat → Reader Value) : Reader Value :=
  .int 2 fun size => .int 2 fun type => .int 4 fun dev => bufGetQid fun qid =>
  .int 4 fun mode => .int 4 fun atime => .int 4 fun mtime => .int 8 fun length =>
  bufGetStr fun name => bufGetStr fun uid => bufGetStr fun gid => bufGetStr fun muid =>
  let stat : Spstat := { size, type, dev, qid, mode, atime, mtime, length, name, uid, gid, muid }
  if dotu then
    bufGetStr fun extension => .int 4 fun nUid => .int 4 fun nGid => .int 4 fun nMuid =>
    next { stat with extension, nUid, nGid, nMuid }
  else next stat

/-- `n_uname` is read only if something is left. -/
def bufGetUname (dotu : Bool) (next : Nat → Reader Value) : Reader Value :=
  if dotu then
    .atEnd fun ended => if ended then next nouid else .int 4 fun nUname => next nUname
  else next nouid

end Layouts

/-- The switch of `sp_deserialize`. -/
def fcallBody (dotu : Bool) (fc : Spfcall) : Reader Spfcall :=
  match fc.type with
  | .tversion | .rversion =>
      .int 4 fun msize => bufGetStr fun version => .done { fc with msize, version }
  | .tauth =>
      .int 4 fun afid => bufGetStr fun uname => bufGetStr fun aname =>
      bufGetUname dotu fun nUname => .done { fc with afid, uname, aname, nUname }
  | .rauth | .rattach => bufGetQid fun qid => .done { fc with qid }
  | .tflush => .int 2 fun oldtag => .done { fc with oldtag }
  | .tattach =>
      .int 4 fun fid => .int 4 fun afid => bufGetStr fun uname => bufGetStr fun aname =>
      bufGetUname dotu fun nUname => .done { fc with fid, afid, uname, aname, nUname }
  | .rerror =>
      bufGetStr fun ename =>
      if dotu then .int 4 fun ecode => .done { fc with ename, ecode }
      else .done { fc with ename, ecode := 0 }
  | .twalk =>
      .int 4 fun fid => .int 4 fun newfid => .int 2 fun nwname =>
      if nwname > maxwelem then .reject
      else bufGetStrs nwname fun wnames => .done { fc with fid, newfid, nwname, wnames }
  | .rwalk =>
      .int 2 fun nwqid =>
      if nwqid > maxwelem then .reject
      else bufGetQids nwqid fun wqids => .done { fc with nwqid, wqids }
  | .topen => .int 4 fun fid => .int 1 fun mode => .done { fc with fid, mode }
  | .ropen | .rcreate =>
      bufGetQid fun qid => .int 4 fun iounit => .done { fc with qid, iounit }
  | .tcreate =>
      .int 4 fun fid => bufGetStr fun name => .int 4 fun perm => .int 1 fun mode =>
      if dotu then bufGetStr fun extension => .done { fc with fid, name, perm, mode, extension }
      else .done { fc with fid, name, perm, mode }
  | .tread =>
      .int 4 fun fid => .int 8 fun offset => .int 4 fun count => .done { fc with fid, offset, count }
  | .rread => .counted fun count data => { fc with count, data }
  | .twrite =>
      .int 4 fun fid => .int 8 fun offset =>
      .counted fun count data => { fc with fid, offset, count, data }
  | .rwrite => .int 4 fun count => .done { fc with count }
  | .tclunk | .tremove | .tstat => .int 4 fun fid => .done { fc with fid }
  | .rflush | .rclunk | .rremove | .rwstat => .done fc
  | .rstat => .int 2 fun _ => bufGetStat dotu fun stat => .done { fc with stat }
  | .twstat =>
      .int 4 fun fid => .int 2 fun _ => bufGetStat dotu fun stat => .done { fc with fid, stat }

def fcallLayout (dotu : Bool) (size : Nat) : Reader Spfcall :=
  .int 1 fun typeByte => .int 2 fun tag =>
  match FcallType.ofNat? typeByte with
  | none => .reject
  | some type => fcallBody dotu { size, type, tag }

def sizeField (data : List UInt8) : Nat := littleEndian data 0 4

-- `buf_init(bufp, data + 4, fc->size - 4)`
def fcallBuf (size : Nat) : Cbuf := ⟨4, 4 + int32 (size + 2 ^ 32 - 4)⟩

def fcallRun (data : List UInt8) (dotu : Bool) : Option Spfcall × Cbuf × List Access :=
  runCbuf data (fcallLayout dotu (sizeField data)) (fcallBuf (sizeField data))

def overrun {Value : Type} (run : Option Value × Cbuf × List Access) : Option Value :=
  if run.2.1.p > run.2.1.ep then none else run.1

def accesses {Value : Type} (run : Option Value × Cbuf × List Access) : List Access := run.2.2

/-- The accepted message, or `none` where the function returns 0. -/
def spDeserialize (data : List UInt8) (dotu : Bool) : Option Spfcall :=
  overrun (fcallRun data dotu)

/-- Every access to the packet that the call makes after the size field. -/
def packetAccesses (data : List UInt8) (dotu : Bool) : List Access :=
  accesses (fcallRun data dotu)

end Xcpu.Libspfs
