import Xcpu.Libspfs.NpCreate
import Xcpu.Libspfs.NpDecode

/-!
What `sp_deserialize` finds in the packets of the constructors. A constructor whose declared
size is the size of what it puts makes a packet, and each layout of the switch reads it back.
-/

namespace Xcpu.Libspfs

open Xcpu.Packet

/-- The decoded string is `s`, which lies in the packet. -/
def Spstr.Holds (str : Spstr) (pkt : List UInt8) (s : List UInt8) : Prop :=
  str.len = s.length ∧ ∃ start, str.str = some start ∧ (pkt.drop start).take s.length = s

structure Spstat.Holds (stat : Spstat) (pkt : List UInt8) (wstat : Spwstat) (dotu : Bool) : Prop where
  size : stat.size = sizeWstat wstat dotu
  type : stat.type = wstat.type.toNat
  dev : stat.dev = wstat.dev.toNat
  qid : stat.qid = wstat.qid.stored
  mode : stat.mode = wstat.mode.toNat
  atime : stat.atime = wstat.atime.toNat
  mtime : stat.mtime = wstat.mtime.toNat
  length : stat.length = wstat.length.toNat
  name : stat.name.Holds pkt (wstat.name.getD [])
  uid : stat.uid.Holds pkt (wstat.uid.getD [])
  gid : stat.gid.Holds pkt (wstat.gid.getD [])
  muid : stat.muid.Holds pkt (wstat.muid.getD [])
  extended : dotu = true → stat.extension.Holds pkt (wstat.extension.getD []) ∧
    stat.nUid = wstat.nUid.toNat ∧ stat.nGid = wstat.nGid.toNat ∧ stat.nMuid = wstat.nMuid.toNat

@[simp]
def Message.type : Message → FcallType
  | .tversion .. => .tversion
  | .rversion .. => .rversion
  | .tauth .. => .tauth
  | .rauth .. => .rauth
  | .rerror .. => .rerror
  | .rerror1 .. => .rerror
  | .tflush .. => .tflush
  | .rflush => .rflush
  | .tattach .. => .tattach
  | .rattach .. => .rattach
  | .twalk .. => .twalk
  | .rwalk .. => .rwalk
  | .topen .. => .topen
  | .ropen .. => .ropen
  | .tcreate .. => .tcreate
  | .rcreate .. => .rcreate
  | .tread .. => .tread
  | .rread .. => .rread
  | .twrite .. => .twrite
  | .rwrite .. => .rwrite
  | .tclunk .. => .tclunk
  | .rclunk => .rclunk
  | .tremove .. => .tremove
  | .rremove => .rremove
  | .tstat .. => .tstat
  | .rstat .. => .rstat
  | .twstat .. => .twstat
  | .rwstat => .rwstat

/-- The decoded message has every field of the message, those of 9P2000.u only under `dotu`. -/
def Message.Fields (dotu : Bool) (pkt : List UInt8) (fc : Spfcall) : Message → Prop
  | .tversion msize version | .rversion msize version =>
      fc.msize = msize.toNat ∧ fc.version.Holds pkt version
  | .tauth fid uname aname nUname =>
      fc.afid = fid.toNat ∧ fc.uname.Holds pkt (uname.getD []) ∧ fc.aname.Holds pkt (aname.getD []) ∧
        (dotu = true → fc.nUname = nUname.toNat)
  | .rauth qid | .rattach qid => fc.qid = qid.stored
  | .rerror ename ecode | .rerror1 ename ecode =>
      fc.ename.Holds pkt ename ∧ (dotu = true → fc.ecode = ecode.toUInt32.toNat)
  | .tflush oldtag => fc.oldtag = oldtag.toNat
  | .rflush | .rclunk | .rremove | .rwstat => True
  | .tattach fid afid uname aname nUname =>
      fc.fid = fid.toNat ∧ fc.afid = afid.toNat ∧ fc.uname.Holds pkt (uname.getD []) ∧
        fc.aname.Holds pkt (aname.getD []) ∧ (dotu = true → fc.nUname = nUname.toNat)
  | .twalk fid newfid wnames =>
      fc.fid = fid.toNat ∧ fc.newfid = newfid.toNat ∧ fc.nwname = wnames.length ∧
        List.Forall₂ (fun str wname => Spstr.Holds str pkt wname) fc.wnames wnames
  | .rwalk wqids => fc.nwqid = wqids.length ∧ fc.wqids = wqids.map Qid.stored
  | .topen fid mode => fc.fid = fid.toNat ∧ fc.mode = mode.toNat
  | .ropen qid iounit | .rcreate qid iounit => fc.qid = qid.stored ∧ fc.iounit = iounit.toNat
  | .tcreate fid name perm mode extension =>
      fc.fid = fid.toNat ∧ fc.name.Holds pkt name ∧ fc.perm = perm.toNat ∧ fc.mode = mode.toNat ∧
        (dotu = true → fc.extension.Holds pkt (extension.getD []))
  | .tread fid offset count =>
      fc.fid = fid.toNat ∧ fc.offset = offset.toNat ∧ fc.count = count.toNat
  | .rread data => fc.count = data.length ∧ Spstr.Holds ⟨fc.count, fc.data⟩ pkt data
  | .twrite fid offset data =>
      fc.fid = fid.toNat ∧ fc.offset = offset.toNat ∧ fc.count = data.length ∧
        Spstr.Holds ⟨fc.count, fc.data⟩ pkt data
  | .rwrite count => fc.count = count.toNat
  | .tclunk fid | .tremove fid | .tstat fid => fc.fid = fid.toNat
  | .rstat wstat => fc.stat.Holds pkt wstat dotu
  | .twstat fid wstat => fc.fid = fid.toNat ∧ fc.stat.Holds pkt wstat dotu

/-- Strings and encoded stats shorter than 65536 bytes, at most `MAXWELEM` names or qids, and a
data block whose length is a `u32`. -/
def Message.Encodable (dotu : Bool) : Message → Prop
  | .tversion _ version | .rversion _ version => version.length < 65536
  | .tauth _ uname aname _ => strlen uname < 65536 ∧ strlen aname < 65536
  | .rerror ename _ | .rerror1 ename _ => ename.length < 65536
  | .tattach _ _ uname aname _ => strlen uname < 65536 ∧ strlen aname < 65536
  | .twalk _ _ wnames => wnames.length ≤ maxwelem ∧ ∀ wname ∈ wnames, wname.length < 65536
  | .rwalk wqids => wqids.length ≤ maxwelem
  | .tcreate _ name _ _ extension => name.length < 65536 ∧ strlen extension < 65536
  | .rread data | .twrite _ _ data => data.length < 2 ^ 32
  | .rstat wstat | .twstat _ wstat => sizeWstat wstat dotu + 2 < 65536
  | _ => True

section Puts

variable {puts : List Put} {buf : Cbuf}

theorem bufPut_fits {bytes : List UInt8} (fits : buf.p + bytes.length ≤ buf.ep) :
    bufPut bytes buf = (bytes, { buf with p := buf.p + bytes.length }) := by
  rw [bufPut, bufCheckSize, if_neg (by omega)]

theorem bufPut_past {bytes : List UInt8} (past : buf.ep < buf.p) : bufPut bytes buf = ([], buf) := by
  rw [bufPut, bufCheckSize, if_pos (by omega), if_neg (by omega)]

theorem runPuts_fits (fits : buf.p + (puts.flatMap Put.bytes).length ≤ buf.ep)
    (small : (puts.flatMap Put.bytes).length < 2 ^ 31) :
    runPuts puts buf =
      some (puts.flatMap Put.bytes, { buf with p := buf.p + (puts.flatMap Put.bytes).length }) := by
  induction puts generalizing buf with
  | nil => simp [runPuts]
  | cons put puts ih =>
      rw [List.flatMap_cons, List.length_append] at fits small
      have moved : ({ buf with p := buf.p + put.bytes.length } : Cbuf).p = buf.p + put.bytes.length := rfl
      have later : runPuts puts { buf with p := buf.p + put.bytes.length } = _ :=
        ih (by dsimp only; omega) (by omega)
      have total : buf.p + put.bytes.length + ((puts.flatMap Put.bytes).length : Int) =
          buf.p + ((put :: puts).flatMap Put.bytes).length := by
        rw [List.flatMap_cons, List.length_append]
        omega
      rw [total] at later
      have stored : bufPut put.bytes buf = (put.bytes, { buf with p := buf.p + put.bytes.length }) :=
        bufPut_fits (by omega)
      have alloc : bufAlloc buf put.bytes.length =
          (some buf.p, { buf with p := buf.p + put.bytes.length }) := bufAlloc_fits (by omega)
      rw [List.flatMap_cons]
      cases put with
      | int width value =>
          simp only [runPuts, stored, later]
          rfl
      | str s =>
          simp only [runPuts, stored, later]
          rfl
      | text bytes =>
          simp only [Put.bytes] at alloc later
          simp only [runPuts, alloc, later]
          rfl
      | block bytes =>
          simp only [Put.bytes] at small alloc later
          have count : int32 bytes.length = bytes.length := int32_small (by omega)
          simp only [runPuts, count, alloc]
          rw [if_neg (by omega), later]
          rfl

def header (id : FcallType) (size : Nat) : List UInt8 :=
  littleBytes 4 size ++ (littleBytes 1 id.number ++ littleBytes 2 notag)

/-- What the block of a packet takes: libspfs allocates it behind its `Spfcall` with a size
that is an `int`. -/
def Library.room (size : Nat) : Library → Nat
  | .libspfs => sizeofSpfcall + (size + 7)
  | .libnpfs => size + 7

theorem createPacket_room {lib : Library} {id : FcallType} {size : Nat}
    (room : lib.room size < 2 ^ 31) (fits : (puts.flatMap Put.bytes).length ≤ size) :
    createPacket lib id size puts = some (header id (size + 7) ++ puts.flatMap Put.bytes) := by
  have small : size + 7 < 2 ^ 31 := by
    cases lib with
    | libspfs =>
        simp only [Library.room, sizeofSpfcall] at room
        omega
    | libnpfs => exact room
  have allocated : lib.allocates (size + 7) = true := by
    cases lib with
    | libspfs =>
        have same : int32 (sizeofSpfcall + (size + 7)) = (sizeofSpfcall + (size + 7) : Nat) := int32_small room
        rw [Library.allocates, same, decide_eq_true_iff]
        omega
    | libnpfs => rfl
  have ran : runPuts (.int 4 (size + 7) :: .int 1 id.number :: .int 2 notag :: puts) ⟨0, (size + 7 : Nat)⟩ = _ :=
    runPuts_fits (by simp only [List.flatMap_cons, Put.bytes, List.length_append, littleBytes_length]; omega)
      (by simp only [List.flatMap_cons, Put.bytes, List.length_append, littleBytes_length]; omega)
  have same : (size + 4 + 1 + 2) % 2 ^ 32 = size + 7 := by omega
  simp only [createPacket, same, allocated, if_true, int32_small small, ran, Option.bind_some]
  rw [if_neg]
  · simp [header, Put.bytes]
  · simp only [List.flatMap_cons, Put.bytes, List.length_append, littleBytes_length]
    omega

theorem header_length (id : FcallType) (size : Nat) : (header id size).length = 7 := by
  simp [header]

theorem sizeField_header {id : FcallType} {size : Nat} (small : size < 2 ^ 32) (body : List UInt8) :
    sizeField (header id size ++ body) = size := by
  have rest : Rest (header id size ++ body) 0
      (littleBytes 4 size ++ (littleBytes 1 id.number ++ littleBytes 2 notag ++ body)) :=
    ⟨by simp [header], Nat.zero_le _⟩
  have bounded : size < 256 ^ 4 := small
  rw [sizeField, littleEndian_rest rest, Nat.mod_eq_of_lt bounded]

end Puts

section Fields

variable {Value : Type} {good : Value → Prop} {data back : List UInt8} {position : Nat}

theorem byte_lt (value : UInt8) : value.toNat < 256 ^ 1 := value.toNat_lt

theorem short_lt (value : UInt16) : value.toNat < 256 ^ 2 := value.toNat_lt

theorem word_lt (value : UInt32) : value.toNat < 256 ^ 4 := value.toNat_lt

theorem long_lt (value : UInt64) : value.toNat < 256 ^ 8 := value.toNat_lt

theorem rest_str {s : List UInt8} {next : Spstr → Reader Value}
    (rest : Rest data position ((Put.str (some s)).bytes ++ back)) (short : s.length < 65536)
    (later : ∀ str position, Spstr.Holds str data s → Rest data position back →
      Decodes data position (next str) good) :
    Decodes data position (bufGetStr next) good := by
  simp only [Put.bytes, Option.getD_some, List.append_assoc] at rest
  refine rest.int (by omega) fun rest => ?_
  exact rest.slice fun left => later _ _ ⟨rfl, _, rfl, rest.taken⟩ left

theorem rest_str? {s : Option (List UInt8)} {next : Spstr → Reader Value}
    (rest : Rest data position ((Put.str s).bytes ++ back)) (short : strlen s < 65536)
    (later : ∀ str position, Spstr.Holds str data (s.getD []) → Rest data position back →
      Decodes data position (next str) good) :
    Decodes data position (bufGetStr next) good := by
  cases s with
  | none => exact rest_str (by simpa [Put.bytes] using rest) (by simp) later
  | some s => exact rest_str rest short later

theorem rest_qid {qid : Qid} {next : Spqid → Reader Value}
    (rest : Rest data position ((bufPutQid qid).flatMap Put.bytes ++ back))
    (later : ∀ position, Rest data position back → Decodes data position (next qid.stored) good) :
    Decodes data position (bufGetQid next) good := by
  simp only [bufPutQid, List.flatMap_cons, List.flatMap_nil, Put.bytes, List.append_assoc,
    List.nil_append] at rest
  exact rest.int (byte_lt _) fun rest => rest.int (word_lt _) fun rest => rest.int (long_lt _) (later _)

theorem rest_strs {names : List (List UInt8)} {next : List Spstr → Reader Value}
    (rest : Rest data position ((names.map fun name => Put.str (some name)).flatMap Put.bytes ++ back))
    (short : ∀ name ∈ names, name.length < 65536)
    (later : ∀ strs position, List.Forall₂ (fun str name => Spstr.Holds str data name) strs names →
      Rest data position back → Decodes data position (next strs) good) :
    Decodes data position (bufGetStrs names.length next) good := by
  induction names generalizing position next with
  | nil => exact later [] position .nil rest
  | cons name names ih =>
      rw [List.map_cons, List.flatMap_cons, List.append_assoc] at rest
      refine rest_str rest (short name List.mem_cons_self) ?_
      intro str position held rest
      refine ih rest (fun name listed => short name (List.mem_cons_of_mem _ listed)) ?_
      intro strs position all rest
      exact later (str :: strs) position (.cons held all) rest

theorem rest_qids {qids : List Qid} {next : List Spqid → Reader Value}
    (rest : Rest data position ((qids.flatMap bufPutQid).flatMap Put.bytes ++ back))
    (later : ∀ position, Rest data position back →
      Decodes data position (next (qids.map Qid.stored)) good) :
    Decodes data position (bufGetQids qids.length next) good := by
  induction qids generalizing position next with
  | nil => exact later position rest
  | cons qid qids ih =>
      rw [List.flatMap_cons, List.flatMap_append, List.append_assoc] at rest
      exact rest_qid rest fun position rest => ih rest later

theorem rest_stat {wstat : Spwstat} {dotu : Bool} {next : Spstat → Reader Value}
    (rest : Rest data position
      ((bufPutWstat wstat (sizeWstat wstat dotu) dotu).flatMap Put.bytes ++ back))
    (short : sizeWstat wstat dotu + 2 < 65536)
    (later : ∀ stat position, Spstat.Holds stat data wstat dotu → Rest data position back →
      Decodes data position (next stat) good) :
    Decodes data position (bufGetStat dotu next) good := by
  have sizes := short
  rw [sizeWstat] at sizes
  rw [bufPutWstat, List.flatMap_append, List.flatMap_append, List.flatMap_append] at rest
  simp only [List.flatMap_cons, List.flatMap_nil, List.append_nil, List.append_assoc] at rest
  refine rest.int (by omega) fun rest => rest.int (short_lt _) fun rest => rest.int (word_lt _) fun rest =>
    rest_qid rest fun position rest => rest.int (word_lt _) fun rest => rest.int (word_lt _) fun rest =>
    rest.int (word_lt _) fun rest => rest.int (long_lt _) fun rest => ?_
  refine rest_str? rest (by omega) fun name position name_held rest => rest_str? rest (by omega)
    fun uid position uid_held rest => rest_str? rest (by omega) fun gid position gid_held rest =>
    rest_str? rest (by omega) fun muid position muid_held rest => ?_
  cases dotu with
  | false =>
      refine later _ _ ?_ rest
      exact ⟨rfl, rfl, rfl, rfl, rfl, rfl, rfl, rfl, name_held, uid_held, gid_held, muid_held, by simp⟩
  | true =>
      simp only [if_true, List.flatMap_cons, List.flatMap_nil, List.append_nil, List.append_assoc] at rest sizes ⊢
      refine rest_str? rest (by omega) fun extension position extension_held rest =>
        rest.int (word_lt _) fun rest => rest.int (word_lt _) fun rest => rest.int (word_lt _) fun rest => ?_
      refine later _ _ ?_ rest
      exact ⟨rfl, rfl, rfl, rfl, rfl, rfl, rfl, rfl, name_held, uid_held, gid_held, muid_held,
        fun _ => ⟨extension_held, rfl, rfl, rfl⟩⟩

end Fields

/-- The data block and what stands before it have room in one allocation. -/
def Message.Roomy (lib : Library) : Message → Prop
  | .rread data => lib.room (4 + data.length) < 2 ^ 31
  | .twrite _ _ data => lib.room (4 + 8 + 4 + data.length) < 2 ^ 31
  | _ => True

/-- The constructor declares the size of what it puts, and the switch reads that back. -/
def Message.Reads (lib : Library) (dotu : Bool) (body : Spfcall → Reader Spfcall) (m : Message) : Prop :=
  ∃ puts, m.create lib dotu = createPacket lib m.type (puts.flatMap Put.bytes).length puts ∧
    (m.Roomy lib → lib.room (puts.flatMap Put.bytes).length < 2 ^ 31) ∧
    ∀ pkt fc, fc.type = m.type → Rest pkt 7 (puts.flatMap Put.bytes) →
      Decodes pkt 7 (body fc) fun fc' => fc'.size = fc.size ∧ fc'.type = m.type ∧ m.Fields dotu pkt fc'

theorem sum_lengths (names : List (List UInt8)) :
    ((names.map fun name => Put.str (some name)).flatMap Put.bytes).length =
      names.length * 2 + (names.map List.length).sum := by
  induction names with
  | nil => rfl
  | cons name names ih =>
      rw [List.map_cons, List.flatMap_cons, List.length_append, ih]
      simp only [Put.bytes, Option.getD_some, List.length_append, littleBytes_length, List.map_cons,
        List.sum_cons, List.length_cons]
      omega

theorem sum_le {names : List (List UInt8)} (short : ∀ name ∈ names, name.length < 65536) :
    (names.map List.length).sum ≤ names.length * 65535 := by
  induction names with
  | nil => simp
  | cons name names ih =>
      have first := short name List.mem_cons_self
      have others := ih fun name listed => short name (List.mem_cons_of_mem _ listed)
      rw [List.map_cons, List.sum_cons, List.length_cons]
      omega

theorem qids_length (qids : List Qid) :
    ((qids.flatMap bufPutQid).flatMap Put.bytes).length = qids.length * 13 := by
  induction qids with
  | nil => rfl
  | cons qid qids ih =>
      rw [List.flatMap_cons, List.flatMap_append, List.length_append, ih]
      simp only [bufPutQid, Put.bytes, List.flatMap_cons, List.flatMap_nil, List.length_append,
        littleBytes_length, List.length_nil, List.length_cons]
      omega

theorem wstat_length (wstat : Spwstat) (dotu : Bool) :
    ((bufPutWstat wstat (sizeWstat wstat dotu) dotu).flatMap Put.bytes).length = sizeWstat wstat dotu + 2 := by
  generalize size : sizeWstat wstat dotu = statsz
  rw [sizeWstat] at size
  simp only [strlen] at size
  cases dotu <;>
    simp only [bufPutWstat, bufPutQid, Put.bytes, List.flatMap_append, List.flatMap_cons, List.flatMap_nil,
      List.length_append, littleBytes_length, List.length_nil, Bool.false_eq_true, if_false, if_true] at size ⊢ <;>
    omega

section Reads

variable {lib : Library} {dotu : Bool} {body : Spfcall → Reader Spfcall} {m : Message}

theorem Message.Reads.of_puts (size : Nat) (puts : List Put)
    (created : m.create lib dotu = createPacket lib m.type size puts)
    (sized : size = (puts.flatMap Put.bytes).length) (roomy : m.Roomy lib → lib.room size < 2 ^ 31)
    (decodes : ∀ pkt fc, fc.type = m.type → Rest pkt 7 (puts.flatMap Put.bytes) →
      Decodes pkt 7 (body fc) fun fc' => fc'.size = fc.size ∧ fc'.type = m.type ∧ m.Fields dotu pkt fc') :
    m.Reads lib dotu body :=
  ⟨puts, sized ▸ created, sized ▸ roomy, decodes⟩

theorem room_small {size : Nat} (small : size < 2 ^ 30) : lib.room size < 2 ^ 31 := by
  cases lib <;> simp only [Library.room, sizeofSpfcall] <;> omega

theorem version_reads {msize : UInt32} {version : List UInt8} (short : version.length < 65536) :
    (Message.tversion msize version).Reads lib dotu (fcallBody dotu) ∧
      (Message.rversion msize version).Reads lib dotu (fcallBody dotu) := by
  have sized : 4 + 2 + version.length =
      (([.int 4 msize.toNat, .str (some version)] : List Put).flatMap Put.bytes).length := by
    simp [Put.bytes]
    omega
  constructor
  all_goals
    refine .of_puts _ _ rfl sized (fun _ => room_small (by omega)) ?_
    intro pkt fc kind rest
    simp only [Message.type] at kind
    simp only [fcallBody, kind]
    exact rest.int (word_lt _) fun rest => rest_str rest short fun version position held _ =>
      .done ⟨rfl, rfl, rfl, held⟩

theorem tauth_reads {fid nUname : UInt32} {uname aname : Option (List UInt8)}
    (short : strlen uname < 65536 ∧ strlen aname < 65536) (roomy : lib = .libspfs ∨ dotu = false) :
    (Message.tauth fid uname aname nUname).Reads lib dotu (fcallBody dotu) := by
  refine .of_puts (4 + 2 + 2 + strlen uname + strlen aname + if dotu then 4 else 0)
    ([.int 4 fid.toNat, .str uname, .str aname] ++ if dotu then [.int 4 nUname.toNat] else []) ?_ ?_ (fun _ => room_small (by split <;> omega)) ?_
  · rcases roomy with rfl | rfl
    · cases dotu <;> rfl
    · cases lib <;> rfl
  · cases dotu <;> simp [Put.bytes, strlen] <;> omega
  · intro pkt fc kind rest
    simp only [Message.type] at kind
    simp only [fcallBody, kind]
    rw [List.flatMap_append] at rest
    simp only [List.flatMap_cons, List.flatMap_nil, List.append_nil, List.append_assoc] at rest
    refine rest.int (word_lt _) fun rest => rest_str? rest short.1 fun name position name_held rest =>
      rest_str? rest short.2 fun tree position tree_held rest => ?_
    cases dotu with
    | false => exact .done ⟨rfl, rfl, rfl, name_held, tree_held, by simp⟩
    | true =>
        refine rest.atEnd ?_
        simp only [if_true, List.flatMap_cons, List.flatMap_nil] at rest ⊢
        exact rest.int (word_lt _) fun _ => .done ⟨rfl, rfl, rfl, name_held, tree_held, fun _ => rfl⟩

theorem tattach_reads {fid afid nUname : UInt32} {uname aname : Option (List UInt8)}
    (short : strlen uname < 65536 ∧ strlen aname < 65536) :
    (Message.tattach fid afid uname aname nUname).Reads lib dotu (fcallBody dotu) := by
  refine .of_puts (4 + 4 + 2 + 2 + strlen uname + strlen aname + if dotu then 4 else 0)
    ([.int 4 fid.toNat, .int 4 afid.toNat, .str uname, .str aname] ++
      if dotu then [.int 4 nUname.toNat] else []) ?_ ?_ (fun _ => room_small (by split <;> omega)) ?_
  · cases dotu <;> rfl
  · cases dotu <;> simp [Put.bytes, strlen] <;> omega
  · intro pkt fc kind rest
    simp only [Message.type] at kind
    simp only [fcallBody, kind]
    rw [List.flatMap_append] at rest
    simp only [List.flatMap_cons, List.flatMap_nil, List.append_nil, List.append_assoc] at rest
    refine rest.int (word_lt _) fun rest => rest.int (word_lt _) fun rest =>
      rest_str? rest short.1 fun name position name_held rest =>
      rest_str? rest short.2 fun tree position tree_held rest => ?_
    cases dotu with
    | false => exact .done ⟨rfl, rfl, rfl, rfl, name_held, tree_held, by simp⟩
    | true =>
        refine rest.atEnd ?_
        simp only [if_true, List.flatMap_cons, List.flatMap_nil] at rest ⊢
        exact rest.int (word_lt _) fun _ =>
          .done ⟨rfl, rfl, rfl, rfl, name_held, tree_held, fun _ => rfl⟩

theorem qid_reads {qid : Qid} :
    (Message.rauth qid).Reads lib dotu (fcallBody dotu) ∧
      (Message.rattach qid).Reads lib dotu (fcallBody dotu) := by
  constructor
  all_goals
    refine .of_puts _ _ rfl rfl (fun _ => room_small (by decide)) ?_
    intro pkt fc kind rest
    simp only [Message.type] at kind
    simp only [fcallBody, kind]
    rw [← List.append_nil (List.flatMap _ _)] at rest
    exact rest_qid rest fun position _ => .done ⟨rfl, rfl, rfl⟩

theorem opened_reads {qid : Qid} {iounit : UInt32} :
    (Message.ropen qid iounit).Reads lib dotu (fcallBody dotu) ∧
      (Message.rcreate qid iounit).Reads lib dotu (fcallBody dotu) := by
  constructor
  all_goals
    refine .of_puts _ _ rfl rfl (fun _ => room_small (by decide)) ?_
    intro pkt fc kind rest
    simp only [Message.type] at kind
    simp only [fcallBody, kind]
    rw [List.flatMap_append] at rest
    exact rest_qid rest fun position rest => rest.int (word_lt _) fun _ => .done ⟨rfl, rfl, rfl, rfl⟩

theorem rerror_reads {ename : List UInt8} {ecode : Int32} (short : ename.length < 65536) :
    (Message.rerror ename ecode).Reads lib dotu (fcallBody dotu) := by
  refine .of_puts _ (.str (some ename) :: if dotu then [.int 4 ecode.toUInt32.toNat] else []) rfl ?_
    (fun _ => room_small (by split <;> omega)) ?_
  · cases dotu with
    | false => simp [Put.bytes]
    | true =>
        simp [Put.bytes]
        omega
  · intro pkt fc kind rest
    simp only [Message.type] at kind
    simp only [fcallBody, kind]
    rw [List.flatMap_cons] at rest
    refine rest_str rest short fun text position held rest => ?_
    cases dotu with
    | false => exact .done ⟨rfl, rfl, held, by simp⟩
    | true => exact rest.int (word_lt _) fun _ => .done ⟨rfl, rfl, held, fun _ => rfl⟩

theorem empty_reads (empty : m = .rflush ∨ m = .rclunk ∨ m = .rremove ∨ m = .rwstat) :
    m.Reads lib dotu (fcallBody dotu) := by
  rcases empty with rfl | rfl | rfl | rfl
  all_goals
    refine .of_puts _ _ rfl rfl (fun _ => room_small (by decide)) ?_
    intro pkt fc kind rest
    simp only [Message.type] at kind
    simp only [fcallBody, kind]
    exact .done ⟨rfl, kind, trivial⟩

theorem fid_reads {fid : UInt32} (named : m = .tclunk fid ∨ m = .tremove fid ∨ m = .tstat fid) :
    m.Reads lib dotu (fcallBody dotu) := by
  rcases named with rfl | rfl | rfl
  all_goals
    refine .of_puts _ _ rfl rfl (fun _ => room_small (by decide)) ?_
    intro pkt fc kind rest
    simp only [Message.type] at kind
    simp only [fcallBody, kind]
    exact rest.int (word_lt _) fun _ => .done ⟨rfl, rfl, rfl⟩

theorem tflush_reads {oldtag : UInt16} : (Message.tflush oldtag).Reads lib dotu (fcallBody dotu) := by
  refine .of_puts _ _ rfl rfl (fun _ => room_small (by decide)) ?_
  intro pkt fc kind rest
  simp only [Message.type] at kind
  simp only [fcallBody, kind]
  exact rest.int (short_lt _) fun _ => .done ⟨rfl, rfl, rfl⟩

theorem rwrite_reads {count : UInt32} : (Message.rwrite count).Reads lib dotu (fcallBody dotu) := by
  refine .of_puts _ _ rfl rfl (fun _ => room_small (by decide)) ?_
  intro pkt fc kind rest
  simp only [Message.type] at kind
  simp only [fcallBody, kind]
  exact rest.int (word_lt _) fun _ => .done ⟨rfl, rfl, rfl⟩

theorem topen_reads {fid : UInt32} {mode : UInt8} :
    (Message.topen fid mode).Reads lib dotu (fcallBody dotu) := by
  refine .of_puts _ _ rfl rfl (fun _ => room_small (by decide)) ?_
  intro pkt fc kind rest
  simp only [Message.type] at kind
  simp only [fcallBody, kind]
  exact rest.int (word_lt _) fun rest => rest.int (byte_lt _) fun _ => .done ⟨rfl, rfl, rfl, rfl⟩

theorem tread_reads {fid count : UInt32} {offset : UInt64} :
    (Message.tread fid offset count).Reads lib dotu (fcallBody dotu) := by
  refine .of_puts _ _ rfl rfl (fun _ => room_small (by decide)) ?_
  intro pkt fc kind rest
  simp only [Message.type] at kind
  simp only [fcallBody, kind]
  exact rest.int (word_lt _) fun rest => rest.int (long_lt _) fun rest => rest.int (word_lt _) fun _ =>
    .done ⟨rfl, rfl, rfl, rfl, rfl⟩

theorem twalk_reads {fid newfid : UInt32} {wnames : List (List UInt8)}
    (few : wnames.length ≤ maxwelem) (short : ∀ wname ∈ wnames, wname.length < 65536) :
    (Message.twalk fid newfid wnames).Reads lib dotu (fcallBody dotu) := by
  have within : ¬ wnames.length > maxwelem := by omega
  have counted : wnames.length < 256 ^ 2 := by
    rw [maxwelem] at few
    omega
  refine .of_puts (4 + 4 + 2 + wnames.length * 2 + (wnames.map List.length).sum)
    ([.int 4 fid.toNat, .int 4 newfid.toNat, .int 2 wnames.length] ++
      wnames.map fun wname => .str (some wname)) ?_ ?_ (fun _ => room_small ?_) ?_
  · simp only [Message.create, createTwalk, if_neg within]
    rfl
  · rw [List.flatMap_append, List.length_append, sum_lengths]
    simp only [List.flatMap_cons, List.flatMap_nil, Put.bytes, List.length_append, littleBytes_length,
      List.length_nil]
    omega
  · have total := sum_le short
    rw [maxwelem] at few
    omega
  · intro pkt fc kind rest
    simp only [Message.type] at kind
    simp only [fcallBody, kind]
    rw [List.flatMap_append, ← List.append_nil (List.flatMap _ (List.map _ _))] at rest
    simp only [List.flatMap_cons, List.flatMap_nil, List.append_assoc, List.nil_append] at rest
    refine rest.int (word_lt _) fun rest => rest.int (word_lt _) fun rest => rest.int counted fun rest => ?_
    rw [if_neg within]
    exact rest_strs rest short fun strs position held _ => .done ⟨rfl, rfl, rfl, rfl, rfl, held⟩

theorem rwalk_reads {wqids : List Qid} (few : wqids.length ≤ maxwelem) :
    (Message.rwalk wqids).Reads lib dotu (fcallBody dotu) := by
  have within : ¬ wqids.length > maxwelem := by omega
  have counted : wqids.length < 256 ^ 2 := by
    rw [maxwelem] at few
    omega
  refine .of_puts (2 + wqids.length * 13) (.int 2 wqids.length :: wqids.flatMap bufPutQid) ?_ ?_
    (fun _ => room_small (by rw [maxwelem] at few; omega)) ?_
  · simp only [Message.create, createRwalk, if_neg within]
    rfl
  · rw [List.flatMap_cons, List.length_append, qids_length]
    simp only [Put.bytes, littleBytes_length]
  · intro pkt fc kind rest
    simp only [Message.type] at kind
    simp only [fcallBody, kind]
    rw [List.flatMap_cons, ← List.append_nil (List.flatMap _ (List.flatMap _ _))] at rest
    refine rest.int counted fun rest => ?_
    rw [if_neg within]
    exact rest_qids rest fun position _ => .done ⟨rfl, rfl, rfl, rfl⟩

theorem tcreate_reads {fid perm : UInt32} {name : List UInt8} {mode : UInt8}
    {extension : Option (List UInt8)} (short : name.length < 65536 ∧ strlen extension < 65536)
    (roomy : lib = .libspfs ∨ dotu = false) :
    (Message.tcreate fid name perm mode extension).Reads lib dotu (fcallBody dotu) := by
  refine .of_puts (4 + 2 + name.length + 4 + 1 + if dotu then 2 + strlen extension else 0)
    ([.int 4 fid.toNat, .str (some name), .int 4 perm.toNat, .int 1 mode.toNat] ++
      if dotu then [.str extension] else []) ?_ ?_ (fun _ => room_small (by split <;> omega)) ?_
  · rcases roomy with rfl | rfl
    · cases dotu with
      | false => rfl
      | true =>
          simp only [Message.create, createTcreate, if_true, Nat.add_assoc]
          rfl
    · cases lib <;> rfl
  · cases dotu <;> simp [Put.bytes, strlen] <;> omega
  · intro pkt fc kind rest
    simp only [Message.type] at kind
    simp only [fcallBody, kind]
    rw [List.flatMap_append] at rest
    simp only [List.flatMap_cons, List.flatMap_nil, List.append_nil, List.append_assoc] at rest
    refine rest.int (word_lt _) fun rest => rest_str rest short.1 fun text position held rest =>
      rest.int (word_lt _) fun rest => rest.int (byte_lt _) fun rest => ?_
    cases dotu with
    | false => exact .done ⟨rfl, rfl, rfl, held, rfl, rfl, by simp⟩
    | true =>
        simp only [if_true, List.flatMap_cons, List.flatMap_nil] at rest ⊢
        exact rest_str? rest short.2 fun more position more_held _ =>
          .done ⟨rfl, rfl, rfl, held, rfl, rfl, fun _ => more_held⟩

theorem rread_reads {data : List UInt8} (small : data.length < 2 ^ 31) :
    (Message.rread data).Reads lib dotu (fcallBody dotu) := by
  refine .of_puts _ _ rfl ?_ id ?_
  · simp [Put.bytes]
  · intro pkt fc kind rest
    simp only [Message.type] at kind
    simp only [fcallBody, kind]
    simp only [List.flatMap_cons, List.flatMap_nil, Put.bytes, List.append_nil] at rest
    exact rest.counted small fun held => ⟨rfl, rfl, rfl, rfl, _, rfl, held⟩

theorem twrite_reads {fid : UInt32} {offset : UInt64} {data : List UInt8} (small : data.length < 2 ^ 31) :
    (Message.twrite fid offset data).Reads lib dotu (fcallBody dotu) := by
  refine .of_puts _ _ rfl ?_ id ?_
  · simp [Put.bytes]
    omega
  · intro pkt fc kind rest
    simp only [Message.type] at kind
    simp only [fcallBody, kind]
    simp only [List.flatMap_cons, List.flatMap_nil, Put.bytes, List.append_nil] at rest
    exact rest.int (word_lt _) fun rest => rest.int (long_lt _) fun rest =>
      rest.counted small fun held => ⟨rfl, rfl, rfl, rfl, rfl, rfl, _, rfl, held⟩

theorem rstat_reads {wstat : Spwstat} (short : sizeWstat wstat dotu + 2 < 65536) :
    (Message.rstat wstat).Reads lib dotu (fcallBody dotu) := by
  refine .of_puts _ _ rfl ?_ (fun _ => room_small (by omega)) ?_
  · rw [List.flatMap_cons, List.length_append, wstat_length]
    simp only [Put.bytes, littleBytes_length]
    omega
  · intro pkt fc kind rest
    simp only [Message.type] at kind
    simp only [fcallBody, kind]
    rw [List.flatMap_cons, ← List.append_nil (List.flatMap _ (bufPutWstat _ _ _))] at rest
    exact rest.int (by omega) fun rest => rest_stat rest short fun stat position held _ =>
      .done ⟨rfl, rfl, held⟩

theorem twstat_reads {fid : UInt32} {wstat : Spwstat} (short : sizeWstat wstat dotu + 2 < 65536) :
    (Message.twstat fid wstat).Reads lib dotu (fcallBody dotu) := by
  refine .of_puts _ _ rfl ?_ (fun _ => room_small (by omega)) ?_
  · rw [List.flatMap_cons, List.length_append, List.flatMap_cons, List.length_append, wstat_length]
    simp only [Put.bytes, littleBytes_length]
    omega
  · intro pkt fc kind rest
    simp only [Message.type] at kind
    simp only [fcallBody, kind]
    rw [List.flatMap_cons, List.flatMap_cons, ← List.append_nil (List.flatMap _ (bufPutWstat _ _ _))] at rest
    exact rest.int (word_lt _) fun rest => rest.int (by omega) fun rest =>
      rest_stat rest short fun stat position held _ => .done ⟨rfl, rfl, rfl, held⟩

theorem Message.reads (encodable : m.Encodable dotu) (roomy : m.Roomy lib)
    (single : ∀ ename ecode, m ≠ .rerror1 ename ecode)
    (carried : lib = .libspfs ∨ dotu = false ∨ (m.type ≠ .tauth ∧ m.type ≠ .tcreate)) :
    m.Reads lib dotu (fcallBody dotu) := by
  have block {size : Nat} (room : lib.room size < 2 ^ 31) : size < 2 ^ 31 := by
    cases lib <;> simp only [Library.room] at room <;> omega
  cases m with
  | tversion msize version => exact (version_reads encodable).1
  | rversion msize version => exact (version_reads encodable).2
  | tauth fid uname aname nUname =>
      refine tauth_reads encodable ?_
      rcases carried with here | here | here
      · exact .inl here
      · exact .inr here
      · exact absurd rfl here.1
  | rauth qid => exact qid_reads.1
  | rerror ename ecode => exact rerror_reads encodable
  | rerror1 ename ecode => exact absurd rfl (single ename ecode)
  | tflush oldtag => exact tflush_reads
  | rflush => exact empty_reads (.inl rfl)
  | tattach fid afid uname aname nUname => exact tattach_reads encodable
  | rattach qid => exact qid_reads.2
  | twalk fid newfid wnames => exact twalk_reads encodable.1 encodable.2
  | rwalk wqids => exact rwalk_reads encodable
  | topen fid mode => exact topen_reads
  | ropen qid iounit => exact opened_reads.1
  | tcreate fid name perm mode extension =>
      refine tcreate_reads encodable ?_
      rcases carried with here | here | here
      · exact .inl here
      · exact .inr here
      · exact absurd rfl here.2
  | rcreate qid iounit => exact opened_reads.2
  | tread fid offset count => exact tread_reads
  | rread data => exact rread_reads (by have room := block roomy; omega)
  | twrite fid offset data => exact twrite_reads (by have room := block roomy; omega)
  | rwrite count => exact rwrite_reads
  | tclunk fid => exact fid_reads (.inl rfl)
  | rclunk => exact empty_reads (.inr (.inl rfl))
  | tremove fid => exact fid_reads (.inr (.inl rfl))
  | rremove => exact empty_reads (.inr (.inr (.inl rfl)))
  | tstat fid => exact fid_reads (.inr (.inr rfl))
  | rstat wstat => exact rstat_reads encodable
  | twstat fid wstat => exact twstat_reads encodable
  | rwstat => exact empty_reads (.inr (.inr (.inr rfl)))

end Reads

/-- The packet says its own size, and what is decoded from exactly its bytes has the type and
every field of the message. -/
def Message.RoundTrip (lib : Library) (dotu : Bool) (decode : List UInt8 → Option Spfcall) (m : Message) :
    Prop :=
  ∃ pkt, m.create lib dotu = some pkt ∧ sizeField pkt = pkt.length ∧
    ∃ fc, decode pkt = some fc ∧ fc.size = pkt.length ∧ fc.type = m.type ∧ m.Fields dotu pkt fc

section RoundTrip

variable {lib : Library} {dotu : Bool} {m : Message} {decode : List UInt8 → Option Spfcall}

theorem FcallType.ofNat?_number (type : FcallType) : FcallType.ofNat? type.number = some type := by
  cases type <;> rfl

theorem FcallType.number_lt (type : FcallType) : type.number < 256 ^ 1 := by
  cases type <;> decide

theorem overrun_decodes {Value : Type} {reader : Reader Value} {good : Value → Prop} {data : List UInt8}
    {position : Nat} (after : 4 ≤ position) (inside : position ≤ data.length)
    (small : data.length < 2 ^ 31) (decodes : Decodes data position reader good) :
    ∃ value, overrun (runCbuf data reader ⟨position, data.length⟩) = some value ∧ good value := by
  obtain ⟨value, read, holds⟩ := decodes
  have agrees := runCbuf_agrees data reader position data.length after inside (by omega)
  rw [read] at agrees
  obtain ⟨same, within, -⟩ := agrees
  refine ⟨value, ?_, holds⟩
  rw [overrun, if_neg (by omega)]
  exact same

theorem header_start {id : FcallType} {body : List UInt8} (small : body.length + 7 < 2 ^ 31) :
    fcallBuf (body.length + 7) = ⟨(4 : Nat), (header id (body.length + 7) ++ body).length⟩ ∧
      Rest (header id (body.length + 7) ++ body) 4
        (littleBytes 1 id.number ++ (littleBytes 2 notag ++ body)) := by
  have size : (header id (body.length + 7) ++ body).length = body.length + 7 := by
    rw [List.length_append, header_length]
    omega
  constructor
  · have ep := fcallBuf_ep (show body.length + 7 < 2 ^ 32 by omega)
    rw [if_pos (by omega)] at ep
    rw [size, ← ep]
    rfl
  · constructor
    · rw [header, List.append_assoc, List.append_assoc]
      exact List.drop_left' (littleBytes_length 4 _)
    · omega

theorem header_decodes {id : FcallType} {body : List UInt8} {good : Spfcall → Prop}
    (layout : FcallType → Nat → Reader Spfcall) (small : body.length + 7 < 2 ^ 31)
    (later : Rest (header id (body.length + 7) ++ body) 7 body →
      Decodes (header id (body.length + 7) ++ body) 7 (layout id notag) good) :
    ∃ fc, overrun (runCbuf (header id (body.length + 7) ++ body)
      (.int 1 fun typeByte => .int 2 fun tag => match FcallType.ofNat? typeByte with
        | none => .reject
        | some type => layout type tag) (fcallBuf (body.length + 7))) = some fc ∧ good fc := by
  obtain ⟨buf, rest⟩ := @header_start id body small
  have size : (header id (body.length + 7) ++ body).length = body.length + 7 := by
    rw [List.length_append, header_length]
    omega
  rw [buf]
  refine overrun_decodes (Nat.le_refl 4) (by omega) (by omega) ?_
  refine rest.int id.number_lt fun rest => rest.int (by decide) fun rest => ?_
  rw [FcallType.ofNat?_number]
  exact later rest

theorem Message.Reads.roundTrip_of {body : Spfcall → Reader Spfcall} (reads : m.Reads lib dotu body)
    (roomy : m.Roomy lib) (start : Nat → FcallType → Nat → Spfcall)
    (typed : ∀ size type tag, (start size type tag).type = type ∧ (start size type tag).size = size)
    (decodes : ∀ pkt, decode pkt = overrun (runCbuf pkt
      (.int 1 fun typeByte => .int 2 fun tag => match FcallType.ofNat? typeByte with
        | none => .reject
        | some type => body (start (sizeField pkt) type tag)) (fcallBuf (sizeField pkt)))) :
    m.RoundTrip lib dotu decode := by
  obtain ⟨puts, created, room, reading⟩ := reads
  have room := room roomy
  rw [createPacket_room room (Nat.le_refl _)] at created
  generalize puts.flatMap Put.bytes = content at created room reading
  have size : (header m.type (content.length + 7) ++ content).length = content.length + 7 := by
    rw [List.length_append, header_length]
    omega
  have small : content.length + 7 < 2 ^ 31 := by
    cases lib <;> simp only [Library.room] at room <;> omega
  have sized : sizeField (header m.type (content.length + 7) ++ content) = content.length + 7 :=
    sizeField_header (by omega) content
  refine ⟨_, created, sized.trans size.symm, ?_⟩
  obtain ⟨type, whole⟩ := typed (content.length + 7) m.type notag
  obtain ⟨fc, decoded, same, type, fields⟩ := header_decodes
    (fun type tag => body (start (content.length + 7) type tag)) small (reading _ _ type)
  refine ⟨fc, ?_, same.trans (whole.trans size.symm), type, fields⟩
  rw [decodes, sized]
  exact decoded

theorem Message.Reads.roundTrip (reads : m.Reads lib dotu (fcallBody dotu)) (roomy : m.Roomy lib) :
    m.RoundTrip lib dotu (spDeserialize · dotu) :=
  reads.roundTrip_of roomy (fun size type tag => { size, type, tag }) (fun _ _ _ => ⟨rfl, rfl⟩) fun _ => rfl

theorem bufPut_within {bytes : List UInt8} {buf : Cbuf} (within : buf.p ≤ max (buf.ep + 1) 0) :
    (bufPut bytes buf).2.ep = buf.ep ∧ (bufPut bytes buf).2.p ≤ max (buf.ep + 1) 0 := by
  rw [bufPut, bufCheckSize]
  split_ifs <;> dsimp only <;> omega

theorem runPuts_block (ints : List (Nat × Nat)) {data : List UInt8} {buf : Cbuf}
    (within : buf.p ≤ max (buf.ep + 1) 0)
    (excess : (data.length < 2 ^ 31 ∧ buf.ep < buf.p) ∨
      (int32 data.length < 0 ∧ max (buf.ep + 1) 0 + int32 data.length ≤ buf.ep)) :
    ∀ written final, runPuts ((ints.map fun (width, value) => .int width value) ++ [.block data]) buf =
      some (written, final) → final.ep < final.p := by
  induction ints generalizing buf with
  | nil =>
      intro written final ran
      simp only [List.map_nil, List.nil_append, runPuts] at ran
      rcases excess with ⟨small, past⟩ | ⟨negative, back⟩
      · rw [int32_small small, bufAlloc_past (by omega) (by omega)] at ran
        simp only [Option.some.injEq, Prod.mk.injEq] at ran
        exact ran.2 ▸ past
      · rw [bufAlloc_fits (by omega)] at ran
        simp only [if_pos negative] at ran
        cases ran
  | cons int ints ih =>
      intro written final ran
      obtain ⟨width, value⟩ := int
      simp only [List.map_cons, List.cons_append, runPuts] at ran
      obtain ⟨⟨rest, last⟩, later, same⟩ := Option.map_eq_some_iff.mp ran
      simp only [Prod.mk.injEq] at same
      obtain ⟨-, rfl⟩ := same
      obtain ⟨ep, moved⟩ := @bufPut_within (Put.int width value).bytes buf within
      refine ih (by rw [ep]; exact moved) ?_ rest last later
      rcases excess with ⟨small, past⟩ | ⟨negative, back⟩
      · rw [bufPut_past past]
        exact .inl ⟨small, past⟩
      · rw [ep]
        exact .inr ⟨negative, back⟩

theorem createPacket_block {id : FcallType} {size : Nat} (ints : List (Nat × Nat)) {data : List UInt8}
    (counted : data.length < 2 ^ 32) (covers : data.length ≤ size) (close : size ≤ data.length + 2 ^ 10)
    (crowded : ¬ lib.room size < 2 ^ 31) :
    createPacket lib id size ((ints.map fun (width, value) => .int width value) ++ [.block data]) = none := by
  generalize wrapped : (size + 4 + 1 + 2) % 2 ^ 32 = whole
  by_cases allocated : lib.allocates whole = true
  · have excess : (data.length < 2 ^ 31 ∧ int32 whole < 0) ∨
        (int32 data.length < 0 ∧ max (int32 whole + 1) 0 + int32 data.length ≤ int32 whole) := by
      by_cases unwrapped : size + 7 < 2 ^ 32
      · have large : 2 ^ 31 ≤ whole := by
          cases lib with
          | libspfs =>
              simp only [Library.allocates, decide_eq_true_iff] at allocated
              simp only [Library.room] at crowded
              by_contra small
              rw [int32_large (by omega) (by rw [sizeofSpfcall] at crowded ⊢; omega), sizeofSpfcall] at allocated
              omega
          | libnpfs =>
              simp only [Library.room] at crowded
              omega
        rw [int32_large large (by omega)]
        by_cases small : data.length < 2 ^ 31
        · exact .inl ⟨small, by omega⟩
        · rw [int32_large (by omega) counted]
          exact .inr ⟨by omega, by omega⟩
      · have small : whole < 2 ^ 31 := by omega
        rw [int32_small small, int32_large (by omega) counted]
        exact .inr ⟨by omega, by omega⟩
    have start : (⟨0, int32 whole⟩ : Cbuf).p ≤ max ((⟨0, int32 whole⟩ : Cbuf).ep + 1) 0 := by
      dsimp only
      omega
    have block := runPuts_block ((4, whole) :: (1, id.number) :: (2, notag) :: ints) start excess
    simp only [createPacket, wrapped, allocated, if_true, Option.bind_eq_none_iff]
    rintro ⟨written, final⟩ ran
    have past := block written final ran
    rw [if_pos past]
  · simp only [createPacket, wrapped, allocated, if_false, Bool.false_eq_true]

theorem Message.create_crowded (encodable : m.Encodable dotu) (crowded : ¬ m.Roomy lib) :
    m.create lib dotu = none := by
  cases m with
  | rread data =>
      exact createPacket_block [(4, data.length)] encodable (by omega) (by omega) crowded
  | twrite fid offset data =>
      exact createPacket_block [(4, fid.toNat), (8, offset.toNat), (4, data.length)] encodable
        (by omega) (by omega) crowded
  | _ => exact absurd trivial crowded

/-- `sp_create_rerror1` counts the length of the text but never stores it. -/
theorem rerror1_size {ename : List UInt8} {ecode : Int32}
    (short : (Message.rerror1 ename ecode).Encodable dotu) :
    ∃ pkt, (Message.rerror1 ename ecode).create lib dotu = some pkt ∧ sizeField pkt = pkt.length + 2 := by
  have short : ename.length < 65536 := short
  have fits : ((.text ename :: if dotu then [.int 4 ecode.toUInt32.toNat] else [] : List Put).flatMap
      Put.bytes).length + 2 = 2 + ename.length + if dotu then 4 else 0 := by
    cases dotu <;> simp [Put.bytes] <;> omega
  refine ⟨_, createPacket_room (room_small (by split <;> omega)) (by omega), ?_⟩
  rw [sizeField_header (by split <;> omega), List.length_append, header_length]
  omega

theorem Message.RoundTrip.sound (trip : m.RoundTrip lib dotu decode) (encodable : m.Encodable dotu) :
    m.Roomy lib ∧ ∀ ename ecode, m ≠ .rerror1 ename ecode := by
  obtain ⟨pkt, created, sized, -⟩ := trip
  constructor
  · by_contra crowded
    rw [Message.create_crowded encodable crowded] at created
    cases created
  · rintro ename ecode rfl
    obtain ⟨other, made, larger⟩ := rerror1_size encodable
    have same := Option.some.inj (made.symm.trans created)
    subst same
    omega

end RoundTrip

end Xcpu.Libspfs
