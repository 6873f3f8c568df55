import Xcpu.Npfs.RamfsData

/-!
`ramfs_wstat`: the changes of a Twstat one after the other, and the block at the end that takes them back after an
error. An error is what `np_haserror` sees, and not that the function stopped before the end.
-/

namespace Xcpu.Npfs.Ramfs

open Xcpu

variable {User : Type} [DecidableEq User]

/-- What `ramfs_wstat` reads of the parent of a file. -/
structure Dir (User : Type) where
  perm : UInt32
  uid : User
  names : List (List UInt8)

/-- The fields of a Tstat that may be changed: an empty name and the greatest numbers ask for nothing. -/
structure Npstat where
  name : List UInt8
  length : UInt64
  mode : UInt32
  mtime : UInt32

/-- What `check_perm` says: without a user it refuses, and records no error. -/
inductive Permission
  | granted
  | denied
  | nobody
deriving DecidableEq

def checkPerm (perm : UInt32) (uid : User) (user : Option User) (asked : UInt32) : Permission :=
  match user with
  | none => .nobody
  | some user =>
      let n : UInt32 := perm &&& 7
      let n : UInt32 := if uid = user then n ||| (perm >>> (6 : UInt32)) &&& 7 ||| (perm >>> (3 : UInt32)) &&& 7 else n
      if asked ≠ 0 ∧ n &&& asked = 0 then .denied else .granted

/-- A mutex that its holder takes once more is never had. -/
def acquire (held : Bool) : Option Bool := if held then none else some true

def release (held : Bool) : Option Bool := if held then some false else none

structure Locks where
  file : Bool
  parent : Bool
deriving DecidableEq

def dotdot : List UInt8 := [46, 46]

/-- `find_file`, which takes the lock of the directory. Every directory has a parent. -/
def findFile (dir : Dir User) (locks : Locks) (name : List UInt8) : Option Bool :=
  if name = dotdot then some true
  else (acquire locks.parent).map fun _ => dir.names.any fun other => decide (other = name)

/-- The old values, which are the greatest numbers where nothing was changed. -/
structure Old where
  length : Nat
  perm : UInt32
  mtime : UInt32
  name : Option (List UInt8)

def Old.none : Old := ⟨2 ^ 64 - 1, 0xFFFFFFFF, 0xFFFFFFFF, .none⟩

/-- How far `ramfs_wstat` is. After `goto out`, `stopped` tells whether an error was to be recorded. -/
structure Progress (User : Type) where
  file : File User
  old : Old
  stopped : Option Bool

/-- The allocations, each of which may fail: the error record of the thread, the name, the memory of the file when
its length is changed and again at the end, and the answer. -/
structure Memory where
  record : Bool
  name : Bool
  length : Bool
  again : Bool
  reply : Bool

def changeName (dir : Dir User) (locks : Locks) (user : Option User) (stat : Npstat) (memory : Memory)
    (f : File User) : Option (Progress User) :=
  if stat.name = [] then some ⟨f, .none, none⟩
  else match checkPerm dir.perm dir.uid user 2 with
    | .denied => some ⟨f, .none, some true⟩
    | .nobody => some ⟨f, .none, some false⟩
    | .granted =>
        if memory.name then
          (findFile dir locks stat.name).map fun
            | true => ⟨f, .none, some true⟩
            | false => ⟨{ f with name := stat.name }, { Old.none with name := some f.name }, none⟩
        else none

/-- `Dmdir` -/
def dmdir : UInt32 := 0x80000000

/-- The memory is there: the new length is cut to it, and what is new is zero. -/
def setLength (f : File User) (length : Nat) : Option (File User) :=
  let length := if f.datasize < length then f.datasize else length
  if f.length < length then
    (f.data.store f.length (List.replicate (length - f.length) 0)).map fun data => { f with data, length }
  else some { f with length }

def changeLength (blksize : Nat) (user : Option User) (stat : Npstat) (memory : Memory) (p : Progress User) :
    Option (Progress User) :=
  if p.stopped.isSome ∨ stat.length = 0xFFFFFFFFFFFFFFFF then some p
  else match checkPerm p.file.perm p.file.uid user 2 with
    | .denied => some { p with stopped := some true }
    | .nobody => some { p with stopped := some false }
    | .granted =>
        if p.file.perm &&& dmdir ≠ 0 then some { p with stopped := some false }
        else
          let old := { p.old with length := p.file.length }
          (truncateFile blksize p.file stat.length.toNat memory.length).bind fun
            | (f, false) => some ⟨f, old, some true⟩
            | (f, true) => (setLength f stat.length.toNat).map fun f => ⟨f, old, none⟩

/-- `file->uid != fid->user` -/
def stranger (f : File User) (user : Option User) : Bool := decide (some f.uid ≠ user)

def changeMode (user : Option User) (stat : Npstat) (p : Progress User) : Progress User :=
  if p.stopped.isSome ∨ stat.mode = 0xFFFFFFFF then p
  else if stranger p.file user then { p with stopped := some true }
  else { p with old := { p.old with perm := p.file.perm }, file := { p.file with perm := stat.mode } }

def changeMtime (user : Option User) (stat : Npstat) (p : Progress User) : Progress User :=
  if p.stopped.isSome ∨ stat.mtime = 0xFFFFFFFF then p
  else if stranger p.file user then { p with stopped := some true }
  else { p with old := { p.old with mtime := p.file.mtime }, file := { p.file with mtime := stat.mtime } }

/-- The changes are taken back. -/
def undo (blksize : Nat) (f : File User) (old : Old) (memory : Bool) : Option (File User) :=
  let f := match old.name with
    | some name => { f with name }
    | none => f
  let f := if old.perm = 0xFFFFFFFF then f else { f with perm := old.perm }
  let f := if old.mtime = 0xFFFFFFFF then f else { f with mtime := old.mtime }
  if old.length = 2 ^ 64 - 1 then some f
  else (truncateFile blksize { f with length := old.length } old.length memory).map Prod.fst

/-- The end without an error: the memory behind the bytes is cleared. -/
def settle (blksize : Nat) (f : File User) (stat : Npstat) (memory : Bool) : Option (File User) :=
  if stat.length = 0xFFFFFFFFFFFFFFFF then some f
  else (truncateFile blksize f f.length memory).bind fun (f, _) =>
    (f.data.store f.length (List.replicate ((f.datasize + 2 ^ 64 - f.length) % 2 ^ 64) 0)).map fun data =>
      { f with data }

/-- The block at `out`, and whether there is an Rwstat. -/
def finish (blksize : Nat) (stat : Npstat) (memory : Memory) (p : Progress User) : Option (File User × Bool) :=
  let reply := p.stopped.isNone && memory.reply
  if p.stopped = some true ∧ memory.record then
    (undo blksize p.file p.old memory.again).map fun f => (f, reply)
  else (settle blksize p.file stat memory.again).map fun f => (f, reply)

/-- `Dmnamedpipe|Dmsymlink|Dmlink|Dmdevice` -/
def special : UInt32 := 0x03A00000

/-- The changes and the end of `ramfs_wstat`, with its locks held. -/
def change (blksize : Nat) (dir : Dir User) (locks : Locks) (user : Option User) (stat : Npstat) (memory : Memory)
    (f : File User) : Option (File User × Bool) :=
  (changeName dir locks user stat memory f).bind fun p =>
    (changeLength blksize user stat memory p).bind fun p =>
      finish blksize stat memory (changeMtime user stat (changeMode user stat p))

/-- `ramfs_wstat`. The root, which has no parent here, is its own. -/
def ramfsWstat (blksize : Nat) (dotu : Bool) (parent : Option (Dir User)) (locks : Locks) (user : Option User)
    (stat : Npstat) (memory : Memory) (f : File User) : Option (File User × Bool × Locks) :=
  -- `goto out` comes before `lockfile` and `lockparent` have values.
  if f.perm &&& special ≠ 0 ∧ dotu then none
  else (acquire locks.file).bind fun lockedFile =>
    if stat.name = [] then
      let dir := parent.getD ⟨f.perm, f.uid, []⟩
      (change blksize dir { locks with file := lockedFile } user stat memory f).bind fun (f, reply) =>
        (release lockedFile).map fun file => (f, reply, { locks with file })
    else match parent with
      | none => none
      | some dir => (acquire locks.parent).bind fun lockedParent =>
          (change blksize dir ⟨lockedFile, lockedParent⟩ user stat memory f).bind fun (f, reply) =>
            (release lockedFile).bind fun file => (release lockedParent).map fun parent => (f, reply, ⟨file, parent⟩)

/-- The bytes of a file that is cut, or goes on with zeros. -/
def resized (bytes : List UInt8) (length : Nat) : List UInt8 :=
  bytes.take length ++ List.replicate (length - bytes.length) 0

/-- What can be seen of the file is as it was. -/
structure Same (f g : File User) : Prop where
  name : g.name = f.name
  perm : g.perm = f.perm
  mtime : g.mtime = f.mtime
  length : g.length = f.length
  content : content g = content f

def newLength (f : File User) (stat : Npstat) : Nat :=
  if stat.length = 0xFFFFFFFFFFFFFFFF then f.length else stat.length.toNat

/-- The fields that the request has are as it says, and the others as they were. -/
structure Done (stat : Npstat) (f g : File User) : Prop where
  name : g.name = if stat.name = [] then f.name else stat.name
  perm : g.perm = if stat.mode = 0xFFFFFFFF then f.perm else stat.mode
  mtime : g.mtime = if stat.mtime = 0xFFFFFFFF then f.mtime else stat.mtime
  length : g.length = newLength f stat
  content : content g = (content f).map fun bytes => resized bytes (newLength f stat)

/-- The function comes back, with an Rwstat for the whole change and without one for none. -/
def Whole (stat : Npstat) (f : File User) (result : Option (File User × Bool)) : Prop :=
  ∃ g reply, result = some (g, reply) ∧ (reply = true → Done stat f g) ∧ (reply = false → Same f g)

def AllOrNothing (stat : Npstat) (f : File User) (locks : Locks) (result : Option (File User × Bool × Locks)) : Prop :=
  ∃ g reply, result = some (g, reply, locks) ∧ (reply = true → Done stat f g) ∧ (reply = false → Same f g)

/-- Someone else than the owner asks for a mode or a time. -/
def Forbidden (f : File User) (user : Option User) (stat : Npstat) : Prop :=
  stranger f user = true ∧ (stat.mode ≠ 0xFFFFFFFF ∨ stat.mtime ≠ 0xFFFFFFFF)

/-- The mode and the time are to stay, or to be what they are. -/
def NothingNew (f : File User) (stat : Npstat) : Prop :=
  (stat.mode = 0xFFFFFFFF ∨ stat.mode = f.perm) ∧ (stat.mtime = 0xFFFFFFFF ∨ stat.mtime = f.mtime)

/-- `truncate_file` changes nothing: it is not asked to, or there is no memory. -/
def Untouched (blksize : Nat) (f : File User) (user : Option User) (stat : Npstat) (memory : Memory) : Prop :=
  checkPerm f.perm f.uid user 2 ≠ .granted ∨ f.perm &&& dmdir ≠ 0 ∨
    stat.length ≠ 0 ∧ (Refused blksize stat.length.toNat memory.length ∨
      f.data = .null ∧ memory.length = false)

/-- The length is changed so that the rest of the request comes out right. A length that is taken back after an
error needs the old bytes still to be there; one that stays without an Rwstat must be the old one. -/
def Resizes (blksize : Nat) (f : File User) (user : Option User) (stat : Npstat) (memory : Memory) : Prop :=
  let got := room blksize stat.length.toNat
  (stat.length = 0 ∨ got ≠ 0 ∨ f.data = .null) ∧
    ((Forbidden f user stat ∧ memory.record = true ∧ f.length ≤ got) ∨
      (Forbidden f user stat ∧ memory.record = false ∧ min stat.length.toNat got = f.length) ∨
      (¬ Forbidden f user stat ∧ memory.reply = true ∧ stat.length.toNat ≤ got) ∨
      (¬ Forbidden f user stat ∧ memory.reply = false ∧ min stat.length.toNat got = f.length ∧ NothingNew f stat))

/-- The requests that are carried out whole or not at all. A new name is one only where it is refused at once. -/
def Carried (blksize : Nat) (dotu : Bool) (parent : Option (Dir User)) (user : Option User) (stat : Npstat)
    (memory : Memory) (f : File User) : Prop :=
  ¬ (f.perm &&& special ≠ 0 ∧ dotu = true) ∧
    ((stat.name ≠ [] ∧ ∃ dir, parent = some dir ∧ (checkPerm dir.perm dir.uid user 2 ≠ .granted ∨
        memory.name = true ∧ stat.name = dotdot)) ∨
      (stat.name = [] ∧ stat.length = 0xFFFFFFFFFFFFFFFF ∧
        (Forbidden f user stat ∨ memory.reply = true ∨ NothingNew f stat)) ∨
      (stat.name = [] ∧ stat.length ≠ 0xFFFFFFFFFFFFFFFF ∧
        (Untouched blksize f user stat memory ∨ Resizes blksize f user stat memory)))

theorem resized_self (bytes : List UInt8) : resized bytes bytes.length = bytes := by
  rw [resized, List.take_length, Nat.sub_self, List.replicate_zero, List.append_nil]

/-- What is kept of a file, and the zeros behind it, begin with the bytes of the new length. -/
theorem take_resized {bytes : List UInt8} {length size : Nat} (fits : length ≤ size) :
    (bytes.take size ++ List.replicate (length - bytes.length) 0).take length = resized bytes length := by
  rw [resized]
  by_cases shorter : length ≤ bytes.length
  · rw [Nat.sub_eq_zero_of_le shorter, List.replicate_zero, List.append_nil, List.append_nil, List.take_take,
      Nat.min_eq_left fits]
  · rw [List.take_of_length_le (l := bytes) (i := size) (by omega), List.take_of_length_le (l := bytes) (by omega),
      List.take_of_length_le]
    rw [List.length_append, List.length_replicate]
    omega

theorem resized_length (bytes : List UInt8) (length : Nat) : (resized bytes length).length = length := by
  rw [resized, List.length_append, List.length_take, List.length_replicate]
  omega

omit [DecidableEq User] in
theorem setLength_backs {f : File User} {bytes : List UInt8} (length : Nat) (old : f.length = bytes.length)
    (backs : Backs f (bytes.take f.datasize)) :
    ∃ data, setLength f length = some { f with data, length := min length f.datasize } ∧
      Backs { f with data } (bytes.take f.datasize ++
        List.replicate (min length f.datasize - bytes.length) 0) := by
  have cut : (if f.datasize < length then f.datasize else length) = min length f.datasize := by
    split <;> omega
  obtain ⟨spare, cells, size, small⟩ := backs
  rw [setLength, cut]
  by_cases longer : f.length < min length f.datasize
  · have whole : bytes.take f.datasize = bytes := List.take_of_length_le (by omega)
    rw [whole] at cells size ⊢
    obtain ⟨stored, done, after⟩ := Data.store_of_bytes cells bytes.length
      (List.replicate (min length f.datasize - bytes.length) 0) (Nat.le_refl _)
      (by rw [List.length_replicate]; omega)
    rw [Overwrite.overwrite_end] at after
    refine ⟨stored, by rw [if_pos longer, old, done, Option.map_some], _, after, ?_, small⟩
    dsimp only
    rw [List.length_append, List.length_drop, List.length_replicate]
    omega
  · refine ⟨f.data, if_neg longer, ?_⟩
    rw [Nat.sub_eq_zero_of_le (by omega), List.replicate_zero, List.append_nil]
    exact ⟨spare, cells, size, small⟩

omit [DecidableEq User] in
/-- What the end without an error leaves: the bytes, in memory of whole blocks if there is any. -/
theorem settle_holds {blksize : Nat} {f : File User} {bytes : List UInt8} (positive : 0 < blksize)
    (small : blksize < 2 ^ 31) (holds : Holds f bytes) (stat : Npstat) (memory : Bool) :
    ∃ data datasize, settle blksize f stat memory = some { f with data, datasize } ∧
      Holds { f with data, datasize } bytes := by
  obtain ⟨backs, length⟩ := holds
  rw [settle]
  by_cases stays : stat.length = 0xFFFFFFFFFFFFFFFF
  · exact ⟨f.data, f.datasize, if_pos stays, backs, length⟩
  · obtain ⟨data, datasize, ok, truncated, spare, cells, size, short⟩ := truncateFile_own positive small backs memory
    dsimp only at cells size short
    have rest : (datasize + 2 ^ 64 - f.length) % 2 ^ 64 = spare.length := by omega
    obtain ⟨stored, done, after⟩ := Data.store_of_bytes cells f.length
      (List.replicate spare.length 0) (by omega) (by rw [List.length_replicate]; omega)
    rw [length, Overwrite.overwrite_end, List.map_append, List.append_assoc] at after
    refine ⟨stored, datasize, ?_, ⟨_, after, ?_, short⟩, length⟩
    · rw [if_neg stays, length, truncated, Option.bind_some]
      dsimp only
      rw [← length, rest, done, Option.map_some]
    · dsimp only
      rw [List.length_append, List.length_map, List.length_drop, List.length_replicate]
      omega

omit [DecidableEq User] in
/-- The old length is put back, where the bytes are still there. -/
theorem undo_backs {blksize : Nat} {f : File User} {kept bytes : List UInt8} (positive : 0 < blksize)
    (small : blksize < 2 ^ 31) (backs : Backs f kept) (start : kept.take bytes.length = bytes) (memory : Bool) :
    ∃ data datasize, undo blksize f { Old.none with length := bytes.length } memory =
        some { f with data, datasize, length := bytes.length } ∧
      Holds { f with data, datasize, length := bytes.length } bytes := by
  have backs := backs.take bytes.length
  rw [start] at backs
  obtain ⟨data, datasize, ok, truncated, after⟩ := truncateFile_own positive small
    (f := { f with length := bytes.length }) backs memory
  have short : bytes.length ≠ 2 ^ 64 - 1 := by
    obtain ⟨spare, -, size, short⟩ := backs
    omega
  refine ⟨data, datasize, ?_, after, rfl⟩
  simp only [undo, Old.none, if_true, if_neg short]
  rw [truncated, Option.map_some]

theorem changeMode_stopped {user : Option User} {stat : Npstat} {p : Progress User} (stopped : p.stopped.isSome) :
    changeMtime user stat (changeMode user stat p) = p := by
  rw [changeMode, if_pos (.inl stopped), changeMtime, if_pos (.inl stopped)]

theorem changeMode_forbidden {user : Option User} {stat : Npstat} {p : Progress User} (going : p.stopped = none)
    (forbidden : Forbidden p.file user stat) :
    changeMtime user stat (changeMode user stat p) = { p with stopped := some true } := by
  obtain ⟨other, asked⟩ := forbidden
  rw [changeMode]
  by_cases mode : stat.mode = 0xFFFFFFFF
  · have mtime := asked.resolve_left (not_not_intro mode)
    rw [if_pos (.inr mode), changeMtime, if_neg (by simp [going, mtime]), if_pos other]
  · rw [if_neg (by simp [going, mode]), if_pos other, changeMtime, if_pos (.inl rfl)]

theorem changeMode_allowed {user : Option User} {stat : Npstat} {p : Progress User} (going : p.stopped = none)
    (allowed : ¬ Forbidden p.file user stat) :
    ∃ old, changeMtime user stat (changeMode user stat p) =
      ⟨{ p.file with
        perm := if stat.mode = 0xFFFFFFFF then p.file.perm else stat.mode
        mtime := if stat.mtime = 0xFFFFFFFF then p.file.mtime else stat.mtime }, old, none⟩ := by
  obtain ⟨f, old, stopped⟩ := p
  subst going
  have owner : (stat.mode ≠ 0xFFFFFFFF ∨ stat.mtime ≠ 0xFFFFFFFF) → ¬ stranger f user = true :=
    fun asked other => allowed ⟨other, asked⟩
  by_cases mode : stat.mode = 0xFFFFFFFF
  · rw [changeMode, if_pos (.inr mode), if_pos mode, changeMtime]
    by_cases mtime : stat.mtime = 0xFFFFFFFF
    · rw [if_pos (.inr mtime), if_pos mtime]
      exact ⟨old, rfl⟩
    · rw [if_neg (by simp [mtime]), if_neg (owner (.inr mtime)), if_neg mtime]
      exact ⟨_, rfl⟩
  · rw [changeMode, if_neg (by simp [mode]), if_neg (owner (.inl mode)), if_neg mode, changeMtime]
    by_cases mtime : stat.mtime = 0xFFFFFFFF
    · rw [if_pos (.inr mtime), if_pos mtime]
      exact ⟨_, rfl⟩
    · rw [if_neg (by simp [mtime]), if_neg, if_neg mtime]
      · exact ⟨_, rfl⟩
      · exact owner (.inl mode)

omit [DecidableEq User] in
theorem whole_some {stat : Npstat} {f g : File User} {reply : Bool} :
    Whole stat f (some (g, reply)) ↔ (reply = true → Done stat f g) ∧ (reply = false → Same f g) := by
  constructor
  · rintro ⟨_, _, same, rest⟩
    obtain ⟨rfl, rfl⟩ := Prod.mk.inj (Option.some.inj same)
    exact rest
  · exact fun rest => ⟨g, reply, rfl, rest⟩

omit [DecidableEq User] in
theorem not_whole_none (stat : Npstat) (f : File User) : ¬ Whole stat f none := by
  rintro ⟨_, _, same, -⟩
  exact absurd same.symm (Option.some_ne_none _)

omit [DecidableEq User] in
/-- A stop before anything was changed. -/
theorem whole_of_stopped {blksize : Nat} {f : File User} {bytes : List UInt8} (positive : 0 < blksize)
    (small : blksize < 2 ^ 31) (holds : Holds f bytes) (stat : Npstat) (memory : Memory) (raised : Bool) {old : Old}
    (unchanged : old = .none ∨ old = { Old.none with length := bytes.length }) :
    Whole stat f (finish blksize stat memory ⟨f, old, some raised⟩) := by
  have same : ∀ {data datasize}, Holds { f with data, datasize } bytes → Same f { f with data, datasize } :=
    fun after => ⟨rfl, rfl, rfl, rfl, (content_of_holds after).trans (content_of_holds holds).symm⟩
  rw [finish]
  by_cases undone : some raised = some true ∧ memory.record = true
  · rw [if_pos undone]
    rcases unchanged with rfl | rfl
    · exact ⟨f, false, rfl, nofun, fun _ => same holds⟩
    · obtain ⟨data, datasize, done, after⟩ := undo_backs positive small holds.1 List.take_length memory.again
      dsimp only
      rw [done, Option.map_some]
      have length := holds.2
      refine ⟨_, false, rfl, nofun, fun _ => ⟨rfl, rfl, rfl, length.symm, ?_⟩⟩
      rw [content_of_holds after, content_of_holds holds]
  · obtain ⟨data, datasize, done, after⟩ := settle_holds positive small holds stat memory.again
    rw [if_neg undone, done, Option.map_some]
    exact ⟨_, false, rfl, nofun, fun _ => same after⟩

/-- The mode and the time are changed too: what comes out is right if and only if the length is. -/
theorem whole_allowed_iff {blksize : Nat} {f g : File User} {bytes : List UInt8} (positive : 0 < blksize)
    (small : blksize < 2 ^ 31) {user : Option User} {stat : Npstat} (memory : Memory) (old : Old)
    (unnamed : stat.name = []) (before : Holds f bytes) (holds : Holds g (resized bytes g.length))
    (same : g = { f with data := g.data, datasize := g.datasize, length := g.length })
    (allowed : ¬ Forbidden f user stat) :
    Whole stat f (finish blksize stat memory (changeMtime user stat (changeMode user stat ⟨g, old, none⟩))) ↔
      memory.reply = true ∧ g.length = newLength f stat ∨
        memory.reply = false ∧ g.length = f.length ∧ NothingNew f stat := by
  have allowed' : ¬ Forbidden g user stat := by
    rw [same]
    exact allowed
  obtain ⟨old', changed⟩ := changeMode_allowed (p := ⟨g, old, none⟩) rfl allowed'
  obtain ⟨data, datasize, done, after⟩ := settle_holds (f := { g with
    perm := if stat.mode = 0xFFFFFFFF then g.perm else stat.mode
    mtime := if stat.mtime = 0xFFFFFFFF then g.mtime else stat.mtime }) positive small holds stat memory.again
  have contents := content_of_holds after
  have first := content_of_holds before
  have name : g.name = f.name := by rw [same]
  have perm : g.perm = f.perm := by rw [same]
  have mtime : g.mtime = f.mtime := by rw [same]
  have asked : ∀ {asked was : UInt32}, (if asked = 0xFFFFFFFF then was else asked) = was ↔
      asked = 0xFFFFFFFF ∨ asked = was := by
    intro asked was
    by_cases absent : asked = 0xFFFFFFFF
    · rw [if_pos absent]
      exact iff_of_true rfl (.inl absent)
    · rw [if_neg absent]
      exact (or_iff_right absent).symm
  rw [changed, finish, if_neg (by simp), done, Option.map_some, Option.isNone_none, Bool.true_and, whole_some]
  cases memory.reply with
  | true =>
      simp only [forall_const, reduceCtorEq, false_implies, and_true, true_and, false_and, or_false]
      refine ⟨fun done => done.length, fun length => ⟨?_, ?_, ?_, length, ?_⟩⟩
      · rw [if_pos unnamed]
        exact name
      · dsimp only
        rw [perm]
      · dsimp only
        rw [mtime]
      · rw [contents, first, ← length]
        rfl
  | false =>
      simp only [forall_const, reduceCtorEq, false_implies, true_and, false_and, false_or]
      refine ⟨fun unchanged => ⟨unchanged.length, ?_, ?_⟩,
        fun ⟨length, newPerm, newMtime⟩ => ⟨name, ?_, ?_, length, ?_⟩⟩
      · exact asked.mp (perm ▸ unchanged.perm)
      · exact asked.mp (mtime ▸ unchanged.mtime)
      · dsimp only
        rw [perm]
        exact asked.mpr newPerm
      · dsimp only
        rw [mtime]
        exact asked.mpr newMtime
      · rw [contents, first, length, before.2, resized_self]

omit [DecidableEq User] in
/-- An error comes after the length was changed. -/
theorem whole_forbidden_iff {blksize : Nat} {f g : File User} {bytes kept : List UInt8} (positive : 0 < blksize)
    (small : blksize < 2 ^ 31) {stat : Npstat} (memory : Memory) (before : Holds f bytes)
    (holds : Holds g (resized bytes g.length)) (backs : Backs g kept)
    (start : bytes.length ≤ g.datasize → kept.take bytes.length = bytes)
    (same : g = { f with data := g.data, datasize := g.datasize, length := g.length }) :
    Whole stat f (finish blksize stat memory ⟨g, { Old.none with length := f.length }, some true⟩) ↔
      memory.record = true ∧ f.length ≤ g.datasize ∨ memory.record = false ∧ g.length = f.length := by
  have first := content_of_holds before
  rw [finish]
  cases record : memory.record with
  | false =>
      obtain ⟨data, datasize, done, after⟩ := settle_holds positive small holds stat memory.again
      rw [if_neg (by simp), done, Option.map_some, Option.isNone_some, Bool.false_and, whole_some]
      simp only [reduceCtorEq, false_implies, true_and, forall_const, false_and, false_or]
      refine ⟨Same.length, fun length => ⟨?_, ?_, ?_, length, ?_⟩⟩
      · rw [same]
      · rw [same]
      · rw [same]
      · rw [content_of_holds after, first, length, before.2, resized_self]
  | true =>
      rw [if_pos ⟨rfl, rfl⟩]
      simp only [true_and, reduceCtorEq, false_and, or_false]
      constructor
      · intro whole
        by_contra short
        obtain ⟨spare, cells, size, -⟩ := backs
        obtain ⟨⟨front, -, tight, narrow⟩, length⟩ := before
        have wide : f.length ≠ 2 ^ 64 - 1 := by omega
        obtain ⟨h, reply, finished, -, unchanged⟩ := whole
        obtain ⟨restored, undone, result⟩ := Option.map_eq_some_iff.mp finished
        obtain ⟨rfl, rfl⟩ := Prod.mk.inj result
        simp only [undo, Old.none, if_true, if_neg wide, Option.map_eq_some_iff] at undone
        obtain ⟨⟨_, ok⟩, truncated, rfl⟩ := undone
        have lost := content_of_short (f := { g with length := f.length }) cells
          (by rw [List.length_append, List.length_map]; dsimp only; omega) truncated
        have back := (unchanged rfl).content
        rw [lost, first] at back
        exact Option.some_ne_none _ back.symm
      · intro enough
        obtain ⟨data, datasize, done, after⟩ := undo_backs positive small backs (start (before.2 ▸ enough)) memory.again
        rw [before.2, done, Option.map_some, Option.isNone_some, Bool.false_and, whole_some]
        simp only [reduceCtorEq, false_implies, true_and, forall_const]
        refine ⟨?_, ?_, ?_, before.2.symm, ?_⟩
        · rw [same]
        · rw [same]
        · rw [same]
        · rw [content_of_holds after, first]

theorem changeLength_touched {blksize : Nat} {f : File User} {user : Option User} {stat : Npstat} {memory : Memory}
    (asked : stat.length ≠ 0xFFFFFFFFFFFFFFFF) (touched : ¬ Untouched blksize f user stat memory) :
    changeLength blksize user stat memory ⟨f, .none, none⟩ =
      (truncateFile blksize f stat.length.toNat memory.length).bind fun
        | (g, false) => some ⟨g, { Old.none with length := f.length }, some true⟩
        | (g, true) => (setLength g stat.length.toNat).map fun g =>
            ⟨g, { Old.none with length := f.length }, none⟩ := by
  have granted : checkPerm f.perm f.uid user 2 = .granted := by
    by_contra refused
    exact touched (.inl refused)
  have file : ¬ f.perm &&& dmdir ≠ 0 := fun dir => touched (.inr (.inl dir))
  rw [changeLength, if_neg (by simp [asked])]
  dsimp only
  rw [granted]
  dsimp only
  rw [if_neg file]

/-- What a new length leaves, where there is memory for it. -/
theorem changeLength_given {blksize : Nat} {f : File User} {bytes : List UInt8} (holds : Holds f bytes)
    {user : Option User} {stat : Npstat} {memory : Memory} (asked : stat.length ≠ 0xFFFFFFFFFFFFFFFF)
    (touched : ¬ Untouched blksize f user stat memory)
    (given : stat.length = 0 ∨ room blksize stat.length.toNat ≠ 0 ∨ f.data = .null) :
    ∃ g kept, changeLength blksize user stat memory ⟨f, .none, none⟩ =
        some ⟨g, { Old.none with length := f.length }, none⟩ ∧
      g = { f with data := g.data, datasize := g.datasize, length := g.length } ∧
      g.datasize = room blksize stat.length.toNat ∧ g.length = min stat.length.toNat g.datasize ∧
      Backs g kept ∧ Holds g (resized bytes g.length) ∧
      (bytes.length ≤ g.datasize → kept.take bytes.length = bytes) := by
  have zero : stat.length = 0 ↔ stat.length.toNat = 0 := by
    rw [← UInt64.toNat_inj]
    rfl
  have fits : room blksize stat.length.toNat < 2 ^ 31 := by
    by_cases nothing : stat.length = 0
    · rw [zero.mp nothing]
      simp [room, roundUp, blocks]
    · exact Nat.lt_of_not_le fun large => touched (.inr (.inr ⟨nothing, .inl (.inl large)⟩))
  have granted : stat.length ≠ 0 → room blksize stat.length.toNat ≠ 0 ∨ f.data = .null → memory.length = true := by
    intro nonzero some_room
    rw [← Bool.not_eq_false]
    intro denied
    refine touched (.inr (.inr ⟨nonzero, ?_⟩))
    exact some_room.imp (fun room => .inr ⟨room, denied⟩) fun null => ⟨null, denied⟩
  have enough : stat.length.toNat = 0 ∨ room blksize stat.length.toNat ≠ 0 ∧ memory.length = true ∨
      f.data = .null ∧ memory.length = true := by
    by_cases nothing : stat.length = 0
    · exact .inl (zero.mp nothing)
    · have some_room := given.resolve_left nothing
      have memory := granted nothing some_room
      exact .inr (some_room.imp (⟨·, memory⟩) (⟨·, memory⟩))
  obtain ⟨data, truncated, backs⟩ := truncateFile_given holds.1 fits enough
  obtain ⟨stored, done, after⟩ := setLength_backs stat.length.toNat
    (f := { f with data, datasize := room blksize stat.length.toNat }) holds.2 backs
  dsimp only at done after
  refine ⟨{ f with
    data := stored
    datasize := room blksize stat.length.toNat
    length := min stat.length.toNat (room blksize stat.length.toNat) }, _, ?_, rfl, rfl, rfl, after, ⟨?_, ?_⟩, ?_⟩
  · rw [changeLength_touched asked touched, truncated, Option.bind_some]
    dsimp only
    rw [done, Option.map_some]
  · have first := after.take (min stat.length.toNat (room blksize stat.length.toNat))
    rw [take_resized (Nat.min_le_right _ _)] at first
    exact first
  · dsimp only
    rw [resized_length]
  · intro inside
    dsimp only at inside ⊢
    rw [List.take_of_length_le inside, List.take_left]

/-- A length whose memory is 0 modulo 4 GiB frees what the file has. -/
theorem changeLength_freed {blksize : Nat} {f : File User} {bytes : List UInt8} (holds : Holds f bytes)
    {user : Option User} {stat : Npstat} {memory : Memory} (asked : stat.length ≠ 0xFFFFFFFFFFFFFFFF)
    (touched : ¬ Untouched blksize f user stat memory)
    (freed : ¬ (stat.length = 0 ∨ room blksize stat.length.toNat ≠ 0 ∨ f.data = .null)) :
    changeLength blksize user stat memory ⟨f, .none, none⟩ =
        some ⟨{ f with data := .freed }, { Old.none with length := f.length }, some true⟩ := by
  rw [not_or, not_or, not_ne_iff] at freed
  obtain ⟨nonzero, nothing, some_data⟩ := freed
  have size : stat.length.toNat ≠ 0 := fun zero => nonzero (UInt64.toNat_inj.mp zero)
  have none : intOf (roundUp blksize stat.length.toNat) = 0 := by
    rw [intOf, ← room, nothing]
    rfl
  rw [changeLength_touched asked touched, truncateFile, if_neg size]
  dsimp only
  rw [none]
  obtain ⟨⟨spare, cells, -, -⟩, -⟩ := holds
  cases data : f.data with
  | freed => simp [data, Data.cells] at cells
  | null => exact absurd data some_data
  | block own => rw [Data.realloc, if_pos rfl, Option.map_some, Option.bind_some]

/-- Where the length stays, whatever comes after it. -/
theorem whole_of_untouched {blksize : Nat} {f : File User} {bytes : List UInt8} (positive : 0 < blksize)
    (small : blksize < 2 ^ 31) (holds : Holds f bytes) {user : Option User} {stat : Npstat} {memory : Memory}
    (asked : stat.length ≠ 0xFFFFFFFFFFFFFFFF) (untouched : Untouched blksize f user stat memory) :
    Whole stat f ((changeLength blksize user stat memory ⟨f, .none, none⟩).bind fun p =>
      finish blksize stat memory (changeMtime user stat (changeMode user stat p))) := by
  have stops : ∀ {old : Old} (raised), old = .none ∨ old = { Old.none with length := bytes.length } →
      changeLength blksize user stat memory ⟨f, .none, none⟩ = some ⟨f, old, some raised⟩ →
      Whole stat f ((changeLength blksize user stat memory ⟨f, .none, none⟩).bind fun p =>
        finish blksize stat memory (changeMtime user stat (changeMode user stat p))) := by
    intro old raised unchanged stopped
    rw [stopped, Option.bind_some, changeMode_stopped rfl]
    exact whole_of_stopped positive small holds stat memory raised unchanged
  have begun : ¬ ((none : Option Bool).isSome = true ∨ stat.length = 0xFFFFFFFFFFFFFFFF) := by simp [asked]
  cases permission : checkPerm f.perm f.uid user 2 with
  | denied =>
      refine stops true (.inl rfl) ?_
      rw [changeLength, if_neg begun]
      dsimp only
      rw [permission]
  | nobody =>
      refine stops false (.inl rfl) ?_
      rw [changeLength, if_neg begun]
      dsimp only
      rw [permission]
  | granted =>
      by_cases dir : f.perm &&& dmdir ≠ 0
      · refine stops false (.inl rfl) ?_
        rw [changeLength, if_neg begun]
        dsimp only
        rw [permission]
        exact if_pos dir
      · obtain ⟨nonzero, denied⟩ := (untouched.resolve_left (not_not_intro permission)).resolve_left dir
        have size : stat.length.toNat ≠ 0 := fun zero => nonzero (UInt64.toNat_inj.mp zero)
        have refused : truncateFile blksize f stat.length.toNat memory.length = some (f, false) := by
          rcases denied with refused | ⟨null, denied⟩
          · exact truncateFile_refused holds.1 size refused
          · rw [truncateFile, if_neg size]
            dsimp only
            rw [null, Data.realloc, if_neg (by simp [denied]), Option.map_some, ← null]
        refine stops true (.inr rfl) ?_
        rw [changeLength, if_neg begun]
        dsimp only
        rw [permission]
        dsimp only
        rw [if_neg dir, refused, Option.bind_some, holds.2]

/-- A length that is changed comes out right under exactly this condition. -/
theorem whole_resizes_iff {blksize : Nat} {f : File User} {bytes : List UInt8} (positive : 0 < blksize)
    (small : blksize < 2 ^ 31) (holds : Holds f bytes) {user : Option User} {stat : Npstat} {memory : Memory}
    (unnamed : stat.name = []) (asked : stat.length ≠ 0xFFFFFFFFFFFFFFFF)
    (touched : ¬ Untouched blksize f user stat memory) :
    Whole stat f ((changeLength blksize user stat memory ⟨f, .none, none⟩).bind fun p =>
      finish blksize stat memory (changeMtime user stat (changeMode user stat p))) ↔
      Resizes blksize f user stat memory := by
  rw [Resizes]
  by_cases given : stat.length = 0 ∨ room blksize stat.length.toNat ≠ 0 ∨ f.data = .null
  · obtain ⟨g, kept, changed, same, size, cut, backs, resizes, start⟩ := changeLength_given holds asked touched given
    have forbidden_iff : Forbidden g user stat ↔ Forbidden f user stat := by rw [same]; rfl
    rw [changed, Option.bind_some, and_iff_right given, ← size, ← cut]
    by_cases forbidden : Forbidden f user stat
    · rw [changeMode_forbidden rfl (forbidden_iff.mpr forbidden),
        whole_forbidden_iff positive small memory holds resizes backs start same]
      simp only [forbidden, true_and, not_true_eq_false, false_and, or_false]
    · have target : newLength f stat = stat.length.toNat := if_neg asked
      rw [whole_allowed_iff positive small memory _ unnamed holds resizes same forbidden, target]
      simp only [forbidden, false_and, not_false_eq_true, true_and, false_or]
      have whole : g.length = stat.length.toNat ↔ stat.length.toNat ≤ g.datasize := by omega
      rw [whole]
  · rw [changeLength_freed holds asked touched given, Option.bind_some, changeMode_stopped rfl]
    refine iff_of_false ?_ fun resizes => given resizes.1
    have dangling : ∀ length size memory,
        truncateFile blksize { f with data := .freed, length } size memory = none := by
      intro length size memory
      rw [truncateFile]
      split <;> rfl
    have wide : f.length ≠ 2 ^ 64 - 1 := by
      obtain ⟨⟨spare, -, size, short⟩, length⟩ := holds
      omega
    rw [finish]
    by_cases record : memory.record = true
    · simp only [record, and_self, if_true, undo, Old.none, if_neg wide]
      rw [dangling]
      exact not_whole_none stat f
    · simp only [record, and_false, if_false, settle, if_neg asked, reduceCtorEq]
      rw [dangling]
      exact not_whole_none stat f

theorem change_unnamed_iff {blksize : Nat} {f : File User} {bytes : List UInt8} (positive : 0 < blksize)
    (small : blksize < 2 ^ 31) (holds : Holds f bytes) (dir : Dir User) (locks : Locks) {user : Option User}
    {stat : Npstat} {memory : Memory} (unnamed : stat.name = []) :
    Whole stat f (change blksize dir locks user stat memory f) ↔
      stat.length = 0xFFFFFFFFFFFFFFFF ∧ (Forbidden f user stat ∨ memory.reply = true ∨ NothingNew f stat) ∨
        stat.length ≠ 0xFFFFFFFFFFFFFFFF ∧
          (Untouched blksize f user stat memory ∨ Resizes blksize f user stat memory) := by
  rw [change, changeName, if_pos unnamed, Option.bind_some]
  by_cases asked : stat.length = 0xFFFFFFFFFFFFFFFF
  · have first : changeLength blksize user stat memory ⟨f, .none, none⟩ = some ⟨f, .none, none⟩ := by
      rw [changeLength, if_pos (.inr asked)]
    rw [first, Option.bind_some]
    simp only [asked, true_and, ne_eq, not_true_eq_false, false_and, or_false]
    by_cases forbidden : Forbidden f user stat
    · rw [changeMode_forbidden rfl forbidden]
      exact iff_of_true (whole_of_stopped positive small holds stat memory true (.inl rfl)) (.inl forbidden)
    · have target : newLength f stat = f.length := if_pos asked
      have resizes : Holds f (resized bytes f.length) := by
        rw [holds.2, resized_self]
        exact holds
      rw [whole_allowed_iff positive small memory _ unnamed holds resizes rfl forbidden, target]
      simp only [and_true, true_and, forbidden, false_or]
      cases memory.reply <;> simp
  · simp only [asked, false_and, ne_eq, not_false_eq_true, true_and, false_or]
    by_cases untouched : Untouched blksize f user stat memory
    · exact iff_of_true (whole_of_untouched positive small holds asked untouched) (.inl untouched)
    · rw [whole_resizes_iff positive small holds unnamed asked untouched, or_iff_right untouched]

/-- With both locks held, a new name is refused at once, or nothing comes back. -/
theorem change_named_iff {blksize : Nat} {f : File User} {bytes : List UInt8} (positive : 0 < blksize)
    (small : blksize < 2 ^ 31) (holds : Holds f bytes) (dir : Dir User) {user : Option User} {stat : Npstat}
    {memory : Memory} (named : stat.name ≠ []) :
    Whole stat f (change blksize dir ⟨true, true⟩ user stat memory f) ↔
      checkPerm dir.perm dir.uid user 2 ≠ .granted ∨ memory.name = true ∧ stat.name = dotdot := by
  have stops : ∀ raised, changeName dir ⟨true, true⟩ user stat memory f = some ⟨f, .none, some raised⟩ →
      Whole stat f (change blksize dir ⟨true, true⟩ user stat memory f) := by
    intro raised stopped
    rw [change, stopped, Option.bind_some, changeLength, if_pos (.inl rfl), Option.bind_some, changeMode_stopped rfl]
    exact whole_of_stopped positive small holds stat memory raised (.inl rfl)
  cases permission : checkPerm dir.perm dir.uid user 2 with
  | denied =>
      refine iff_of_true (stops true ?_) (.inl nofun)
      rw [changeName, if_neg named, permission]
  | nobody =>
      refine iff_of_true (stops false ?_) (.inl nofun)
      rw [changeName, if_neg named, permission]
  | granted =>
      rw [or_iff_right (not_not_intro rfl)]
      by_cases right : memory.name = true ∧ stat.name = dotdot
      · refine iff_of_true (stops true ?_) right
        rw [changeName, if_neg named, permission]
        dsimp only
        rw [if_pos right.1, findFile, if_pos right.2, Option.map_some]
      · refine iff_of_false (fun whole => ?_) right
        have endless : changeName dir ⟨true, true⟩ user stat memory f = none := by
          rw [changeName, if_neg named, permission]
          dsimp only
          by_cases copied : memory.name = true
          · rw [if_pos copied, findFile, if_neg fun same => right ⟨copied, same⟩]
            rfl
          · rw [if_neg copied]
        rw [change, endless] at whole
        exact not_whole_none stat f whole

omit [DecidableEq User] in
theorem allOrNothing_of_change {stat : Npstat} {f : File User} {locks : Locks} (result : Option (File User × Bool)) :
    AllOrNothing stat f locks (result.bind fun (g, reply) => some (g, reply, locks)) ↔ Whole stat f result := by
  constructor
  · rintro ⟨g, reply, ran, outcome⟩
    obtain ⟨⟨g', reply'⟩, changed, same⟩ := Option.bind_eq_some_iff.mp ran
    obtain ⟨rfl, rfl, -⟩ := by simpa using same
    exact ⟨_, _, changed, outcome⟩
  · rintro ⟨g, reply, rfl, outcome⟩
    exact ⟨g, reply, rfl, outcome⟩

/-- Exactly such a Twstat is carried out whole or not at all, and gives back its locks. -/
theorem ramfsWstat_allOrNothing_iff {blksize : Nat} {f : File User} {bytes : List UInt8} (positive : 0 < blksize)
    (small : blksize < 2 ^ 31) (holds : Holds f bytes) (dotu : Bool) (parent : Option (Dir User))
    (user : Option User) (stat : Npstat) (memory : Memory) :
    AllOrNothing stat f ⟨false, false⟩ (ramfsWstat blksize dotu parent ⟨false, false⟩ user stat memory f) ↔
      Carried blksize dotu parent user stat memory f := by
  have undefined : ¬ AllOrNothing stat f ⟨false, false⟩ none := by
    rintro ⟨_, _, same, -⟩
    exact absurd same.symm (Option.some_ne_none _)
  rw [ramfsWstat, Carried]
  by_cases odd : f.perm &&& special ≠ 0 ∧ dotu = true
  · rw [if_pos odd]
    exact iff_of_false undefined fun carried => carried.1 odd
  · rw [if_neg odd, and_iff_right odd]
    simp only [acquire, release, Bool.false_eq_true, if_false, if_true, Option.bind_some, Option.map_some]
    by_cases unnamed : stat.name = []
    · rw [if_pos unnamed, allOrNothing_of_change, change_unnamed_iff positive small holds _ _ unnamed]
      simp only [unnamed, ne_eq, not_true_eq_false, false_and, true_and, false_or]
    · rw [if_neg unnamed]
      simp only [unnamed, ne_eq, not_false_eq_true, true_and, false_and, or_false]
      cases parent with
      | none => exact iff_of_false undefined (by simp)
      | some dir =>
          dsimp only
          rw [allOrNothing_of_change, change_named_iff positive small holds dir unnamed]
          simp

/-- A file of one byte, which everyone may write. -/
def letter : File Nat :=
  { name := [97], perm := 0o666, length := 1, atime := 0, mtime := 0, uid := 0, muid := some 0, version := 0,
    data := .block [some 65], datasize := 1 }

theorem letter_holds : Holds letter [65] := ⟨⟨[], rfl, rfl, (by decide : 1 < 2 ^ 31)⟩, rfl⟩

/-- The owner makes it longer. -/
theorem ramfsWstat_longer :
    AllOrNothing ⟨[], 3, 0xFFFFFFFF, 0xFFFFFFFF⟩ letter ⟨false, false⟩
        (ramfsWstat 1 true none ⟨false, false⟩ (some 0) ⟨[], 3, 0xFFFFFFFF, 0xFFFFFFFF⟩ ⟨true, true, true, true, true⟩
          letter) ↔
      Carried 1 true none (some 0) ⟨[], 3, 0xFFFFFFFF, 0xFFFFFFFF⟩ ⟨true, true, true, true, true⟩ letter :=
  ramfsWstat_allOrNothing_iff (by decide) (by decide) letter_holds true none (some 0) _ _

/-- Someone else cuts it to nothing and asks for a mode as well. That is refused, and the byte is gone. -/
theorem ramfsWstat_cut_refused :
    ¬ AllOrNothing ⟨[], 0, 0o600, 0xFFFFFFFF⟩ letter ⟨false, false⟩
      (ramfsWstat 1 true none ⟨false, false⟩ (some 1) ⟨[], 0, 0o600, 0xFFFFFFFF⟩ ⟨true, true, true, true, true⟩
        letter) := by
  rintro ⟨g, reply, ran, -, same⟩
  have outcome : (ramfsWstat 1 true none ⟨false, false⟩ (some 1) ⟨[], 0, 0o600, 0xFFFFFFFF⟩
      ⟨true, true, true, true, true⟩ letter).map (fun result => (content result.1, result.2.1)) =
        some (none, false) := by
    decide
  rw [ran, Option.map_some, Option.some.injEq, Prod.mk.injEq] at outcome
  obtain ⟨lost, refused⟩ := outcome
  have back := (same refused).content
  rw [lost] at back
  exact absurd back (by decide)

end Xcpu.Npfs.Ramfs
