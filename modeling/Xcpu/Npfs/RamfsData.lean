import Xcpu.Lib.Transition
import Xcpu.Npfs.Ramfs

/-!
Reads and writes of a file of `ramfs`, one at a time, next to the array of bytes that they are meant for: what was
never written below the end of the file is zero.
-/

namespace Xcpu.Npfs.Ramfs

open Xcpu Xcpu.Transition

variable {User : Type}

/-- `file_create`, for what is not a directory. -/
def fileCreate (name : List UInt8) (perm : UInt32) (user : User) (now : UInt32) : File User :=
  { name, perm, length := 0, atime := now, mtime := now, uid := user, muid := some user, version := 0,
    data := .null, datasize := 0 }

/-- How much of a write goes where there is memory. The difference is unsigned, and so it is only 0 when the sides
are the same. -/
def cutCount (f : File User) (offset count : Nat) : Nat :=
  if f.datasize < (offset + count) % 2 ^ 64 then
    if f.datasize = offset then 0 else (f.datasize + 2 ^ 64 - offset) % 2 ^ 64 % 2 ^ 32
  else count

/-- The bytes between the end of the file and the start of the write. -/
def fillGap (f : File User) (offset : Nat) : Option Data :=
  if f.length < offset then f.data.store f.length (List.replicate (offset - f.length) 0) else some f.data

/-- The part of `ramfs_write` under the lock: what is left of the count, unless there is no memory. -/
def makeRoom (blksize : Nat) (f : File User) (offset count : Nat) (memory : Bool) :
    Option (File User × Option Nat) :=
  if f.length < (offset + count) % 2 ^ 64 then
    (truncateFile blksize f ((offset + count) % 2 ^ 64) memory).bind fun
      | (f, false) => some (f, none)
      | (f, true) =>
          let count := cutCount f offset count
          if count = 0 then some (f, some 0)
          else (fillGap f offset).map fun data =>
            ({ f with data, length := (offset + count) % 2 ^ 64 }, some count)
  else some (f, some count)

/-- The `memmove` of `ramfs_write`, from a message that has no more than its own bytes. -/
def copyIn (f : File User) (offset : Nat) (data : List UInt8) (count : Nat) : Option Data :=
  if count = 0 then some f.data
  else if count ≤ data.length then f.data.store offset (data.take count) else none

/-- `ramfs_write`, and the count of its answer. `append` is the bit of the fid's mode. -/
def ramfsWrite (blksize : Nat) (f : File User) (user : Option User) (now : UInt32) (append : Bool) (offset : Nat)
    (data : List UInt8) (memory reply : Bool) : Option (File User × Option Nat) :=
  let offset := if append then f.length else offset
  (makeRoom blksize f offset data.length memory).bind fun
    | (f, none) => some (f, none)
    | (f, some count) => (copyIn f offset data count).map fun stored =>
        ({ f with data := stored, mtime := now, atime := now, version := f.version + 1, muid := user },
          if reply then some count else none)

/-- The number of bytes that `ramfs_read` copies. -/
def readSize (f : File User) (offset count : Nat) : Nat :=
  (if f.length < (offset + count) % 2 ^ 64 then intOf ((f.length + 2 ^ 64 - offset) % 2 ^ 64)
    else intOf count).toNat

/-- `ramfs_read` of a file. Neither the buffer nor the answer is looked at before it is used. -/
def ramfsRead (f : File User) (now : UInt32) (offset count : Nat) (memory reply : Bool) :
    Option (File User × List UInt8) :=
  let n := readSize f offset count
  if reply ∧ (n = 0 ∨ memory ∧ n ≤ count) then
    (f.data.load offset n).map fun bytes => ({ f with atime := now }, bytes)
  else none

inductive Event (User : Type)
  | read (now : UInt32) (offset : UInt64) (count : UInt32) (memory reply : Bool)
  | write (user : Option User) (now : UInt32) (append : Bool) (offset : UInt64) (data : List UInt8)
      (memory reply : Bool)

inductive Answer
  | rread (data : List UInt8)
  | rwrite (count : Nat)
  | failed

/-- A file, the bytes that it stands for, and what the last request was answered. -/
structure Trace (User : Type) where
  file : File User
  bytes : List UInt8
  answer : Answer

/-- A write to the array. -/
def put (bytes : List UInt8) (offset : Nat) (data : List UInt8) : List UInt8 :=
  Overwrite.overwrite (bytes ++ List.replicate (offset - bytes.length) 0) offset data

theorem put_length (bytes : List UInt8) (offset : Nat) (data : List UInt8) :
    (put bytes offset data).length = max bytes.length (offset + data.length) := by
  have reaches : (bytes ++ List.replicate (offset - bytes.length) (0 : UInt8)).length = max bytes.length offset := by
    rw [List.length_append, List.length_replicate]
    omega
  rw [put, Overwrite.overwrite_length_max _ _ _ (by omega), reaches]
  omega

/-- Where a write goes. -/
def start (append : Bool) (length : Nat) (offset : UInt64) : Nat := if append then length else offset.toNat

def step (blksize : Nat) (s : Trace User) : Event User → Option (Trace User)
  | .read now offset count memory reply =>
      (ramfsRead s.file now offset.toNat count.toNat memory reply).map fun (file, data) =>
        { file, bytes := s.bytes, answer := .rread data }
  | .write user now append offset data memory reply =>
      (ramfsWrite blksize s.file user now append offset.toNat data memory reply).map fun
        | (file, none) => { file, bytes := s.bytes, answer := .failed }
        | (file, some n) =>
            { file, bytes := put s.bytes (start append s.bytes.length offset) (data.take n), answer := .rwrite n }

/-- The answer is right for the array. -/
def Answered (s : Trace User) (t : Trace User) : Event User → Prop
  | .read _ offset count _ _ => t.answer = .rread ((s.bytes.drop offset.toNat).take count.toNat) ∧ t.bytes = s.bytes
  | .write _ _ append offset data _ _ =>
      (∃ n, t.answer = .rwrite n ∧ n ≤ data.length ∧
        t.bytes = put s.bytes (start append s.bytes.length offset) (data.take n)) ∨
      (t.answer = .failed ∧ t.file = s.file ∧ t.bytes = s.bytes)

/-- After a step the file has the bytes of the array, in memory as large as `datasize` says. -/
def Sparse (s : Trace User) (event : Event User) (t : Trace User) : Prop :=
  content t.file = some t.bytes ∧ t.file.length = t.bytes.length ∧ t.file.length ≤ t.file.datasize ∧
    (∃ cells, t.file.data.cells = some cells ∧ t.file.datasize = cells.length) ∧ Answered s t event

/-- The requests that the code serves right. A read may start behind the end only where the difference, as an
`int`, is not positive; a write that makes the file longer needs less than 2 GiB of memory, unless it gets none. -/
def Served (blksize : Nat) (s : Trace User) : Event User → Prop
  | .read _ offset count memory reply =>
      reply = true ∧ (memory = true ∨ count = 0 ∨ s.file.length ≤ offset.toNat) ∧
        (offset.toNat ≤ s.file.length ∨
          (offset.toNat + count.toNat < 2 ^ 64 ∨ s.file.length < (offset.toNat + count.toNat) % 2 ^ 64) ∧
            (offset.toNat - s.file.length) % 2 ^ 32 ≤ 2 ^ 31)
  | .write _ _ append offset data memory reply =>
      let offset := start append s.file.length offset
      reply = true ∧ offset + data.length ≤ s.file.length ∨
        s.file.length < (offset + data.length) % 2 ^ 64 ∧
          (Refused blksize ((offset + data.length) % 2 ^ 64) memory ∨
            reply = true ∧ memory = true ∧ data ≠ [] ∧ blocks blksize (offset + data.length) < 2 ^ 31)

theorem sparse_of_holds {s : Trace User} {event : Event User} {t : Trace User} (holds : Holds t.file t.bytes)
    (answered : Answered s t event) : Sparse s event t := by
  refine ⟨content_of_holds holds, holds.2, ?_⟩
  obtain ⟨⟨spare, cells, size, -⟩, length⟩ := holds
  exact ⟨by omega, ⟨_, cells, by rw [size, List.length_append, List.length_map]⟩, answered⟩

theorem fileCreate_holds (name : List UInt8) (perm : UInt32) (user : User) (now : UInt32) :
    Holds (fileCreate name perm user now) [] := ⟨⟨[], rfl, rfl, Nat.two_pow_pos 31⟩, rfl⟩

/-- The bytes that are copied are those that there are, whatever overflows on the way. -/
theorem readSize_eq {f : File User} {offset count : Nat} (small : f.length < 2 ^ 31) (wide : offset < 2 ^ 64)
    (narrow : count < 2 ^ 32)
    (right : offset ≤ f.length ∨ (offset + count < 2 ^ 64 ∨ f.length < (offset + count) % 2 ^ 64) ∧
      (offset - f.length) % 2 ^ 32 ≤ 2 ^ 31) :
    readSize f offset count = min count (f.length - offset) := by
  rw [readSize]
  by_cases before : offset ≤ f.length
  · rw [Nat.mod_eq_of_lt (show offset + count < 2 ^ 64 by omega)]
    by_cases beyond : f.length < offset + count
    · have difference : (f.length + 2 ^ 64 - offset) % 2 ^ 64 = f.length - offset := by omega
      rw [if_pos beyond, difference, intOf_small (by omega), Int.toNat_natCast]
      omega
    · rw [if_neg beyond, intOf_small (by omega), Int.toNat_natCast]
      omega
  · obtain ⟨ending, close⟩ := right.resolve_left before
    have beyond : f.length < (offset + count) % 2 ^ 64 := by
      rcases ending with plain | there
      · rw [Nat.mod_eq_of_lt plain]
        omega
      · exact there
    have nothing : intOf ((f.length + 2 ^ 64 - offset) % 2 ^ 64) ≤ 0 := by
      rw [intOf]
      split <;> omega
    rw [if_pos beyond, Int.toNat_of_nonpos nothing]
    omega

theorem ramfsRead_served {f : File User} {bytes : List UInt8} (holds : Holds f bytes) (now : UInt32)
    {offset count : Nat} {memory : Bool} (wide : offset < 2 ^ 64) (narrow : count < 2 ^ 32)
    (room : memory = true ∨ count = 0 ∨ f.length ≤ offset)
    (right : offset ≤ f.length ∨ (offset + count < 2 ^ 64 ∨ f.length < (offset + count) % 2 ^ 64) ∧
      (offset - f.length) % 2 ^ 32 ≤ 2 ^ 31) :
    ramfsRead f now offset count memory true = some ({ f with atime := now }, (bytes.drop offset).take count) := by
  obtain ⟨⟨spare, cells, size, small⟩, length⟩ := holds
  have copied := readSize_eq (by omega) wide narrow right
  have allowed : min count (f.length - offset) = 0 ∨ memory = true ∧ min count (f.length - offset) ≤ count := by
    rcases room with granted | nothing | behind
    · exact .inr ⟨granted, Nat.min_le_left _ _⟩
    · exact .inl (by omega)
    · exact .inl (by omega)
  have loaded : f.data.load offset (min count (f.length - offset)) = some ((bytes.drop offset).take count) := by
    by_cases before : offset ≤ f.length
    · rw [Data.load_of_cells cells (by omega), ← List.take_take, List.take_of_length_le (i := f.length - offset)]
      rw [List.length_drop]
      omega
    · have nothing : min count (f.length - offset) = 0 := by omega
      rw [Data.load, if_pos nothing, List.drop_of_length_le (by omega), List.take_nil]
  rw [ramfsRead, copied, if_pos ⟨rfl, allowed⟩, loaded, Option.map_some]

/-- The copy of a write that starts within the file and ends within its memory. -/
theorem copyIn_of_bytes {f : File User} {bytes : List UInt8} {spare : List (Option UInt8)}
    (cells : f.data.cells = some (bytes.map some ++ spare)) (offset : Nat) (data : List UInt8)
    (inside : offset ≤ bytes.length) (room : offset + data.length ≤ bytes.length + spare.length) :
    ∃ stored, copyIn f offset data data.length = some stored ∧
      stored.cells = some ((Overwrite.overwrite bytes offset data).map some ++
        spare.drop (offset + data.length - bytes.length)) := by
  rw [copyIn]
  by_cases nothing : data.length = 0
  · obtain rfl := List.eq_nil_of_length_eq_zero nothing
    refine ⟨_, if_pos rfl, ?_⟩
    rw [Overwrite.overwrite_nil, cells, List.length_nil, Nat.add_zero, Nat.sub_eq_zero_of_le inside, List.drop_zero]
  · rw [if_neg nothing, if_pos (Nat.le_refl _), List.take_length]
    exact Data.store_of_bytes cells offset data inside room

theorem ramfsWrite_of_room {blksize : Nat} {f g : File User} {append : Bool} {offset : UInt64} {data : List UInt8}
    {memory : Bool} {stored : Data} (user : Option User) (now : UInt32)
    (room : makeRoom blksize f (start append f.length offset) data.length memory = some (g, some data.length))
    (copied : copyIn g (start append f.length offset) data data.length = some stored) :
    ramfsWrite blksize f user now append offset.toNat data memory true =
      some ({ g with data := stored, mtime := now, atime := now, version := g.version + 1, muid := user },
        some data.length) := by
  rw [ramfsWrite, ← start, room, Option.bind_some]
  dsimp only
  rw [copied, Option.map_some, if_pos rfl]

theorem ramfsWrite_inside (blksize : Nat) {f : File User} {bytes : List UInt8} (holds : Holds f bytes)
    (user : Option User) (now : UInt32) (memory : Bool) {append : Bool} {offset : UInt64} {data : List UInt8}
    (inside : start append f.length offset + data.length ≤ f.length) :
    ∃ g, ramfsWrite blksize f user now append offset.toNat data memory true = some (g, some data.length) ∧
      Holds g (put bytes (start append f.length offset) data) := by
  obtain ⟨⟨spare, cells, size, small⟩, length⟩ := holds
  have room : makeRoom blksize f (start append f.length offset) data.length memory = some (f, some data.length) := by
    rw [makeRoom, if_neg]
    rw [Nat.mod_eq_of_lt (by omega)]
    omega
  have whole : put bytes (start append f.length offset) data =
      Overwrite.overwrite bytes (start append f.length offset) data := by
    rw [put, Nat.sub_eq_zero_of_le (by omega), List.replicate_zero, List.append_nil]
  have longest : (put bytes (start append f.length offset) data).length = bytes.length := by
    rw [put_length]
    omega
  obtain ⟨stored, copied, after⟩ := copyIn_of_bytes cells (start append f.length offset) data
    (by omega) (by omega)
  refine ⟨_, ramfsWrite_of_room user now room copied, ⟨spare, ?_, longest.symm ▸ size, small⟩,
    longest.symm ▸ length⟩
  dsimp only
  rw [whole, after, Nat.sub_eq_zero_of_le (by omega), List.drop_zero]

theorem ramfsWrite_refused {blksize : Nat} {f : File User} {bytes : List UInt8} (holds : Holds f bytes)
    (user : Option User) (now : UInt32) {append : Bool} {offset : UInt64} {data : List UInt8} {memory : Bool}
    (reply : Bool)
    (longer : f.length < (start append f.length offset + data.length) % 2 ^ 64)
    (refused : Refused blksize ((start append f.length offset + data.length) % 2 ^ 64) memory) :
    ramfsWrite blksize f user now append offset.toNat data memory reply = some (f, none) := by
  rw [ramfsWrite, ← start, makeRoom, if_pos longer, truncateFile_refused holds.1 (by omega) refused, Option.bind_some]
  rfl

/-- The memory reaches to the end of the write, and the bytes to its start. -/
theorem makeRoom_longer {blksize : Nat} {f : File User} {bytes : List UInt8} (positive : 0 < blksize)
    (holds : Holds f bytes) {offset count : Nat} (longer : f.length < offset + count) (nonzero : count ≠ 0)
    (fits : blocks blksize (offset + count) < 2 ^ 31) :
    ∃ gap spare, makeRoom blksize f offset count true =
        some ({ f with data := gap, datasize := blocks blksize (offset + count), length := offset + count },
          some count) ∧
      gap.cells = some ((bytes ++ List.replicate (offset - bytes.length) 0).map some ++ spare) ∧
      blocks blksize (offset + count) = (bytes ++ List.replicate (offset - bytes.length) 0).length + spare.length := by
  have room := le_blocks positive (offset + count)
  obtain ⟨backs, length⟩ := holds
  obtain ⟨g, grown, truncated, rfl, spare, cells, size, small⟩ :=
    truncateFile_backs positive backs (offset + count) (by omega) fits (by omega)
  dsimp only at cells size small
  have uncut : cutCount { f with data := grown, datasize := blocks blksize (offset + count) } offset count = count := by
    rw [cutCount, if_neg]
    rw [Nat.mod_eq_of_lt (by omega)]
    dsimp only
    omega
  have filled : ∃ gap, fillGap { f with data := grown, datasize := blocks blksize (offset + count) } offset = some gap ∧
      gap.cells = some ((bytes ++ List.replicate (offset - bytes.length) 0).map some ++
        spare.drop (offset - bytes.length)) := by
    rw [fillGap]
    dsimp only
    by_cases behind : f.length < offset
    · obtain ⟨gap, stored, after⟩ := Data.store_of_bytes cells bytes.length
        (List.replicate (offset - bytes.length) 0) (Nat.le_refl _) (by rw [List.length_replicate]; omega)
      rw [Overwrite.overwrite_end, List.length_replicate, Nat.add_sub_cancel_left] at after
      exact ⟨gap, by rw [if_pos behind, length, stored], after⟩
    · refine ⟨grown, if_neg behind, ?_⟩
      rw [Nat.sub_eq_zero_of_le (by omega), List.replicate_zero, List.append_nil, List.drop_zero, cells]
  obtain ⟨gap, filled, after⟩ := filled
  refine ⟨gap, _, ?_, after, ?_⟩
  · rw [makeRoom, Nat.mod_eq_of_lt (by omega), if_pos longer, truncated, Option.bind_some]
    dsimp only
    rw [uncut, if_neg nonzero, filled, Option.map_some, Nat.mod_eq_of_lt (by omega)]
  · rw [List.length_append, List.length_replicate, List.length_drop]
    omega

/-- The file gets longer: the gap is filled, and the data comes behind it. -/
theorem ramfsWrite_longer {blksize : Nat} {f : File User} {bytes : List UInt8} (positive : 0 < blksize)
    (holds : Holds f bytes) (user : Option User) (now : UInt32) {append : Bool} {offset : UInt64} {data : List UInt8}
    (longer : f.length < start append f.length offset + data.length) (written : data ≠ [])
    (fits : blocks blksize (start append f.length offset + data.length) < 2 ^ 31) :
    ∃ g, ramfsWrite blksize f user now append offset.toNat data true true = some (g, some data.length) ∧
      Holds g (put bytes (start append f.length offset) data) := by
  have nonzero : data.length ≠ 0 := fun nothing => written (List.eq_nil_of_length_eq_zero nothing)
  have length := holds.2
  have enough := le_blocks positive (start append f.length offset + data.length)
  obtain ⟨gap, spare, room, cells, size⟩ := makeRoom_longer positive holds longer nonzero fits
  obtain ⟨stored, copied, after⟩ := copyIn_of_bytes (f := { f with
      data := gap
      datasize := blocks blksize (start append f.length offset + data.length)
      length := start append f.length offset + data.length }) cells
    (start append f.length offset) data (by rw [List.length_append, List.length_replicate]; omega) (by omega)
  have longest := put_length bytes (start append f.length offset) data
  rw [List.length_append, List.length_replicate] at size
  refine ⟨_, ramfsWrite_of_room user now room copied, ⟨_, after, ?_, fits⟩, ?_⟩
  · rw [longest, List.length_drop, List.length_append, List.length_replicate]
    dsimp only
    omega
  · dsimp only
    omega

/-- Such a request is answered right, without a step out of the memory, and the file goes on standing for the
array. -/
theorem step_served {blksize : Nat} (positive : 0 < blksize) {s : Trace User} {event : Event User}
    (holds : Holds s.file s.bytes) (served : Served blksize s event) :
    ∃ t, step blksize s event = some t ∧ Sparse s event t ∧ Holds t.file t.bytes := by
  have length := holds.2
  cases event with
  | read now offset count memory reply =>
      obtain ⟨rfl, room, right⟩ := served
      have narrow : count.toNat = 0 ↔ count = 0 := by
        rw [← UInt32.toNat_inj]
        rfl
      have ran := ramfsRead_served holds now offset.toNat_lt count.toNat_lt
        (room.imp_right (Or.imp_left narrow.mpr)) right
      have kept : Holds { s.file with atime := now } s.bytes := holds
      refine ⟨⟨{ s.file with atime := now }, s.bytes, .rread ((s.bytes.drop offset.toNat).take count.toNat)⟩,
        by rw [step, ran, Option.map_some], sparse_of_holds kept ⟨rfl, rfl⟩, kept⟩
  | write user now append offset data memory reply =>
      have whole : data.take data.length = data := List.take_length
      have answered : ∀ {g : File User}, Holds g (put s.bytes (start append s.file.length offset) data) →
          ramfsWrite blksize s.file user now append offset.toNat data memory reply = some (g, some data.length) →
          ∃ t, step blksize s (.write user now append offset data memory reply) = some t ∧
            Sparse s (.write user now append offset data memory reply) t ∧ Holds t.file t.bytes := by
        intro g kept ran
        rw [length] at kept
        refine ⟨⟨g, put s.bytes (start append s.bytes.length offset) (data.take data.length), .rwrite data.length⟩,
          by rw [step, ran, Option.map_some], ?_, whole.symm ▸ kept⟩
        exact sparse_of_holds (whole.symm ▸ kept) (.inl ⟨data.length, rfl, Nat.le_refl _, rfl⟩)
      rcases served with ⟨rfl, inside⟩ | ⟨longer, refused | ⟨rfl, rfl, written, fits⟩⟩
      · obtain ⟨g, ran, kept⟩ := ramfsWrite_inside blksize holds user now memory inside
        exact answered kept ran
      · have ran := ramfsWrite_refused holds user now reply longer refused
        refine ⟨⟨s.file, s.bytes, .failed⟩, by rw [step, ran, Option.map_some], ?_, holds⟩
        exact sparse_of_holds holds (.inr ⟨rfl, rfl, rfl⟩)
      · have enough := le_blocks positive (start append s.file.length offset + data.length)
        rw [Nat.mod_eq_of_lt (by omega)] at longer
        obtain ⟨g, ran, kept⟩ := ramfsWrite_longer positive holds user now longer written fits
        exact answered kept ran

/-- Reads and writes of a new file that the code serves right, in any order and any number, are those of a sparse
array of bytes. -/
theorem fileRun_sparse {blksize : Nat} (positive : 0 < blksize) (name : List UInt8) (perm : UInt32) (user : User)
    (now : UInt32) (events : List (Event User))
    (guarded : Guarded (step blksize) (Served blksize) ⟨fileCreate name perm user now, [], .failed⟩ events) :
    EachStep (step blksize) Sparse ⟨fileCreate name perm user now, [], .failed⟩ events :=
  have progress : ∀ (s : Trace User) (event : Event User), Holds s.file s.bytes → Served blksize s event →
      ∃ t, step blksize s event = some t ∧ Sparse s event t ∧ Holds t.file t.bytes :=
    fun _ _ holds served => step_served positive holds served
  eachStep_of_progress (step blksize) progress (fileCreate_holds name perm user now) guarded

/-- A write behind the end of an empty file, with a gap. -/
theorem fileRun_sparse_gap : EachStep (step 8192) Sparse ⟨fileCreate [97] 0o644 () 0, [], .failed⟩
    [.write none 1 false 4 [65] true true] :=
  fileRun_sparse (by decide) [97] 0o644 () 0 _ ⟨.inr ⟨by decide, .inr ⟨rfl, rfl, by decide, by decide⟩⟩,
    fun _ _ => trivial⟩

/-- A read of an empty file 4 GiB behind its end: as an `int` the difference is 1, and a byte is copied from
memory that there is not. -/
theorem fileRun_read_behind : ¬ EachStep (step 8192) Sparse ⟨fileCreate [97] 0o644 () 0, [], .failed⟩
    [.read 1 0xFFFFFFFF 1 true true] := by
  rintro ⟨next, stepped, -⟩
  have outside : step 8192 ⟨fileCreate [97] 0o644 () 0, [], .failed⟩ (.read 1 0xFFFFFFFF 1 true true) = none := by
    decide
  exact Option.some_ne_none next (stepped.symm.trans outside)

end Xcpu.Npfs.Ramfs
