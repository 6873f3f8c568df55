import Xcpu.Lib.Cells

/-!
A file of `ramfs` and the memory behind it. The memory grows in whole blocks, and its size goes through an
`int` before `realloc` gets it, so what a caller asks for and what it gets can differ by multiples of 4 GiB.
-/

namespace Xcpu.Npfs.Ramfs

open Xcpu

/-- `f->data`: no memory, memory that was given back, or the cells of a block. -/
inductive Data
  | null
  | freed
  | block (cells : List (Option UInt8))

/-- The cells that may be used through the pointer. -/
def Data.cells : Data → Option (List (Option UInt8))
  | .null => some []
  | .freed => none
  | .block cells => some cells

def Data.free : Data → Option Unit
  | .freed => none
  | _ => some ()

/-- `realloc`, and whether it gave memory. It frees a block that is to have no bytes, and a negative size is
more than there can be. -/
def Data.realloc : Data → Int → Bool → Option (Data × Bool)
  | .freed, _, _ => none
  | .null, n, memory =>
      if 0 ≤ n ∧ memory then some (.block (List.replicate n.toNat none), true) else some (.null, false)
  | .block cells, n, memory =>
      if n = 0 then some (.freed, false)
      else if 0 < n ∧ memory then some (.block (Cells.realloc cells n.toNat), true)
      else some (.block cells, false)

/-- `memset` and `memmove` into the memory. -/
def Data.store : Data → Nat → List UInt8 → Option Data
  | .block cells, place, values => (Cells.storeAll cells place (values.map some)).map .block
  | data, _, values => if values.isEmpty then some data else none

def Data.load (data : Data) (place count : Nat) : Option (List UInt8) :=
  if count = 0 then some [] else data.cells.bind fun cells => Cells.load cells place count

structure File (User : Type) where
  name : List UInt8
  perm : UInt32
  length : Nat
  atime : UInt32
  mtime : UInt32
  uid : User
  muid : Option User
  version : UInt32
  data : Data
  datasize : Nat

variable {User : Type}

/-- The `int` that a 64-bit number is stored in. -/
def intOf (n : Nat) : Int := if n % 2 ^ 32 < 2 ^ 31 then (n % 2 ^ 32 : Nat) else (n % 2 ^ 32 : Nat) - 2 ^ 32

/-- The smallest number of whole blocks with room for the bytes, in bytes. -/
def blocks (blksize size : Nat) : Nat := (size / blksize + if size % blksize = 0 then 0 else 1) * blksize

/-- `(size/blksize + (size%blksize?1:0)) * blksize` -/
def roundUp (blksize size : Nat) : Nat := blocks blksize size % 2 ^ 64

/-- `truncate_file`, and whether there was memory. -/
def truncateFile (blksize : Nat) (f : File User) (size : Nat) (memory : Bool) : Option (File User × Bool) :=
  if size = 0 then f.data.free.map fun _ => ({ f with data := .null, datasize := 0 }, true)
  else
    let n := intOf (roundUp blksize size)
    (f.data.realloc n memory).map fun
      | (data, true) => ({ f with data, datasize := n.toNat }, true)
      | (data, false) => ({ f with data }, false)

/-- The bytes of the file, if all of them may be looked at. -/
def content (f : File User) : Option (List UInt8) := f.data.load 0 f.length

/-- The memory starts with these bytes, and `datasize` is its size. -/
def Backs (f : File User) (bytes : List UInt8) : Prop :=
  ∃ spare, f.data.cells = some (bytes.map some ++ spare) ∧ f.datasize = bytes.length + spare.length ∧
    f.datasize < 2 ^ 31

/-- A file with these bytes. -/
def Holds (f : File User) (bytes : List UInt8) : Prop := Backs f bytes ∧ f.length = bytes.length

theorem Backs.take {f : File User} {bytes : List UInt8} (backs : Backs f bytes) (count : Nat) :
    Backs f (bytes.take count) := by
  obtain ⟨spare, cells, size, small⟩ := backs
  refine ⟨(bytes.drop count).map some ++ spare, ?_, ?_, small⟩
  · rw [cells, ← List.append_assoc, ← List.map_append, List.take_append_drop]
  · rw [size, List.length_append, List.length_map, List.length_take, List.length_drop]
    omega

theorem Data.load_of_cells {data : Data} {bytes : List UInt8} {spare : List (Option UInt8)}
    (cells : data.cells = some (bytes.map some ++ spare)) {place count : Nat} (inside : place + count ≤ bytes.length) :
    data.load place count = some ((bytes.drop place).take count) := by
  rw [Data.load]
  by_cases none : count = 0
  · rw [if_pos none, none, List.take_zero]
  · rw [if_neg none, cells, Option.bind_some, Cells.load_written inside]

theorem content_of_holds {f : File User} {bytes : List UInt8} (holds : Holds f bytes) : content f = some bytes := by
  obtain ⟨⟨spare, cells, -, -⟩, length⟩ := holds
  rw [content, Data.load_of_cells cells (by omega), length, List.drop_zero, List.take_length]

/-- Stores that stay within the memory. -/
theorem Data.store_of_cells {data : Data} {cells : List (Option UInt8)} (there : data.cells = some cells)
    (place : Nat) (values : List UInt8) (inside : place + values.length ≤ cells.length) :
    ∃ stored, data.store place values = some stored ∧
      stored.cells = some (Overwrite.overwrite cells place (values.map some)) := by
  cases data with
  | freed => simp [Data.cells] at there
  | block own =>
      obtain rfl : own = cells := by simpa [Data.cells] using there
      refine ⟨.block (Overwrite.overwrite own place (values.map some)), ?_, rfl⟩
      rw [Data.store, Cells.storeAll_within _ _ _ (by rwa [List.length_map]), Option.map_some]
  | null =>
      obtain rfl : [] = cells := by simpa [Data.cells] using there
      have nothing : values = [] := List.eq_nil_of_length_eq_zero (by rw [List.length_nil] at inside; omega)
      subst nothing
      exact ⟨_, rfl, by rw [List.map_nil, Overwrite.overwrite_nil]; rfl⟩

/-- Stores that start within the bytes, and stay within the memory. -/
theorem Data.store_of_bytes {data : Data} {bytes : List UInt8} {spare : List (Option UInt8)}
    (cells : data.cells = some (bytes.map some ++ spare)) (place : Nat) (values : List UInt8)
    (inside : place ≤ bytes.length) (room : place + values.length ≤ bytes.length + spare.length) :
    ∃ stored, data.store place values = some stored ∧
      stored.cells = some ((Overwrite.overwrite bytes place values).map some ++
        spare.drop (place + values.length - bytes.length)) := by
  obtain ⟨stored, done, after⟩ := Data.store_of_cells cells place values
    (by rwa [List.length_append, List.length_map])
  refine ⟨stored, done, ?_⟩
  rw [after, Overwrite.overwrite_append _ _ _ _ (by rwa [List.length_map]), Overwrite.overwrite_map, List.length_map,
    List.length_map]

theorem intOf_small {n : Nat} (small : n < 2 ^ 31) : intOf n = n := by
  rw [intOf, Nat.mod_eq_of_lt (by omega), if_pos small]

theorem intOf_neg {n : Nat} (large : 2 ^ 31 ≤ n % 2 ^ 32) : intOf n < 0 := by
  rw [intOf, if_neg (by omega)]
  omega

theorem le_blocks {blksize : Nat} (positive : 0 < blksize) (size : Nat) : size ≤ blocks blksize size := by
  have split := Nat.div_add_mod' size blksize
  rw [blocks, Nat.add_mul]
  by_cases whole : size % blksize = 0
  · rw [if_pos whole]
    omega
  · rw [if_neg whole, Nat.one_mul]
    have := Nat.mod_lt size positive
    omega

theorem roundUp_eq {blksize size : Nat} (small : blocks blksize size < 2 ^ 31) :
    roundUp blksize size = blocks blksize size := Nat.mod_eq_of_lt (by omega)

/-- What `realloc` does with memory that starts with some bytes: the bytes that fit stay. -/
theorem Data.realloc_of_cells {data : Data} {bytes : List UInt8} {spare : List (Option UInt8)}
    (cells : data.cells = some (bytes.map some ++ spare)) {n : Nat} (positive : 0 < n) (keeps : bytes.length ≤ n) :
    ∃ grown, data.realloc n true = some (grown, true) ∧
      grown.cells = some (bytes.map some ++ (spare.take (n - bytes.length) ++
        List.replicate (n - (bytes.length + spare.length)) none)) := by
  cases data with
  | freed => simp [Data.cells] at cells
  | null =>
      simp only [Data.cells, Option.some.injEq, List.nil_eq, List.append_eq_nil_iff, List.map_eq_nil_iff] at cells
      obtain ⟨rfl, rfl⟩ := cells
      refine ⟨_, by rw [Data.realloc, if_pos ⟨Int.natCast_nonneg n, rfl⟩], ?_⟩
      simp [Data.cells]
  | block own =>
      obtain rfl : own = bytes.map some ++ spare := by simpa [Data.cells] using cells
      refine ⟨_, by rw [Data.realloc, if_neg (by omega), if_pos ⟨by omega, rfl⟩], ?_⟩
      rw [Data.cells, Int.toNat_natCast, Cells.realloc, List.take_append, List.take_of_length_le
        (by rwa [List.length_map]), List.length_map, List.length_append, List.length_map, List.append_assoc]

/-- `realloc` gave nothing and took nothing. -/
theorem Data.realloc_refused {data : Data} {cells : List (Option UInt8)} (there : data.cells = some cells) {n : Int}
    {memory : Bool} (refused : n < 0 ∨ n ≠ 0 ∧ memory = false) : data.realloc n memory = some (data, false) := by
  have not : ¬ (0 < n ∧ memory = true) := by
    rintro ⟨above, granted⟩
    rcases refused with below | ⟨-, denied⟩
    · omega
    · exact Bool.noConfusion (granted.symm.trans denied)
  cases data with
  | freed => simp [Data.cells] at there
  | null => rw [Data.realloc, if_neg fun both => not ⟨by omega, both.2⟩]
  | block own => rw [Data.realloc, if_neg (by omega), if_neg not]

/-- The sizes for which there is no memory: the `int` is negative, or `realloc` gives none. -/
def Refused (blksize size : Nat) (memory : Bool) : Prop :=
  2 ^ 31 ≤ roundUp blksize size % 2 ^ 32 ∨ roundUp blksize size % 2 ^ 32 ≠ 0 ∧ memory = false

theorem truncateFile_refused {blksize size : Nat} {f : File User} {bytes : List UInt8} {memory : Bool}
    (backs : Backs f bytes) (some_size : size ≠ 0) (refused : Refused blksize size memory) :
    truncateFile blksize f size memory = some (f, false) := by
  obtain ⟨spare, cells, -, -⟩ := backs
  have denied : intOf (roundUp blksize size) < 0 ∨ intOf (roundUp blksize size) ≠ 0 ∧ memory = false := by
    rcases refused with large | ⟨nonzero, denied⟩
    · exact .inl (intOf_neg large)
    · refine .inr ⟨?_, denied⟩
      rw [intOf]
      split <;> omega
  rw [truncateFile, if_neg some_size]
  dsimp only
  rw [Data.realloc_refused cells denied, Option.map_some]

/-- Memory for some bytes that are there already, and for more. -/
theorem truncateFile_backs {blksize : Nat} {f : File User} {bytes : List UInt8} (positive : 0 < blksize)
    (backs : Backs f bytes) (size : Nat) (some_size : size ≠ 0) (fits : blocks blksize size < 2 ^ 31)
    (keeps : bytes.length ≤ size) :
    ∃ g data, truncateFile blksize f size true = some (g, true) ∧
      g = { f with data, datasize := blocks blksize size } ∧ Backs g bytes := by
  obtain ⟨spare, cells, size_eq, small⟩ := backs
  have enough := le_blocks positive size
  obtain ⟨grown, granted, stays⟩ := Data.realloc_of_cells cells (n := blocks blksize size) (by omega) (by omega)
  refine ⟨_, grown, ?_, rfl, _, stays, ?_, fits⟩
  · rw [truncateFile, if_neg some_size]
    dsimp only
    rw [roundUp_eq fits, intOf_small fits, granted, Option.map_some, Int.toNat_natCast]
  · dsimp only
    rw [List.length_append, List.length_take, List.length_replicate]
    omega

/-- The memory that a file gets for a length, as the `int` has it. -/
def room (blksize length : Nat) : Nat := roundUp blksize length % 2 ^ 32

theorem room_small {blksize length : Nat} (small : blksize < 2 ^ 31) (short : length < 2 ^ 31) :
    room blksize length = blocks blksize length := by
  have split := Nat.div_add_mod' length blksize
  have bound : blocks blksize length < 2 ^ 32 := by
    rw [blocks, Nat.add_mul]
    by_cases whole : length % blksize = 0
    · rw [if_pos whole]
      omega
    · rw [if_neg whole, Nat.one_mul]
      omega
  rw [room, roundUp, Nat.mod_eq_of_lt (Nat.lt_trans bound (by decide)), Nat.mod_eq_of_lt bound]

theorem truncateFile_zero {blksize : Nat} {f : File User} {bytes : List UInt8} (backs : Backs f bytes)
    (memory : Bool) :
    truncateFile blksize f 0 memory = some ({ f with data := .null, datasize := 0 }, true) := by
  obtain ⟨spare, cells, -, -⟩ := backs
  rw [truncateFile, if_pos rfl]
  cases data : f.data with
  | freed => simp [data, Data.cells] at cells
  | null => rfl
  | block own => rfl

/-- The file gets memory of the size that the `int` has, with the bytes that fit into it. -/
theorem truncateFile_given {blksize size : Nat} {f : File User} {bytes : List UInt8} {memory : Bool}
    (backs : Backs f bytes) (fits : room blksize size < 2 ^ 31)
    (given : size = 0 ∨ room blksize size ≠ 0 ∧ memory = true ∨ f.data = .null ∧ memory = true) :
    ∃ data, truncateFile blksize f size memory = some ({ f with data, datasize := room blksize size }, true) ∧
      Backs { f with data, datasize := room blksize size } (bytes.take (room blksize size)) := by
  by_cases zero : size = 0
  · have nothing : room blksize 0 = 0 := by simp [room, roundUp, blocks]
    rw [zero, nothing]
    exact ⟨.null, truncateFile_zero backs memory, [], rfl, rfl, Nat.two_pow_pos 31⟩
  · have small : intOf (roundUp blksize size) = room blksize size := by
      rw [intOf, ← room, if_pos fits]
    have ran : ∀ {data}, f.data.realloc (room blksize size) memory = some (data, true) →
        truncateFile blksize f size memory = some ({ f with data, datasize := room blksize size }, true) := by
      intro data granted
      rw [truncateFile, if_neg zero]
      dsimp only
      rw [small, granted, Option.map_some, Int.toNat_natCast]
    rcases given.resolve_left zero with ⟨nonzero, rfl⟩ | ⟨null, rfl⟩
    · obtain ⟨spare, cells, -, -⟩ := backs.take (room blksize size)
      obtain ⟨grown, granted, stays⟩ := Data.realloc_of_cells cells (n := room blksize size) (by omega)
        (by rw [List.length_take]; omega)
      refine ⟨grown, ran granted, _, stays, ?_, fits⟩
      dsimp only
      rw [List.length_append, List.length_take, List.length_take, List.length_replicate]
      omega
    · obtain ⟨spare, cells, -, -⟩ := backs
      rw [null, Data.cells, Option.some.injEq, List.nil_eq, List.append_eq_nil_iff, List.map_eq_nil_iff] at cells
      obtain ⟨rfl, rfl⟩ := cells
      refine ⟨.block (List.replicate (room blksize size) none), ran ?_, List.replicate (room blksize size) none, ?_, ?_,
        fits⟩
      · rw [null, Data.realloc, if_pos ⟨Int.natCast_nonneg _, rfl⟩, Int.toNat_natCast]
      · rw [List.take_nil]
        rfl
      · rw [List.take_nil, List.length_nil, List.length_replicate, Nat.zero_add]

/-- The length that a file has already never costs it a byte. -/
theorem truncateFile_own {blksize : Nat} {f : File User} {bytes : List UInt8} (positive : 0 < blksize)
    (small : blksize < 2 ^ 31) (backs : Backs f bytes) (memory : Bool) :
    ∃ data datasize ok, truncateFile blksize f bytes.length memory = some ({ f with data, datasize }, ok) ∧
      Backs { f with data, datasize } bytes := by
  have short : bytes.length < 2 ^ 31 := by
    obtain ⟨spare, -, size, short⟩ := backs
    omega
  have same := room_small small short
  have enough := le_blocks positive bytes.length
  by_cases zero : bytes.length = 0
  · obtain rfl := List.eq_nil_of_length_eq_zero zero
    exact ⟨.null, 0, true, truncateFile_zero backs memory, [], rfl, rfl, Nat.two_pow_pos 31⟩
  · by_cases refused : Refused blksize bytes.length memory
    · exact ⟨f.data, f.datasize, false, truncateFile_refused backs zero refused, backs⟩
    · have granted : room blksize bytes.length < 2 ^ 31 ∧ memory = true := by
        constructor
        · exact Nat.lt_of_not_le fun large => refused (.inl large)
        · rw [← Bool.not_eq_false]
          exact fun denied => refused (.inr ⟨by rw [← room, same]; omega, denied⟩)
      obtain ⟨data, given, after⟩ := truncateFile_given backs granted.1 (.inr (.inl ⟨by omega, granted.2⟩))
      rw [List.take_of_length_le (by omega)] at after
      exact ⟨data, _, true, given, after⟩

/-- Bytes for which there was no memory are not there when there is memory again. -/
theorem content_of_short {blksize : Nat} {f g : File User} {cells : List (Option UInt8)} {memory ok : Bool}
    (there : f.data.cells = some cells) (short : cells.length < f.length)
    (truncated : truncateFile blksize f f.length memory = some (g, ok)) : content g = none := by
  have lacking : ∀ {data : Data} (cells), data.cells = some cells → cells.length < f.length →
      data.load 0 f.length = none := by
    intro data cells same short
    rw [Data.load, if_neg (by omega), same, Option.bind_some, Cells.load, if_neg (by omega)]
  rw [truncateFile, if_neg (by omega)] at truncated
  obtain ⟨⟨data, granted⟩, moved, made⟩ := Option.map_eq_some_iff.mp truncated
  have unread : data.load 0 f.length = none := by
    cases memory_eq : f.data with
    | freed => simp [memory_eq, Data.cells] at there
    | null =>
        rw [memory_eq, Data.realloc] at moved
        split at moved
        · obtain ⟨rfl, -⟩ := Prod.mk.inj (Option.some.inj moved)
          rw [Data.load, if_neg (by omega), Data.cells, Option.bind_some]
          have grown := Cells.load_realloc ([] : List (Option UInt8)) (intOf (roundUp blksize f.length)).toNat
            (show _ < f.length by rw [List.length_nil]; omega)
          simpa [Cells.realloc] using grown
        · obtain ⟨rfl, -⟩ := Prod.mk.inj (Option.some.inj moved)
          exact lacking [] rfl (by rw [List.length_nil]; omega)
    | block own =>
        obtain rfl : own = cells := by simpa [memory_eq, Data.cells] using there
        rw [memory_eq, Data.realloc] at moved
        split at moved
        · obtain ⟨rfl, -⟩ := Prod.mk.inj (Option.some.inj moved)
          rw [Data.load, if_neg (by omega)]
          rfl
        · split at moved
          · obtain ⟨rfl, -⟩ := Prod.mk.inj (Option.some.inj moved)
            rw [Data.load, if_neg (by omega), Data.cells, Option.bind_some, Cells.load_realloc own _ short]
          · obtain ⟨rfl, -⟩ := Prod.mk.inj (Option.some.inj moved)
            exact lacking own rfl short
  cases granted <;> (obtain ⟨rfl, -⟩ := Prod.mk.inj made; exact unread)

end Xcpu.Npfs.Ramfs
