import Xcpu.Lib.Transition
import Xcpu.Libspfs.Fcall
import Xcpu.Libspfs.NpRoundTrip

/-!
Reading a directory of the synthetic file tree. `spfile_read` serializes the children from
the iterator that the fid keeps, as long as they fit the count of the Tread.
-/

namespace Xcpu.Libspfs

open Xcpu.Packet Xcpu.Transition

/-- `sp_serialize_stat`: the bytes that are stored, none where it returns 0. -/
def spSerializeStat (wstat : Spwstat) (buflen : Int) (dotu : Bool) : List UInt8 :=
  let statsz := sizeWstat wstat dotu
  if statsz > buflen then []
  else
    match runPuts (bufPutWstat wstat statsz dotu) ⟨0, buflen⟩ with
    | none => []
    | some (written, buf) => if buf.p > buf.ep then [] else written

/-- The loop of `spfile_read` over the children that are left, with `n` bytes stored: the bytes
it adds, and the children from `f->dirent` on. -/
def readEntries (dotu : Bool) (count : Nat) : Nat → List Spwstat → List UInt8 × List Spwstat
  | _, [] => ([], [])
  | n, cf :: rest =>
      if n < count then
        let stat := spSerializeStat cf (int32 (count - n - 1)) dotu
        if stat = [] then ([], cf :: rest)
        else
          let (data, left) := readEntries dotu count (n + stat.length) rest
          (stat ++ data, left)
      else ([], cf :: rest)

/-- Whether `sp_alloc_rread` returns a message. -/
def spAllocRread (count : Nat) : Bool :=
  let size := (4 + count + 4 + 1 + 2) % 2 ^ 32
  if Library.libspfs.allocates size then
    match runPuts [.int 4 size, .int 1 FcallType.rread.number, .int 2 notag, .int 4 count] ⟨0, int32 size⟩ with
    | none => false
    | some (_, buf) =>
        let (_, buf) := bufAlloc buf (int32 count)
        decide (buf.p ≤ buf.ep)
  else false

/-- An open fid of a directory, and what its reader has got: `offset` is that of the next
Tread. The fid of an attach has no `Qtdir` in its type. -/
structure DirFid where
  qtdir : Bool
  dirent : List Spwstat := []
  diroffset : Nat := 0
  offset : Nat := 0
  replies : List (List UInt8) := []

/-- A Tread of `count` bytes at the offset where the last one ended, through `sp_read`,
`spfile_read` and `sp_respond`; none where the answer is Rerror. -/
def DirFid.read (msize : Nat) (dotu : Bool) (children : List Spwstat) (f : DirFid) (count : Nat) :
    Option DirFid :=
  if (count + iohdrsz) % 2 ^ 32 > msize then none
  else if f.qtdir ∧ f.offset ≠ f.diroffset then none
  else if spAllocRread count then
    let dirent := if f.offset = 0 then children else f.dirent
    let (data, left) := readEntries dotu count 0 dirent
    some
      { f with
        dirent := left
        -- `sp_respond`
        diroffset := if f.qtdir then (f.offset + data.length) % 2 ^ 32 else f.diroffset
        offset := f.offset + data.length
        replies := f.replies ++ [data] }
  else none

/-- A whole encoded stat. -/
def encodedStat (dotu : Bool) (wstat : Spwstat) : List UInt8 :=
  (bufPutWstat wstat (sizeWstat wstat dotu) dotu).flatMap Put.bytes

/-- The replies are whole stats of the children in their order, one is empty only when all
children were returned, and all are after as many replies as there are children. -/
structure Listed (dotu : Bool) (children : List Spwstat) (f : DirFid) : Prop where
  entries : ∃ parts : List (List Spwstat), parts.flatten <+: children ∧
    f.replies = parts.map (·.flatMap (encodedStat dotu)) ∧
    (∀ before after, parts = before ++ [] :: after → before.flatten = children) ∧
    (children.length ≤ f.replies.length → parts.flatten = children)

/-- The children that the next read starts with. -/
def DirFid.ahead (children : List Spwstat) (f : DirFid) : List Spwstat :=
  if f.offset = 0 then children else f.dirent

/-- The next stat is shorter than the count, and so is no stat that would lose just the length
of an empty `muid`. Counts are those that the connection has room for, and offsets those that
the fid can hold. -/
structure ReadFits (msize : Nat) (dotu : Bool) (children : List Spwstat) (f : DirFid) (count : Nat) : Prop where
  room : count + iohdrsz ≤ msize ∧ Library.libspfs.room (4 + count) < 2 ^ 31
  offset : f.qtdir → f.offset < 2 ^ 32
  first : ∀ cf rest, f.ahead children = cf :: rest → (encodedStat dotu cf).length < count
  uncut : dotu = false → ∀ front cf back, f.ahead children = front ++ cf :: back → strlen cf.muid = 0 →
    (front.flatMap (encodedStat dotu)).length + sizeWstat cf dotu + 1 ≠ count

section Serialize

variable {dotu : Bool} {wstat : Spwstat} {puts more : List Put} {buf : Cbuf}

theorem encodedStat_length : (encodedStat dotu wstat).length = sizeWstat wstat dotu + 2 :=
  wstat_length wstat dotu

theorem encodedStat_ne_nil : encodedStat dotu wstat ≠ [] := by
  intro empty
  have length := @encodedStat_length dotu wstat
  rw [empty, List.length_nil] at length
  omega

theorem runPuts_append {written : List UInt8} {middle : Cbuf} (ran : runPuts puts buf = some (written, middle)) :
    runPuts (puts ++ more) buf =
      (runPuts more middle).map fun (rest, final) => (written ++ rest, final) := by
  induction puts generalizing buf written with
  | nil =>
      simp only [runPuts, Option.some.injEq, Prod.mk.injEq] at ran
      obtain ⟨rfl, rfl⟩ := ran
      simp
  | cons put puts ih =>
      have step (stored : List UInt8) (next : Cbuf)
          (ran : (runPuts puts next).map (fun (rest, final) => (stored ++ rest, final)) = some (written, middle)) :
          (runPuts (puts ++ more) next).map (fun (rest, final) => (stored ++ rest, final)) =
            (runPuts more middle).map fun (rest, final) => (written ++ rest, final) := by
        obtain ⟨⟨rest, final⟩, later, same⟩ := Option.map_eq_some_iff.mp ran
        simp only [Prod.mk.injEq] at same
        obtain ⟨rfl, rfl⟩ := same
        rw [ih later, Option.map_map]
        congr 1
        funext pair
        simp
      cases put with
      | int width value => exact step _ _ ran
      | str str => exact step _ _ ran
      | text bytes =>
          simp only [List.cons_append, runPuts] at ran ⊢
          split at ran
          · contradiction
          · exact step _ _ ran
      | block bytes =>
          simp only [List.cons_append, runPuts] at ran ⊢
          split at ran
          · exact ih ran
          · split at ran
            · contradiction
            · rename_i negative
              rw [if_neg negative]
              exact step _ _ ran

theorem bufPutWstat_fits {buflen : Int} (fits : sizeWstat wstat dotu + 2 ≤ buflen) (small : buflen < 2 ^ 31) :
    runPuts (bufPutWstat wstat (sizeWstat wstat dotu) dotu) ⟨0, buflen⟩ =
      some (encodedStat dotu wstat, ⟨(sizeWstat wstat dotu + 2 : Nat), buflen⟩) := by
  have length := @encodedStat_length dotu wstat
  rw [encodedStat] at length
  have ran : runPuts (bufPutWstat wstat (sizeWstat wstat dotu) dotu) ⟨0, buflen⟩ = _ :=
    runPuts_fits (by dsimp only; omega) (by omega)
  rw [ran, length, encodedStat, Int.zero_add]

theorem spSerializeStat_fits {buflen : Int} (fits : sizeWstat wstat dotu + 2 ≤ buflen) (small : buflen < 2 ^ 31) :
    spSerializeStat wstat buflen dotu = encodedStat dotu wstat := by
  rw [spSerializeStat, if_neg (by omega), bufPutWstat_fits fits small]
  dsimp only
  rw [if_neg (by omega)]

theorem bufPutWstat_last (wstat : Spwstat) (statsz : Nat) (dotu : Bool) :
    ∃ front last, bufPutWstat wstat statsz dotu = front ++ [last] ∧
      (last = .int 4 wstat.nMuid.toNat ∨ last = .str wstat.muid) ∧
      last.bytes.length = if dotu then 4 else 2 + strlen wstat.muid := by
  cases dotu with
  | false =>
      exact ⟨(bufPutWstat wstat statsz false).dropLast, .str wstat.muid, by simp [bufPutWstat, bufPutQid],
        .inr rfl, by simp [Put.bytes, strlen]⟩
  | true =>
      exact ⟨(bufPutWstat wstat statsz true).dropLast, .int 4 wstat.nMuid.toNat,
        by simp [bufPutWstat, bufPutQid], .inl rfl, by simp [Put.bytes]⟩

/-- The last put of a stat for which one or two bytes are missing. It is past the end of the buffer, or it
starts at the end and is left out. -/
theorem bufPutWstat_short {buflen : Int} (room : sizeWstat wstat dotu ≤ buflen)
    (short : buflen < sizeWstat wstat dotu + 2) (small : buflen < 2 ^ 31) :
    ∃ written, runPuts (bufPutWstat wstat (sizeWstat wstat dotu) dotu) ⟨0, buflen⟩ =
      some (written, ⟨if dotu = false ∧ strlen wstat.muid = 0 ∧ buflen = sizeWstat wstat dotu then buflen
        else buflen + 1, buflen⟩) ∧ written.length ≤ buflen := by
  obtain ⟨front, last, split, scalar, size⟩ := bufPutWstat_last wstat (sizeWstat wstat dotu) dotu
  have total := @encodedStat_length dotu wstat
  rw [encodedStat, split, List.flatMap_append, List.length_append] at total
  simp only [List.flatMap_cons, List.flatMap_nil, List.append_nil] at total
  have before : ((front.flatMap Put.bytes).length : Int) ≤ buflen ∧
      buflen < (front.flatMap Put.bytes).length + last.bytes.length ∧
      ((front.flatMap Put.bytes).length = buflen ↔
        dotu = false ∧ strlen wstat.muid = 0 ∧ buflen = sizeWstat wstat dotu) := by
    cases dotu with
    | false =>
        simp only [Bool.false_eq_true, if_false] at size
        exact ⟨by omega, by omega, by simp only [true_and]; omega⟩
    | true =>
        simp only [if_true] at size
        exact ⟨by omega, by omega, by simp only [reduceCtorEq, false_and, iff_false]; omega⟩
  obtain ⟨inside, past, ended⟩ := before
  have ran : runPuts front ⟨0, buflen⟩ = _ := runPuts_fits (by dsimp only; omega) (by omega)
  have stored : bufPut last.bytes ⟨0 + ((front.flatMap Put.bytes).length : Int), buflen⟩ =
      ([], ⟨if dotu = false ∧ strlen wstat.muid = 0 ∧ buflen = sizeWstat wstat dotu then buflen
        else buflen + 1, buflen⟩) := by
    rw [bufPut, bufCheckSize, if_pos (by dsimp only; omega)]
    dsimp only
    split_ifs with before cut cut
    · have same := ended.mpr cut
      omega
    · rfl
    · rw [Int.zero_add, ended.mpr cut]
    · have apart := mt ended.mp cut
      omega
  have last_put : runPuts [last] ⟨0 + ((front.flatMap Put.bytes).length : Int), buflen⟩ =
      some ([], ⟨if dotu = false ∧ strlen wstat.muid = 0 ∧ buflen = sizeWstat wstat dotu then buflen
        else buflen + 1, buflen⟩) := by
    rcases scalar with rfl | rfl
    · simp only [runPuts, stored, Option.map_some, List.append_nil]
    · simp only [runPuts, stored, Option.map_some, List.append_nil]
  refine ⟨front.flatMap Put.bytes, ?_, inside⟩
  rw [split, runPuts_append ran, last_put, Option.map_some]
  dsimp only
  rw [List.append_nil]

theorem spSerializeStat_short {buflen : Int} (short : buflen < sizeWstat wstat dotu + 2) (small : buflen < 2 ^ 31)
    (uncut : dotu = false → strlen wstat.muid = 0 → buflen ≠ sizeWstat wstat dotu) :
    spSerializeStat wstat buflen dotu = [] := by
  rw [spSerializeStat]
  split
  · rfl
  · rename_i room
    obtain ⟨written, ran, -⟩ := @bufPutWstat_short dotu wstat buflen (by omega) short small
    rw [if_neg fun cut => uncut cut.1 cut.2.1 cut.2.2] at ran
    rw [ran]
    dsimp only
    rw [if_pos (by omega)]

/-- The loop returns whole stats, and at least one when the first fits. -/
theorem readEntries_whole {count n : Nat} {children : List Spwstat} (small : count < 2 ^ 31)
    (uncut : dotu = false → ∀ front cf back, children = front ++ cf :: back → strlen cf.muid = 0 →
      n + (front.flatMap (encodedStat dotu)).length + sizeWstat cf dotu + 1 ≠ count) :
    ∃ part, children = part ++ (readEntries dotu count n children).2 ∧
      (readEntries dotu count n children).1 = part.flatMap (encodedStat dotu) ∧
      ∀ cf rest, children = cf :: rest → n + (encodedStat dotu cf).length < count → part ≠ [] := by
  induction children generalizing n with
  | nil => exact ⟨[], rfl, rfl, by simp⟩
  | cons cf rest ih =>
      have length := @encodedStat_length dotu cf
      rw [readEntries]
      by_cases below : n < count
      · rw [if_pos below]
        have room : int32 (count - n - 1) = (count - n - 1 : Nat) := int32_small (by omega)
        by_cases fits : n + (encodedStat dotu cf).length < count
        · have stored : spSerializeStat cf (int32 (count - n - 1)) dotu = encodedStat dotu cf := by
            rw [room]
            exact spSerializeStat_fits (by omega) (by omega)
          rw [stored, if_neg encodedStat_ne_nil]
          obtain ⟨part, split, data, -⟩ := ih (n := n + (encodedStat dotu cf).length) (by
            intro plain front other back split empty
            have apart := uncut plain (cf :: front) other back (by rw [split]; rfl) empty
            rw [List.flatMap_cons, List.length_append] at apart
            omega)
          refine ⟨cf :: part, ?_, ?_, by simp⟩
          · rw [List.cons_append, ← split]
          · rw [List.flatMap_cons, ← data]
        · have stored : spSerializeStat cf (int32 (count - n - 1)) dotu = [] := by
            rw [room]
            refine spSerializeStat_short (by omega) (by omega) ?_
            intro plain empty same
            have apart := uncut plain [] cf rest rfl empty
            simp only [List.flatMap_nil, List.length_nil] at apart
            omega
          rw [stored, if_pos rfl]
          refine ⟨[], rfl, rfl, ?_⟩
          intro other others same larger
          cases same
          exact absurd larger fits
      · rw [if_neg below]
        refine ⟨[], rfl, rfl, ?_⟩
        intro other others same larger
        omega

theorem spAllocRread_room {count : Nat} (room : Library.libspfs.room (4 + count) < 2 ^ 31) :
    spAllocRread count = true := by
  simp only [Library.room, sizeofSpfcall] at room
  have whole : (4 + count + 4 + 1 + 2) % 2 ^ 32 = 4 + count + 7 := by omega
  have allocated : Library.libspfs.allocates (4 + count + 7) = true := by
    have same : int32 (sizeofSpfcall + (4 + count + 7)) = (sizeofSpfcall + (4 + count + 7) : Nat) :=
      int32_small (by rw [sizeofSpfcall]; omega)
    rw [Library.allocates, same, decide_eq_true_iff]
    omega
  have ran : runPuts [.int 4 (4 + count + 7), .int 1 FcallType.rread.number, .int 2 notag, .int 4 count]
      ⟨0, (4 + count + 7 : Nat)⟩ = _ :=
    runPuts_fits (by simp only [List.flatMap_cons, List.flatMap_nil, Put.bytes, List.length_append,
      littleBytes_length, List.length_nil]; omega) (by simp [Put.bytes])
  simp only [spAllocRread, whole, allocated, if_true]
  rw [int32_small (by omega), ran, int32_small (by omega)]
  simp only [List.flatMap_cons, List.flatMap_nil, Put.bytes, List.length_append, littleBytes_length,
    List.length_nil]
  rw [bufAlloc_fits (by dsimp only; omega)]
  simp only [decide_eq_true_iff]
  omega

end Serialize

section Runs

variable {msize : Nat} {dotu : Bool} {children : List Spwstat}

/-- What the reads so far have returned, and where the next one starts. -/
structure DirKept (dotu : Bool) (children : List Spwstat) (f : DirFid) : Prop where
  returned : ∃ parts : List (List Spwstat), parts.flatten ++ f.ahead children = children ∧
    f.replies = parts.map (·.flatMap (encodedStat dotu)) ∧
    f.offset = (parts.flatten.flatMap (encodedStat dotu)).length ∧
    (∀ before after, parts = before ++ [] :: after → before.flatten = children) ∧
    (f.ahead children = [] ∨ parts.length ≤ parts.flatten.length)
  diroffset : f.qtdir → f.diroffset = f.offset % 2 ^ 32

theorem DirKept.start (qtdir : Bool) : DirKept dotu children { qtdir } where
  returned := by
    refine ⟨[], rfl, rfl, rfl, ?_, .inr (Nat.le_refl 0)⟩
    intro before after split
    cases before <;> cases split
  diroffset := fun _ => rfl

theorem DirKept.listed {f : DirFid} (kept : DirKept dotu children f) : Listed dotu children f := by
  obtain ⟨parts, ahead, replies, -, whole, progress⟩ := kept.returned
  refine ⟨parts, ⟨_, ahead⟩, replies, whole, ?_⟩
  intro enough
  rw [replies, List.length_map] at enough
  have length := congrArg List.length ahead
  rw [List.length_append] at length
  have last : f.ahead children = [] := by
    rcases progress with last | progress
    · exact last
    · exact List.length_eq_zero_iff.mp (by omega)
  rw [last, List.append_nil] at ahead
  exact ahead

theorem encoded_length_eq_zero {entries : List Spwstat}
    (none : (entries.flatMap (encodedStat dotu)).length = 0) : entries = [] := by
  cases entries with
  | nil => rfl
  | cons cf rest =>
      have length := @encodedStat_length dotu cf
      rw [List.flatMap_cons, List.length_append] at none
      omega

theorem empty_split {parts before after : List (List Spwstat)} {part : List Spwstat}
    (split : parts ++ [part] = before ++ [] :: after) :
    (parts = before ∧ part = []) ∨ ∃ others, parts = before ++ [] :: others := by
  rcases List.eq_nil_or_concat after with rfl | ⟨others, last, rfl⟩
  · exact .inl (by simpa using List.append_inj' split rfl)
  · rw [List.concat_eq_append, ← List.cons_append, ← List.append_assoc] at split
    exact .inr ⟨others, (List.append_inj' split rfl).1⟩

theorem read_kept {f : DirFid} {count : Nat} (kept : DirKept dotu children f)
    (fits : ReadFits msize dotu children f count) :
    ∃ next, f.read msize dotu children count = some next ∧ DirKept dotu children next := by
  obtain ⟨parts, ahead, replies, offset, whole, progress⟩ := kept.returned
  have small : count + 899 < 2 ^ 31 := by
    have room := fits.room.2
    simp only [Library.room, sizeofSpfcall] at room
    omega
  have agreed : ¬ (f.qtdir ∧ f.offset ≠ f.diroffset) := by
    rintro ⟨typed, apart⟩
    rw [kept.diroffset typed, Nat.mod_eq_of_lt (fits.offset typed)] at apart
    exact apart rfl
  have served : ¬ (count + iohdrsz) % 2 ^ 32 > msize := by
    have room := fits.room.1
    rw [Nat.mod_eq_of_lt (by rw [iohdrsz]; omega)]
    omega
  obtain ⟨part, split, stored, first⟩ := @readEntries_whole dotu count 0 (f.ahead children) (by omega) (by
    intro plain front cf back split empty
    have apart := fits.uncut plain front cf back split empty
    omega)
  rcases entries : readEntries dotu count 0 (f.ahead children) with ⟨data, left⟩
  rw [entries] at split stored
  dsimp only at split stored
  have read : f.read msize dotu children count = some
      { f with
        dirent := left
        diroffset := if f.qtdir then (f.offset + data.length) % 2 ^ 32 else f.diroffset
        offset := f.offset + data.length
        replies := f.replies ++ [data] } := by
    rw [DirFid.read, if_neg served, if_neg agreed, if_pos (spAllocRread_room fits.room.2)]
    dsimp only
    rw [← DirFid.ahead, entries]
  have nonempty (same : part = []) : f.ahead children = [] := by
    cases remain : f.ahead children with
    | nil => rfl
    | cons cf rest =>
        have fit := fits.first cf rest remain
        exact absurd same (first cf rest remain (by omega))
  have next : (if f.offset + data.length = 0 then children else left) = left := by
    split
    · rename_i still
      -- nothing was returned, so nothing was left to return
      have nothing : part = [] := encoded_length_eq_zero (by rw [← stored]; omega)
      have all : f.ahead children = children := if_pos (by omega)
      rw [nothing, List.nil_append] at split
      rw [← split, all]
    · rfl
  refine ⟨_, read, ⟨parts ++ [part], ?_, ?_, ?_, ?_, ?_⟩, ?_⟩
  · rw [DirFid.ahead]
    dsimp only
    rw [next, List.flatten_append, List.append_assoc]
    simpa [← split] using ahead
  · simp [replies, stored]
  · dsimp only
    rw [List.flatten_append, List.flatMap_append, List.length_append, offset, stored]
    simp
  · intro before after cut
    rcases empty_split cut with ⟨rfl, none⟩ | ⟨others, inside⟩
    · rw [nonempty none, List.append_nil] at ahead
      exact ahead
    · exact whole before others inside
  · rw [DirFid.ahead]
    dsimp only
    rw [next]
    by_cases none : part = []
    · rw [nonempty none] at split
      exact .inl (List.append_eq_nil_iff.mp split.symm).2
    · have one := List.length_pos_iff.mpr none
      rcases progress with last | progress
      · rw [last] at split
        exact .inl (List.append_eq_nil_iff.mp split.symm).2
      · refine .inr ?_
        simp only [List.length_append, List.length_singleton, List.flatten_append, List.flatten_cons,
          List.flatten_nil, List.append_nil]
        omega
  · intro typed
    exact if_pos typed

/-- Reads that have room for the next child each return all children, in order and whole. -/
theorem dirRead_complete {qtdir : Bool} {counts : List Nat}
    (fits : Guarded (DirFid.read msize dotu children) (ReadFits msize dotu children) { qtdir } counts) :
    ∃ f, run (DirFid.read msize dotu children) { qtdir } counts = some f ∧ Listed dotu children f := by
  have progress (f : DirFid) (count : Nat) (kept : DirKept dotu children f)
      (fit : ReadFits msize dotu children f count) := read_kept kept fit
  obtain ⟨f, ran, kept⟩ := run_defined _ progress (DirKept.start qtdir) fits
  exact ⟨f, ran, kept.listed⟩

end Runs

def unnamed : Spwstat :=
  ⟨0, 0, ⟨0, 0, 0⟩, 0, 0, 0, 0, none, none, none, none, none, 0, 0, 0⟩

theorem dirRead_complete_unnamed :
    ∃ f, run (DirFid.read 200 true [unnamed, unnamed]) { qtdir := true } [150] = some f ∧
      Listed true [unnamed, unnamed] f := by
  refine dirRead_complete ⟨⟨by decide, by decide, ?_, by simp⟩, fun _ _ => trivial⟩
  intro cf rest split
  cases split
  decide

/-- A child that fills the count is not returned: the reply is empty as at the end. -/
theorem exact_child_not_listed :
    (encodedStat true unnamed).length = 63 ∧
      ∃ f, run (DirFid.read 200 true [unnamed]) { qtdir := true } [63] = some f ∧ ¬ Listed true [unnamed] f := by
  have replies : (run (DirFid.read 200 true [unnamed]) { qtdir := true } [63]).map (·.replies) = some [[]] := by
    with_unfolding_all decide
  refine ⟨by with_unfolding_all decide, exists_final _ (by with_unfolding_all decide) ?_⟩
  rintro f ran ⟨parts, -, returned, -, complete⟩
  rw [ran, Option.map_some, Option.some.injEq] at replies
  have all := complete (by rw [replies]; exact Nat.le_refl 1)
  rw [replies] at returned
  cases parts with
  | nil => cases all
  | cons part others =>
      rw [List.map_cons, List.cons.injEq] at returned
      have empty := @encoded_length_eq_zero true part (by rw [← returned.1]; rfl)
      have alone : others = [] := List.map_eq_nil_iff.mp returned.2.symm
      rw [empty, alone] at all
      cases all

end Xcpu.Libspfs
