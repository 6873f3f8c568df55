import Mathlib.Data.List.Basic
import Xcpu.Lib.Overwrite

/-!
`spc_write` and `spc_read` of libspclient, against a server that keeps one file and may
take or return less than it is asked for. `spc_write` hands `buf` itself, not `buf + n`,
to each Twrite, so a second chunk stores the beginning of the buffer again.
-/

namespace Xcpu.Libspclient

open Xcpu.Overwrite

structure Spcfid where
  iounit : UInt32
  fid : UInt32
  msize : UInt32

def iohdrsz : UInt32 := 24

abbrev File := UInt64 → UInt8

inductive Reply where
  | fails
  | accepts (count : Nat)

-- `sizeof(Spfcall)`, in front of every packet; `sp_malloc` takes an `int`.
variable (sizeofSpfcall : Nat)

structure Twrite where
  fid : UInt32
  offset : UInt64
  data : List UInt8

/-- `none`: the size passed to `sp_malloc` is negative, and `spc_rpc` follows the null result. -/
def spCreateTwrite (fid : UInt32) (offset : UInt64) (count : Nat) (data : List UInt8) :
    Option Twrite :=
  if sizeofSpfcall + (4 + 1 + 2) + (4 + 8 + 4 + count) < 2 ^ 31 then
    some ⟨fid, offset, data.take count⟩
  else none

def chunkSize (msize : UInt32) (count n : Nat) : Nat :=
  min (count - n) (msize - iohdrsz).toNat

-- The loop of `spc_write`; `none` also stands for the overflow of the `int` sum `n + l`.
def spcWriteLoop (fid : Spcfid) (buf : List UInt8) (offset : UInt64) :
    Nat → File → List Reply → Option (Int × File)
  | n, file, replies =>
      if n < buf.length then do
        let i := chunkSize fid.msize buf.length n
        let tc ← spCreateTwrite sizeofSpfcall fid.fid (offset + UInt64.ofNat n) i buf
        match replies with
        | [] => some (-1, file)
        | .fails :: _ => some (-1, file)
        | .accepts taken :: rest =>
            let l := min taken tc.data.length
            let file := storeAt file tc.offset (tc.data.take l)
            if l = 0 then some (n, file)
            else if n + l < 2 ^ 31 then spcWriteLoop fid buf offset (n + l) file rest
            else none
      else some (n, file)

def spcWrite (fid : Spcfid) (buf : List UInt8) (offset : UInt64) (file : File)
    (replies : List Reply) : Option (Int × File) :=
  spcWriteLoop sizeofSpfcall fid buf offset 0 file replies

def readAt (file : File) (offset : UInt64) (count : Nat) : List UInt8 :=
  (List.range count).map fun index => file (offset + UInt64.ofNat index)

def spcReadLoop (fid : Spcfid) (count : Nat) (offset : UInt64) (file : File) :
    Nat → List UInt8 → List Reply → Option (Int × List UInt8)
  | n, buf, replies =>
      if n < count then
        let i := chunkSize fid.msize count n
        match replies with
        | [] => some (-1, buf)
        | .fails :: _ => some (-1, buf)
        | .accepts taken :: rest =>
            let data := readAt file (offset + UInt64.ofNat n) (min taken i)
            let l := if data.length > count then count else data.length
            let buf := overwrite buf n (data.take l)
            if l = 0 then some (n, buf)
            else if n + l < 2 ^ 31 then spcReadLoop fid count offset file (n + l) buf rest
            else none
      else some (n, buf)

def spcRead (fid : Spcfid) (buf : List UInt8) (count : Nat) (offset : UInt64) (file : File)
    (replies : List Reply) : Option (Int × List UInt8) :=
  spcReadLoop fid count offset file 0 buf replies

/-- One request: where it starts, how much it asks for and how much the server takes. -/
structure Chunk where
  start : Nat
  asked : Nat
  taken : Nat

-- How the replies cut a transfer of `count` bytes, and whether no request of it fails.
def chunks (msize : UInt32) (count : Nat) : Nat → List Reply → List Chunk × Bool
  | n, replies =>
      if n < count then
        let asked := chunkSize msize count n
        match replies with
        | [] => ([⟨n, asked, 0⟩], false)
        | .fails :: _ => ([⟨n, asked, 0⟩], false)
        | .accepts taken :: rest =>
            let taken := min taken asked
            if taken = 0 then ([⟨n, asked, 0⟩], true)
            else
              let (later, completed) := chunks msize count (n + taken) rest
              (⟨n, asked, taken⟩ :: later, completed)
      else ([], true)

/-- Each packet and the total fit an `int`, and where no request fails, every chunk
repeats the beginning of the buffer. -/
structure Repeats (msize : UInt32) (buf : List UInt8) (replies : List Reply) : Prop where
  fits : ∀ chunk ∈ (chunks msize buf.length 0 replies).1, sizeofSpfcall + 23 + chunk.asked < 2 ^ 31
  counted : ∀ chunk ∈ (chunks msize buf.length 0 replies).1, chunk.start + chunk.taken < 2 ^ 31
  repeats : (chunks msize buf.length 0 replies).2 = true →
    ∀ chunk ∈ (chunks msize buf.length 0 replies).1, ∀ index < chunk.taken,
      buf[chunk.start + index]? = buf[index]?

/-- What is expected of a write that returned `n`: the file holds the buffer's first `n`
bytes, and so does any buffer into which they are read back. -/
structure Stored (fid : Spcfid) (buf : List UInt8) (offset : UInt64) (file : File) (n : Nat) :
    Prop where
  bytes : ∀ index < n, some (file (offset + UInt64.ofNat index)) = buf[index]?
  readBack : ∀ (buf2 out : List UInt8) (replies : List Reply), n ≤ buf2.length →
    spcRead fid buf2 n offset file replies = some ((n : Int), out) → out.take n = buf.take n

theorem chunks_bounds (msize : UInt32) (count : Nat) (n : Nat) (replies : List Reply) :
    ∀ chunk ∈ (chunks msize count n replies).1,
      n ≤ chunk.start ∧ chunk.start + chunk.taken ≤ count ∧ chunk.taken ≤ chunk.asked := by
  induction replies generalizing n with
  | nil =>
      intro chunk member
      unfold chunks at member
      split at member
      · simp only [List.mem_singleton] at member
        subst chunk
        refine ⟨?_, ?_, ?_⟩ <;> dsimp only <;> omega
      · simp at member
  | cons reply rest ih =>
      intro chunk member
      unfold chunks at member
      split at member
      · rename_i more
        cases reply with
        | fails =>
            simp only [List.mem_singleton] at member
            subst chunk
            refine ⟨?_, ?_, ?_⟩ <;> dsimp only <;> omega
        | accepts taken =>
            dsimp only at member
            have askedLe : chunkSize msize count n ≤ count - n := Nat.min_le_left _ _
            split at member
            · simp only [List.mem_singleton] at member
              subst chunk
              refine ⟨?_, ?_, ?_⟩ <;> dsimp only <;> omega
            · simp only [List.mem_cons] at member
              rcases member with rfl | later
              · refine ⟨?_, ?_, ?_⟩ <;> dsimp only <;> omega
              · have bounds := ih _ chunk later
                omega
      · simp at member

/-- Where the transfer has got to after its last chunk. -/
def transferEnd (n : Nat) (requests : List Chunk) : Nat :=
  n + (requests.map Chunk.taken).sum

theorem chunks_cover (msize : UInt32) (count n : Nat) (replies : List Reply) (position : Nat)
    (reached : n ≤ position) (before : position < transferEnd n (chunks msize count n replies).1) :
    ∃ chunk ∈ (chunks msize count n replies).1, ∃ index < chunk.taken,
      position = chunk.start + index := by
  induction replies generalizing n with
  | nil =>
      unfold chunks at before
      split at before <;> simp [transferEnd] at before <;> omega
  | cons reply rest ih =>
      unfold chunks at before ⊢
      split at before
      · rename_i more
        rw [if_pos more]
        cases reply with
        | fails =>
            simp [transferEnd] at before
            omega
        | accepts taken =>
            dsimp only at before ⊢
            split at before
            · simp [transferEnd] at before
              omega
            · rename_i some
              rw [if_neg some]
              dsimp only at before ⊢
              by_cases inside : position < n + min taken (chunkSize msize count n)
              · refine ⟨_, List.mem_cons_self, position - n, ?_, ?_⟩ <;> dsimp only <;> omega
              · simp only [transferEnd, List.map_cons, List.sum_cons] at before
                obtain ⟨chunk, member, index, small, exact⟩ :=
                  ih (n + min taken (chunkSize msize count n)) (by omega)
                    (by simp only [transferEnd]; omega)
                exact ⟨chunk, List.mem_cons_of_mem _ member, index, small, exact⟩
      · simp [transferEnd] at before
        omega

theorem chunk_before_end (msize : UInt32) (count n : Nat) (replies : List Reply) :
    ∀ chunk ∈ (chunks msize count n replies).1,
      chunk.start + chunk.taken ≤ transferEnd n (chunks msize count n replies).1 := by
  induction replies generalizing n with
  | nil =>
      intro chunk member
      unfold chunks at member ⊢
      split at member
      · rename_i more
        simp only [List.mem_singleton] at member
        subst chunk
        simp [more, transferEnd]
      · simp at member
  | cons reply rest ih =>
      intro chunk member
      unfold chunks at member ⊢
      by_cases more : n < count
      · simp only [more, if_true] at member ⊢
        cases reply with
        | fails =>
            simp only [List.mem_singleton] at member
            subst chunk
            simp [transferEnd]
        | accepts taken =>
            dsimp only at member ⊢
            by_cases nothing : min taken (chunkSize msize count n) = 0
            · simp only [nothing, if_true, List.mem_singleton] at member ⊢
              subst chunk
              simp [transferEnd]
            · simp only [nothing, if_false, List.mem_cons] at member ⊢
              simp only [transferEnd, List.map_cons, List.sum_cons]
              rcases member with rfl | later
              · dsimp only
                omega
              · have tail := ih _ chunk later
                simp only [transferEnd] at tail
                omega
      · simp [more] at member

section Write

variable {sizeofSpfcall} {fid : Spcfid} {buf : List UInt8} {offset : UInt64}

theorem spCreateTwrite_fits {fidnum : UInt32} {start : UInt64} {count : Nat} {data : List UInt8}
    (room : sizeofSpfcall + 23 + count < 2 ^ 31) :
    spCreateTwrite sizeofSpfcall fidnum start count data = some ⟨fidnum, start, data.take count⟩ := by
  rw [spCreateTwrite, if_pos (by omega)]

/-- Each chunk leaves the beginning of the buffer at its own place in the file. -/
theorem spcWriteLoop_stores (small : buf.length < 2 ^ 32) (n : Nat) (file : File)
    (replies : List Reply)
    (fits : ∀ chunk ∈ (chunks fid.msize buf.length n replies).1,
      sizeofSpfcall + 23 + chunk.asked < 2 ^ 31)
    (counted : ∀ chunk ∈ (chunks fid.msize buf.length n replies).1,
      chunk.start + chunk.taken < 2 ^ 31) :
    ∃ final,
      spcWriteLoop sizeofSpfcall fid buf offset n file replies =
        some (if (chunks fid.msize buf.length n replies).2
          then (transferEnd n (chunks fid.msize buf.length n replies).1 : Int) else -1, final) ∧
      (∀ index < n, final (offset + UInt64.ofNat index) = file (offset + UInt64.ofNat index)) ∧
      ∀ chunk ∈ (chunks fid.msize buf.length n replies).1, ∀ index < chunk.taken,
        some (final (offset + UInt64.ofNat (chunk.start + index))) = buf[index]? := by
  induction replies generalizing n file with
  | nil =>
      unfold chunks at fits counted ⊢
      unfold spcWriteLoop
      split at fits
      · rename_i more
        have room := fits _ List.mem_cons_self
        dsimp only at room
        simp only [more, if_true, spCreateTwrite_fits room, Option.bind_eq_bind, Option.bind_some]
        refine ⟨file, rfl, fun _ _ => rfl, ?_⟩
        intro chunk member index inside
        simp only [List.mem_singleton] at member
        subst chunk
        exact absurd inside (Nat.not_lt_zero _)
      · rename_i done
        simp only [done, if_false]
        exact ⟨file, rfl, fun _ _ => rfl, fun chunk member => absurd member (by simp)⟩
  | cons reply rest ih =>
      unfold chunks at fits counted ⊢
      unfold spcWriteLoop
      by_cases more : n < buf.length
      · simp only [more, if_true] at fits counted ⊢
        cases reply with
        | fails =>
            have room := fits _ List.mem_cons_self
            dsimp only at room
            simp only [spCreateTwrite_fits room, Option.bind_eq_bind, Option.bind_some]
            refine ⟨file, rfl, fun _ _ => rfl, ?_⟩
            intro chunk member index inside
            simp only [List.mem_singleton] at member
            subst chunk
            exact absurd inside (Nat.not_lt_zero _)
        | accepts taken =>
            dsimp only at fits counted ⊢
            have askedLe : chunkSize fid.msize buf.length n ≤ buf.length - n := Nat.min_le_left _ _
            have whole : (buf.take (chunkSize fid.msize buf.length n)).length =
                chunkSize fid.msize buf.length n := by
              rw [List.length_take]
              omega
            by_cases nothing : min taken (chunkSize fid.msize buf.length n) = 0
            · simp only [nothing, if_true] at fits counted ⊢
              have room := fits _ List.mem_cons_self
              dsimp only at room
              rw [spCreateTwrite_fits room, Option.bind_eq_bind, Option.bind_some]
              dsimp only
              rw [whole, if_pos nothing]
              refine ⟨_, rfl, ?_, ?_⟩
              · intro index before
                rw [nothing, List.take_zero]
                rfl
              · intro chunk member index inside
                simp only [List.mem_singleton] at member
                subst chunk
                exact absurd inside (Nat.not_lt_zero _)
            · simp only [nothing, if_false] at fits counted ⊢
              have room := fits _ List.mem_cons_self
              have total := counted _ List.mem_cons_self
              dsimp only at room total
              rw [spCreateTwrite_fits room, Option.bind_eq_bind, Option.bind_some]
              dsimp only
              rw [whole, if_neg nothing, if_pos total]
              generalize taken_def : min taken (chunkSize fid.msize buf.length n) = l at *
              have data : ((buf.take (chunkSize fid.msize buf.length n)).take l) = buf.take l := by
                rw [List.take_take]
                congr 1
                omega
              have dataLength : (buf.take l).length = l := by
                rw [List.length_take]
                omega
              rw [data]
              obtain ⟨final, ran, kept, stored⟩ := ih (n + l)
                (storeAt file (offset + UInt64.ofNat n) (buf.take l))
                (fun chunk member => fits chunk (List.mem_cons_of_mem _ member))
                (fun chunk member => counted chunk (List.mem_cons_of_mem _ member))
              refine ⟨final, ?_, ?_, ?_⟩
              · rw [ran]
                simp only [transferEnd, List.map_cons, List.sum_cons, Nat.add_assoc]
              · intro index before
                rw [kept index (by omega)]
                exact storeAt_outside file offset n _ index (.inl before) (by omega) (by omega)
              · intro chunk member index inside
                rcases List.mem_cons.mp member with rfl | later
                · dsimp only at inside ⊢
                  rw [kept (n + index) (by omega)]
                  have address : offset + UInt64.ofNat (n + index) =
                      offset + UInt64.ofNat n + UInt64.ofNat index := by
                    rw [UInt64.ofNat_add, UInt64.add_assoc]
                  rw [address, storeAt_within _ _ _ index (by omega) (by omega),
                    List.getElem?_take_of_lt inside]
                · exact stored chunk later index inside
      · simp only [more, if_false] at fits counted ⊢
        exact ⟨file, rfl, fun _ _ => rfl, fun chunk member => absurd member (by simp)⟩

theorem spCreateTwrite_some {fidnum : UInt32} {start : UInt64} {count : Nat} {data : List UInt8}
    {tc : Twrite} (created : spCreateTwrite sizeofSpfcall fidnum start count data = some tc) :
    sizeofSpfcall + 23 + count < 2 ^ 31 ∧ tc = ⟨fidnum, start, data.take count⟩ := by
  unfold spCreateTwrite at created
  split at created
  · exact ⟨by omega, (Option.some.inj created).symm⟩
  · cases created

theorem spcWriteLoop_fits (n : Nat) (file : File)
    (replies : List Reply) (result : Int × File)
    (ran : spcWriteLoop sizeofSpfcall fid buf offset n file replies = some result)
    (low : n < 2 ^ 31) :
    ∀ chunk ∈ (chunks fid.msize buf.length n replies).1,
      sizeofSpfcall + 23 + chunk.asked < 2 ^ 31 ∧ chunk.start + chunk.taken < 2 ^ 31 := by
  induction replies generalizing n file with
  | nil =>
      intro chunk member
      unfold spcWriteLoop at ran
      unfold chunks at member
      by_cases more : n < buf.length
      · simp only [more, if_true, Option.bind_eq_bind, Option.bind_eq_some_iff,
          List.mem_singleton] at ran member
        obtain ⟨tc, created, _⟩ := ran
        subst chunk
        exact ⟨(spCreateTwrite_some created).1, low⟩
      · simp [more] at member
  | cons reply rest ih =>
      intro chunk member
      unfold spcWriteLoop at ran
      unfold chunks at member
      by_cases more : n < buf.length
      · simp only [more, if_true, Option.bind_eq_bind, Option.bind_eq_some_iff] at ran member
        obtain ⟨tc, created, stepped⟩ := ran
        obtain ⟨room, rfl⟩ := spCreateTwrite_some created
        cases reply with
        | fails =>
            simp only [List.mem_singleton] at member
            subst chunk
            exact ⟨room, low⟩
        | accepts taken =>
            dsimp only at stepped member
            have askedLe : chunkSize fid.msize buf.length n ≤ buf.length - n := Nat.min_le_left _ _
            have whole : (buf.take (chunkSize fid.msize buf.length n)).length =
                chunkSize fid.msize buf.length n := by
              rw [List.length_take]
              omega
            rw [whole] at stepped
            by_cases nothing : min taken (chunkSize fid.msize buf.length n) = 0
            · simp only [nothing, if_true, List.mem_singleton] at member
              subst chunk
              exact ⟨room, low⟩
            · simp only [nothing, if_false] at stepped member
              split at stepped
              · rename_i total
                rcases List.mem_cons.mp member with rfl | later
                · exact ⟨room, total⟩
                · exact ih _ _ stepped total chunk later
              · cases stepped
      · simp [more] at member

end Write

theorem readAt_getElem (file : File) (offset : UInt64) (count index : Nat)
    (inside : index < count) :
    (readAt file offset count)[index]? = some (file (offset + UInt64.ofNat index)) := by
  simp [readAt, inside]

theorem spcReadLoop_reads (fid : Spcfid) (count : Nat) (offset : UInt64) (file : File) (n : Nat)
    (buf out : List UInt8) (replies : List Reply) (result : Int) (within : n ≤ count)
    (room : count ≤ buf.length)
    (filled : ∀ index < n, buf[index]? = some (file (offset + UInt64.ofNat index)))
    (ran : spcReadLoop fid count offset file n buf replies = some (result, out)) :
    ∀ index : Nat, (index : Int) < result → out[index]? = some (file (offset + UInt64.ofNat index)) := by
  induction replies generalizing n buf with
  | nil =>
      intro index before
      unfold spcReadLoop at ran
      split at ran
      · simp only [Option.some.injEq, Prod.mk.injEq] at ran
        omega
      · simp only [Option.some.injEq, Prod.mk.injEq] at ran
        rw [← ran.2]
        exact filled index (by omega)
  | cons reply rest ih =>
      intro index before
      unfold spcReadLoop at ran
      split at ran
      · rename_i more
        cases reply with
        | fails =>
            simp only [Option.some.injEq, Prod.mk.injEq] at ran
            omega
        | accepts taken =>
            have askedLe : chunkSize fid.msize count n ≤ count - n := Nat.min_le_left _ _
            dsimp only at ran
            generalize askedDef : min taken (chunkSize fid.msize count n) = l at ran
            have dataLength : (readAt file (offset + UInt64.ofNat n) l).length = l := by
              rw [readAt, List.length_map, List.length_range]
            simp only [dataLength, show ¬ l > count by omega, if_false] at ran
            have whole : (readAt file (offset + UInt64.ofNat n) l).take l =
                readAt file (offset + UInt64.ofNat n) l := List.take_of_length_le (by omega)
            rw [whole] at ran
            by_cases nothing : l = 0
            · subst nothing
              simp only [if_true, Option.some.injEq, Prod.mk.injEq] at ran
              rw [← ran.2, overwrite_getElem_before _ _ _ _ (by omega) (by omega)]
              exact filled index (by omega)
            · simp only [nothing, if_false] at ran
              split at ran
              · refine ih (n + l) _ (by omega) ?_ ?_ ran index before
                · rw [overwrite_length _ _ _ (by omega)]
                  exact room
                · intro earlier inside
                  by_cases old : earlier < n
                  · rw [overwrite_getElem_before _ _ _ _ old (by omega)]
                    exact filled earlier old
                  · obtain ⟨distance, rfl⟩ := Nat.exists_eq_add_of_le (Nat.le_of_not_lt old)
                    rw [overwrite_getElem_within _ _ _ _ (by omega) (by omega),
                      readAt_getElem _ _ _ _ (by omega), UInt64.ofNat_add, UInt64.add_assoc]
              · cases ran
      · simp only [Option.some.injEq, Prod.mk.injEq] at ran
        rw [← ran.2]
        exact filled index (by omega)

theorem stored_of_bytes {fid : Spcfid} {buf : List UInt8} {offset : UInt64} {file : File} {n : Nat}
    (bytes : ∀ index < n, some (file (offset + UInt64.ofNat index)) = buf[index]?) :
    Stored fid buf offset file n := by
  refine ⟨bytes, ?_⟩
  intro buf2 out replies room ran
  have reads := spcReadLoop_reads fid n offset file 0 buf2 out replies n (Nat.zero_le _) room
    (fun index before => absurd before (Nat.not_lt_zero _)) ran
  apply List.ext_getElem?
  intro index
  by_cases before : index < n
  · rw [List.getElem?_take_of_lt before, List.getElem?_take_of_lt before,
      reads index (by omega), bytes index before]
  · rw [List.getElem?_take_eq_none (by omega), List.getElem?_take_eq_none (by omega)]

/-- A write is found in the file, and read back, exactly when each of its chunks repeats
the beginning of the buffer. -/
theorem spcWrite_stored_iff (fid : Spcfid) (buf : List UInt8) (offset : UInt64) (file : File)
    (replies : List Reply) (small : buf.length < 2 ^ 32) :
    (∃ n final, spcWrite sizeofSpfcall fid buf offset file replies = some (n, final) ∧
      (0 ≤ n → Stored fid buf offset final n.toNat)) ↔
    Repeats sizeofSpfcall fid.msize buf replies := by
  constructor
  · rintro ⟨n, final, ran, stored⟩
    have fits := spcWriteLoop_fits 0 file replies _ ran (by omega)
    obtain ⟨final', ran', _, chunked⟩ := spcWriteLoop_stores small 0 file replies
      (fun chunk member => (fits chunk member).1) (fun chunk member => (fits chunk member).2)
    rw [spcWrite, ran'] at ran
    simp only [Option.some.injEq, Prod.mk.injEq] at ran
    obtain ⟨result, rfl⟩ := ran
    refine ⟨fun chunk member => (fits chunk member).1, fun chunk member => (fits chunk member).2, ?_⟩
    intro completed chunk member index inside
    rw [if_pos completed] at result
    have bytes := (stored (by omega)).bytes (chunk.start + index) (by
      have within := chunk_before_end fid.msize buf.length 0 replies chunk member
      omega)
    rw [← bytes, chunked chunk member index inside]
  · intro repeated
    obtain ⟨final, ran, _, chunked⟩ := spcWriteLoop_stores small 0 file replies
      repeated.fits repeated.counted
    refine ⟨_, final, ran, ?_⟩
    intro returned
    by_cases completed : (chunks fid.msize buf.length 0 replies).2 = true
    · rw [if_pos completed] at returned ⊢
      apply stored_of_bytes
      intro index before
      obtain ⟨chunk, member, distance, inside, rfl⟩ := chunks_cover fid.msize buf.length 0 replies
        index (Nat.zero_le _) (by omega)
      rw [chunked chunk member distance inside, repeated.repeats completed chunk member distance inside]
    · rw [if_neg completed] at returned
      omega

/-- Two equal bytes written one at a time: the second chunk repeats the first. -/
theorem spcWrite_stored_equal_bytes :
    ∃ n final, spcWrite 888 ⟨0, 1, 25⟩ [7, 7] 0 (fun _ => 0) [.accepts 1, .accepts 1] =
        some (n, final) ∧ (0 ≤ n → Stored ⟨0, 1, 25⟩ [7, 7] 0 final n.toNat) := by
  apply (spcWrite_stored_iff 888 ⟨0, 1, 25⟩ [7, 7] 0 (fun _ => 0) [.accepts 1, .accepts 1]
    (by decide)).mpr
  exact ⟨by decide, by decide, by decide⟩

/-- With one data byte in a packet the two bytes 97, 98 are stored as 97, 97. -/
theorem spcWrite_resends_beginning :
    ∃ final, spcWrite 888 ⟨0, 1, 25⟩ [97, 98] 0 (fun _ => 0) [.accepts 1, .accepts 1] =
        some (2, final) ∧ final 0 = 97 ∧ final 1 = 97 ∧ ¬ Stored ⟨0, 1, 25⟩ [97, 98] 0 final 2 := by
  refine ⟨_, rfl, by decide, by decide, ?_⟩
  intro stored
  exact absurd (stored.bytes 1 (by decide)) (by decide)

end Xcpu.Libspclient
