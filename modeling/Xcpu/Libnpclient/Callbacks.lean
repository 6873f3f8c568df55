import Xcpu.Libnpclient.Transfers

/-!
`npc_writenb` and `npc_readnb` send all their messages at once, and the callback of the last answer adds up the
counts. The sum starts from a variable that nothing sets, and no data of a Tread is copied.
-/

namespace Xcpu.Libnpclient

open Xcpu.Overwrite

/-- A conversion to `int`. -/
def toInt (n : UInt32) : Int := n.toInt32.toInt

/-- A product of two `int`s, where it does not overflow. -/
def product (a b : Int) : Option Int :=
  if -2 ^ 31 ≤ a * b ∧ a * b < 2 ^ 31 then some (a * b) else none

/-- `i*iounit` and `n` of one message. -/
structure Request where
  start : Int
  n : UInt32
  deriving DecidableEq

def request (iounit : Int) (count : UInt32) (i : Nat) : Option Request := do
  let stop ← product (i + 1) iounit
  let start ← product i iounit
  if UInt32.ofInt stop > count then some ⟨start, count - UInt32.ofInt start⟩
  else some ⟨start, UInt32.ofInt iounit⟩

/-- The messages that cover `count`, or `some none` where the memory for their answers has a negative size. There
is no result where it divides by zero. -/
def requests (iounit count : UInt32) : Option (Option (List Request)) :=
  if iounit = 0 then none
  else
    let nreq := toInt (count / iounit + if count % iounit = 0 then 0 else 1)
    if nreq < 0 then some none
    else ((List.range nreq.toNat).mapM (request (toInt iounit) count)).map some

/-- `struct Npcread` and `struct Npcwrite`, with the counts of `calls`. -/
structure Pending where
  iounit : UInt32
  nreq : Nat
  nresp : Nat
  calls : List UInt32

def pending (iounit : UInt32) (nreq : Nat) : Pending := ⟨iounit, nreq, 0, List.replicate nreq 0⟩

/-- The sum of the counts, or -1 if something comes after a short one. -/
def total (iounit : UInt32) (nocount : Bool) (count : UInt32) : List UInt32 → UInt32
  | [] => count
  | c :: rest =>
      if nocount then
        if c ≠ 0 then UInt32.ofInt (-1) else total iounit nocount count rest
      else total iounit (decide (c < iounit)) (count + c) rest

/-- The answer to one message, and what the caller's callback is called with after the last; `count` has nothing
but `garbage` before the sum. -/
def npcReadCb (garbage : UInt32) (r : Pending) (call : Nat) (count : UInt32) : Pending × Option UInt32 :=
  let r := { r with calls := r.calls.set call count, nresp := r.nresp + 1 }
  if r.nreq - r.nresp > 0 then (r, none)
  else (r, some (total r.iounit false garbage r.calls))

def npcWriteCb : UInt32 → Pending → Nat → UInt32 → Pending × Option UInt32 := npcReadCb

/-- What the caller's callback is called with, over answers in any order. -/
def called (cb : Pending → Nat → UInt32 → Pending × Option UInt32) (counts : Nat → UInt32) :
    Pending → List Nat → List UInt32
  | _, [] => []
  | r, call :: order =>
      (cb r call (counts call)).2.toList ++ called cb counts (cb r call (counts call)).1 order

/-- The messages of `npc_writenb`. There is no result where one takes bytes from outside of the buffer. -/
def npcWritenb (fid : Npcfid) (buf : Buffer) (offset : UInt64) : Option (Option (List Twrite)) := do
  match ← requests (fid.msize - iohdrsz) (UInt32.ofNat buf.bytes.length) with
  | none => some none
  | some rs =>
      (rs.mapM fun r =>
        if 0 ≤ r.start ∧ r.start + (r.n.toNat : Int) ≤ buf.bytes.length then
          npCreateTwrite fid.fid (offset + UInt64.ofInt r.start) r.n.toNat (buf.bytes.drop r.start.toNat)
        else none).map some

structure Tread where
  fid : UInt32
  offset : UInt64
  count : UInt32

/-- The messages of `npc_readnb`. Nothing that is kept for their answers knows the buffer. -/
def npcReadnb (fid : Npcfid) (count : UInt32) (offset : UInt64) : Option (Option (List Tread)) := do
  match ← requests fid.iounit count with
  | none => some none
  | some rs => some (some (rs.map fun r => ⟨fid.fid, offset + UInt64.ofInt r.start, r.n⟩))

/-- The file after the server has stored the messages in some order. -/
def storeAll (tcs : List Twrite) (order : List Nat) (file : File) : File :=
  order.foldl (fun file call => match tcs[call]? with
    | some tc => storeAt file tc.offset tc.data
    | none => file) file

section Alike

variable (fid : Npcfid) (buf : Buffer) (offset : UInt64)

/-- `npc_writenb` calls its callback once, with what `npc_write` returns, and leaves the same file. -/
def WritesAlike (file : File) : Prop :=
  ∃ tcs n final, npcWritenb fid buf offset = some (some tcs) ∧ npcWrite fid buf offset file = some (n, final) ∧
    ∀ garbage order, order.Perm (List.range tcs.length) →
      called (npcWriteCb garbage) (fun call => ((tcs[call]?).map fun tc => UInt32.ofNat tc.data.length).getD 0)
        (pending (fid.msize - iohdrsz) tcs.length) order = [UInt32.ofNat n] ∧
      storeAll tcs order file = final

/-- `npc_readnb` calls its callback once, with what `npc_read` returns, and leaves the same buffer. -/
def ReadsAlike (server : Server) : Prop :=
  ∃ tcs n out, npcReadnb fid (UInt32.ofNat buf.bytes.length) offset = some (some tcs) ∧
    npcRead fid buf offset server = some (n, out) ∧
    ∀ garbage order, order.Perm (List.range tcs.length) →
      called (npcReadCb garbage)
        (fun call => ((tcs[call]?).map fun tc => UInt32.ofNat (min tc.count.toNat (server.limit call))).getD 0)
        (pending fid.iounit tcs.length) order = [UInt32.ofNat n] ∧
      buf.bytes = out

end Alike

/-- The counts of the answers, each at its place. -/
theorem foldl_set_getElem (counts : Nat → UInt32) (order : List Nat) (calls : List UInt32) (call : Nat)
    (inside : call < calls.length) :
    (order.foldl (fun calls call => calls.set call (counts call)) calls)[call]? =
      if call ∈ order then some (counts call) else calls[call]? := by
  induction order generalizing calls with
  | nil => simp
  | cons first rest ih =>
      rw [List.foldl_cons, ih _ (by simpa using inside)]
      by_cases later : call ∈ rest
      · simp [later]
      · by_cases same : call = first
        · subst same
          simp [later, inside]
        · simp [later, same, List.getElem?_set_ne (Ne.symm same)]

theorem called_run (garbage : UInt32) (counts : Nat → UInt32) (r : Pending) (order : List Nat)
    (left : r.nresp + order.length = r.nreq) :
    called (npcReadCb garbage) counts r order =
      if order = [] then []
      else [total r.iounit false garbage (order.foldl (fun calls call => calls.set call (counts call)) r.calls)] := by
  induction order generalizing r with
  | nil => rfl
  | cons call rest ih =>
      rw [called, if_neg (List.cons_ne_nil _ _), List.foldl_cons]
      rw [List.length_cons] at left
      cases rest with
      | nil =>
          have last : ¬ r.nreq - (r.nresp + 1) > 0 := by
            rw [List.length_nil] at left
            omega
          simp [npcReadCb, last, called]
      | cons next rest =>
          rw [List.length_cons] at left ih
          have more : r.nreq - (r.nresp + 1) > 0 := by omega
          simp only [npcReadCb, more, if_true, Option.toList_none, List.nil_append]
          rw [ih _ (by dsimp only; omega), if_neg (List.cons_ne_nil _ _)]

/-- The callback is called once, with the sum over the counts, in whatever order the answers come. -/
theorem called_once (garbage iounit : UInt32) (counts : Nat → UInt32) (nreq : Nat) (order : List Nat)
    (perm : order.Perm (List.range nreq)) :
    called (npcReadCb garbage) counts (pending iounit nreq) order =
      if nreq = 0 then [] else [total iounit false garbage ((List.range nreq).map counts)] := by
  have length : order.length = nreq := by simpa using perm.length_eq
  rw [called_run garbage counts _ order (by simpa [pending] using length)]
  have calls : order.foldl (fun calls call => calls.set call (counts call)) (pending iounit nreq).calls =
      (List.range nreq).map counts := by
    apply List.ext_getElem?
    intro call
    by_cases inside : call < nreq
    · rw [foldl_set_getElem counts order _ call (by simpa [pending] using inside)]
      have member : call ∈ order := perm.mem_iff.mpr (List.mem_range.mpr inside)
      simp [member, inside]
    · have outside : (order.foldl (fun calls call => calls.set call (counts call)) (pending iounit nreq).calls).length =
          nreq := by
        have same : ∀ calls : List UInt32,
            (order.foldl (fun calls call => calls.set call (counts call)) calls).length = calls.length := by
          intro calls
          clear perm length
          induction order generalizing calls with
          | nil => rfl
          | cons first rest ih => rw [List.foldl_cons, ih, List.length_set]
        rw [same]
        simp [pending]
      rw [List.getElem?_eq_none (by omega), List.getElem?_eq_none (by simpa using by omega)]
  rw [calls]
  cases nreq with
  | zero => simp [List.length_eq_zero_iff.mp length]
  | succ nreq =>
      have nonempty : order ≠ [] := by
        rintro rfl
        simp at length
      simp [nonempty, pending]

/-- What the variable holds before goes into the sum. -/
theorem total_shift (iounit : UInt32) (nocount : Bool) (counts : List UInt32) :
    (∀ garbage, total iounit nocount garbage counts = UInt32.ofInt (-1)) ∨
      ∃ sum, ∀ garbage, total iounit nocount garbage counts = garbage + sum := by
  induction counts generalizing nocount with
  | nil => exact .inr ⟨0, fun garbage => by simp [total]⟩
  | cons c rest ih =>
      cases nocount with
      | true =>
          by_cases zero : c = 0
          · simpa [total, zero] using ih true
          · exact .inl fun garbage => by simp [total, zero]
      | false =>
          rcases ih (decide (c < iounit)) with refused | ⟨sum, shifted⟩
          · exact .inl fun garbage => by simp [total, refused]
          · exact .inr ⟨c + sum, fun garbage => by simp [total, shifted, UInt32.add_assoc]⟩

/-- No result of a blocking call is what the callback gets for every content of the variable. -/
theorem not_called_alike {iounit : UInt32} {counts : Nat → UInt32} {nreq n : Nat} (below : n < 2 ^ 31)
    (alike : ∀ garbage order, order.Perm (List.range nreq) →
      called (npcReadCb garbage) counts (pending iounit nreq) order = [UInt32.ofNat n]) : False := by
  have zero := alike 0 _ (List.Perm.refl _)
  have one := alike 1 _ (List.Perm.refl _)
  rw [called_once _ _ _ _ _ (List.Perm.refl _)] at zero one
  by_cases none : nreq = 0
  · simp [none] at zero
  · rw [if_neg none, List.cons.injEq] at zero one
    rcases total_shift iounit false ((List.range nreq).map counts) with refused | ⟨sum, shifted⟩
    · have minus := (refused 0).symm.trans zero.1
      have same := congrArg UInt32.toNat minus
      simp only [UInt32.toNat_ofNat'] at same
      have : (UInt32.ofInt (-1)).toNat = 2 ^ 32 - 1 := rfl
      omega
    · have same : (0 : UInt32) + sum = 1 + sum := by
        rw [← shifted, ← shifted, zero.1, one.1]
      exact absurd ((UInt32.add_left_inj sum).mp same) (by decide)

/-- The blocking calls are right under these conditions exactly. The others never complete as they do. -/
theorem npcTransfers_iff (fid : Npcfid) (buf : Buffer) (offset : UInt64) (server : Server) :
    ((∃ n final, npcWrite fid buf offset server.file = some (n, final) ∧ Stored buf offset final n) ↔
      fid.chunk = 0 ∨ (23 + min buf.bytes.length fid.chunk < 2 ^ 31 ∧ buf.bytes.length < 2 ^ 31 ∧ Repeats fid buf)) ∧
    ((∃ n out, npcRead fid buf offset server = some (n, out) ∧ Placed server.file offset n out) ↔
      received (replies fid buf.bytes.length server.limit 0 0) < 2 ^ 31 ∧
        Aligned server.file buf offset (replies fid buf.bytes.length server.limit 0 0)) ∧
    ¬ WritesAlike fid buf offset server.file ∧ ¬ ReadsAlike fid buf offset server := by
  refine ⟨npcWrite_stored_iff fid buf offset server.file, npcRead_placed_iff fid buf offset server, ?_, ?_⟩
  · rintro ⟨tcs, n, final, -, wrote, alike⟩
    have below := (npcWriteLoop_total wrote (by omega)).1
    exact not_called_alike below fun garbage order perm => (alike garbage order perm).1
  · rintro ⟨tcs, n, out, -, readIn, alike⟩
    rw [npcRead, npcReadLoop_overlay 0 0 buf.bytes (by omega)] at readIn
    split at readIn
    · rename_i below
      cases readIn
      exact not_called_alike below fun garbage order perm => (alike garbage order perm).1
    · cases readIn

/-- With one data byte in a message the two bytes 97, 98 are not what the file has after `npc_write`. -/
theorem npcWrite_resends_beginning :
    ¬ ∃ n final, npcWrite ⟨1, 1, 25⟩ ⟨[97, 98], by decide⟩ 0 (fun _ => 0) = some (n, final) ∧
      Stored ⟨[97, 98], by decide⟩ 0 final n := by
  rw [npcWrite_stored_iff]
  rintro (none | ⟨-, -, repeated⟩)
  · exact absurd none (by decide)
  · exact absurd (repeated 1 (by decide)) (by decide)

end Xcpu.Libnpclient
