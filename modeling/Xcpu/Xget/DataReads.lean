import Mathlib.Data.List.Perm.Basic
import Xcpu.Xget.Transfer

/-!
The reads of the data files. Each is answered once as long as no local file fails, a Tflush finds its
read in the first file, and what is there of a file has the length that is expected.
-/

namespace Xcpu.Xget.Transfer

open Xcpu.Transition Xcpu.Overwrite

/-- The file is complete, or more than the bytes that are asked for, which are not few, have arrived. -/
def Ready {Checksum : Type} (f : File Checksum) (req : Req) : Prop :=
  f.datasize ≤ f.datalen ∨ 4096 < req.count.toNat ∧ req.offset.toNat + req.count.toNat < f.datalen

/-- An Rread has the bytes that are asked for, of what has arrived, and comes when these are enough. -/
def Right : Nat × Answer → Prop
  | (n, .rread data req datasize copy) =>
      req.req = n ∧ data = (copy.drop req.offset.toNat).take req.count.toNat ∧
        (datasize ≤ copy.length ∨
          4096 < req.count.toNat ∧ req.offset.toNat + req.count.toNat < copy.length)
  -- not an error reply
  | (_, .rflush) => False
  | (_, .dropped) => True

section Reads

variable {Checksum : Type}

def File.waiting (f : File Checksum) : List Nat := f.reqs.map Req.req

/-- Each read that came has its answer or is in one list, once; none that is ready stays in a list. -/
structure ReadsAnswered (process : Process Checksum) : Prop where
  once : (process.answers.map Prod.fst ++ process.files.flatMap File.waiting).Perm (List.range process.issued)
  waiting : ∀ f ∈ process.files, ∀ req ∈ f.reqs, ¬Ready f req
  right : ∀ answer ∈ process.answers, Right answer

/-- The local file has the bytes to send, and none behind what has arrived where these are asked for. -/
def Readable (f : File Checksum) (req : Req) : Prop :=
  req.offset.toNat < 2 ^ 63 ∧ ∃ bytes, f.lname = some bytes ∧
    (req.offset.toNat ≤ f.datalen ∨ bytes.length ≤ req.offset.toNat ∨ req.count.toNat = 0)

/-- The reads that are ready are answered, and the answers have no error. -/
def Answerable (fault : Option Nat) (f : File Checksum) (reqs : List Req) : Prop :=
  (∀ req ∈ reqs, (Ready f req → due f req) ∧ (due f req → Readable f req)) ∧
    ∀ n, fault = some n → reqs.countP (due f ·) ≤ n

def ReadFits [DecidableEq Checksum] (cfg : Config Checksum) (process : Process Checksum) : Event Checksum → Prop
  | .read k offset count fault => process.exited = false → ∀ f, process.files[k]? = some f →
      Answerable fault f ({ offset, count, req := process.issued } :: f.reqs)
  | .arrive k now chunk failure fault => process.exited = false → ∀ f, process.files[k]? = some f →
      f.datafd = true → ∀ stored, store cfg now chunk failure f = (stored, .stored) →
        Answerable fault stored stored.reqs
  | .flush req => process.exited = false → process.outstanding req →
      ∃ f, process.files.head? = some f ∧ req ∈ f.waiting
  | .tick _ _ => True

/-- What has arrived is in the local file. -/
structure Stored (f : File Checksum) : Prop where
  small : f.datalen < 2 ^ 63
  there : f.datalen ≤ (f.lname.getD []).length

variable {f : File Checksum} {req : Req}

theorem Stored.copy_length (stored : Stored f) : f.copy.length = f.datalen := by
  rw [File.copy, List.length_take]
  exact Nat.min_eq_left stored.there

/-- Up to the end of what has arrived the 64 bits of the difference do not wrap. -/
theorem readCount_inside (small : f.datalen < 2 ^ 63) (inside : req.offset.toNat ≤ f.datalen) :
    readCount f req = min (f.datalen - req.offset.toNat) req.count.toNat := by
  unfold readCount
  congr 1
  omega

theorem readCount_beyond (beyond : f.datalen < req.offset.toNat) :
    readCount f req = min (f.datalen + 2 ^ 64 - req.offset.toNat) req.count.toNat := by
  have bound := req.offset.toNat_lt
  unfold readCount
  congr 1
  omega

theorem right_of_readable (stored : Stored f) (is_due : due f req) (readable : Readable f req) :
    ∃ buf, readLocal f req = some buf ∧ Right (req.req, .rread buf req f.datasize f.copy) := by
  obtain ⟨positive, bytes, there, range⟩ := readable
  have small := stored.small
  have length := stored.copy_length
  have enough : f.datasize ≤ f.copy.length ∨
      4096 < req.count.toNat ∧ req.offset.toNat + req.count.toNat < f.copy.length := by
    rw [length]
    rcases is_due with complete | ⟨many, before⟩
    · exact .inl (by omega)
    · have bound := req.count.toNat_lt
      have count_le : readCount f req ≤ req.count.toNat := Nat.min_le_right _ _
      have inside : req.offset.toNat + readCount f req < f.datalen := by omega
      have counted := readCount_inside small (by omega : req.offset.toNat ≤ f.datalen)
      exact .inr (by omega)
  refine ⟨(bytes.drop req.offset.toNat).take (readCount f req), ?_, rfl, ?_, enough⟩
  · rw [readLocal, if_neg (by omega), there]
    rfl
  · rw [File.copy, there, Option.getD_some, List.drop_take, List.take_take]
    by_cases inside : req.offset.toNat ≤ f.datalen
    · rw [readCount_inside small inside, Nat.min_comm]
    · rw [show f.datalen - req.offset.toNat = 0 by omega, Nat.min_zero, List.take_zero]
      rcases range with before | after | nothing
      · omega
      · rw [List.drop_of_length_le after, List.take_nil]
      · rw [readCount, nothing, Nat.min_zero, List.take_zero]

theorem readable_of_right (stored : Stored f) {buf : Bytes} (reads : readLocal f req = some buf)
    (right : Right (req.req, .rread buf req f.datasize f.copy)) : Readable f req := by
  unfold readLocal at reads
  split at reads
  · contradiction
  · rename_i positive
    cases there : f.lname with
    | none => simp [there] at reads
    | some bytes =>
        refine ⟨by omega, bytes, there, ?_⟩
        by_contra wrong
        simp only [not_or, Nat.not_le] at wrong
        obtain ⟨beyond, within, some_count⟩ := wrong
        rw [there, Option.map_some, Option.some.injEq] at reads
        have data := right.2.1
        rw [← reads, File.copy, there, Option.getD_some, List.drop_take,
          show f.datalen - req.offset.toNat = 0 by omega, List.take_zero, List.take_nil] at data
        have length := congrArg List.length data
        have small := stored.small
        have bound := req.offset.toNat_lt
        rw [List.length_take, List.length_drop, readCount_beyond beyond, List.length_nil] at length
        omega

section Loop

variable {cfg : Config Checksum} {fault : Option Nat}

theorem answerable_addChecksum (read : Req) (buf : Bytes) (reqs : List Req) :
    Answerable fault (addChecksum cfg f read buf) reqs ↔ Answerable fault f reqs := by
  unfold addChecksum
  split <;> exact Iff.rfl

theorem stored_addChecksum (stored : Stored f) (read : Req) (buf : Bytes) : Stored (addChecksum cfg f read buf) := by
  unfold addChecksum
  split
  · exact ⟨stored.small, stored.there⟩
  · exact stored

theorem answerable_due {rest : List Req} (is_due : due f req) :
    Answerable fault f (req :: rest) ↔
      (fault ≠ some 0 ∧ Readable f req) ∧ Answerable (fault.map (· - 1)) f rest := by
  unfold Answerable
  simp only [List.mem_cons, forall_eq_or_imp, is_due, implies_true, true_and, forall_const, List.countP_cons,
    decide_true, if_true]
  constructor
  · rintro ⟨⟨readable, each⟩, few⟩
    refine ⟨⟨?_, readable⟩, each, ?_⟩
    · intro first
      have none_due := few 0 first
      omega
    · intro n left
      obtain ⟨before, same, rfl⟩ := Option.map_eq_some_iff.mp left
      have counted := few before same
      omega
  · rintro ⟨⟨later, readable⟩, each, few⟩
    refine ⟨⟨readable, each⟩, ?_⟩
    rintro n rfl
    have counted := few (n - 1) rfl
    have positive : n ≠ 0 := fun zero => later (by rw [zero])
    omega

theorem answerable_waits {rest : List Req} (waits : ¬due f req) :
    Answerable fault f (req :: rest) ↔ ¬Ready f req ∧ Answerable fault f rest := by
  unfold Answerable
  simp only [List.mem_cons, forall_eq_or_imp, waits, imp_false, false_implies, and_true, List.countP_cons,
    decide_false, Bool.false_eq_true, if_false, Nat.add_zero, and_assoc]

/-- The loop leaves no read that is ready in the list, and answers without an error, when each read that is
ready is due and each that is due can be read. -/
theorem respondLoop_iff (stored : Stored f) (reqs : List Req) :
    ((∀ answer ∈ (respondLoop cfg fault f reqs).2.2, Right answer) ∧
        ∀ req ∈ (respondLoop cfg fault f reqs).2.1, ¬Ready f req) ↔ Answerable fault f reqs := by
  induction reqs generalizing f fault with
  | nil => simp [respondLoop, Answerable]
  | cons req rest ih =>
      by_cases is_due : due f req
      · rw [answerable_due is_due]
        cases reads : (if fault = some 0 then none else readLocal f req) with
        | none =>
            simp only [respondLoop, is_due, if_true, reads, List.mem_singleton, forall_eq, Right, false_and, false_iff]
            rintro ⟨⟨later, readable⟩, -⟩
            obtain ⟨buf, there, -⟩ := right_of_readable stored is_due readable
            simp [later, there] at reads
        | some buf =>
            have later : fault ≠ some 0 := by
              rintro rfl
              simp at reads
            rw [if_neg later] at reads
            have rest_iff := @ih (addChecksum cfg f req buf) (fault.map (· - 1)) (stored_addChecksum stored req buf)
            have ready_same : Ready (addChecksum cfg f req buf) = Ready f := by
              unfold addChecksum
              split <;> rfl
            rw [answerable_addChecksum, ready_same] at rest_iff
            have right_iff : Right (req.req, .rread buf req f.datasize f.copy) ↔
                fault ≠ some 0 ∧ Readable f req := by
              constructor
              · exact fun right => ⟨later, readable_of_right stored reads right⟩
              · rintro ⟨-, readable⟩
                obtain ⟨other, same, right⟩ := right_of_readable stored is_due readable
                rw [reads, Option.some.injEq] at same
                rw [same]
                exact right
            simp only [respondLoop, is_due, if_true, if_neg later, reads, List.mem_cons, forall_eq_or_imp]
            rw [and_assoc, rest_iff, right_iff]
      · rw [answerable_waits is_due]
        simp only [respondLoop, is_due, if_false, List.mem_cons, forall_eq_or_imp]
        rw [← ih stored, and_left_comm]

theorem respondLoop_perm (reqs : List Req) :
    ((respondLoop cfg fault f reqs).2.2.map Prod.fst ++ (respondLoop cfg fault f reqs).2.1.map Req.req).Perm
      (reqs.map Req.req) := by
  induction reqs generalizing f fault with
  | nil => exact List.Perm.refl _
  | cons req rest ih =>
      by_cases is_due : due f req
      · cases reads : (if fault = some 0 then none else readLocal f req) with
        | none => simp [respondLoop, is_due, reads]
        | some buf =>
            simp only [respondLoop, is_due, if_true, reads, List.map_cons, List.cons_append]
            exact (ih).cons req.req
      · simp only [respondLoop, is_due, if_false, List.map_cons]
        exact List.perm_middle.trans (ih.cons req.req)

/-- What the answers to reads leave as it is. -/
structure Same (f f' : File Checksum) : Prop where
  lname : f'.lname = f.lname
  datasize : f'.datasize = f.datasize
  datalen : f'.datalen = f.datalen

theorem addChecksum_same (read : Req) (buf : Bytes) : Same f (addChecksum cfg f read buf) := by
  unfold addChecksum
  split <;> exact ⟨rfl, rfl, rfl⟩

theorem respondLoop_same (reqs : List Req) : Same f (respondLoop cfg fault f reqs).1 := by
  induction reqs generalizing f fault with
  | nil => exact ⟨rfl, rfl, rfl⟩
  | cons req rest ih =>
      by_cases is_due : due f req
      · cases reads : (if fault = some 0 then none else readLocal f req) with
        | none => simpa only [respondLoop, is_due, if_true, reads] using ⟨rfl, rfl, rfl⟩
        | some buf =>
            have added := @addChecksum_same _ f cfg req buf
            have later := @ih (addChecksum cfg f req buf) (fault.map (· - 1))
            simp only [respondLoop, is_due, if_true, reads]
            exact ⟨later.lname.trans added.lname, later.datasize.trans added.datasize,
              later.datalen.trans added.datalen⟩
      · simp only [respondLoop, is_due, if_false]
        exact ih

theorem respondreqs_iff (stored : Stored f) :
    ((∀ answer ∈ (respondreqs cfg fault f).2, Right answer) ∧
        ∀ req ∈ (respondreqs cfg fault f).1.reqs, ¬Ready (respondreqs cfg fault f).1 req) ↔
      Answerable fault f f.reqs := by
  have same := @respondLoop_same _ f cfg fault f.reqs
  have ready : Ready (respondreqs cfg fault f).1 = Ready f := by
    funext req
    simp only [Ready, respondreqs, same.datasize, same.datalen]
  rw [ready]
  exact respondLoop_iff stored f.reqs

theorem respondreqs_perm :
    ((respondreqs cfg fault f).2.map Prod.fst ++ (respondreqs cfg fault f).1.waiting).Perm f.waiting :=
  respondLoop_perm f.reqs

theorem respondreqs_stored (stored : Stored f) : Stored (respondreqs cfg fault f).1 := by
  have same := @respondLoop_same _ f cfg fault f.reqs
  constructor
  · simp only [respondreqs, same.datalen]
    exact stored.small
  · simp only [respondreqs, same.datalen, same.lname]
    exact stored.there

end Loop

section Arrivals

variable {cfg : Config Checksum} {now : Int} {chunk : Option Bytes} {failure : Option Failure}

theorem overwrite_there {bytes : Bytes} {start : Nat} (within : start ≤ bytes.length) (data : Bytes) :
    start + data.length ≤ (overwrite bytes start data).length := by
  rw [overwrite, List.length_append, List.length_append, List.length_take, Nat.min_eq_left within]
  omega

theorem addChunk_fields (buf : Bytes) (f : File Checksum) :
    (addChunk cfg buf f).lname = some (overwrite (f.lname.getD []) f.datalen buf) ∧
      (addChunk cfg buf f).datalen = f.datalen + buf.length ∧ (addChunk cfg buf f).datasize = f.datasize ∧
      (addChunk cfg buf f).reqs = f.reqs := by
  unfold addChunk
  dsimp only
  split <;> exact ⟨rfl, rfl, rfl, rfl⟩

theorem received_fields (f : File Checksum) :
    (received now f).lname = f.lname ∧ (received now f).datalen = f.datalen ∧
      (received now f).datasize = f.datasize ∧ (received now f).reqs = f.reqs := by
  unfold received
  dsimp only
  split <;> exact ⟨rfl, rfl, rfl, rfl⟩

/-- The file without what is in the way of the first chunk. -/
def cleared (f : File Checksum) : File Checksum := if f.datalen = 0 then { f with lname := none } else f

theorem cleared_stored (stored : Stored f) : Stored (cleared f) := by
  unfold cleared
  split
  · rename_i first
    refine ⟨stored.small, ?_⟩
    dsimp only
    rw [first]
    exact Nat.zero_le _
  · exact stored

theorem cleared_fields (f : File Checksum) :
    (cleared f).datalen = f.datalen ∧ (cleared f).datasize = f.datasize ∧ (cleared f).reqs = f.reqs ∧
      (cleared f).checksum = f.checksum ∧ (cleared f).checksumPtr = f.checksumPtr := by
  unfold cleared
  split <;> exact ⟨rfl, rfl, rfl, rfl, rfl⟩

theorem store_cases (f : File Checksum) :
    (∃ lname outcome, outcome ≠ Outcome.stored ∧
        store cfg now chunk failure f = ({ f with lname, finished := 4 }, outcome) ∧
        (lname = f.lname ∨ lname = (cleared f).lname ∨
          ∃ buf : Bytes, lname = some (overwrite ((cleared f).lname.getD []) f.datalen buf))) ∨
      ∃ buf, chunk = some buf ∧ f.datalen + buf.length < 2 ^ 63 ∧
        store cfg now chunk failure f = (received now (addChunk cfg buf (cleared f)), .stored) := by
  have shape : ∀ lname, { cleared f with lname, finished := 4 } = { f with lname, finished := 4 } := by
    intro lname
    unfold cleared
    split <;> rfl
  have kept : { cleared f with finished := 4 } = { f with lname := (cleared f).lname, finished := 4 } := by
    unfold cleared
    split <;> rfl
  have datalen := (cleared_fields f).1
  unfold store
  split
  · exact .inl ⟨f.lname, .fatal, by simp, rfl, .inl rfl⟩
  · rw [← cleared]
    dsimp only
    split
    · exact .inl ⟨(cleared f).lname, .error, by simp, by rw [kept], .inr (.inl rfl)⟩
    · exact .inl ⟨(cleared f).lname, .fatal, by simp, by rw [kept], .inr (.inl rfl)⟩
    · rename_i buf written _
      exact .inl ⟨_, .fatal, by simp, by rw [shape], .inr (.inr ⟨buf.take written, by rw [datalen]⟩)⟩
    · rename_i buf _ _
      split
      · exact .inl ⟨(cleared f).lname, .fatal, by simp, by rw [kept], .inr (.inl rfl)⟩
      · rename_i small
        rw [datalen] at small
        exact .inr ⟨buf, rfl, by omega, rfl⟩

theorem store_fields (f : File Checksum) :
    (store cfg now chunk failure f).1.reqs = f.reqs ∧ (store cfg now chunk failure f).1.datasize = f.datasize ∧
      ((store cfg now chunk failure f).2 ≠ .stored → (store cfg now chunk failure f).1.datalen = f.datalen) := by
  rcases @store_cases _ cfg now chunk failure f with ⟨lname, outcome, fails, result, -⟩ | ⟨buf, -, -, result⟩
  · rw [result]
    exact ⟨rfl, rfl, fun _ => rfl⟩
  · have ends := @received_fields _ now (addChunk cfg buf (cleared f))
    have adds := @addChunk_fields _ cfg buf (cleared f)
    have clears := cleared_fields f
    rw [result]
    exact ⟨(ends.2.2.2.trans adds.2.2.2).trans clears.2.2.1, (ends.2.2.1.trans adds.2.2.1).trans clears.2.1,
      fun fails => absurd rfl fails⟩

theorem store_stored (stored : Stored f) : Stored (store cfg now chunk failure f).1 := by
  have clear := cleared_stored stored
  have datalen := (cleared_fields f).1
  have room := clear.there
  rw [datalen] at room
  rcases @store_cases _ cfg now chunk failure f with
    ⟨lname, outcome, fails, result, local_file⟩ | ⟨buf, -, small, result⟩
  · rw [result]
    refine ⟨stored.small, ?_⟩
    dsimp only
    rcases local_file with rfl | rfl | ⟨buf, rfl⟩
    · exact stored.there
    · exact room
    · have there := overwrite_there room buf
      rw [Option.getD_some]
      omega
  · have ends := @received_fields _ now (addChunk cfg buf (cleared f))
    have adds := @addChunk_fields _ cfg buf (cleared f)
    have there := overwrite_there room buf
    rw [result]
    constructor
    · rw [ends.2.1, adds.2.1, datalen]
      exact small
    · rw [ends.2.1, adds.2.1, ends.1, adds.1, datalen, Option.getD_some]
      exact there

end Arrivals

section Ticks

variable {cfg : Config Checksum} {now : Int} {input : TickInput Checksum}

/-- What `tick` leaves of a file: a retry may throw away what has arrived. -/
structure Retried (f f' : File Checksum) : Prop where
  lname : f'.lname = f.lname
  datasize : f'.datasize = f.datasize
  reqs : f'.reqs = f.reqs
  datalen : f'.datalen = f.datalen ∨ f'.datalen = 0

theorem Retried.trans {f' f'' : File Checksum} (first : Retried f f') (second : Retried f' f'') : Retried f f'' := by
  refine ⟨second.lname.trans first.lname, second.datasize.trans first.datasize, second.reqs.trans first.reqs, ?_⟩
  rcases second.datalen with same | zero
  · rw [same]
    exact first.datalen
  · exact .inr zero

theorem fileFinalize_retried (write chmods : Bool) : Retried f (fileFinalize cfg write chmods f).1 := by
  unfold fileFinalize
  split
  · exact ⟨rfl, rfl, rfl, .inl rfl⟩
  · split <;> exact ⟨rfl, rfl, rfl, .inl rfl⟩

theorem fileretry_retried (offset : Nat) : Retried f (fileretry cfg now input offset f).1 := by
  unfold fileretry
  split
  · exact ⟨rfl, rfl, rfl, .inl rfl⟩
  · have finalized := @fileFinalize_retried _ { f with retries := f.retries + 1 } cfg true input.chmods
    split
    · rename_i f' result
      rw [result] at finalized
      exact ⟨finalized.lname, finalized.datasize, finalized.reqs, finalized.datalen⟩
    · rename_i f' result
      rw [result] at finalized
      refine ⟨finalized.lname, finalized.datasize, finalized.reqs, ?_⟩
      dsimp only
      split
      · exact .inr rfl
      · exact finalized.datalen

theorem giveUp_retried : Retried f (giveUp f) := by
  unfold giveUp
  split <;> exact ⟨rfl, rfl, rfl, .inl rfl⟩

theorem Retried.waits {f' : File Checksum} (retried : Retried f f') (waits : ¬Ready f req) : ¬Ready f' req := by
  unfold Ready at waits ⊢
  rw [retried.datasize]
  rcases retried.datalen with same | zero <;> omega

theorem Retried.stored {f' : File Checksum} (retried : Retried f f') (stored : Stored f) : Stored f' := by
  have small := stored.small
  have there := stored.there
  constructor
  · rcases retried.datalen with same | zero <;> omega
  · rw [retried.lname]
    rcases retried.datalen with same | zero <;> omega

variable [DecidableEq Checksum]

theorem compare_retried : Retried f (compare cfg input f) := by
  unfold compare
  split
  · dsimp only
    split
    · have finalized := @fileFinalize_retried _ { f with finished := matchsum f input.master } cfg false input.chmods
      exact ⟨finalized.lname, finalized.datasize, finalized.reqs, finalized.datalen⟩
    · exact ⟨rfl, rfl, rfl, .inl rfl⟩
  · exact ⟨rfl, rfl, rfl, .inl rfl⟩

theorem tickFile_retried : Retried f (tickFile cfg now input f).1 := by
  have begun : Retried f (if f.finished < 0 then fileretry cfg now input 0 f else (f, true)).1 := by
    split
    · exact fileretry_retried 0
    · exact ⟨rfl, rfl, rfl, .inl rfl⟩
  unfold tickFile
  split
  · rename_i f' result
    rw [result] at begun
    exact begun
  · rename_i f' result
    rw [result] at begun
    have compared := begun.trans (@compare_retried _ f' cfg input _)
    dsimp only
    split
    · exact compared
    · have given := compared.trans giveUp_retried
      split
      · exact given.trans (fileretry_retried _)
      · exact given

theorem tickLoop_retried (files : List (File Checksum)) (inputs : List (TickInput Checksum)) :
    List.Forall₂ Retried files (tickLoop cfg now files inputs).1 := by
  have unmoved : ∀ files : List (File Checksum), List.Forall₂ Retried files files :=
    fun files => List.forall₂_same.mpr fun _ _ => ⟨rfl, rfl, rfl, .inl rfl⟩
  induction files generalizing inputs with
  | nil => exact .nil
  | cons f files ih =>
      have ticked := @tickFile_retried _ f cfg now (inputs.headD {}) _
      unfold tickLoop
      split
      · rename_i f' fdone result
        rw [result] at ticked
        exact .cons ticked (unmoved files)
      · rename_i f' fdone result
        rw [result] at ticked
        exact .cons ticked (ih inputs.tail)

end Ticks

section Lists

variable {files : List (File Checksum)} {k : Nat}

theorem once_set {answered added extra : List Nat} {issued issued' : Nat} {f' : File Checksum}
    (found : files[k]? = some f) (once : (answered ++ files.flatMap File.waiting).Perm (List.range issued))
    (moved : (added ++ f'.waiting).Perm (f.waiting ++ extra))
    (more : List.range issued' = List.range issued ++ extra) :
    (answered ++ added ++ (files.set k f').flatMap File.waiting).Perm (List.range issued') := by
  obtain ⟨inside, here⟩ := List.getElem?_eq_some_iff.mp found
  have split_files : files = files.take k ++ f :: files.drop (k + 1) := by
    rw [← here, ← List.drop_eq_getElem_cons inside, List.take_append_drop]
  rw [more, List.set_eq_take_append_cons_drop, if_pos inside]
  rw [split_files] at once
  rw [List.perm_iff_count] at once moved ⊢
  intro x
  have before := once x
  have move := moved x
  simp only [List.flatMap_append, List.flatMap_cons, List.count_append] at before move ⊢
  omega

theorem eraseP_count {reqs : List Req} {n : Nat} (member : n ∈ reqs.map Req.req) (x : Nat) :
    ((reqs.eraseP (·.req = n)).map Req.req).count x + (if n = x then 1 else 0) = (reqs.map Req.req).count x := by
  induction reqs with
  | nil => simp at member
  | cons req rest ih =>
      by_cases here : req.req = n
      · simp [here, List.count_cons]
      · have later : n ∈ rest.map Req.req := by
          rw [List.map_cons, List.mem_cons] at member
          rcases member with same | later
          · exact absurd same.symm here
          · exact later
        have counted := ih later
        simp only [List.eraseP_cons, here, decide_false, cond_false, List.map_cons, List.count_cons]
        omega

end Lists

section Steps

variable {cfg : Config Checksum} {process : Process Checksum}

structure ReadsInv (process : Process Checksum) : Prop where
  answered : ReadsAnswered process
  stored : ∀ f ∈ process.files, Stored f

theorem stored_setFile {k : Nat} {served : File Checksum × List (Nat × Answer)}
    (all : ∀ f ∈ process.files, Stored f) (stored : Stored served.1) :
    ∀ f ∈ (process.setFile k served).files, Stored f := by
  intro f member
  rcases List.mem_or_eq_of_mem_set member with old | new
  · exact all f old
  · rw [new]
    exact stored

theorem setFile_answered {k issued : Nat} {extra : List Nat} {f f' : File Checksum} {fault : Option Nat}
    (answered : ReadsAnswered process) (found : process.files[k]? = some f) (stored : Stored f')
    (waits : f'.waiting.Perm (f.waiting ++ extra)) (more : List.range issued = List.range process.issued ++ extra) :
    ReadsAnswered ({ process with issued }.setFile k (respondreqs cfg fault f')) ↔
      Answerable fault f' f'.reqs := by
  rw [← @respondreqs_iff _ f' cfg fault stored]
  obtain ⟨inside, -⟩ := List.getElem?_eq_some_iff.mp found
  constructor
  · intro next
    refine ⟨fun answer member => next.right answer (List.mem_append_right _ member), ?_⟩
    exact next.waiting _ (List.mem_set inside _)
  · rintro ⟨right, waiting⟩
    refine ⟨?_, ?_, ?_⟩
    · have moved := (@respondreqs_perm _ f' cfg fault).trans waits
      simp only [Process.setFile, List.map_append]
      exact once_set found answered.once moved more
    · intro g member
      rcases List.mem_or_eq_of_mem_set member with old | new
      · exact answered.waiting g old
      · rw [new]
        exact waiting
    · intro answer member
      rcases List.mem_append.mp member with old | new
      · exact answered.right answer old
      · exact right answer new

theorem read_iff (inv : ReadsInv process) {k : Nat} {f : File Checksum} (found : process.files[k]? = some f)
    (offset : UInt64) (count : UInt32) (fault : Option Nat) :
    ReadsAnswered ({ process with issued := process.issued + 1 }.setFile k
        (dataRead cfg fault f { offset, count, req := process.issued })) ↔
      Answerable fault f ({ offset, count, req := process.issued } :: f.reqs) := by
  have stored := inv.stored f (List.mem_of_getElem? found)
  have waits : ({ f with reqs := { offset, count, req := process.issued } :: f.reqs } : File Checksum).waiting.Perm
      (f.waiting ++ [process.issued]) := List.perm_append_singleton _ _ |>.symm
  exact setFile_answered inv.answered found ⟨stored.small, stored.there⟩ waits List.range_succ

theorem setFile_failed {k : Nat} {f f' : File Checksum} (answered : ReadsAnswered process)
    (found : process.files[k]? = some f) (reqs : f'.reqs = f.reqs) (datasize : f'.datasize = f.datasize)
    (datalen : f'.datalen = f.datalen) : ReadsAnswered (process.setFile k (f', [])) := by
  refine ⟨?_, ?_, ?_⟩
  · have same : f'.waiting.Perm (f.waiting ++ []) := by
      rw [List.append_nil, File.waiting, reqs]
      exact List.Perm.refl _
    have set := once_set found answered.once (show ([] ++ f'.waiting).Perm (f.waiting ++ []) from same)
      (List.append_nil _).symm
    simpa only [Process.setFile, List.append_nil] using set
  · intro g member
    rcases List.mem_or_eq_of_mem_set member with old | new
    · exact answered.waiting g old
    · rw [new]
      dsimp only
      intro req inside
      rw [reqs] at inside
      unfold Ready
      rw [datasize, datalen]
      exact answered.waiting f (List.mem_of_getElem? found) req inside
  · intro answer member
    rw [Process.setFile, List.append_nil] at member
    exact answered.right answer member

theorem xflush_iff (answered : ReadsAnswered process) {req : Nat} (outstanding : process.outstanding req) :
    ReadsAnswered (xflush process req) ↔ ∃ f, process.files.head? = some f ∧ req ∈ f.waiting := by
  have once := answered.once
  obtain ⟨issued, unanswered⟩ := outstanding
  unfold xflush
  cases split_files : process.files with
  | nil =>
      rw [split_files, List.flatMap_nil, List.append_nil] at once
      exact absurd (once.mem_iff.mpr (List.mem_range.mpr issued)) unanswered
  | cons f files =>
      simp only [List.head?_cons, Option.some.injEq, exists_eq_left']
      rw [split_files] at once
      constructor
      · intro next
        by_contra elsewhere
        have after := next.once
        have kept : f.reqs.eraseP (·.req = req) = f.reqs := by
          apply List.eraseP_of_forall_not
          intro other member same
          exact elsewhere (List.mem_map.mpr ⟨other, member, by simpa using same⟩)
        dsimp only at after
        rw [kept] at after
        have before := once.count_eq req
        have later := after.count_eq req
        simp only [List.map_append, List.map_cons, List.map_nil, List.flatMap_cons, File.waiting,
          List.count_append, List.count_singleton_self] at before later
        omega
      · intro member
        refine ⟨?_, ?_, ?_⟩
        · rw [List.perm_iff_count] at once ⊢
          intro x
          have before := once x
          have erased := eraseP_count member x
          simp only [List.map_append, List.map_cons, List.map_nil, List.flatMap_cons, File.waiting,
            List.count_append, List.count_cons, List.count_nil, beq_iff_eq] at before ⊢
          omega
        · intro g inside other there
          rcases List.mem_cons.mp inside with rfl | old
          · have member : f ∈ process.files := by rw [split_files]; exact List.mem_cons_self
            exact answered.waiting f member other (List.mem_of_mem_eraseP there)
          · have member : g ∈ process.files := by rw [split_files]; exact List.mem_cons_of_mem _ old
            exact answered.waiting g member other there
        · intro answer inside
          rcases List.mem_append.mp inside with old | new
          · exact answered.right answer old
          · rw [List.mem_singleton.mp new]
            trivial

theorem start_reads (sources : List Source) : ReadsInv (start cfg sources) := by
  have each : ∀ f ∈ (start cfg sources).files, ∃ source, f = filealloc cfg source := by
    intro f member
    obtain ⟨source, -, rfl⟩ := List.mem_map.mp member
    exact ⟨source, rfl⟩
  have none_waits : ∀ f ∈ (start cfg sources).files, f.reqs = [] := by
    intro f member
    obtain ⟨source, rfl⟩ := each f member
    cases source <;> rfl
  refine ⟨⟨?_, ?_, by simp [start]⟩, ?_⟩
  · have empty : (start cfg sources).files.flatMap File.waiting = [] := by
      rw [List.flatMap_eq_nil_iff]
      intro f member
      rw [File.waiting, none_waits f member]
      rfl
    rw [empty]
    exact List.Perm.refl _
  · intro f member req inside
    rw [none_waits f member] at inside
    contradiction
  · intro f member
    obtain ⟨source, rfl⟩ := each f member
    cases source with
    | served data small => exact ⟨small, Nat.le_refl _⟩
    | download datasize lname opens => exact ⟨Nat.two_pow_pos 63, Nat.zero_le _⟩

variable [DecidableEq Checksum]

/-- A tick leaves the reads where they are. -/
theorem tick_inv (inv : ReadsInv process) (now : Int) (inputs : List (TickInput Checksum)) :
    ReadsInv (tick cfg now inputs process) := by
  have retried := @tickLoop_retried _ cfg now _ process.files inputs
  unfold tick
  split
  · exact ⟨⟨inv.answered.once, inv.answered.waiting, inv.answered.right⟩, inv.stored⟩
  · split
    · exact inv
    · generalize ticked_def : tickLoop cfg now process.files inputs = ticked at retried
      obtain ⟨files, fdone, goes⟩ := ticked
      dsimp only at retried ⊢
      have earlier : ∀ f' ∈ files, ∃ f ∈ process.files, Retried f f' := by
        intro f' member
        obtain ⟨index, inside, rfl⟩ := List.getElem_of_mem member
        have within : index < process.files.length := by
          rw [retried.length_eq]
          exact inside
        exact ⟨process.files[index], List.getElem_mem within, retried.get within inside⟩
      have waiting : files.flatMap File.waiting = process.files.flatMap File.waiting := by
        clear ticked_def earlier
        generalize process.files = before at retried
        induction retried with
        | nil => rfl
        | cons first _ ih => rw [List.flatMap_cons, List.flatMap_cons, ih, File.waiting, File.waiting, first.reqs]
      refine ⟨⟨?_, ?_, inv.answered.right⟩, ?_⟩
      · rw [waiting]
        exact inv.answered.once
      · intro f' member req inside
        obtain ⟨f, there, change⟩ := earlier f' member
        rw [change.reqs] at inside
        exact change.waits (inv.answered.waiting f there req inside)
      · intro f' member
        obtain ⟨f, there, change⟩ := earlier f' member
        exact change.stored (inv.stored f there)

theorem step_iff (inv : ReadsInv process) (event : Event Checksum) :
    ReadsAnswered (step cfg process event) ↔ ReadFits cfg process event := by
  unfold step
  by_cases exited : process.exited = true
  · rw [if_pos exited]
    have same := inv.answered
    cases event <;> simp [ReadFits, exited, same]
  rw [if_neg exited]
  have running := Bool.eq_false_of_not_eq_true exited
  cases event with
  | read k offset count fault =>
      simp only [ReadFits, running, forall_const]
      cases found : process.files[k]? with
      | none => simp [inv.answered]
      | some f =>
          simp only [Option.some.injEq, forall_eq']
          have reads := @read_iff _ cfg process inv k f found offset count fault
          rw [running] at reads
          exact reads
  | arrive k now chunk failure fault =>
      simp only [ReadFits, running, forall_const]
      cases found : process.files[k]? with
      | none => simp [inv.answered]
      | some f =>
          simp only [Option.some.injEq, forall_eq']
          by_cases brings : f.datafd = true
          · simp only [brings, if_true, forall_const]
            have stored := inv.stored f (List.mem_of_getElem? found)
            have after := @store_stored _ f cfg now chunk failure stored
            have fields := @store_fields _ cfg now chunk failure f
            cases stores : store cfg now chunk failure f with
            | mk f' outcome =>
                rw [stores] at after fields
                have waits : f'.waiting.Perm (f.waiting ++ []) := by
                  rw [List.append_nil, File.waiting, fields.1]
                  exact List.Perm.refl _
                cases outcome with
                | stored =>
                    simp only [Prod.mk.injEq, and_true, forall_eq']
                    exact setFile_answered inv.answered found after waits (List.append_nil _).symm
                | error =>
                    have failed := setFile_failed inv.answered found fields.1 fields.2.1 (fields.2.2 (by simp))
                    simp [failed]
                | fatal =>
                    have failed := setFile_failed inv.answered found fields.1 fields.2.1 (fields.2.2 (by simp))
                    simp only [Prod.mk.injEq, reduceCtorEq, and_false, false_implies, implies_true, iff_true]
                    exact ⟨failed.once, failed.waiting, failed.right⟩
          · simp [brings, inv.answered]
  | flush req =>
      simp only [ReadFits, running, forall_const]
      by_cases outstanding : process.outstanding req
      · rw [if_pos outstanding, xflush_iff inv.answered outstanding]
        exact ⟨fun first _ => first, fun first => first outstanding⟩
      · simp [outstanding, inv.answered]
  | tick now inputs =>
      have ticked := (@tick_inv _ cfg process _ inv now inputs).answered
      simp only [ReadFits, ticked]

theorem step_stored (inv : ReadsInv process) (event : Event Checksum) :
    ∀ f ∈ (step cfg process event).files, Stored f := by
  unfold step
  split
  · exact inv.stored
  · cases event with
    | read k offset count fault =>
        dsimp only
        split
        · rename_i f found
          have stored := inv.stored f (List.mem_of_getElem? found)
          exact @stored_setFile _ { process with issued := process.issued + 1 } k _ inv.stored
            (respondreqs_stored ⟨stored.small, stored.there⟩)
        · exact inv.stored
    | arrive k now chunk failure fault =>
        dsimp only
        split
        · rename_i f found
          split
          · have after := @store_stored _ f cfg now chunk failure (inv.stored f (List.mem_of_getElem? found))
            split
            · rename_i f' stores
              rw [stores] at after
              exact stored_setFile inv.stored (respondreqs_stored after)
            · rename_i f' stores
              rw [stores] at after
              exact stored_setFile inv.stored after
            · rename_i f' stores
              rw [stores] at after
              exact stored_setFile inv.stored after
          · exact inv.stored
        · exact inv.stored
    | flush req =>
        dsimp only
        split
        · unfold xflush
          split
          · exact inv.stored
          · rename_i f files split_files
            have all := inv.stored
            rw [split_files] at all
            rintro g member
            rcases List.mem_cons.mp member with rfl | old
            · exact ⟨(all f List.mem_cons_self).small, (all f List.mem_cons_self).there⟩
            · exact all g (List.mem_cons_of_mem _ old)
        · exact inv.stored
    | tick now inputs => exact (tick_inv inv now inputs).stored

end Steps

end Reads

/-- The reads are answered as they should be in exactly the runs in which each read that is ready is due
and can be read when it comes or is looked at again, and each one that is flushed is in the first list. -/
theorem reads_answered_iff {Checksum : Type} [DecidableEq Checksum] (cfg : Config Checksum) (sources : List Source)
    (events : List (Event Checksum)) :
    Throughout (fun process event => some (step cfg process event)) ReadsAnswered (start cfg sources) events ↔
      Guarded (fun process event => some (step cfg process event)) (ReadFits cfg) (start cfg sources) events := by
  refine throughout_iff_guarded _ ?_ ?_ events (start_reads sources)
  · intro process event inv
    rw [← step_iff inv event]
    simp
  · intro process event next inv steps answered
    cases steps
    exact ⟨answered, step_stored inv event⟩

/-- The sum of the bytes as the checksum. -/
def plainSum : Config Nat where
  adler := fun checksum b => checksum + b.toNat
  empty := 0
  changeperms := true
  maxretries := 15
  retrytime := 10

/-- The read of the second file is flushed, but stays in its list. -/
theorem flush_secondFile :
    ¬Throughout (fun process event => some (step plainSum process event)) ReadsAnswered
      (start plainSum [.download 10 none true, .download 10 none true]) [.read 1 0 10 none, .flush 0] := by
  rintro ⟨first, stepped, -, second, flushed, answered, -⟩
  cases stepped
  cases flushed
  have once := answered.once.count_eq 0
  revert once
  decide

end Xcpu.Xget.Transfer
