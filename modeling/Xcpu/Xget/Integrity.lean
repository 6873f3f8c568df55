import Xcpu.Xget.DataReads

/-!
The checksums of the downloads. The checksum goes along with the local file through chunks, reads and
retries; it lags behind a file that is kept by a retry, and a file that failed counts as done.
-/

namespace Xcpu.Xget.Transfer

open Xcpu.Transition Xcpu.Overwrite

section Files

variable {Checksum : Type} [DecidableEq Checksum] (cfg : Config Checksum)

/-- The checksum of the first `checksumPtr` bytes of the local file. When all bytes were received these are
all, and the checksum of a copy that is like the master's file is accepted. -/
structure Checked (f : File Checksum) : Prop where
  checksum : f.checksum = cfg.adler32 cfg.empty ((f.lname.getD []).take f.checksumPtr)
  whole : f.finished = 1 → f.checksumPtr = f.datalen
  accepted : f.finished = 1 → ∀ data, f.copy = data → matchsum f (some (cfg.adler32 cfg.empty data)) = 1

/-- The property of each file that the loop of `tick` comes to. -/
def EachReached (now : Int) (property : File Checksum → TickInput Checksum → Prop) :
    List (File Checksum) → List (TickInput Checksum) → Prop
  | [], _ => True
  | f :: files, inputs => property f (inputs.headD {}) ∧
      ((tickFile cfg now (inputs.headD {}) f).2.2 = true → EachReached now property files inputs.tail)

/-- `tick` lets the file count as done only with the checksum of the master. -/
def DoneMatched (f : File Checksum) (input : TickInput Checksum) : Prop :=
  (giveUp (compare cfg input f)).finished = 2 → f.finished = 2 ∨ f.finished = 1 ∧ input.master = some f.checksum

def Process.ticks (process : Process Checksum) : Prop :=
  process.exited = false ∧ process.ename = false ∧ process.endtime = false

/-- What a step should do: the checksums are right, the last chunk of a file finds them complete, and only
files that match are done. -/
def Integrity (process : Process Checksum) (event : Event Checksum) (next : Process Checksum) : Prop :=
  (∀ f ∈ next.files, Checked cfg f) ∧
    match event with
    | .arrive k now chunk failure _ => process.exited = false → ∀ f, process.files[k]? = some f →
        f.datafd = true → ∀ stored, store cfg now chunk failure f = (stored, .stored) →
          stored.finished = 1 → stored.checksumPtr = stored.datalen
    | .tick now inputs => process.ticks → EachReached cfg now (DoneMatched cfg) process.files inputs
    | _ => True

/-- The last chunk comes to a file with its checksum up to the chunk, and no file has failed at a tick. -/
def DownloadFits (process : Process Checksum) : Event Checksum → Prop
  | .arrive k now chunk failure _ => process.exited = false → ∀ f, process.files[k]? = some f →
      f.datafd = true → ∀ stored, store cfg now chunk failure f = (stored, .stored) →
        f.datasize ≤ stored.datalen → f.checksumPtr = f.datalen
  | .tick now inputs => process.ticks → EachReached cfg now (fun f _ => f.finished ≠ 4) process.files inputs
  | _ => True

end Files

section Checksums

variable {Checksum : Type} {cfg : Config Checksum} {f : File Checksum}

/-- The checksum has come so far in what has arrived. -/
structure Intact (cfg : Config Checksum) (f : File Checksum) : Prop where
  stored : Stored f
  behind : f.checksumPtr ≤ f.datalen
  checksum : f.checksum = cfg.adler32 cfg.empty ((f.lname.getD []).take f.checksumPtr)
  whole : f.finished = 1 → f.checksumPtr = f.datalen

theorem Intact.checked [DecidableEq Checksum] (intact : Intact cfg f) : Checked cfg f := by
  refine ⟨intact.checksum, intact.whole, ?_⟩
  rintro finished data rfl
  have same : some (cfg.adler32 cfg.empty f.copy) = some f.checksum := by
    rw [intact.checksum, intact.whole finished]
    rfl
  rw [matchsum, if_pos same]

theorem adler32_append (checksum : Checksum) (first second : Bytes) :
    cfg.adler32 checksum (first ++ second) = cfg.adler32 (cfg.adler32 checksum first) second :=
  List.foldl_append

theorem addChecksum_intact (intact : Intact cfg f) {req : Req} {buf : Bytes} (reads : readLocal f req = some buf) :
    Intact cfg (addChecksum cfg f req buf) := by
  unfold addChecksum
  split
  · rename_i here
    have behind := intact.behind
    have there := intact.stored.there
    unfold readLocal at reads
    split at reads
    · contradiction
    · obtain ⟨bytes, local_file, taken⟩ := Option.map_eq_some_iff.mp reads
      rw [local_file, Option.getD_some] at there
      have inside : readCount f req ≤ f.datalen - f.checksumPtr := by
        rw [readCount_inside intact.stored.small (by omega), here]
        exact Nat.min_le_left _ _
      have length : buf.length = readCount f req := by
        rw [← taken, List.length_take, List.length_drop]
        omega
      refine ⟨⟨intact.stored.small, intact.stored.there⟩, ?_, ?_, ?_⟩
      · dsimp only
        omega
      · dsimp only
        rw [intact.checksum, ← adler32_append, local_file, Option.getD_some, length, List.take_add, ← here, taken]
      · intro finished
        have all := intact.whole finished
        dsimp only
        omega
  · exact intact

theorem respondLoop_intact (fault : Option Nat) (intact : Intact cfg f) (reqs : List Req) :
    Intact cfg (respondLoop cfg fault f reqs).1 := by
  induction reqs generalizing f fault with
  | nil => exact intact
  | cons req rest ih =>
      by_cases is_due : due f req
      · cases reads : (if fault = some 0 then none else readLocal f req) with
        | none => simpa only [respondLoop, is_due, if_true, reads] using intact
        | some buf =>
            have there : readLocal f req = some buf := by
              split at reads
              · contradiction
              · exact reads
            simp only [respondLoop, is_due, if_true, reads]
            exact ih (fault.map (· - 1)) (addChecksum_intact intact there)
      · simp only [respondLoop, is_due, if_false]
        exact ih fault intact

theorem respondreqs_intact (fault : Option Nat) (intact : Intact cfg f) :
    Intact cfg (respondreqs cfg fault f).1 := by
  have loop := respondLoop_intact fault intact f.reqs
  exact ⟨⟨loop.stored.small, loop.stored.there⟩, loop.behind, loop.checksum, loop.whole⟩

/-- What is written behind the checksum leaves it as it is. -/
theorem overwrite_take {bytes data : Bytes} {start length : Nat} (before : length ≤ start)
    (within : start ≤ bytes.length) : (overwrite bytes start data).take length = bytes.take length := by
  rw [overwrite, List.append_assoc, List.take_append_of_le_length, List.take_take, Nat.min_eq_left before]
  rw [List.length_take]
  omega

theorem cleared_intact (intact : Intact cfg f) : Intact cfg (cleared f) := by
  have stored := cleared_stored intact.stored
  have fields := cleared_fields f
  have behind := intact.behind
  refine ⟨stored, ?_, ?_, ?_⟩
  · rw [fields.1, fields.2.2.2.2]
    exact behind
  · rw [fields.2.2.2.1, fields.2.2.2.2, intact.checksum]
    unfold cleared
    split
    · rename_i first
      rw [show f.checksumPtr = 0 by omega]
      rfl
    · rfl
  · intro finished
    rw [fields.1, fields.2.2.2.2]
    apply intact.whole
    rw [← finished]
    unfold cleared
    split <;> rfl

theorem addChunk_intact (intact : Intact cfg f) {buf : Bytes} (small : f.datalen + buf.length < 2 ^ 63) :
    Intact cfg (addChunk cfg buf f) ∧
      ((addChunk cfg buf f).checksumPtr = (addChunk cfg buf f).datalen ↔ f.checksumPtr = f.datalen) := by
  have behind := intact.behind
  have there := intact.stored.there
  have longer := overwrite_there there buf
  unfold addChunk
  dsimp only
  split
  · rename_i same
    refine ⟨⟨⟨small, longer⟩, ?_, ?_, ?_⟩, ?_⟩
    · dsimp only
      omega
    · dsimp only
      have front : ((f.lname.getD []).take f.datalen ++ buf).length = f.checksumPtr + buf.length := by
        rw [List.length_append, List.length_take]
        omega
      rw [Option.getD_some, overwrite, List.take_left' front, adler32_append, same, ← intact.checksum]
    · intro _
      dsimp only
      omega
    · dsimp only
      omega
  · rename_i other
    refine ⟨⟨⟨small, longer⟩, ?_, ?_, ?_⟩, ?_⟩
    · dsimp only
      omega
    · dsimp only
      rw [Option.getD_some, overwrite_take behind there]
      exact intact.checksum
    · intro finished
      exact absurd (intact.whole finished).symm other
    · dsimp only
      omega

theorem received_intact {now : Int} (intact : Intact cfg f)
    (complete : f.datasize ≤ f.datalen → f.checksumPtr = f.datalen) : Intact cfg (received now f) := by
  unfold received
  dsimp only
  split
  · rename_i last
    exact ⟨⟨intact.stored.small, intact.stored.there⟩, intact.behind, intact.checksum, fun _ => complete last⟩
  · exact ⟨⟨intact.stored.small, intact.stored.there⟩, intact.behind, intact.checksum, intact.whole⟩

section Stores

variable {now : Int} {chunk : Option Bytes} {failure : Option Failure}

theorem store_arrives (intact : Intact cfg f) {stored : File Checksum}
    (stores : store cfg now chunk failure f = (stored, .stored)) :
    ((stored.finished = 1 → stored.checksumPtr = stored.datalen) ↔
        (f.datasize ≤ stored.datalen → f.checksumPtr = f.datalen)) ∧
      ((f.datasize ≤ stored.datalen → f.checksumPtr = f.datalen) → Intact cfg stored) := by
  have fields := cleared_fields f
  have clear := cleared_intact intact
  rcases @store_cases _ cfg now chunk failure f with
    ⟨lname, outcome, fails, result, -⟩ | ⟨buf, -, small, result⟩
  · rw [result, Prod.mk.injEq] at stores
    exact absurd stores.2 fails
  · rw [result, Prod.mk.injEq] at stores
    obtain ⟨rfl, -⟩ := stores
    obtain ⟨added, meets⟩ := @addChunk_intact _ cfg (cleared f) clear buf (by rw [fields.1]; exact small)
    have adds := @addChunk_fields _ cfg buf (cleared f)
    have ends := @received_fields _ now (addChunk cfg buf (cleared f))
    rw [fields.1, fields.2.2.2.2] at meets
    have size : (addChunk cfg buf (cleared f)).datasize = f.datasize := adds.2.2.1.trans fields.2.1
    have pointer : (received now (addChunk cfg buf (cleared f))).checksumPtr =
        (addChunk cfg buf (cleared f)).checksumPtr := by
      unfold received
      dsimp only
      split <;> rfl
    rw [pointer, ends.2.1, meets]
    refine ⟨⟨?_, ?_⟩, ?_⟩
    · intro whole last
      apply whole
      unfold received
      rw [size, if_pos last]
    · intro last finished
      by_cases complete : f.datasize ≤ (addChunk cfg buf (cleared f)).datalen
      · exact last complete
      · apply meets.mp
        apply added.whole
        rw [← finished]
        unfold received
        rw [size, if_neg complete]
    · intro last
      apply received_intact added
      rw [size, meets]
      exact last

theorem store_fails_intact (intact : Intact cfg f) {f' : File Checksum} {outcome : Outcome}
    (stores : store cfg now chunk failure f = (f', outcome)) (fails : outcome ≠ .stored) : Intact cfg f' := by
  have behind := intact.behind
  have stored := @store_stored _ f cfg now chunk failure intact.stored
  rcases @store_cases _ cfg now chunk failure f with ⟨lname, other, -, result, local_file⟩ | ⟨buf, -, -, result⟩
  · rw [result] at stored stores
    obtain ⟨rfl, rfl⟩ := Prod.mk.inj stores
    refine ⟨stored, behind, ?_, fun finished => by dsimp only at finished; omega⟩
    dsimp only
    have clear := cleared_intact intact
    have fields := cleared_fields f
    have same : ((cleared f).lname.getD []).take f.checksumPtr = (f.lname.getD []).take f.checksumPtr := by
      unfold cleared
      split
      · rename_i first
        rw [show f.checksumPtr = 0 by omega]
        rfl
      · rfl
    rcases local_file with rfl | rfl | ⟨buf, rfl⟩
    · exact intact.checksum
    · rw [same]
      exact intact.checksum
    · have there := clear.stored.there
      rw [fields.1] at there
      rw [Option.getD_some, overwrite_take behind there, same]
      exact intact.checksum
  · rw [result] at stores
    exact absurd (Prod.mk.inj stores).2.symm fails

end Stores

section Ticks

variable {now : Int} {input : TickInput Checksum}

theorem Intact.with_finished (intact : Intact cfg f) {finished : Int} (other : finished ≠ 1) :
    Intact cfg { f with finished } :=
  ⟨⟨intact.stored.small, intact.stored.there⟩, intact.behind, intact.checksum, fun one => absurd one other⟩

theorem fileFinalize_intact (intact : Intact cfg f) (write chmods : Bool) :
    Intact cfg (fileFinalize cfg write chmods f).1 := by
  unfold fileFinalize
  split
  · exact intact.with_finished (by decide)
  · split
    · exact intact
    · exact intact.with_finished (by decide)

theorem fileretry_intact (intact : Intact cfg f) (offset : Nat) :
    Intact cfg (fileretry cfg now input offset f).1 := by
  have stored := (@fileretry_retried _ f cfg now input offset).stored intact.stored
  have counted : Intact cfg { f with retries := f.retries + 1 } :=
    ⟨⟨intact.stored.small, intact.stored.there⟩, intact.behind, intact.checksum, intact.whole⟩
  have finalized := fileFinalize_intact counted true input.chmods
  unfold fileretry at stored ⊢
  split
  · exact intact
  · rename_i more
    rw [if_neg more] at stored
    split
    · rename_i f' result
      rw [result] at finalized
      exact finalized
    · rename_i f' result
      rw [result] at stored
      exact ⟨stored, Nat.zero_le _, rfl, fun finished => by dsimp only at finished; omega⟩

variable [DecidableEq Checksum]

theorem matchsum_eq (f : File Checksum) (master : Option Checksum) :
    matchsum f master = 1 ∧ master = some f.checksum ∨ matchsum f master = -1 ∧ master ≠ some f.checksum := by
  unfold matchsum
  split
  · rename_i same
    exact .inl ⟨rfl, same⟩
  · rename_i other
    exact .inr ⟨rfl, other⟩

theorem compare_finished (f : File Checksum) :
    (compare cfg input f).finished =
      if f.finished = 1 then (if input.master = some f.checksum then 2 else -1) else f.finished := by
  unfold compare
  split
  · rcases matchsum_eq f input.master with ⟨matched, same⟩ | ⟨failed, other⟩
    · rw [matched, if_pos same]
      dsimp only
      rw [if_pos rfl]
      unfold fileFinalize
      split
      · rfl
      · rw [if_neg (by simp)]
    · rw [failed, if_neg other]
      dsimp only
      rw [if_neg (by decide)]
  · rfl

theorem compare_intact (intact : Intact cfg f) : Intact cfg (compare cfg input f) := by
  unfold compare
  split
  · rename_i finished
    dsimp only
    have whole := intact.whole finished
    have compared : Intact cfg { f with finished := matchsum f input.master } :=
      ⟨⟨intact.stored.small, intact.stored.there⟩, intact.behind, intact.checksum, fun _ => whole⟩
    split
    · exact fileFinalize_intact compared false input.chmods
    · exact compared
  · exact intact

theorem doneMatched_iff (f : File Checksum) : DoneMatched cfg f input ↔ f.finished ≠ 4 := by
  unfold DoneMatched giveUp
  rw [compare_finished]
  by_cases received : f.finished = 1
  · rw [if_pos received, received]
    by_cases same : input.master = some f.checksum
    · simp [same]
    · simp [same, compare_finished, received]
  · rw [if_neg received]
    by_cases failed : f.finished = 4
    · simp [failed]
    · simp [failed, compare_finished, received]

theorem tickFile_intact (intact : Intact cfg f) : Intact cfg (tickFile cfg now input f).1 := by
  have begun : Intact cfg (if f.finished < 0 then fileretry cfg now input 0 f else (f, true)).1 := by
    split
    · exact fileretry_intact intact 0
    · exact intact
  unfold tickFile
  split
  · rename_i f' result
    rw [result] at begun
    exact begun
  · rename_i f' result
    rw [result] at begun
    have compared := @compare_intact _ cfg f' input _ begun
    dsimp only
    split
    · exact compared
    · have given : Intact cfg (giveUp (compare cfg input f')) := by
        unfold giveUp
        split
        · exact compared.with_finished (by decide)
        · exact compared
      split
      · exact fileretry_intact given _
      · exact given

theorem tickLoop_intact (files : List (File Checksum)) (inputs : List (TickInput Checksum))
    (intact : ∀ f ∈ files, Intact cfg f) : ∀ f ∈ (tickLoop cfg now files inputs).1, Intact cfg f := by
  induction files generalizing inputs with
  | nil => simp [tickLoop]
  | cons f files ih =>
      have ticked := @tickFile_intact _ cfg f now (inputs.headD {}) _ (intact f List.mem_cons_self)
      have later := fun g member => intact g (List.mem_cons_of_mem f member)
      unfold tickLoop
      split
      · rename_i f' fdone result
        rw [result] at ticked
        exact List.forall_mem_cons.mpr ⟨ticked, later⟩
      · rename_i f' fdone result
        rw [result] at ticked
        exact List.forall_mem_cons.mpr ⟨ticked, ih inputs.tail later⟩

theorem eachReached_iff {property other : File Checksum → TickInput Checksum → Prop}
    (same : ∀ f input, property f input ↔ other f input) (files : List (File Checksum))
    (inputs : List (TickInput Checksum)) :
    EachReached cfg now property files inputs ↔ EachReached cfg now other files inputs := by
  induction files generalizing inputs with
  | nil => exact Iff.rfl
  | cons f files ih => rw [EachReached, EachReached, same, ih]

end Ticks

section Steps

variable {process next : Process Checksum}

theorem intact_setFile {k : Nat} {served : File Checksum × List (Nat × Answer)}
    (all : ∀ f ∈ process.files, Intact cfg f) (intact : Intact cfg served.1) :
    ∀ f ∈ (process.setFile k served).files, Intact cfg f := by
  intro f member
  rcases List.mem_or_eq_of_mem_set member with old | new
  · exact all f old
  · rw [new]
    exact intact

theorem start_intact (sources : List Source) : ∀ f ∈ (start cfg sources).files, Intact cfg f := by
  intro f member
  obtain ⟨source, -, rfl⟩ := List.mem_map.mp member
  cases source with
  | served data small =>
      exact ⟨⟨small, Nat.le_refl _⟩, Nat.zero_le _, rfl, fun finished => absurd finished (by simp [filealloc])⟩
  | download datasize lname opens =>
      refine ⟨⟨Nat.two_pow_pos 63, Nat.zero_le _⟩, Nat.le_refl _, rfl, fun _ => rfl⟩

variable [DecidableEq Checksum]

theorem step_intact (all : ∀ f ∈ process.files, Intact cfg f) {event : Event Checksum}
    (fits : DownloadFits cfg process event) : ∀ f ∈ (step cfg process event).files, Intact cfg f := by
  unfold step
  by_cases exited : process.exited = true
  · rw [if_pos exited]
    exact all
  rw [if_neg exited]
  have running := Bool.eq_false_of_not_eq_true exited
  cases event with
  | read k offset count fault =>
      dsimp only
      split
      · rename_i f found
        have intact := all f (List.mem_of_getElem? found)
        exact @intact_setFile _ cfg { process with issued := process.issued + 1 } k _ all
          (respondreqs_intact fault ⟨⟨intact.stored.small, intact.stored.there⟩, intact.behind, intact.checksum,
            intact.whole⟩)
      · exact all
  | arrive k now chunk failure fault =>
      dsimp only
      split
      · rename_i f found
        have intact := all f (List.mem_of_getElem? found)
        split
        · rename_i brings
          have last := fits running f found brings
          split
          · rename_i f' stores
            exact intact_setFile all (respondreqs_intact fault ((store_arrives intact stores).2 (last f' stores)))
          · rename_i f' stores
            exact intact_setFile all (store_fails_intact intact stores (by simp))
          · rename_i f' stores
            exact intact_setFile all (store_fails_intact intact stores (by simp))
        · exact all
      · exact all
  | flush req =>
      dsimp only
      split
      · unfold xflush
        split
        · exact all
        · rename_i f files split_files
          rw [split_files] at all
          rintro g member
          rcases List.mem_cons.mp member with rfl | old
          · have intact := all f List.mem_cons_self
            exact ⟨⟨intact.stored.small, intact.stored.there⟩, intact.behind, intact.checksum, intact.whole⟩
          · exact all g (List.mem_cons_of_mem _ old)
      · exact all
  | tick now inputs =>
      dsimp only
      unfold tick
      split
      · exact all
      · split
        · exact all
        · exact tickLoop_intact process.files inputs all

theorem integrity_iff (all : ∀ f ∈ process.files, Intact cfg f) (event : Event Checksum)
    (steps : step cfg process event = next) : Integrity cfg process event next ↔ DownloadFits cfg process event := by
  have kept : DownloadFits cfg process event → ∀ f ∈ next.files, Checked cfg f := by
    intro fits f member
    rw [← steps] at member
    exact (step_intact all fits f member).checked
  cases event with
  | read k offset count fault => exact ⟨fun _ => trivial, fun fits => ⟨kept fits, trivial⟩⟩
  | flush req => exact ⟨fun _ => trivial, fun fits => ⟨kept fits, trivial⟩⟩
  | arrive k now chunk failure fault =>
      constructor
      · intro holds running f found brings stored stores
        have intact := all f (List.mem_of_getElem? found)
        exact (store_arrives intact stores).1.mp (holds.2 running f found brings stored stores)
      · intro fits
        refine ⟨kept fits, fun running f found brings stored stores => ?_⟩
        have intact := all f (List.mem_of_getElem? found)
        exact (store_arrives intact stores).1.mpr (fits running f found brings stored stores)
  | tick now inputs =>
      have same := @eachReached_iff _ cfg now _ (DoneMatched cfg) (fun f _ => f.finished ≠ 4)
        (fun f _ => doneMatched_iff f) process.files inputs
      constructor
      · exact fun holds ticks => same.mp (holds.2 ticks)
      · exact fun fits => ⟨kept fits, fun ticks => same.mpr (fits ticks)⟩

end Steps

end Checksums

/-- The downloads keep their checksums, and only what matches the master's is done, in exactly the runs in
which the last chunk of a file comes with the checksum up to it and no file that failed is at a tick. -/
theorem download_integrity_iff {Checksum : Type} [DecidableEq Checksum] (cfg : Config Checksum) (sources : List Source)
    (events : List (Event Checksum)) :
    EveryStep (fun process event => some (step cfg process event)) (Integrity cfg) (start cfg sources) events ↔
      Guarded (fun process event => some (step cfg process event)) (DownloadFits cfg) (start cfg sources) events := by
  refine @everyStep_iff_guarded _ _ _ (DownloadFits cfg) (fun process => ∀ f ∈ process.files, Intact cfg f) _
    ?_ ?_ ?_ _ events (start_intact sources)
  · intro process event next all fits steps
    cases steps
    exact step_intact all fits
  · intro process event next all steps
    exact integrity_iff all event (Option.some.inj steps)
  · intro process event undefined
    contradiction

/-- The connection to the peer is lost before anything arrives, and the next tick takes the file as done. -/
theorem lostConnection_done :
    ¬EveryStep (fun process event => some (step plainSum process event)) (Integrity plainSum)
      (start plainSum [.download 10 none true]) [.arrive 0 0 none none none, .tick 0 []] := by
  intro every
  obtain ⟨-, later⟩ := every _ rfl
  obtain ⟨⟨-, reached⟩, -⟩ := later _ rfl
  obtain ⟨matched, -⟩ := reached ⟨rfl, rfl, rfl⟩
  rcases matched rfl with done_before | ⟨received, -⟩
  · revert done_before
    decide
  · revert received
    decide

end Xcpu.Xget.Transfer
