import Xcpu.Libspclient.Poll

/-!
What `spcfd_read` returns of the data that Treads have brought, which is all of it as long as nothing is left
in the buffer when it is called after the end of the file.
-/

namespace Xcpu.Libspclient.Poll

open Xcpu.Transition

/-- The count that `spcfd_read` returns, which is -1 if there is nothing yet, and the bytes. -/
def spcfdReadResult (spcfd : Spcfd) (buflen : Nat) : Int × List UInt8 :=
  if spcfd.flags &&& Reof ≠ 0 then (0, [])
  else if spcfd.rbuf = [] then (-1, [])
  else (((min buflen spcfd.rbuf.length : Nat) : Int), spcfd.rbuf.take (min buflen spcfd.rbuf.length))

/-- `spcfd_send_read_request` sends a Tread. -/
def sendsTread (spcfd : Spcfd) (sends : Bool) : Bool := spcfd.rtc = false && spcfd.flags &&& Reof = 0 && sends

/-- A descriptor with the bytes that came and the bytes that were returned. `requested` is the count of the last
Tread; `ended` tells of an answer without data, and `early` of a read that returned 0 before it, or before all that
came. -/
structure Reader where
  spcfd : Spcfd
  requested : Nat := 0
  outstanding : Nat := 0
  received : List UInt8 := []
  returned : List UInt8 := []
  ended : Bool := false
  early : Bool := false
  deriving DecidableEq

inductive ReadEvent where
  | read (buflen : {buflen : Nat // 0 < buflen}) (sends : Bool)
  | reply (data : List UInt8)
  | lost

/-- A Tread asks for as much as there is room for, and no answer has more data. -/
def readStep (reader : Reader) : ReadEvent → Option Reader
  | .read buflen sends => do
      let (n, data) := spcfdReadResult reader.spcfd buflen
      let spcfd ← spcfdRead reader.spcfd buflen sends
      let asks := reader.spcfd.rbuf ≠ [] && sendsTread reader.spcfd sends
      some { reader with
        spcfd
        requested := if asks then spcfd.iounit - spcfd.rbuf.length else reader.requested
        outstanding := reader.outstanding + asks.toNat
        returned := reader.returned ++ data
        early := reader.early || (n = 0 && !(reader.ended && reader.returned = reader.received)) }
  | .reply data =>
      if reader.spcfd.rtc ∧ data.length ≤ reader.requested then do
        let spcfd ← spcfdReadCb reader.spcfd (.reply data)
        some { reader with
          spcfd
          received := reader.received ++ data
          ended := reader.ended || data = []
          outstanding := reader.outstanding - 1 }
      else some reader
  | .lost =>
      if reader.spcfd.rtc then do
        let spcfd ← spcfdReadCb reader.spcfd (.lost ECONNRESET)
        some { reader with spcfd, outstanding := reader.outstanding - 1 }
      else some reader

/-- `spcfd_add` for a fid that is open for reading, with its first Tread. -/
def reading (iounit : Nat) (offset : UInt64) (sends : Bool) : Option Reader := do
  let spcfd ← spcfdSendReadRequest (spcfdAdd iounit offset).spcfd sends
  some { spcfd, requested := iounit, outstanding := (sendsTread (spcfdAdd iounit offset).spcfd sends).toNat }

/-- What is returned is the front of what came, 0 is not returned too early, the buffer does not overflow, and one
Tread is outstanding at most. -/
structure Faithful (reader : Reader) : Prop where
  front : reader.returned <+: reader.received
  early : reader.early = false
  room : reader.spcfd.rbuf.length ≤ reader.spcfd.iounit
  one : reader.outstanding ≤ 1

/-- After the end of the file nothing is left in the buffer when it is read. -/
def ReadsAll (reader : Reader) : ReadEvent → Prop
  | .read _ _ => reader.spcfd.flags &&& Reof ≠ 0 → reader.spcfd.rbuf = []
  | _ => True

/-- What came and was not returned is in the buffer, which has room for what was requested. -/
structure Buffered (reader : Reader) : Prop where
  content : reader.received = reader.returned ++ reader.spcfd.rbuf
  room : reader.spcfd.rbuf.length + (if reader.spcfd.rtc then reader.requested else 0) ≤ reader.spcfd.iounit
  outstanding : reader.outstanding = if reader.spcfd.rtc then 1 else 0
  flags : reader.spcfd.flags = if reader.ended then Reof else 0
  early : reader.early = false

theorem Buffered.faithful {reader : Reader} (buffered : Buffered reader) : Faithful reader where
  front := ⟨reader.spcfd.rbuf, buffered.content.symm⟩
  early := buffered.early
  room := by
    have room := buffered.room
    omega
  one := by
    rw [buffered.outstanding]
    split <;> omega

section Step

variable {reader next : Reader} {spcfd : Spcfd} {ended : Bool}

theorem flags_remove (flags : spcfd.flags = if ended then Reof else 0) : doNotify spcfd = spcfd := by
  rw [doNotify, flags]
  cases ended <;> rfl

theorem flags_reof (flags : spcfd.flags = if ended then Reof else 0) : spcfd.flags &&& Reof ≠ 0 ↔ ended = true := by
  rw [flags]
  cases ended <;> decide

/-- Without an answer nothing changes but that none is outstanding. -/
theorem spcfdReadCb_lost (flags : spcfd.flags = if ended then Reof else 0) :
    spcfdReadCb spcfd (.lost ECONNRESET) = some { spcfd with rtc := false } := by
  have same : spcfd.flags ||| Error = spcfd.flags := Nat.or_zero _
  have error : (Answer.lost ECONNRESET : Answer (List UInt8)).error ≠ 0 := by decide
  unfold spcfdReadCb
  rw [if_pos error, same]
  exact congrArg some (@flags_remove { spcfd with rtc := false } ended flags)

theorem spcfdSendReadRequest_eq (flags : spcfd.flags = if ended then Reof else 0) (sends : Bool) :
    spcfdSendReadRequest spcfd sends = some { spcfd with rtc := spcfd.rtc || sendsTread spcfd sends } := by
  rw [spcfdSendReadRequest, sendsTread]
  by_cases asks : spcfd.rtc = false ∧ spcfd.flags &&& Reof = 0
  · rw [if_pos asks]
    cases sends with
    | true => simp [asks.1, asks.2]
    | false =>
        rw [if_neg Bool.false_ne_true, @spcfdReadCb_lost { spcfd with rtc := true } ended flags]
        simp [asks.1]
  · have same : (spcfd.rtc || (decide (spcfd.rtc = false) && decide (spcfd.flags &&& Reof = 0) && sends)) = spcfd.rtc := by
      cases outstanding : spcfd.rtc with
      | true => rfl
      | false => simp [show ¬spcfd.flags &&& Reof = 0 from fun reof => asks ⟨outstanding, reof⟩]
    rw [if_neg asks, same]

theorem read_more {buflen : Nat} (flags : spcfd.flags = if ended then Reof else 0) (more : ended = false)
    (some_ : spcfd.rbuf ≠ []) (sends : Bool) :
    spcfdReadResult spcfd buflen = (((min buflen spcfd.rbuf.length : Nat) : Int), spcfd.rbuf.take buflen) ∧
      spcfdRead spcfd buflen sends = some { spcfd with
        rbuf := spcfd.rbuf.drop buflen
        rtc := spcfd.rtc || sendsTread spcfd sends } := by
  have reof : ¬spcfd.flags &&& Reof ≠ 0 := by
    rw [flags_reof flags, more]
    exact Bool.false_ne_true
  have front : spcfd.rbuf.take (min buflen spcfd.rbuf.length) = spcfd.rbuf.take buflen := by
    rw [← List.take_take, List.take_length]
  have back : spcfd.rbuf.drop (min buflen spcfd.rbuf.length) = spcfd.rbuf.drop buflen := by
    rcases Nat.le_total buflen spcfd.rbuf.length with less | all
    · rw [min_eq_left less]
    · rw [min_eq_right all, List.drop_length, List.drop_eq_nil_of_le all]
  constructor
  · rw [spcfdReadResult, if_neg reof, if_neg some_, front]
  · rw [spcfdRead, if_neg reof, if_neg some_, back]
    exact @spcfdSendReadRequest_eq { spcfd with rbuf := spcfd.rbuf.drop buflen } ended flags sends

theorem readStep_enough (buffered : Buffered reader) (event : ReadEvent) (all : ReadsAll reader event) :
    ∃ next, readStep reader event = some next ∧ Buffered next := by
  obtain ⟨content, room, outstanding, flags, early⟩ := buffered
  have reof := flags_reof flags
  cases event with
  | read buflen sends =>
      obtain ⟨buflen, positive⟩ := buflen
      rw [readStep]
      by_cases done : reader.ended = true
      · have empty : reader.spcfd.rbuf = [] := all (reof.mpr done)
        have nothing : spcfdReadResult reader.spcfd buflen = (0, []) := if_pos (reof.mpr done)
        have same : spcfdRead reader.spcfd buflen sends = some reader.spcfd := if_pos (reof.mpr done)
        have whole : reader.returned = reader.received := by rw [content, empty, List.append_nil]
        simp only [nothing, same, empty, Option.bind_eq_bind, Option.bind_some, List.append_nil]
        refine ⟨_, rfl, content, room, outstanding, flags, ?_⟩
        simp [early, done, whole]
      · have more : ¬reader.spcfd.flags &&& Reof ≠ 0 := fun set => done (reof.mp set)
        by_cases nothing : reader.spcfd.rbuf = []
        · have none_ : spcfdReadResult reader.spcfd buflen = (-1, []) := by
            rw [spcfdReadResult, if_neg more, if_pos nothing]
          have same : spcfdRead reader.spcfd buflen sends = some reader.spcfd := by
            rw [spcfdRead, if_neg more, if_pos nothing]
          simp only [none_, same, nothing, Option.bind_eq_bind, Option.bind_some, List.append_nil]
          refine ⟨_, rfl, content, room, outstanding, flags, ?_⟩
          simp [early]
        · obtain ⟨result, read⟩ := @read_more reader.spcfd reader.ended buflen flags (Bool.eq_false_iff.mpr done)
            nothing sends
          have some_ : 0 < reader.spcfd.rbuf.length := List.length_pos_iff.mpr nothing
          have taken : ((min buflen reader.spcfd.rbuf.length : Nat) : Int) ≠ 0 := by omega
          have asks : (decide (reader.spcfd.rbuf ≠ []) && sendsTread reader.spcfd sends) =
              (!reader.spcfd.rtc && sends) := by
            cases asked : reader.spcfd.rtc <;> simp [sendsTread, asked, nothing, not_not.mp more]
          have rtc : (reader.spcfd.rtc || sendsTread reader.spcfd sends) = (reader.spcfd.rtc || sends) := by
            cases asked : reader.spcfd.rtc <;> simp [sendsTread, asked, not_not.mp more]
          simp only [result, read, Option.bind_eq_bind, Option.bind_some, asks, rtc]
          refine ⟨_, rfl, ?_, ?_, ?_, flags, ?_⟩
          · rw [content, List.append_assoc, List.take_append_drop]
          · dsimp only
            rw [List.length_drop]
            cases asked : reader.spcfd.rtc with
            | true =>
                rw [asked, if_pos rfl] at room
                rw [Bool.true_or, if_pos rfl, Bool.not_true, Bool.false_and, if_neg Bool.false_ne_true]
                omega
            | false =>
                rw [asked, if_neg Bool.false_ne_true] at room
                rw [Bool.false_or, Bool.not_false, Bool.true_and]
                cases sends with
                | true =>
                    rw [if_pos rfl, if_pos rfl]
                    omega
                | false =>
                    rw [if_neg Bool.false_ne_true]
                    omega
          · dsimp only
            rw [outstanding]
            cases reader.spcfd.rtc with
            | true => rfl
            | false => cases sends <;> rfl
          · simp only [early, taken, decide_false, Bool.false_and, Bool.or_false]
  | reply data =>
      rw [readStep]
      split
      · rename_i answers
        obtain ⟨asked, fits⟩ := answers
        rw [asked, if_pos rfl] at room outstanding
        have ok : ¬(Answer.reply data).error ≠ 0 := not_not.mpr rfl
        unfold spcfdReadCb
        rw [if_neg ok]
        dsimp only
        by_cases ends : data = []
        · have set : reader.spcfd.flags ||| Reof = Reof := by
            rw [flags]
            split <;> rfl
          rw [if_pos ends, set, @flags_remove { reader.spcfd with flags := Reof, rtc := false } true rfl]
          refine ⟨_, rfl, ?_, ?_, ?_, ?_, early⟩
          · rw [ends, List.append_nil]
            exact content
          · dsimp only
            rw [if_neg Bool.false_ne_true]
            omega
          · dsimp only
            rw [outstanding, if_neg Bool.false_ne_true]
          · simp [ends]
        · have kept := @flags_remove { reader.spcfd with
            offset := reader.spcfd.offset + UInt64.ofNat data.length
            rbuf := reader.spcfd.rbuf ++ data
            rtc := false } reader.ended flags
          rw [if_neg ends, if_pos (by omega), kept]
          refine ⟨_, rfl, ?_, ?_, ?_, ?_, early⟩
          · dsimp only
            rw [content, List.append_assoc]
          · dsimp only
            rw [List.length_append, if_neg Bool.false_ne_true]
            omega
          · dsimp only
            rw [outstanding, if_neg Bool.false_ne_true]
          · simp [ends, flags]
      · exact ⟨reader, rfl, content, room, outstanding, flags, early⟩
  | lost =>
      rw [readStep]
      split
      · rename_i asked
        rw [asked, if_pos rfl] at room outstanding
        rw [spcfdReadCb_lost flags]
        refine ⟨_, rfl, content, ?_, ?_, flags, early⟩
        · dsimp only
          rw [if_neg Bool.false_ne_true]
          omega
        · dsimp only
          rw [outstanding, if_neg Bool.false_ne_true]
      · exact ⟨reader, rfl, content, room, outstanding, flags, early⟩

/-- A read after the end that leaves bytes behind returns 0 too early. -/
theorem readStep_early (buffered : Buffered reader) {event : ReadEvent} (stepped : readStep reader event = some next)
    (left : ¬ReadsAll reader event) : next.early = true := by
  cases event with
  | reply data => exact absurd trivial left
  | lost => exact absurd trivial left
  | read buflen sends =>
      obtain ⟨reof, some_⟩ := Classical.not_imp.mp left
      have nothing : spcfdReadResult reader.spcfd buflen = (0, []) := if_pos reof
      have same : spcfdRead reader.spcfd buflen sends = some reader.spcfd := if_pos reof
      have other : reader.returned ≠ reader.received := by
        rw [buffered.content]
        intro whole
        exact some_ (List.self_eq_append_right.mp whole)
      rw [readStep, nothing, same] at stepped
      rw [← Option.some.inj stepped]
      simp [other]

theorem readStep_faithful_iff (buffered : Buffered reader) (event : ReadEvent) :
    (∃ next, readStep reader event = some next ∧ Faithful next) ↔ ReadsAll reader event := by
  constructor
  · rintro ⟨next, stepped, faithful⟩
    by_contra left
    cases faithful.early.symm.trans (readStep_early buffered stepped left)
  · intro all
    obtain ⟨next, stepped, after⟩ := readStep_enough buffered event all
    exact ⟨next, stepped, after.faithful⟩

theorem readStep_buffered (buffered : Buffered reader) {event : ReadEvent} (stepped : readStep reader event = some next)
    (faithful : Faithful next) : Buffered next := by
  have all := (readStep_faithful_iff buffered event).mp ⟨next, stepped, faithful⟩
  obtain ⟨other, same, after⟩ := readStep_enough buffered event all
  exact Option.some.inj (same.symm.trans stepped) ▸ after

theorem reading_buffered (iounit : Nat) (offset : UInt64) (sends : Bool) :
    ∃ reader, reading iounit offset sends = some reader ∧ Buffered reader := by
  rw [reading, @spcfdSendReadRequest_eq (spcfdAdd iounit offset).spcfd false rfl sends]
  refine ⟨_, rfl, rfl, ?_, ?_, rfl, rfl⟩
  · cases sends <;> simp [spcfdAdd, sendsTread]
  · cases sends <;> simp [spcfdAdd, sendsTread]

end Step

/-- Along any reads and answers everything is delivered exactly if no read comes after the end of the file while
bytes are left in the buffer. -/
theorem reads_faithful_iff (iounit : Nat) (offset : UInt64) (sends : Bool) (events : List ReadEvent) :
    ∃ reader, reading iounit offset sends = some reader ∧ Faithful reader ∧
      (Throughout readStep Faithful reader events ↔ Guarded readStep ReadsAll reader events) := by
  obtain ⟨reader, started, buffered⟩ := reading_buffered iounit offset sends
  refine ⟨reader, started, buffered.faithful, ?_⟩
  exact throughout_iff_guarded readStep (fun reader event buffered => readStep_faithful_iff buffered event)
    (fun reader event next buffered stepped faithful => readStep_buffered buffered stepped faithful) events buffered

/-- Two bytes come, one is read, the end of the file comes, and the next read returns 0. -/
theorem reads_endFirst : ∃ reader, reading 4 0 true = some reader ∧ ¬Throughout readStep Faithful reader
    [.reply [97, 98], .read ⟨1, by decide⟩ true, .reply [], .read ⟨1, by decide⟩ true] := by
  refine ⟨_, rfl, ?_⟩
  intro all
  obtain ⟨final, ran, faithful⟩ := throughout_final readStep all
  have early := faithful.early
  rw [← Option.some.inj ran] at early
  revert early
  decide

end Xcpu.Libspclient.Poll
