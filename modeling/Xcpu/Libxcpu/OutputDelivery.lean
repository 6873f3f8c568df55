import Xcpu.Libspclient.PollWrites
import Xcpu.Libxcpu.Output

/-!
What the answers bring reaches the callbacks, but for a last line without newline in line mode: the
client drops what is left in the buffer at the end of the file.
-/

namespace Xcpu.Libxcpu.Output

open Xcpu.Lines Xcpu.Pieces Xcpu.Libspclient.Poll Xcpu.Transition

/-- The calls and the buffer after the client has read the text. -/
def Passed (lineOut : Bool) (calls : List (List UInt8)) (buf text : List UInt8) : Prop :=
  if lineOut then calls = pieces newline bufSize [] text ∧ buf = remainder newline bufSize [] text
  else calls.flatten = text ∧ buf = []

section Text

variable {lineOut : Bool} {calls : List (List UInt8)} {buf text data : List UInt8}

theorem eachLine_eq (line text : List UInt8) :
    eachLine line text = ((splitLines newline line text).map (· ++ [newline]), unfinished newline line text) := by
  induction text generalizing line with
  | nil => rfl
  | cons c rest ih =>
      rw [eachLine, splitLines, unfinished]
      split
      · rename_i here
        rw [ih, here, List.map_cons]
      · exact ih _

theorem Passed.short (passed : Passed lineOut calls buf text) : buf.length < bufSize := by
  rw [Passed] at passed
  split at passed
  · rw [passed.2]
    exact remainder_length newline bufSize (by decide)
  · rw [passed.2]
    decide

/-- One turn of the loop passes on what it has read. -/
theorem Passed.more (passed : Passed lineOut calls buf text) (fits : data.length ≤ bufSize - buf.length) :
    Passed lineOut (calls ++ (passOn lineOut (buf ++ data)).1) (passOn lineOut (buf ++ data)).2 (text ++ data) := by
  have short := passed.short
  cases lineOut with
  | true =>
      obtain ⟨cut, left⟩ := passed
      have plain : newline ∉ buf := by
        rw [left]
        exact remainder_plain newline bufSize List.not_mem_nil
      have lines : splitLines newline [] (buf ++ data) = splitLines newline buf data := by
        rw [splitLines_append, splitLines_of_not_mem newline [] plain, unfinished_of_not_mem newline [] plain,
          List.nil_append, List.nil_append]
      have rest : unfinished newline [] (buf ++ data) = unfinished newline buf data := by
        rw [unfinished_append, unfinished_of_not_mem newline [] plain, List.nil_append]
      obtain ⟨pieced, kept⟩ := pieces_lines newline bufSize short (show buf.length + data.length ≤ bufSize by omega)
      rw [Passed, if_pos rfl, pieces_append, remainder_append, ← cut, ← left, pieced, kept, passOn, eachLine_eq, lines,
        rest, if_pos rfl]
      dsimp only
      split
      · exact ⟨rfl, rfl⟩
      · rw [List.append_nil]
        exact ⟨rfl, rfl⟩
  | false =>
      obtain ⟨all, rfl⟩ := passed
      simp [Passed, passOn, all]

theorem Passed.delivered_iff (passed : Passed lineOut calls buf text) :
    calls.flatten = text ↔ lineOut = true → bufSize ∣ (unfinished newline [] text).length := by
  cases lineOut with
  | true =>
      obtain ⟨cut, -⟩ := passed
      have whole := pieces_flatten newline bufSize [] text
      rw [List.nil_append, ← cut] at whole
      have count : (remainder newline bufSize [] text).length = (unfinished newline [] text).length % bufSize :=
        remainder_mod newline bufSize (by decide) rfl
      rw [Nat.dvd_iff_mod_eq_zero, ← count, List.length_eq_zero_iff]
      constructor
      · intro all _
        rw [all] at whole
        exact List.append_right_eq_self.mp whole
      · intro empty
        rw [empty rfl, List.append_nil] at whole
        exact whole
  | false =>
      obtain ⟨all, -⟩ := passed
      exact iff_of_true all fun line => by contradiction

theorem Passed.lines (passed : Passed true calls buf text) {call : List UInt8} (member : call ∈ calls) :
    (∃ line, newline ∉ line ∧ call = line ++ [newline]) ∨ call.length = bufSize := by
  obtain ⟨cut, -⟩ := passed
  rw [cut] at member
  exact mem_pieces newline bufSize List.not_mem_nil member

end Text

/-- A descriptor whose Tread is outstanding, with nothing left to read. -/
structure Live (spcfd : Spcfd) : Prop where
  flags : spcfd.flags = 0
  empty : spcfd.rbuf = []
  outstanding : spcfd.rtc = true

section Descriptor

variable {lineOut : Bool} {spcfd next : Spcfd} {output : Output} {text data : List UInt8}

theorem spcfdRead_data (flags : spcfd.flags = 0) (some : spcfd.rbuf ≠ []) (buflen : Nat) :
    spcfdRead spcfd buflen true = .some { spcfd with rbuf := spcfd.rbuf.drop buflen, rtc := true } := by
  have dropped : spcfd.rbuf.drop (min buflen spcfd.rbuf.length) = spcfd.rbuf.drop buflen := by
    rcases Nat.le_total buflen spcfd.rbuf.length with below | above
    · rw [Nat.min_eq_left below]
    · rw [Nat.min_eq_right above, List.drop_length, List.drop_eq_nil_of_le above]
  have going : spcfd.flags &&& Reof = 0 := by
    rw [flags]
    exact Nat.zero_and Reof
  rw [spcfdRead, if_neg (not_not.mpr going), if_neg some, spcfdSendReadRequest, dropped]
  dsimp only
  cases sent : spcfd.rtc with
  | true => rw [if_neg fun both => Bool.noConfusion both.1, ← sent]
  | false => rw [if_pos ⟨rfl, going⟩, if_pos rfl]

theorem readBytes_data (flags : spcfd.flags = 0) (buflen : Nat) : readBytes spcfd buflen = spcfd.rbuf.take buflen := by
  rw [readBytes, flags, if_neg (not_not.mpr (Nat.zero_and Reof))]

theorem canRead_iff (flags : spcfd.flags = 0) : spcfdCanRead spcfd = true ↔ spcfd.rbuf ≠ [] := by
  simp [spcfdCanRead, flags, List.length_pos_iff]

/-- The loop reads all there is. -/
theorem recvLoop_data (fuel : Nat) (flags : spcfd.flags = 0) (turns : spcfd.rbuf.length < fuel)
    (passed : Passed lineOut output.calls output.buf text) (sent : spcfd.rtc = true ∨ spcfd.rbuf ≠ []) :
    ∃ calls buf, recvLoop lineOut fuel spcfd output =
        some ({ output with spcfd := some { spcfd with rbuf := [], rtc := true }, buf, calls }, false) ∧
      Passed lineOut calls buf (text ++ spcfd.rbuf) := by
  induction fuel generalizing spcfd output text with
  | zero => omega
  | succ fuel ih =>
      by_cases empty : spcfd.rbuf = []
      · have outstanding := sent.resolve_right (not_not.mpr empty)
        have stops : spcfdCanRead spcfd = false := by
          rw [← Bool.not_eq_true, canRead_iff flags]
          exact not_not.mpr empty
        refine ⟨output.calls, output.buf, ?_, ?_⟩
        · rw [recvLoop, stops, if_neg Bool.false_ne_true, ← empty, ← outstanding]
        · rw [empty, List.append_nil]
          exact passed
      · have short := passed.short
        let room := bufSize - output.buf.length
        have bytes : readBytes spcfd room = spcfd.rbuf.take room := readBytes_data flags room
        have some : readBytes spcfd room ≠ [] := by
          rw [bytes, ne_eq, List.take_eq_nil_iff, not_or]
          exact ⟨by dsimp only [room]; omega, empty⟩
        have fits : (spcfd.rbuf.take room).length ≤ bufSize - output.buf.length := List.length_take_le ..
        have fewer : (spcfd.rbuf.drop room).length < fuel := by
          have nonempty := List.length_pos_iff.mpr empty
          rw [List.length_drop]
          dsimp only [room]
          omega
        obtain ⟨calls, buf, loops, passed'⟩ := @ih { spcfd with rbuf := spcfd.rbuf.drop room, rtc := true }
          { output with
            buf := (passOn lineOut (output.buf ++ spcfd.rbuf.take room)).2
            calls := output.calls ++ (passOn lineOut (output.buf ++ spcfd.rbuf.take room)).1 }
          (text ++ spcfd.rbuf.take room) flags fewer (passed.more fits) (.inl rfl)
        refine ⟨calls, buf, ?_, ?_⟩
        · rw [recvLoop, if_pos ((canRead_iff flags).mpr empty)]
          dsimp only
          rw [if_neg some, spcfdRead_data flags empty]
          dsimp only [Option.bind_eq_bind, Option.bind_some]
          rw [bytes]
          exact loops
        · rw [List.append_assoc, List.take_append_drop] at passed'
          exact passed'

theorem waitLoop_data (fuel : Nat) (exitcode : List UInt8) (flags : spcfd.flags = 0)
    (turns : spcfd.rbuf.length < fuel) (sent : spcfd.rtc = true ∨ spcfd.rbuf ≠ []) :
    ∃ exitcode', waitLoop fuel spcfd exitcode = some (some { spcfd with rbuf := [], rtc := true }, exitcode') := by
  induction fuel generalizing spcfd exitcode with
  | zero => omega
  | succ fuel ih =>
      by_cases empty : spcfd.rbuf = []
      · have outstanding := sent.resolve_right (not_not.mpr empty)
        have stops : spcfdCanRead spcfd = false := by
          rw [← Bool.not_eq_true, canRead_iff flags]
          exact not_not.mpr empty
        exact ⟨exitcode, by rw [waitLoop, stops, if_neg Bool.false_ne_true, ← empty, ← outstanding]⟩
      · have bytes : readBytes spcfd 32 = spcfd.rbuf.take 32 := readBytes_data flags 32
        have some : readBytes spcfd 32 ≠ [] := by
          rw [bytes, ne_eq, List.take_eq_nil_iff, not_or]
          exact ⟨by decide, empty⟩
        have fewer : (spcfd.rbuf.drop 32).length < fuel := by
          have nonempty := List.length_pos_iff.mpr empty
          rw [List.length_drop]
          omega
        obtain ⟨exitcode', loops⟩ := @ih { spcfd with rbuf := spcfd.rbuf.drop 32, rtc := true }
          (exitcode ++ spcfd.rbuf.take 32) flags fewer (.inl rfl)
        refine ⟨exitcode', ?_⟩
        rw [waitLoop, if_pos ((canRead_iff flags).mpr empty)]
        dsimp only
        rw [if_neg some, spcfdRead_data flags empty]
        dsimp only [Option.bind_eq_bind, Option.bind_some]
        rw [bytes]
        exact loops

/-- What the answer to the outstanding Tread leaves to the callback. -/
theorem answered (live : Live spcfd) (answer : spcfdReadCb spcfd (.reply data) = some next) :
    if data = [] then next.flags = Reof ∧ next.rbuf = [] else next.flags = 0 ∧ next.rbuf = data := by
  have quiet : ∀ spcfd : Spcfd, spcfd.flags &&& Remove = 0 → doNotify spcfd = spcfd := by
    intro spcfd none
    rw [doNotify, if_neg (not_not.mpr none)]
  simp only [spcfdReadCb, Answer.error, ne_eq, not_true_eq_false, if_false, live.flags, live.empty] at answer
  split at answer
  · rename_i eof
    rw [quiet _ (show (0 ||| Reof) &&& Remove = 0 by decide), Option.some.injEq] at answer
    subst next
    rw [if_pos eof]
    exact ⟨rfl, rfl⟩
  · rename_i bytes
    split at answer
    · rw [quiet _ (Nat.zero_and Remove), Option.some.injEq] at answer
      subst next
      rw [if_neg bytes]
      exact ⟨rfl, List.nil_append data⟩
    · contradiction

theorem recv_answered (live : Live spcfd) (answer : spcfdReadCb spcfd (.reply data) = some next)
    (passed : Passed lineOut output.calls output.buf text) :
    ∃ after eof, recv lineOut next output = some (after, eof) ∧
      Passed lineOut after.calls after.buf (text ++ data) ∧ after.received = output.received ∧
      (∀ later, after.spcfd = some later → Live later) ∧ eof = after.spcfd.isNone := by
  have error := spcfdHasError_never next
  have left := answered live answer
  rw [recv, error, if_neg Bool.false_ne_true]
  by_cases empty : data = []
  · rw [if_pos empty] at left
    have reads : spcfdCanRead next = true := by
      rw [spcfdCanRead, left.1, left.2]
      rfl
    have none : readBytes next (bufSize - output.buf.length) = [] := by
      rw [readBytes, left.1]
      rfl
    refine ⟨{ output with spcfd := .none }, true, ?_, ?_, rfl, fun later same => by contradiction, rfl⟩
    · rw [recvLoop, if_pos reads]
      dsimp only
      rw [if_pos none]
    · rw [empty, List.append_nil]
      exact passed
  · rw [if_neg empty] at left
    obtain ⟨calls, buf, loops, passed'⟩ := recvLoop_data (next.rbuf.length + 1) left.1 (by omega) passed
      (.inr (by rw [left.2]; exact empty))
    rw [left.2] at passed'
    refine ⟨_, false, loops, passed', rfl, ?_, rfl⟩
    intro later same
    cases same
    exact ⟨left.1, rfl, rfl⟩

theorem wait_answered (live : Live spcfd) (exitcode : List UInt8)
    (answer : spcfdReadCb spcfd (.reply data) = some next) :
    ∃ after exitcode', waitLoop (next.rbuf.length + 1) next exitcode = some (after, exitcode') ∧
      ∀ later, after = some later → Live later := by
  have left := answered live answer
  by_cases empty : data = []
  · rw [if_pos empty] at left
    have reads : spcfdCanRead next = true := by
      rw [spcfdCanRead, left.1, left.2]
      rfl
    have none : readBytes next 32 = [] := by
      rw [readBytes, left.1]
      rfl
    refine ⟨.none, exitcode, ?_, fun later same => by contradiction⟩
    rw [waitLoop, if_pos reads]
    dsimp only
    rw [if_pos none]
  · rw [if_neg empty] at left
    obtain ⟨exitcode', loops⟩ := waitLoop_data (next.rbuf.length + 1) exitcode left.1 (by omega)
      (.inr (by rw [left.2]; exact empty))
    refine ⟨_, exitcode', loops, ?_⟩
    intro later same
    cases same
    exact ⟨left.1, rfl, rfl⟩

end Descriptor

/-- What was received is passed on, and the descriptor goes on reading. -/
structure Fed (lineOut : Bool) (output : Output) : Prop where
  passed : Passed lineOut output.calls output.buf output.received
  live : ∀ spcfd, output.spcfd = some spcfd → Live spcfd

/-- No descriptor is left. -/
def Xpsession.allRemoved (session : Xpsession) : Prop :=
  session.wspcfd = none ∧ session.out.spcfd = none ∧ session.err.spcfd = none

instance (session : Xpsession) : Decidable session.allRemoved := by
  unfold Xpsession.allRemoved
  infer_instance

structure Inv (session : Xpsession) : Prop where
  out : Fed session.lineOut session.out
  err : Fed session.lineOut session.err
  wait : ∀ spcfd, session.wspcfd = some spcfd → Live spcfd
  finished : session.finished = if session.allRemoved then 1 else 0

section Session

variable {session next : Xpsession} {data : List UInt8}

/-- What a callback makes of a descriptor that reads, with the answer counted in. -/
theorem recv_fed {lineOut : Bool} {output : Output} {spcfd later : Spcfd} (fed : Fed lineOut output)
    (there : output.spcfd = some spcfd) (answer : spcfdReadCb spcfd (.reply data) = some later) :
    ∃ after, recv lineOut later { output with received := output.received ++ data } =
        some (after, after.spcfd.isNone) ∧ Fed lineOut after := by
  obtain ⟨after, eof, received, passed, same, lives, ends⟩ := @recv_answered lineOut spcfd later
    { output with received := output.received ++ data } _ data (fed.live spcfd there) answer fed.passed
  refine ⟨after, by rw [received, ends], ?_, lives⟩
  rw [same]
  exact passed

theorem Inv.ended {eof : Bool} (out : Fed session.lineOut session.out) (err : Fed session.lineOut session.err)
    (wait : ∀ spcfd, session.wspcfd = some spcfd → Live spcfd) (fresh : session.finished = 0)
    (allRemoved : eof = false → ¬session.allRemoved) : Inv (session.ended eof) := by
  rw [Xpsession.ended]
  split
  · rename_i last
    refine ⟨out, err, wait, ?_⟩
    have all : session.allRemoved := last.2
    have one : session.finished + 1 = if session.allRemoved then 1 else 0 := by rw [fresh, if_pos all]
    exact one
  · rename_i going
    refine ⟨out, err, wait, ?_⟩
    rw [fresh, if_neg]
    cases eof with
    | true => exact fun all => going ⟨rfl, all⟩
    | false => exact allRemoved rfl

theorem Inv.fresh (inv : Inv session) (going : ¬session.allRemoved) : session.finished = 0 := by
  rw [inv.finished, if_neg going]

theorem inv_step (inv : Inv session) (event : Event) (stepped : step session event = some next) :
    Inv next ∧ next.lineOut = session.lineOut := by
  cases event with
  | out data =>
      rw [step] at stepped
      cases there : session.out.spcfd with
      | none =>
          rw [there, Option.some.injEq] at stepped
          exact stepped ▸ ⟨inv, rfl⟩
      | some spcfd =>
          have live := inv.out.live spcfd there
          have going : ¬session.allRemoved := fun allRemoved => by simp [allRemoved.2.1] at there
          rw [there] at stepped
          simp only [live.outstanding, if_true, Option.bind_eq_bind, Option.bind_eq_some_iff] at stepped
          obtain ⟨later, answer, called⟩ := stepped
          obtain ⟨after, received, fed⟩ := recv_fed inv.out there answer
          simp only [xpCommandStdoutRecv, Option.bind_eq_bind, received, Option.bind_some, Option.some.injEq] at called
          subst next
          refine ⟨Inv.ended fed inv.err inv.wait (inv.fresh going) ?_, by rw [Xpsession.ended]; split <;> rfl⟩
          intro more allRemoved
          have none : after.spcfd = .none := allRemoved.2.1
          simp [none] at more
  | err data =>
      rw [step] at stepped
      cases there : session.err.spcfd with
      | none =>
          rw [there, Option.some.injEq] at stepped
          exact stepped ▸ ⟨inv, rfl⟩
      | some spcfd =>
          have live := inv.err.live spcfd there
          have going : ¬session.allRemoved := fun allRemoved => by simp [allRemoved.2.2] at there
          rw [there] at stepped
          simp only [live.outstanding, if_true, Option.bind_eq_bind, Option.bind_eq_some_iff] at stepped
          obtain ⟨later, answer, called⟩ := stepped
          obtain ⟨after, received, fed⟩ := recv_fed inv.err there answer
          simp only [xpCommandStderrRecv, Option.bind_eq_bind, received, Option.bind_some, Option.some.injEq] at called
          subst next
          refine ⟨Inv.ended inv.out fed inv.wait (inv.fresh going) ?_, by rw [Xpsession.ended]; split <;> rfl⟩
          intro more allRemoved
          have none : after.spcfd = .none := allRemoved.2.2
          simp [none] at more
  | wait data =>
      rw [step] at stepped
      cases there : session.wspcfd with
      | none =>
          rw [there, Option.some.injEq] at stepped
          exact stepped ▸ ⟨inv, rfl⟩
      | some spcfd =>
          have live := inv.wait spcfd there
          have going : ¬session.allRemoved := fun allRemoved => by simp [allRemoved.1] at there
          rw [there] at stepped
          simp only [live.outstanding, if_true, Option.bind_eq_bind, Option.bind_eq_some_iff] at stepped
          obtain ⟨later, answer, called⟩ := stepped
          obtain ⟨after, exitcode, loops, lives⟩ := wait_answered live session.exitcode answer
          rw [xpCommandWaitRecv, spcfdHasError_never, if_neg Bool.false_ne_true, loops] at called
          simp only [Option.bind_eq_bind, Option.bind_some, Option.some.injEq] at called
          subst next
          refine ⟨Inv.ended inv.out inv.err lives (inv.fresh going) ?_, by rw [Xpsession.ended]; split <;> rfl⟩
          intro more allRemoved
          have none : after = .none := allRemoved.1
          simp [none] at more

/-- An answer brings no more than the descriptor has room for. -/
def Fits (session : Xpsession) : Event → Prop
  | .out data => ∀ spcfd, session.out.spcfd = some spcfd → data.length ≤ spcfd.iounit
  | .err data => ∀ spcfd, session.err.spcfd = some spcfd → data.length ≤ spcfd.iounit
  | .wait data => ∀ spcfd, session.wspcfd = some spcfd → data.length ≤ spcfd.iounit

theorem answer_defined {spcfd : Spcfd} (live : Live spcfd) (fits : data.length ≤ spcfd.iounit) :
    ∃ later, spcfdReadCb spcfd (.reply data) = some later := by
  refine spcfdReadCb_fits.mpr fun _ => ?_
  rw [live.empty, List.length_nil]
  omega

theorem step_defined (inv : Inv session) {event : Event} (fits : Fits session event) :
    ∃ next, step session event = some next := by
  cases event with
  | out data =>
      rw [step]
      cases there : session.out.spcfd with
      | none => exact ⟨session, rfl⟩
      | some spcfd =>
          have live := inv.out.live spcfd there
          obtain ⟨later, answer⟩ := answer_defined live (fits spcfd there)
          obtain ⟨after, received, -⟩ := recv_fed inv.out there answer
          simp only [live.outstanding, if_true, answer, Option.bind_eq_bind, Option.bind_some, xpCommandStdoutRecv,
            received]
          exact ⟨_, rfl⟩
  | err data =>
      rw [step]
      cases there : session.err.spcfd with
      | none => exact ⟨session, rfl⟩
      | some spcfd =>
          have live := inv.err.live spcfd there
          obtain ⟨later, answer⟩ := answer_defined live (fits spcfd there)
          obtain ⟨after, received, -⟩ := recv_fed inv.err there answer
          simp only [live.outstanding, if_true, answer, Option.bind_eq_bind, Option.bind_some, xpCommandStderrRecv,
            received]
          exact ⟨_, rfl⟩
  | wait data =>
      rw [step]
      cases there : session.wspcfd with
      | none => exact ⟨session, rfl⟩
      | some spcfd =>
          have live := inv.wait spcfd there
          obtain ⟨later, answer⟩ := answer_defined live (fits spcfd there)
          obtain ⟨after, exitcode, loops, -⟩ := wait_answered live session.exitcode answer
          simp only [live.outstanding, if_true, answer, Option.bind_eq_bind, Option.bind_some, xpCommandWaitRecv,
            spcfdHasError_never, if_neg Bool.false_ne_true, loops]
          exact ⟨_, rfl⟩

end Session

theorem inv_start (lineOut : Bool) (stdoutUnit stderrUnit : Option Nat) (waitUnit : Nat) :
    Inv (start lineOut stdoutUnit stderrUnit waitUnit) := by
  have fresh : Passed lineOut [] [] [] := by
    rw [Passed]
    split <;> exact ⟨rfl, rfl⟩
  have fed : ∀ unit : Option Nat, Fed lineOut { spcfd := unit.map reading } := by
    intro unit
    refine ⟨fresh, fun spcfd there => ?_⟩
    obtain ⟨iounit, -, rfl⟩ := Option.map_eq_some_iff.mp there
    exact ⟨rfl, rfl, rfl⟩
  refine ⟨fed stdoutUnit, fed stderrUnit, fun spcfd there => ?_, ?_⟩
  · cases there
    exact ⟨rfl, rfl, rfl⟩
  · have going : ¬(start lineOut stdoutUnit stderrUnit waitUnit).allRemoved := fun allRemoved => by cases allRemoved.1
    rw [if_neg going]
    rfl

theorem run_answers {lineOut : Bool} {stdoutUnit stderrUnit : Option Nat} {waitUnit : Nat} {events : List Event}
    (fits : Guarded step Fits (start lineOut stdoutUnit stderrUnit waitUnit) events) :
    ∃ session, run step (start lineOut stdoutUnit stderrUnit waitUnit) events = some session ∧
      Inv session ∧ session.lineOut = lineOut := by
  have progress : ∀ session event, Inv session ∧ session.lineOut = lineOut → Fits session event →
      ∃ next, step session event = some next ∧ Inv next ∧ next.lineOut = lineOut := by
    rintro session event ⟨inv, same⟩ fit
    obtain ⟨next, stepped⟩ := step_defined inv fit
    obtain ⟨inv', same'⟩ := inv_step inv event stepped
    exact ⟨next, stepped, inv', same'.trans same⟩
  exact run_defined step progress ⟨inv_start lineOut stdoutUnit stderrUnit waitUnit, rfl⟩ fits

/-- The output of a session that counts as finished, and what a call passes on. -/
theorem output_delivered (lineOut : Bool) (stdoutUnit stderrUnit : Option Nat) (waitUnit : Nat) (events : List Event)
    (fits : Guarded step Fits (start lineOut stdoutUnit stderrUnit waitUnit) events) :
    ∃ session, run step (start lineOut stdoutUnit stderrUnit waitUnit) events = some session ∧
      (session.finished = if session.allRemoved then 1 else 0) ∧
      ((session.out.calls.flatten = session.out.received ∧ session.err.calls.flatten = session.err.received) ↔
        (lineOut = true → bufSize ∣ (unfinished newline [] session.out.received).length ∧
          bufSize ∣ (unfinished newline [] session.err.received).length)) ∧
      (lineOut = true → ∀ call ∈ session.out.calls ++ session.err.calls,
        (∃ line, newline ∉ line ∧ call = line ++ [newline]) ∨ call.length = bufSize) := by
  obtain ⟨session, ran, inv, same⟩ := run_answers fits
  refine ⟨session, ran, inv.finished, ?_, ?_⟩
  · rw [inv.out.passed.delivered_iff, inv.err.passed.delivered_iff, same, ← imp_and]
  · intro line call member
    rcases List.mem_append.mp member with out | err
    · exact (line ▸ same ▸ inv.out.passed : Passed true _ _ _).lines out
    · exact (line ▸ same ▸ inv.err.passed : Passed true _ _ _).lines err

/-- A line in two parts, and the end of the three files. -/
def visit : List Event := [.out [104], .out [105, 10], .out [], .err [], .wait [48], .wait []]

theorem visit_fits : Guarded step Fits (start true (some 16) (some 16) 16) visit := by
  have fits : ∀ {spcfd : Spcfd} {data : List UInt8} {iounit : Nat}, data.length ≤ iounit →
      ∀ later, some spcfd = some later → spcfd.iounit = iounit → data.length ≤ later.iounit := by
    intro spcfd data iounit short later same unit
    cases same
    omega
  refine guarded_cons step rfl (fun spcfd same => fits (by decide) spcfd same rfl) ?_
  refine guarded_cons step rfl (fun spcfd same => fits (by decide) spcfd same rfl) ?_
  refine guarded_cons step rfl (fun spcfd same => fits (by decide) spcfd same rfl) ?_
  refine guarded_cons step rfl (fun spcfd same => fits (by decide) spcfd same rfl) ?_
  refine guarded_cons step rfl (fun spcfd same => fits (by decide) spcfd same rfl) ?_
  exact guarded_cons step rfl (fun spcfd same => fits (by decide) spcfd same rfl) trivial

theorem output_delivered_visit :
    ∃ session, run step (start true (some 16) (some 16) 16) visit = some session ∧
      (session.finished = if session.allRemoved then 1 else 0) ∧
      ((session.out.calls.flatten = session.out.received ∧ session.err.calls.flatten = session.err.received) ↔
        (true = true → bufSize ∣ (unfinished newline [] session.out.received).length ∧
          bufSize ∣ (unfinished newline [] session.err.received).length)) ∧
      (true = true → ∀ call ∈ session.out.calls ++ session.err.calls,
        (∃ line, newline ∉ line ∧ call = line ++ [newline]) ∨ call.length = bufSize) :=
  output_delivered true (some 16) (some 16) 16 visit visit_fits

/-- The last line has no newline and is lost. -/
theorem last_line_lost :
    ∃ session, run step (start true (some 16) none 16) [.out [104, 10, 105], .out [], .wait [48], .wait []] =
        some session ∧
      session.finished = 1 ∧ session.out.received = [104, 10, 105] ∧ session.out.calls = [[104, 10]] := by
  refine ⟨_, rfl, ?_, ?_, ?_⟩ <;> decide

end Xcpu.Libxcpu.Output
