import Xcpu.Libspclient.PollWrites
import Xcpu.Libxcpu.Stdin

/-!
The standard input of every session is delivered, and closed after that, exactly when the command is asked to
close a session whose buffers are empty: "close stdin" does not wait for what is in the buffer of the
descriptor or on its way.
-/

namespace Xcpu.Libxcpu.Stdin

open Xcpu.Libspclient.Poll Xcpu.Numerals Xcpu.Transition

/-- What the server took and what waits, in order. -/
def Xpsession.all (s : Xpsession) : List UInt8 := s.taken ++ s.spcfd.wbuf ++ s.inbuf

/-- The server took a beginning of what was sent and the rest waits. "close stdin" is written once everything
was taken, and by the time nothing is outstanding if the session was asked to close. -/
structure Proper (sent : List UInt8) (s : Xpsession) : Prop where
  content : s.all = sent
  after : ∀ taken ∈ s.closes, taken = sent
  finished : s.asked = true → s.spcfd.wtc = none → s.taken = sent ∧ s.closes.length = 1

def Delivered (cm : Xpcommand) : Prop := ∀ s ∈ cm.sessions, Proper cm.sent s

/-- The size the input buffer is given for `n` bytes. -/
def padded (n : Nat) : Nat := n + if n % 32 = 0 then 0 else 32

/-- The input buffer can hold the bytes, and a Twrite that has to be sent can be sent. -/
def SendFits (data : List UInt8) (s : Xpsession) : Prop :=
  (s.inbuf.length + data.length ≤ s.insize ∨ padded (s.inbuf.length + data.length) < 2 ^ 31) ∧
    (data ≠ [] → s.inbuf = [] → s.spcfd.wtc = none → s.spcfd.wbuf.length < s.spcfd.iounit → s.connected = true)

/-- An answer counts no more bytes than the Twrite has, and an error has a number. -/
def AnswerFits (tw : Twrite) : Answer Nat → Prop
  | .reply count => count ≤ tw.data.length
  | .rerror ecode => ecode ≠ 0
  | .lost ecode => ecode ≠ 0

/-- A session is asked to close when its buffers are empty and its connection is up, and no connection is lost
when there is something to send. -/
def Guard (cm : Xpcommand) : Event → Prop
  | .send data => cm.closing = false → ∀ s ∈ cm.sessions, SendFits data s
  | .answer i answer => ∀ s, cm.sessions[i]? = some s → ∀ tw, s.spcfd.wtc = some tw → AnswerFits tw answer
  | .disconnect i => ∀ s, cm.sessions[i]? = some s → s.spcfd.wtc ≠ none →
      s.inbuf = [] ∨ s.spcfd.iounit ≤ s.spcfd.wbuf.length
  | .closeStdin i => ∀ s, cm.sessions[i]? = some s → s.asked = false →
      s.inbuf = [] ∧ s.spcfd.wbuf = [] ∧ s.connected = true

structure Inv (sent : List UInt8) (s : Xpsession) : Prop where
  content : s.all = sent
  part : ∀ tw, s.spcfd.wtc = some tw → tw.data <+: s.spcfd.wbuf ∧ tw.data ≠ []
  up : s.connected = false → s.spcfd.wtc = none
  there : s.ispcfd = true ∧ s.spcfd.flags &&& Remove = 0 ∧ s.spcfd.freed = false
  size : s.inbuf.length ≤ s.insize ∧ s.insize < 2 ^ 31
  closein : s.closein = false
  open_ : s.asked = false → s.closes = []
  closed : s.asked = true → s.inbuf = [] ∧ s.spcfd.wbuf = [] ∧ s.closes = [sent]

/-- The session was asked to close and waits for an answer. -/
def Left (s : Xpsession) : Prop := s.asked = true ∧ s.closes = [] ∧ s.spcfd.wtc ≠ none

section Descriptor

variable {spcfd later : Spcfd} {buf : List UInt8} {n : Nat} {sends : Bool}

theorem spcfdWrite_sends (room : spcfd.wbuf.length < spcfd.iounit) (idle : spcfd.wtc = none) :
    spcfdWrite spcfd buf true =
      some (some (min (spcfd.iounit - spcfd.wbuf.length) buf.length), { spcfd with
        wbuf := spcfd.wbuf ++ buf.take (min (spcfd.iounit - spcfd.wbuf.length) buf.length)
        wtc := some { offset := spcfd.offset
                      data := spcfd.wbuf ++ buf.take (min (spcfd.iounit - spcfd.wbuf.length) buf.length) } }) := by
  have unfilled : spcfd.wbuf.length ≠ spcfd.iounit := by omega
  simp only [spcfdWrite, unfilled, idle, if_true, if_false]

theorem spcfdWrite_waits (room : spcfd.wbuf.length < spcfd.iounit) (busy : spcfd.wtc ≠ none) :
    spcfdWrite spcfd buf sends =
      some (some (min (spcfd.iounit - spcfd.wbuf.length) buf.length), { spcfd with
        wbuf := spcfd.wbuf ++ buf.take (min (spcfd.iounit - spcfd.wbuf.length) buf.length) }) := by
  have unfilled : spcfd.wbuf.length ≠ spcfd.iounit := by omega
  simp only [spcfdWrite, unfilled, busy, if_false]

theorem doNotify_stays (stays : spcfd.flags &&& Remove = 0) : doNotify spcfd = spcfd := by
  rw [doNotify, if_neg (not_not.mpr stays)]

theorem spcfdWrite_fails (room : spcfd.wbuf.length < spcfd.iounit) (idle : spcfd.wtc = none)
    (stays : spcfd.flags &&& Remove = 0) :
    spcfdWrite spcfd buf false =
      some (none, { spcfd with
        wbuf := spcfd.wbuf ++ buf.take (min (spcfd.iounit - spcfd.wbuf.length) buf.length)
        wtc := none }) := by
  have unfilled : spcfd.wbuf.length ≠ spcfd.iounit := by omega
  have error : (Answer.lost ECONNRESET : Answer Nat).error ≠ 0 := by decide
  have same : spcfd.flags ||| Error = spcfd.flags := Nat.or_zero _
  have kept := @doNotify_stays { spcfd with
    wbuf := spcfd.wbuf ++ buf.take (min (spcfd.iounit - spcfd.wbuf.length) buf.length)
    wtc := none } stays
  simp only [spcfdWrite, unfilled, idle, if_true, if_false, spcfdWriteCb, error, ne_eq, not_false_eq_true,
    Bool.false_eq_true, Option.bind_eq_bind, Option.bind_some, same]
  exact congrArg (fun left => some (none, { left with wtc := none })) kept

theorem spcfdWrite_wbuf (written : spcfdWrite spcfd buf sends = some (some n, later)) :
    later.wbuf = spcfd.wbuf ++ buf.take n := by
  rw [spcfdWrite] at written
  split at written
  · cases written
  · dsimp only at written
    split at written
    · split at written
      · cases written
        rfl
      · simp only [Option.bind_eq_bind, Option.bind_eq_some_iff] at written
        obtain ⟨left, -, same⟩ := written
        cases same
    · cases written
      rfl

end Descriptor

section Session

variable {sent data : List UInt8} {s later : Xpsession} {fuel : Nat}

theorem stdinSend_rests (rests : s.inbuf = [] ∨ s.spcfd.iounit ≤ s.spcfd.wbuf.length) :
    xpCommandStdinSend (fuel + 1) s = some s := by
  have never : ¬spcfdHasError s.spcfd = true := by simp [spcfdHasError_never]
  have rest : (!spcfdCanWrite s.spcfd || s.inbuf = []) = true := by
    rcases rests with empty | full
    · simp [empty]
    · simp [spcfdCanWrite, full]
  rw [xpCommandStdinSend, if_neg never, if_pos rest]

/-- There is something to write, and room for it. -/
structure Ready (s : Xpsession) : Prop where
  room : s.spcfd.wbuf.length < s.spcfd.iounit
  waits : s.inbuf ≠ []

theorem Ready.or_rests (s : Xpsession) : Ready s ∨ s.inbuf = [] ∨ s.spcfd.iounit ≤ s.spcfd.wbuf.length := by
  by_cases waits : s.inbuf = []
  · exact .inr (.inl waits)
  · by_cases room : s.spcfd.wbuf.length < s.spcfd.iounit
    · exact .inl ⟨room, waits⟩
    · exact .inr (.inr (by omega))

theorem Ready.goes_on (ready : Ready s) : ¬spcfdHasError s.spcfd = true ∧
    ¬(!spcfdCanWrite s.spcfd || s.inbuf = []) = true := by
  have room := ready.room
  have waits := ready.waits
  simp [spcfdHasError_never, spcfdCanWrite, room, waits]

theorem Ready.some_written (ready : Ready s) : 0 < min (s.spcfd.iounit - s.spcfd.wbuf.length) s.inbuf.length := by
  have room := ready.room
  have waits := List.length_pos_iff.mpr ready.waits
  omega

theorem stdinSend_moves (ready : Ready s) (stays : s.closein = false)
    (sends : s.connected = true ∨ s.spcfd.wtc ≠ none) :
    ∃ n wtc, 0 < n ∧
      ((wtc = s.spcfd.wtc ∧ s.spcfd.wtc ≠ none) ∨
        ∃ tw : Twrite, wtc = some tw ∧ tw.data = s.spcfd.wbuf ++ s.inbuf.take n) ∧
      xpCommandStdinSend (fuel + 1) s = some { s with
        spcfd := { s.spcfd with wbuf := s.spcfd.wbuf ++ s.inbuf.take n, wtc }
        inbuf := s.inbuf.drop n
        insize := resized s.insize (s.inbuf.drop n).length } := by
  obtain ⟨no_error, goes_on⟩ := ready.goes_on
  obtain ⟨n, one_less⟩ := Nat.exists_eq_add_of_lt ready.some_written
  rw [Nat.zero_add] at one_less
  rw [xpCommandStdinSend, if_neg no_error, if_neg goes_on]
  by_cases busy : s.spcfd.wtc = none
  · have connected : s.connected = true := sends.resolve_right (not_not.mpr busy)
    rw [connected, spcfdWrite_sends ready.room busy, one_less]
    refine ⟨n + 1, some ⟨s.spcfd.offset, s.spcfd.wbuf ++ s.inbuf.take (n + 1)⟩, Nat.succ_pos n,
      .inr ⟨_, rfl, rfl⟩, ?_⟩
    simp [stays]
  · rw [spcfdWrite_waits ready.room busy, one_less]
    refine ⟨n + 1, _, Nat.succ_pos n, .inl ⟨rfl, busy⟩, ?_⟩
    simp [stays]

theorem resized_fits {insize inpos : Nat} (fits : inpos ≤ insize) (small : insize < 2 ^ 31) :
    inpos ≤ resized insize inpos ∧ resized insize inpos < 2 ^ 31 := by
  rw [resized]
  split
  · rename_i both
    refine ⟨by omega, ?_⟩
    by_contra large
    have negative := (toInt_large (not_lt.mp large)).2 (by omega)
    omega
  · exact ⟨fits, small⟩

theorem grown_small {insize inpos datalen : Nat} (int : inpos + datalen < 2 ^ 31) :
    grown insize inpos datalen =
      if inpos + datalen ≤ insize then some insize
      else if padded (inpos + datalen) < 2 ^ 31 then some (padded (inpos + datalen)) else none := by
  have rounded : ((inpos + datalen : Nat) : Int) + (if ((inpos + datalen : Nat) : Int) % 32 ≠ 0 then 32 else 0) =
      (padded (inpos + datalen) : Nat) := by
    rw [padded]
    split <;> split <;> omega
  rw [grown, toInt_small int]
  dsimp only
  rw [rounded]
  by_cases enough : inpos + datalen ≤ insize
  · rw [if_neg (by omega), if_pos enough]
  · rw [if_pos (by omega), if_neg enough, Int.toNat_natCast]
    exact if_congr (by omega) rfl rfl

theorem grown_fits {insize inpos datalen : Nat} (small : insize < 2 ^ 31) :
    (∃ size, grown insize inpos datalen = some size ∧ inpos + datalen ≤ size ∧ size < 2 ^ 31) ↔
      inpos + datalen ≤ insize ∨ padded (inpos + datalen) < 2 ^ 31 := by
  have more : inpos + datalen ≤ padded (inpos + datalen) := Nat.le_add_right _ _
  by_cases int : inpos + datalen < 2 ^ 31
  · rw [grown_small int]
    by_cases enough : inpos + datalen ≤ insize
    · rw [if_pos enough]
      exact iff_of_true ⟨insize, rfl, enough, small⟩ (.inl enough)
    · rw [if_neg enough]
      by_cases room : padded (inpos + datalen) < 2 ^ 31
      · rw [if_pos room]
        exact iff_of_true ⟨_, rfl, more, room⟩ (.inr room)
      · rw [if_neg room]
        exact iff_of_false (fun ⟨_, refused, _⟩ => by cases refused) (not_or.mpr ⟨enough, room⟩)
  · refine iff_of_false ?_ (by omega)
    rintro ⟨size, -, above, below⟩
    omega

theorem Inv.stdinSend (inv : Inv sent s) (sends : Ready s → s.connected = true ∨ s.spcfd.wtc ≠ none) :
    ∃ later, stdinSend s = some later ∧ Inv sent later ∧ later.asked = s.asked := by
  rw [Stdin.stdinSend]
  rcases Ready.or_rests s with ready | rests
  · obtain ⟨n, wtc, some_sent, outstanding, moved⟩ :=
      @stdinSend_moves s s.spcfd.iounit ready inv.closein (sends ready)
    have going : s.asked = false := by
      by_contra asked
      exact ready.waits (inv.closed (by simpa using asked)).1
    refine ⟨_, moved, ⟨?_, ?_, ?_, inv.there, ?_, inv.closein, inv.open_, ?_⟩, rfl⟩
    · rw [← inv.content, Xpsession.all, Xpsession.all]
      dsimp only
      rw [List.append_assoc, List.append_assoc, List.take_append_drop, List.append_assoc]
    · rintro tw same
      rcases outstanding with ⟨kept, -⟩ | ⟨fresh, new, whole⟩
      · have part := inv.part tw (kept ▸ same)
        exact ⟨part.1.trans (List.prefix_append _ _), part.2⟩
      · obtain rfl : fresh = tw := Option.some.inj (new.symm.trans same)
        refine ⟨whole ▸ List.prefix_rfl, ?_⟩
        rw [whole]
        intro none
        have bytes := (List.take_eq_nil_iff.mp (List.append_eq_nil_iff.mp none).2)
        exact bytes.elim (by omega) ready.waits
    · intro (down : s.connected = false)
      rcases outstanding with ⟨kept, -⟩ | ⟨fresh, new, -⟩
      · exact kept.trans (inv.up down)
      · have busy := (sends ready).resolve_left (by simp [down])
        exact absurd (inv.up down) busy
    · have less : (s.inbuf.drop n).length ≤ s.inbuf.length := by
        rw [List.length_drop]
        omega
      exact resized_fits (less.trans inv.size.1) inv.size.2
    · exact fun asked => by simp [going] at asked
  · exact ⟨s, stdinSend_rests rests, inv, rfl⟩

theorem stdinSend_fails (ready : Ready s) (down : s.connected = false) (idle : s.spcfd.wtc = none)
    (stays : s.spcfd.flags &&& Remove = 0) (sent : xpCommandStdinSend fuel s = some later) :
    later.taken = s.taken ∧ later.inbuf = s.inbuf ∧ s.spcfd.wbuf.length < later.spcfd.wbuf.length := by
  induction fuel generalizing s later with
  | zero => cases sent
  | succ fuel ih =>
      obtain ⟨no_error, goes_on⟩ := ready.goes_on
      have some_written := ready.some_written
      have failed : spcfdWrite s.spcfd s.inbuf s.connected = _ := down ▸ spcfdWrite_fails ready.room idle stays
      rw [xpCommandStdinSend, if_neg no_error, if_neg goes_on, failed] at sent
      simp only [Option.bind_eq_bind, Option.bind_some, notified, stays, ne_eq, not_true_eq_false, if_false,
        Option.bind_eq_some_iff] at sent
      obtain ⟨again, called, removed⟩ := sent
      have longer : s.spcfd.wbuf.length <
          (s.spcfd.wbuf ++ s.inbuf.take (min (s.spcfd.iounit - s.spcfd.wbuf.length) s.inbuf.length)).length := by
        rw [List.length_append, List.length_take]
        omega
      have kept : again.taken = s.taken ∧ again.inbuf = s.inbuf ∧
          s.spcfd.wbuf.length < again.spcfd.wbuf.length := by
        rcases Ready.or_rests { s with spcfd := { s.spcfd with
            wbuf := s.spcfd.wbuf ++ s.inbuf.take (min (s.spcfd.iounit - s.spcfd.wbuf.length) s.inbuf.length)
            wtc := none } } with more | rests
        · obtain ⟨taken, inbuf, above⟩ := ih more down rfl stays called
          exact ⟨taken, inbuf, longer.trans above⟩
        · cases fuel with
          | zero => cases called
          | succ fuel =>
              rw [stdinSend_rests rests] at called
              cases called
              exact ⟨rfl, rfl, longer⟩
      rw [stdinError] at removed
      split at removed
      · cases removed
        exact ⟨kept.1, kept.2.1, by simpa using kept.2.2⟩
      · cases removed

/-- What a session that was asked to close does then: each "close stdin" is written behind bytes that have
not been taken. -/
theorem stdinSend_closes (sent : xpCommandStdinSend fuel s = some later) :
    later.asked = s.asked ∧ (later.closes = s.closes ∨ later.taken ∈ later.closes ∧ later.spcfd.wbuf ≠ []) := by
  induction fuel generalizing s later with
  | zero => cases sent
  | succ fuel ih =>
      have removed : ∀ s later : Xpsession, stdinError s = some later → later.asked = s.asked ∧
          later.closes = s.closes ∧ later.taken = s.taken ∧ later.spcfd.wbuf = s.spcfd.wbuf := by
        intro s later error
        rw [stdinError] at error
        split at error
        · cases error
          exact ⟨rfl, rfl, rfl, spcfdRemove_wbuf⟩
        · cases error
      rw [xpCommandStdinSend] at sent
      split at sent
      · obtain ⟨asked, closes, -⟩ := removed s later sent
        exact ⟨asked, .inl closes⟩
      · split at sent
        · cases sent
          exact ⟨rfl, .inl rfl⟩
        · rename_i goes_on
          simp only [Option.bind_eq_bind, Option.bind_eq_some_iff] at sent
          obtain ⟨⟨n, spcfd⟩, written, sent⟩ := sent
          dsimp only at sent
          split at sent
          · simp only [Option.bind_eq_some_iff] at sent
            obtain ⟨again, called, sent⟩ := sent
            obtain ⟨asked, closes, taken, wbuf⟩ := removed again later sent
            rw [asked, closes, taken, wbuf]
            rw [notified] at called
            split at called
            · cases called
              exact ⟨rfl, .inl rfl⟩
            · have inner := ih called
              exact inner
          · obtain ⟨asked, closes, -⟩ := removed _ later sent
            exact ⟨asked, .inl closes⟩
          · rename_i n some_written
            have later_wbuf := spcfdWrite_wbuf written
            have bytes : s.inbuf ≠ [] := by
              intro none
              simp [none] at goes_on
            have filled : spcfd.wbuf ≠ [] := by
              rw [later_wbuf]
              intro none
              have taken := List.take_eq_nil_iff.mp (List.append_eq_nil_iff.mp none).2
              exact taken.elim some_written bytes
            simp only [Option.some.injEq] at sent
            subst later
            split
            · rename_i last
              rw [xpSessionCloseStdin, if_neg (not_not.mpr last.1)]
              split
              · exact ⟨rfl, .inr ⟨List.mem_append_right _ (List.mem_singleton.mpr rfl), filled⟩⟩
              · exact ⟨rfl, .inl rfl⟩
            · exact ⟨rfl, .inl rfl⟩

theorem stdinSend_all (stays : s.closein = false) (sends : Ready s → s.connected = true ∨ s.spcfd.wtc ≠ none)
    (sent : Stdin.stdinSend s = some later) : later.all = s.all := by
  rw [Stdin.stdinSend] at sent
  rcases Ready.or_rests s with ready | rests
  · obtain ⟨n, wtc, -, -, moved⟩ := @stdinSend_moves s s.spcfd.iounit ready stays (sends ready)
    rw [moved] at sent
    cases sent
    rw [Xpsession.all, Xpsession.all]
    dsimp only
    rw [List.append_assoc, List.append_assoc, List.take_append_drop, List.append_assoc]
  · rw [stdinSend_rests rests] at sent
    cases sent
    rfl

variable {tw : Twrite} {answer : Answer Nat} {count : Nat}

theorem writeAnswered_error (stays : s.spcfd.flags &&& Remove = 0) (there : s.spcfd.freed = false)
    (busy : s.spcfd.wtc = some tw) (error : answer.error ≠ 0) :
    writeAnswered s answer = stdinSend { s with spcfd := { s.spcfd with wtc := none } } := by
  have same : s.spcfd.flags ||| Error = s.spcfd.flags := Nat.or_zero _
  have kept := @doNotify_stays { s.spcfd with wtc := none } stays
  have called : spcfdWriteCb s.spcfd answer = some { s.spcfd with wtc := none } := by
    have marked : spcfdWriteCb s.spcfd answer =
        some (doNotify { s.spcfd with flags := s.spcfd.flags ||| Error, wtc := none }) := by
      cases answer <;> exact if_pos error
    rw [marked, same, kept]
  have nothing : s.tookOf tw answer = s := by
    cases answer with
    | reply count => exact absurd rfl error
    | rerror ecode => rfl
    | lost ecode => rfl
  rw [writeAnswered, busy]
  simp only [there, called, nothing, Bool.false_eq_true, if_false, Option.bind_eq_bind, Option.bind_some, notified,
    stays, ne_eq, not_true_eq_false]

theorem writeAnswered_reply (stays : s.spcfd.flags &&& Remove = 0) (there : s.spcfd.freed = false)
    (busy : s.spcfd.wtc = some tw) (inside : count ≤ s.spcfd.wbuf.length) :
    writeAnswered s (.reply count) = stdinSend { s with
      taken := s.taken ++ tw.data.take count
      spcfd := { s.spcfd with
        offset := s.spcfd.offset + UInt64.ofNat count
        wbuf := s.spcfd.wbuf.drop count
        wtc := none } } := by
  have kept := @doNotify_stays { s.spcfd with
    offset := s.spcfd.offset + UInt64.ofNat count
    wbuf := s.spcfd.wbuf.drop count
    wtc := none } stays
  have called : spcfdWriteCb s.spcfd (.reply count) = some { s.spcfd with
      offset := s.spcfd.offset + UInt64.ofNat count
      wbuf := s.spcfd.wbuf.drop count
      wtc := none } := by
    simp only [spcfdWriteCb, Answer.error, ne_eq, not_true_eq_false, if_false, inside, if_true]
    exact congrArg some kept
  rw [writeAnswered, busy]
  simp only [there, called, Bool.false_eq_true, if_false, Option.bind_eq_bind, Option.bind_some, notified, stays,
    ne_eq, not_true_eq_false, Xpsession.tookOf]

theorem Inv.going (inv : Inv sent s) (busy : s.spcfd.wtc = some tw) : s.asked = false := by
  by_contra asked
  have empty := (inv.closed (by simpa using asked)).2.1
  have part := inv.part tw busy
  rw [empty] at part
  exact part.2 (List.prefix_nil.mp part.1)

theorem Inv.connected (inv : Inv sent s) (busy : s.spcfd.wtc = some tw) : s.connected = true := by
  by_contra down
  rw [inv.up (by simpa using down)] at busy
  cases busy

theorem Inv.answered (inv : Inv sent s) (busy : s.spcfd.wtc = some tw) (connected : Bool) :
    Inv sent { s with connected, spcfd := { s.spcfd with wtc := none } } where
  content := inv.content
  part := fun tw same => by cases same
  up := fun _ => rfl
  there := inv.there
  size := inv.size
  closein := inv.closein
  open_ := inv.open_
  closed := fun asked => by
    have going := inv.going busy
    have asked : s.asked = true := asked
    rw [going] at asked
    cases asked

theorem Inv.replied (inv : Inv sent s) (busy : s.spcfd.wtc = some tw) (fits : count ≤ tw.data.length) :
    Inv sent { s with
      taken := s.taken ++ tw.data.take count
      spcfd := { s.spcfd with
        offset := s.spcfd.offset + UInt64.ofNat count
        wbuf := s.spcfd.wbuf.drop count
        wtc := none } } := by
  obtain ⟨rest, whole⟩ := (inv.part tw busy).1
  refine ⟨?_, (fun tw same => by cases same), fun _ => rfl, inv.there, inv.size, inv.closein, inv.open_, ?_⟩
  · rw [← inv.content, Xpsession.all, Xpsession.all]
    dsimp only
    rw [← whole, List.drop_append_of_le_length fits]
    calc s.taken ++ tw.data.take count ++ (tw.data.drop count ++ rest) ++ s.inbuf
        = s.taken ++ (tw.data.take count ++ tw.data.drop count ++ rest) ++ s.inbuf := by
          simp only [List.append_assoc]
      _ = s.taken ++ (tw.data ++ rest) ++ s.inbuf := by
          rw [List.take_append_drop]
  · intro (asked : s.asked = true)
    rw [inv.going busy] at asked
    cases asked

theorem writeAnswered_idle (idle : s.spcfd.wtc = none) : writeAnswered s answer = some s := by
  rw [writeAnswered, idle]

theorem Inv.writeAnswered (inv : Inv sent s) (fits : ∀ tw, s.spcfd.wtc = some tw → AnswerFits tw answer) :
    ∃ later, writeAnswered s answer = some later ∧ Inv sent later ∧ later.asked = s.asked := by
  cases outstanding : s.spcfd.wtc with
  | none => exact ⟨s, writeAnswered_idle outstanding, inv, rfl⟩
  | some tw =>
      have fits := fits tw outstanding
      have connected := inv.connected outstanding
      obtain ⟨-, stays, there⟩ := inv.there
      have failed (error : answer.error ≠ 0) :
          ∃ later, Stdin.writeAnswered s answer = some later ∧ Inv sent later ∧ later.asked = s.asked := by
        rw [writeAnswered_error stays there outstanding error]
        have answered := (inv.answered outstanding s.connected).stdinSend fun _ => .inl connected
        exact answered
      cases answer with
      | reply count =>
          have inside := (inv.part tw outstanding).1.length_le
          rw [AnswerFits] at fits
          rw [writeAnswered_reply stays there outstanding (fits.trans inside)]
          exact (inv.replied outstanding fits).stdinSend fun _ => .inl connected
      | rerror ecode => exact failed fits
      | lost ecode => exact failed fits

theorem writeAnswered_needs (inv : Inv sent s) (busy : s.spcfd.wtc = some tw)
    (stepped : writeAnswered s answer = some later) (content : later.all = sent) : AnswerFits tw answer := by
  have connected := inv.connected busy
  obtain ⟨-, stays, there⟩ := inv.there
  cases answer with
  | reply count =>
      rw [AnswerFits]
      by_contra more
      by_cases inside : count ≤ s.spcfd.wbuf.length
      · rw [writeAnswered_reply stays there busy inside] at stepped
        have all := stdinSend_all (by exact inv.closein) (fun _ => .inl (by exact connected)) stepped
        have same := all.symm.trans (content.trans inv.content.symm)
        have lengths := congrArg List.length same
        simp only [Xpsession.all, List.length_append, List.length_take, List.length_drop] at lengths
        omega
      · have outside : spcfdWriteCb s.spcfd (.reply count) = none := by
          simp only [spcfdWriteCb, Answer.error, ne_eq, not_true_eq_false, if_false, inside]
        rw [writeAnswered, busy] at stepped
        simp only [there, outside, Bool.false_eq_true, if_false, Option.bind_eq_bind, Option.bind_none] at stepped
        cases stepped
  | rerror ecode =>
      rintro rfl
      rw [writeAnswered, busy] at stepped
      simp [there, spcfdWriteCb, Answer.error] at stepped
  | lost ecode =>
      rintro rfl
      rw [writeAnswered, busy] at stepped
      simp [there, spcfdWriteCb, Answer.error] at stepped

theorem Inv.disconnected (inv : Inv sent s)
    (rests : s.spcfd.wtc ≠ none → s.inbuf = [] ∨ s.spcfd.iounit ≤ s.spcfd.wbuf.length) :
    ∃ later, disconnected s = some later ∧ Inv sent later ∧ later.asked = s.asked := by
  rw [Stdin.disconnected]
  cases outstanding : s.spcfd.wtc with
  | none =>
      refine ⟨{ s with connected := false }, ?_, ?_, rfl⟩
      · rw [Stdin.writeAnswered]
        dsimp only
        rw [outstanding]
      · exact ⟨inv.content, inv.part, fun _ => outstanding, inv.there, inv.size, inv.closein, inv.open_, inv.closed⟩
  | some tw =>
      have lost : (Answer.lost ECONNRESET : Answer Nat).error ≠ 0 := by decide
      obtain ⟨-, stays, there⟩ := inv.there
      refine ⟨{ s with connected := false, spcfd := { s.spcfd with wtc := none } }, ?_,
        inv.answered outstanding false, rfl⟩
      rw [@writeAnswered_error { s with connected := false } tw _ stays there outstanding lost]
      exact stdinSend_rests (rests (by simp [outstanding]))

theorem disconnected_needs (inv : Inv sent s) (stepped : disconnected s = some later) (content : later.all = sent)
    (busy : s.spcfd.wtc ≠ none) : s.inbuf = [] ∨ s.spcfd.iounit ≤ s.spcfd.wbuf.length := by
  rcases Ready.or_rests s with ready | rests
  · obtain ⟨tw, outstanding⟩ := Option.ne_none_iff_exists'.mp busy
    have lost : (Answer.lost ECONNRESET : Answer Nat).error ≠ 0 := by decide
    obtain ⟨-, stays, there⟩ := inv.there
    rw [disconnected, @writeAnswered_error { s with connected := false } tw _ stays there outstanding lost] at stepped
    have unsent : Ready { s with connected := false, spcfd := { s.spcfd with wtc := none } } :=
      ⟨ready.room, ready.waits⟩
    obtain ⟨taken, inbuf, longer⟩ := stdinSend_fails unsent rfl rfl stays stepped
    have lengths := congrArg List.length (content.trans inv.content.symm)
    simp only [Xpsession.all, List.length_append, taken, inbuf] at lengths
    dsimp only at longer
    omega
  · exact rests

theorem Left.stays (opened : Left s) (stepped : writeAnswered s answer = some later) (proper : Proper sent later) :
    Left later := by
  obtain ⟨asked, none_yet, busy⟩ := opened
  have outcome : later.asked = true ∧ (later.closes = [] ∨ later.taken ∈ later.closes ∧ later.spcfd.wbuf ≠ []) := by
    rw [writeAnswered] at stepped
    split at stepped
    · cases stepped
      exact ⟨asked, .inl none_yet⟩
    · rename_i tw outstanding
      split at stepped
      · cases stepped
      · simp only [Option.bind_eq_bind, Option.bind_eq_some_iff] at stepped
        obtain ⟨spcfd, -, called⟩ := stepped
        have same : (s.tookOf tw answer).asked = true ∧ (s.tookOf tw answer).closes = [] := by
          cases answer <;> exact ⟨asked, none_yet⟩
        rw [notified] at called
        split at called
        · cases called
          exact ⟨same.1, .inl same.2⟩
        · have closes := stdinSend_closes called
          exact ⟨closes.1.trans same.1, closes.2.imp_left fun kept => kept.trans same.2⟩
  refine ⟨outcome.1, ?_, ?_⟩
  · refine outcome.2.resolve_right ?_
    rintro ⟨written, bytes⟩
    have content := proper.content
    rw [Xpsession.all, proper.after _ written, List.append_assoc, List.append_right_eq_self] at content
    exact bytes (List.append_eq_nil_iff.mp content).1
  · intro idle
    have closed := (proper.finished outcome.1 idle).2
    rcases outcome.2 with still | ⟨written, bytes⟩
    · rw [still] at closed
      cases closed
    · have content := proper.content
      rw [Xpsession.all, proper.after _ written, List.append_assoc, List.append_right_eq_self] at content
      exact bytes (List.append_eq_nil_iff.mp content).1

theorem Left.stays_disconnected (opened : Left s) (stepped : disconnected s = some later) (proper : Proper sent later) :
    Left later :=
  @Left.stays sent { s with connected := false } later _ opened stepped proper

theorem Inv.closes (inv : Inv sent s) (going : s.asked = false) (empty : s.inbuf = [] ∧ s.spcfd.wbuf = [])
    (connected : s.connected = true) : Inv sent { xpSessionCloseStdin s with asked := true } := by
  have all := inv.content
  rw [Xpsession.all, empty.1, empty.2, List.append_nil, List.append_nil] at all
  rw [xpSessionCloseStdin, if_neg (not_not.mpr empty.1), if_pos connected]
  refine ⟨inv.content, inv.part, inv.up, inv.there, inv.size, inv.closein, fun open_ => (by cases open_),
    fun _ => ⟨empty.1, empty.2, ?_⟩⟩
  dsimp only
  rw [inv.open_ going, all, List.nil_append]

theorem closes_needs (inv : Inv sent s) (going : s.asked = false)
    (proper : Proper sent { xpSessionCloseStdin s with asked := true }) :
    (s.inbuf = [] ∧ s.spcfd.wbuf = [] ∧ s.connected = true) ∨ Left { xpSessionCloseStdin s with asked := true } := by
  have none_yet := inv.open_ going
  rw [xpSessionCloseStdin] at proper ⊢
  split at proper
  · rename_i waits
    rw [if_pos waits]
    refine .inr ⟨rfl, none_yet, fun idle => ?_⟩
    have closed := (proper.finished rfl idle).2
    dsimp only at closed
    rw [none_yet] at closed
    cases closed
  · rename_i empty
    rw [not_not] at empty
    split at proper
    · rename_i connected
      have taken := proper.after s.taken (List.mem_append_right _ (List.mem_singleton.mpr rfl))
      have content := inv.content
      rw [Xpsession.all, taken, empty, List.append_nil, List.append_right_eq_self] at content
      exact .inl ⟨empty, content, connected⟩
    · rename_i down
      have closed := (proper.finished rfl (inv.up (by simpa using down))).2
      dsimp only at closed
      rw [none_yet] at closed
      cases closed

theorem grown_size {insize inpos datalen size : Nat} (small : insize < 2 ^ 31)
    (grows : grown insize inpos datalen = some size) : size < 2 ^ 31 := by
  rw [grown] at grows
  by_cases more : (insize : Int) < toInt (inpos + datalen)
  · simp only [if_pos more, Option.ite_none_right_eq_some, Option.some.injEq] at grows
    omega
  · simp only [if_neg more, Option.some.injEq] at grows
    omega

theorem Inv.appendInbuf (inv : Inv sent s) (going : s.asked = false) (fits : SendFits data s) :
    ∃ insize later, grown s.insize s.inbuf.length data.length = some insize ∧
      s.inbuf.length + data.length ≤ insize ∧ appendInbuf data insize s = some later ∧
      Inv (sent ++ data) later ∧ later.asked = false := by
  obtain ⟨insize, grows, room, small⟩ := (grown_fits inv.size.2).mpr fits.1
  have added : Inv (sent ++ data) { s with inbuf := s.inbuf ++ data, insize } := by
    refine ⟨?_, inv.part, inv.up, inv.there, ⟨by simpa using room, small⟩, inv.closein, inv.open_, ?_⟩
    · rw [← inv.content, Xpsession.all, Xpsession.all, List.append_assoc _ _ data]
    · intro (asked : s.asked = true)
      rw [going] at asked
      cases asked
  by_cases first : (s.inbuf ++ data).length = data.length
  · have empty : s.inbuf = [] := by
      rw [List.length_append] at first
      exact List.length_eq_zero_iff.mp (by omega)
    have sends : Ready { s with inbuf := s.inbuf ++ data, insize } → s.connected = true ∨ s.spcfd.wtc ≠ none := by
      intro ready
      by_cases idle : s.spcfd.wtc = none
      · refine .inl (fits.2 ?_ empty idle ready.room)
        rintro rfl
        exact ready.waits (by simp [empty])
      · exact .inr idle
    obtain ⟨later, called, kept, same⟩ := added.stdinSend sends
    refine ⟨insize, later, grows, room, ?_, kept, same.trans going⟩
    rw [Stdin.appendInbuf, if_pos first]
    exact called
  · refine ⟨insize, _, grows, room, ?_, added, going⟩
    rw [Stdin.appendInbuf, if_neg first]

theorem appendInbuf_needs (inv : Inv sent s) {insize : Nat}
    (grows : grown s.insize s.inbuf.length data.length = some insize)
    (room : s.inbuf.length + data.length ≤ insize) (stepped : appendInbuf data insize s = some later)
    (content : later.all = sent ++ data) : SendFits data s := by
  refine ⟨(grown_fits inv.size.2).mp ⟨insize, grows, room, grown_size inv.size.2 grows⟩, ?_⟩
  intro bytes empty idle unfilled
  by_contra down
  have ready : Ready { s with inbuf := s.inbuf ++ data, insize } := ⟨unfilled, by simp [bytes]⟩
  have first : (s.inbuf ++ data).length = data.length := by rw [empty, List.nil_append]
  rw [appendInbuf, if_pos first, stdinSend] at stepped
  obtain ⟨taken, inbuf, longer⟩ := stdinSend_fails ready (by simpa using down) idle inv.there.2.1 stepped
  have before := congrArg List.length inv.content
  have lengths := congrArg List.length content
  simp only [Xpsession.all, List.length_append, taken, inbuf] at lengths before
  dsimp only at longer
  omega

theorem xpCommandSend_fits {ss : List Xpsession} (inv : ∀ s ∈ ss, Inv sent s ∧ s.asked = false)
    (fits : ∀ s ∈ ss, SendFits data s) :
    ∃ later, xpCommandSend data ss = some (true, later) ∧ ∀ s ∈ later, Inv (sent ++ data) s ∧ s.asked = false := by
  induction ss with
  | nil => exact ⟨[], rfl, fun s member => absurd member List.not_mem_nil⟩
  | cons s ss ih =>
      obtain ⟨own, going⟩ := inv s List.mem_cons_self
      obtain ⟨insize, first, grows, room, called, kept, same⟩ := own.appendInbuf going (fits s List.mem_cons_self)
      obtain ⟨rest, sent_rest, all⟩ := ih (fun s member => inv s (List.mem_cons_of_mem _ member))
        fun s member => fits s (List.mem_cons_of_mem _ member)
      refine ⟨first :: rest, ?_, List.forall_mem_cons.mpr ⟨⟨kept, same⟩, all⟩⟩
      rw [xpCommandSend, if_neg (by simp [own.there.1])]
      simp only [grows, room, if_true, called, sent_rest, Option.bind_eq_bind, Option.bind_some]

theorem xpCommandSend_needs {ss after : List Xpsession} {all : Bool} (inv : ∀ s ∈ ss, Inv sent s)
    (stepped : xpCommandSend data ss = some (all, after)) (content : ∀ s ∈ after, s.all = sent ++ data) :
    ∀ s ∈ ss, SendFits data s := by
  by_cases bytes : data = []
  · intro s member
    refine ⟨.inl ?_, fun some_bytes => absurd bytes some_bytes⟩
    rw [bytes, List.length_nil, Nat.add_zero]
    exact (inv s member).size.1
  · induction ss generalizing after all with
    | nil => exact fun s member => absurd member List.not_mem_nil
    | cons s ss ih =>
        have own := inv s List.mem_cons_self
        have refused : xpCommandSend data (s :: ss) ≠ some (false, s :: ss) := by
          intro same
          rw [stepped, Option.some.injEq, Prod.mk.injEq] at same
          have whole := content s (same.2 ▸ List.mem_cons_self)
          rw [own.content, List.self_eq_append_right] at whole
          exact bytes whole
        rw [xpCommandSend, if_neg (by simp [own.there.1])] at stepped refused
        cases grows : grown s.insize s.inbuf.length data.length with
        | none => simp only [grows, ne_eq, not_true_eq_false] at refused
        | some insize =>
            simp only [grows] at stepped
            split at stepped
            · rename_i room
              simp only [Option.bind_eq_bind, Option.bind_eq_some_iff] at stepped
              obtain ⟨first, called, ⟨rest_all, rest⟩, others, same⟩ := stepped
              cases same
              have fits := appendInbuf_needs own grows room called (content first List.mem_cons_self)
              refine List.forall_mem_cons.mpr ⟨fits, ?_⟩
              exact ih (fun s member => inv s (List.mem_cons_of_mem _ member)) others
                fun s member => content s (List.mem_cons_of_mem _ member)
            · cases stepped

theorem Inv.proper (inv : Inv sent s) : Proper sent s := by
  refine ⟨inv.content, ?_, ?_⟩
  · cases asked : s.asked with
    | false =>
        rw [inv.open_ asked]
        exact fun taken member => absurd member List.not_mem_nil
    | true =>
        rw [(inv.closed asked).2.2]
        exact fun taken member => List.mem_singleton.mp member
  · intro asked idle
    obtain ⟨empty, unfilled, closes⟩ := inv.closed asked
    have content := inv.content
    rw [Xpsession.all, empty, unfilled, List.append_nil, List.append_nil] at content
    exact ⟨content, by rw [closes]; rfl⟩

end Session

section Command

variable {cm next : Xpcommand} {i : Nat} {change : Xpsession → Option Xpsession}

theorem onSession_some (stepped : cm.onSession i change = some next) :
    cm.sessions[i]? = none ∧ next = cm ∨
      ∃ s later, cm.sessions[i]? = some s ∧ change s = some later ∧
        next = { cm with sessions := cm.sessions.set i later } := by
  rw [Xpcommand.onSession] at stepped
  split at stepped
  · rename_i absent
    cases stepped
    exact .inl ⟨absent, rfl⟩
  · rename_i s there
    simp only [Option.bind_eq_bind, Option.bind_eq_some_iff, Option.some.injEq] at stepped
    obtain ⟨later, changed, same⟩ := stepped
    exact .inr ⟨s, later, there, changed, same.symm⟩

structure CmInv (cm : Xpcommand) : Prop where
  each : ∀ s ∈ cm.sessions, Inv cm.sent s
  asked : ∀ s ∈ cm.sessions, s.asked = true → cm.closing = true

/-- A session waits for an answer to close. -/
def SomeLeft (cm : Xpcommand) : Prop := cm.closing = true ∧ ∃ s ∈ cm.sessions, Left s

theorem CmInv.delivered (inv : CmInv cm) : Delivered cm := fun s member => (inv.each s member).proper

theorem CmInv.set (inv : CmInv cm) {later : Xpsession} (kept : Inv cm.sent later)
    (asked : later.asked = true → cm.closing = true) :
    CmInv { cm with sessions := cm.sessions.set i later } where
  each := fun s member => by
    rcases List.mem_or_eq_of_mem_set member with old | rfl
    · exact inv.each s old
    · exact kept
  asked := fun s member => by
    rcases List.mem_or_eq_of_mem_set member with old | rfl
    · exact inv.asked s old
    · exact asked

/-- A change of one session that keeps its invariant. -/
theorem CmInv.onSession (inv : CmInv cm)
    (changed : ∀ s, cm.sessions[i]? = some s →
      ∃ later, change s = some later ∧ Inv cm.sent later ∧ (later.asked = true → cm.closing = true)) :
    ∃ next, cm.onSession i change = some next ∧ CmInv next := by
  cases there : cm.sessions[i]? with
  | none =>
      refine ⟨cm, ?_, inv⟩
      rw [Xpcommand.onSession, there]
  | some s =>
      obtain ⟨later, same, kept, asked⟩ := changed s there
      refine ⟨{ cm with sessions := cm.sessions.set i later }, ?_, inv.set kept asked⟩
      rw [Xpcommand.onSession, there]
      simp only [same, Option.bind_eq_bind, Option.bind_some]

theorem delivered_onSession (stepped : cm.onSession i change = some next) (delivered : Delivered next)
    {s : Xpsession} (there : cm.sessions[i]? = some s) :
    ∃ later, change s = some later ∧ later ∈ next.sessions ∧ Proper cm.sent later := by
  rcases onSession_some stepped with ⟨absent, -⟩ | ⟨old, later, same, changed, rfl⟩
  · rw [there] at absent
    cases absent
  · obtain rfl : s = old := Option.some.inj (there.symm.trans same)
    have member : later ∈ cm.sessions.set i later :=
      List.mem_set (List.getElem?_eq_some_iff.mp there).1 later
    exact ⟨later, changed, member, delivered later member⟩

theorem step_enough (inv : CmInv cm) (event : Event) (guard : Guard cm event) :
    ∃ next, step cm event = some next ∧ CmInv next := by
  cases event with
  | send data =>
      cases closing : cm.closing with
      | true => exact ⟨cm, by rw [step, if_pos closing], inv⟩
      | false =>
          have going : ∀ s ∈ cm.sessions, Inv cm.sent s ∧ s.asked = false := by
            intro s member
            refine ⟨inv.each s member, ?_⟩
            by_contra asked
            simp [inv.asked s member (by simpa using asked)] at closing
          obtain ⟨later, called, kept⟩ := xpCommandSend_fits going (guard closing)
          refine ⟨{ cm with sessions := later, sent := cm.sent ++ data }, ?_, fun s member => (kept s member).1, ?_⟩
          · rw [step, if_neg (by simp [closing]), called]
            rfl
          · intro s member asked
            simp [(kept s member).2] at asked
  | answer i answer =>
      apply inv.onSession
      intro s there
      obtain ⟨later, called, kept, same⟩ := (inv.each s (List.mem_of_getElem? there)).writeAnswered (guard s there)
      exact ⟨later, called, kept, fun asked => inv.asked s (List.mem_of_getElem? there) (same ▸ asked)⟩
  | disconnect i =>
      apply inv.onSession
      intro s there
      obtain ⟨later, called, kept, same⟩ := (inv.each s (List.mem_of_getElem? there)).disconnected (guard s there)
      exact ⟨later, called, kept, fun asked => inv.asked s (List.mem_of_getElem? there) (same ▸ asked)⟩
  | closeStdin i =>
      have closing : CmInv { cm with closing := true } := ⟨inv.each, fun _ _ _ => rfl⟩
      apply closing.onSession
      intro s there
      have own := inv.each s (List.mem_of_getElem? there)
      cases asked : s.asked with
      | true => exact ⟨s, rfl, own, fun _ => rfl⟩
      | false =>
          obtain ⟨empty, unfilled, connected⟩ := guard s there asked
          exact ⟨_, rfl, own.closes asked ⟨empty, unfilled⟩ connected, fun _ => rfl⟩

theorem step_needs (inv : CmInv cm) (event : Event) (stepped : step cm event = some next)
    (delivered : Delivered next) : Guard cm event ∨ SomeLeft next := by
  cases event with
  | send data =>
      left
      intro closing
      rw [step, if_neg (by simp [closing])] at stepped
      simp only [Option.bind_eq_bind, Option.bind_eq_some_iff, Option.some.injEq] at stepped
      obtain ⟨⟨all, later⟩, called, rfl⟩ := stepped
      exact xpCommandSend_needs inv.each called fun s member => (delivered s member).content
  | answer i answer =>
      left
      intro s there tw busy
      obtain ⟨later, called, -, proper⟩ := delivered_onSession stepped delivered there
      exact writeAnswered_needs (inv.each s (List.mem_of_getElem? there)) busy called proper.content
  | disconnect i =>
      left
      intro s there busy
      obtain ⟨later, called, -, proper⟩ := delivered_onSession stepped delivered there
      exact disconnected_needs (inv.each s (List.mem_of_getElem? there)) called proper.content busy
  | closeStdin i =>
      have closing : next.closing = true := by
        rcases onSession_some stepped with ⟨-, rfl⟩ | ⟨_, _, -, -, rfl⟩ <;> rfl
      by_cases guarded : Guard cm (.closeStdin i)
      · exact .inl guarded
      · right
        simp only [Guard, not_forall] at guarded
        obtain ⟨s, there, going, unready⟩ := guarded
        obtain ⟨later, called, member, proper⟩ := delivered_onSession stepped delivered there
        rw [going] at called
        cases called
        refine ⟨closing, _, member, ?_⟩
        exact (closes_needs (inv.each s (List.mem_of_getElem? there)) going proper).resolve_left unready

theorem someLeft_stays (event : Event) (opened : SomeLeft cm) (stepped : step cm event = some next)
    (delivered : Delivered next) : SomeLeft next := by
  obtain ⟨closing, s, member, waits⟩ := opened
  -- the session that waits is changed, or it is still there
  have moves : ∀ {base : Xpcommand} {i : Nat} {change : Xpsession → Option Xpsession}, base.closing = true →
      base.sessions = cm.sessions → base.onSession i change = some next →
      (∀ later, change s = some later → Proper next.sent later → Left later) → SomeLeft next := by
    intro base i change closing same stepped kept
    rw [← same] at member
    rcases onSession_some stepped with ⟨-, rfl⟩ | ⟨old, later, there, changed, rfl⟩
    · exact ⟨closing, s, member, waits⟩
    · refine ⟨closing, ?_⟩
      obtain ⟨j, inside, here⟩ := List.mem_iff_getElem.mp member
      have place : base.sessions[j]? = some s := by rw [List.getElem?_eq_getElem inside, here]
      by_cases changes : i = j
      · subst changes
        obtain rfl : s = old := Option.some.inj (place.symm.trans there)
        have there : later ∈ base.sessions.set i later := List.mem_set inside later
        exact ⟨later, there, kept later changed (delivered later there)⟩
      · have still : (base.sessions.set i later)[j]? = some s := by
          rw [List.getElem?_set_ne changes, place]
        exact ⟨s, List.mem_of_getElem? still, waits⟩
  cases event with
  | send data =>
      rw [step, if_pos closing] at stepped
      cases stepped
      exact ⟨closing, s, member, waits⟩
  | answer i answer =>
      exact moves closing rfl stepped fun later called proper => waits.stays called proper
  | disconnect i =>
      exact moves closing rfl stepped fun later called proper => waits.stays_disconnected called proper
  | closeStdin i =>
      refine @moves { cm with closing := true } _ _ rfl rfl stepped fun later called _ => ?_
      rw [waits.1] at called
      cases called
      exact waits

end Command

theorem inv_start (iounits : List Nat) : CmInv (start iounits) := by
  have each : ∀ s ∈ (start iounits).sessions, ∃ iounit, s = { spcfd := { iounit, offset := 0 } } := by
    intro s member
    obtain ⟨iounit, -, same⟩ := List.mem_map.mp member
    exact ⟨iounit, same.symm⟩
  constructor
  · intro s member
    obtain ⟨iounit, rfl⟩ := each s member
    exact ⟨rfl, fun tw same => (by cases same), fun _ => rfl, ⟨rfl, Nat.zero_and Remove, rfl⟩,
      ⟨Nat.le_refl 0, Nat.two_pow_pos 31⟩, rfl, fun _ => rfl, fun asked => (by cases asked)⟩
  · intro s member asked
    obtain ⟨iounit, rfl⟩ := each s member
    cases asked

/-- The standard input of the sessions of a command, in any run that leaves no Twrite unanswered. -/
theorem stdin_delivered (iounits : List Nat) (events : List Event)
    (answered : ∀ final, run step (start iounits) events = some final →
      ∀ s ∈ final.sessions, s.spcfd.wtc = none) :
    Throughout step Delivered (start iounits) events ↔ Guarded step Guard (start iounits) events := by
  refine throughout_iff_guarded_of_closed step ?_ (fun _ event _ inv => step_needs inv event)
    (fun _ event _ opened => someLeft_stays event opened) events (inv_start iounits) ?_
  · intro cm event inv guard
    obtain ⟨next, stepped, kept⟩ := step_enough inv event guard
    exact ⟨next, stepped, kept.delivered, kept⟩
  · rintro final ran ⟨-, s, member, opened⟩
    exact opened.2.2 (answered final ran s member)

theorem answered_of_all {iounits : List Nat} {events : List Event}
    (all : ((run step (start iounits) events).map fun cm => cm.sessions.all fun s => s.spcfd.wtc = none) = some true) :
    ∀ final, run step (start iounits) events = some final → ∀ s ∈ final.sessions, s.spcfd.wtc = none := by
  intro final ran s member
  rw [ran, Option.map_some, Option.some.injEq, List.all_eq_true] at all
  simpa using all s member

theorem stdin_delivered_two :
    Throughout step Delivered (start [8, 8])
        [.send [1], .answer 0 (.reply 1), .answer 1 (.reply 1), .closeStdin 0, .closeStdin 1] ↔
      Guarded step Guard (start [8, 8])
        [.send [1], .answer 0 (.reply 1), .answer 1 (.reply 1), .closeStdin 0, .closeStdin 1] :=
  stdin_delivered [8, 8] _ (answered_of_all (by decide))

/-- "close stdin" is written while the Twrite is outstanding. -/
theorem closed_before_taken : ¬∀ (iounits : List Nat) (events : List Event),
    (∀ final, run step (start iounits) events = some final → ∀ s ∈ final.sessions, s.spcfd.wtc = none) →
      Throughout step Delivered (start iounits) events := by
  intro all
  have delivered := all [8] [.send [1], .closeStdin 0, .answer 0 (.reply 1)] (answered_of_all (by decide))
  obtain ⟨first, sends, -, second, closes, early, -⟩ := delivered
  have none_taken : ((run step (start [8]) [.send [1], .closeStdin 0]).map fun cm =>
      cm.sessions.any fun s => s.closes.any fun taken => taken ≠ cm.sent) = some true := by decide
  have ran : run step (start [8]) [.send [1], .closeStdin 0] = some second := by
    rw [run_cons, sends, Option.bind_some, run_cons, closes, Option.bind_some, run_nil]
  rw [ran, Option.map_some, Option.some.injEq, List.any_eq_true] at none_taken
  obtain ⟨s, member, some_close⟩ := none_taken
  obtain ⟨taken, written, wrong⟩ := List.any_eq_true.mp some_close
  exact (by simpa using wrong : taken ≠ second.sent) ((early s member).after taken written)

end Xcpu.Libxcpu.Stdin
