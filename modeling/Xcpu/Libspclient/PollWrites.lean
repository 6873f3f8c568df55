import Mathlib.Data.List.Chain
import Xcpu.Libspclient.Poll

/-!
What `spcfd_write` accepts reaches the file once and in order exactly as long as each Twrite is
answered in full before more is accepted, without an error and without Treads that move the offset.
-/

namespace Xcpu.Libspclient.Poll

open Xcpu.Transition

/-- What the file got. -/
def Client.delivered (client : Client) : List UInt8 := client.log.flatMap Prod.snd

/-- The writes to the file, with the one that is outstanding. -/
def Client.sent (client : Client) : List (UInt64 × List UInt8) :=
  client.log ++ (client.spcfd.wtc.map fun tw => (tw.offset, tw.data)).toList

def Follows (first second : UInt64 × List UInt8) : Prop :=
  second.1 = first.1 + UInt64.ofNat first.2.length

/-- What was accepted is at the file or in the buffer, at consecutive offsets; the buffer is empty when
nothing is outstanding, an error is reported, and no answer comes to a descriptor that was freed. -/
structure Sound (client : Client) : Prop where
  content : client.accepted = client.delivered ++ client.spcfd.wbuf
  placed : client.sent.IsChain Follows
  idle : client.spcfd.wtc = none → client.spcfd.wbuf = []
  reported : client.failed = true → spcfdHasError client.spcfd = true
  kept : client.spcfd.freed = true → client.spcfd.wtc = none

theorem Sound.all_delivered {client : Client} (sound : Sound client) (freed : client.spcfd.freed = true) :
    client.accepted = client.delivered := by
  rw [sound.content, sound.idle (sound.kept freed), List.append_nil]

/-- The code can handle the answer to a Tread. -/
def ReadFits (spcfd : Spcfd) : Answer (List UInt8) → Prop
  | .reply data => data ≠ [] → spcfd.rbuf.length + data.length ≤ spcfd.iounit
  | .rerror ecode => ecode ≠ 0
  | .lost ecode => ecode ≠ 0

/-- A Twrite is sent after the last one, and answered in full before more bytes are accepted. A
descriptor is not freed while a Twrite of no bytes is outstanding. -/
def Guard (client : Client) : Event → Prop
  | .write _ sends => client.removed = false → client.sendsTwrite = true →
      sends = true ∧ ∀ last ∈ client.log.getLast?, client.spcfd.offset = last.1 + UInt64.ofNat last.2.length
  | .writeAnswer answer => ∀ tw, client.spcfd.wtc = some tw →
      answer = .reply tw.data.length ∧ tw.data = client.spcfd.wbuf
  | .readAnswer answer => client.spcfd.rtc = true →
      ReadFits client.spcfd answer ∧
        (client.spcfd.flags &&& Remove ≠ 0 → client.spcfd.wbuf = [] → client.spcfd.wtc = none)
  | .remove => client.removed = false → client.spcfd.wbuf = [] → client.spcfd.rtc = false →
      client.spcfd.wtc = none
  | _ => True

/-- A descriptor that waits to be freed has something outstanding. -/
def Waits (spcfd : Spcfd) : Prop :=
  spcfd.flags &&& Remove ≠ 0 → spcfd.freed = true ∨ spcfd.wbuf ≠ [] ∨ spcfd.rtc = true

structure Inv (client : Client) : Prop where
  sound : Sound client
  part : ∀ tw, client.spcfd.wtc = some tw → tw.data <+: client.spcfd.wbuf
  asked : client.spcfd.flags &&& Remove ≠ 0 → client.removed = true
  waits : Waits client.spcfd
  gone : client.spcfd.freed = true → client.removed = true ∧ client.spcfd.rtc = false

section Descriptor

variable {spcfd later : Spcfd}

/-- `Error` is no bit, so that `spcfd_has_error` has nothing to report. -/
theorem spcfdHasError_never (spcfd : Spcfd) : spcfdHasError spcfd = false := by
  simp [spcfdHasError, Error]

theorem remove_or {flags flag : Nat} (other : flag = Error ∨ flag = Reof) :
    (flags ||| flag) &&& Remove = flags &&& Remove := by
  rw [Nat.and_or_distrib_right]
  rcases other with rfl | rfl
  · exact Nat.or_zero _
  · exact Nat.or_zero _

@[simp] theorem spcfdRemove_wbuf : (spcfdRemove spcfd).wbuf = spcfd.wbuf := by
  rw [spcfdRemove]
  split <;> rfl

@[simp] theorem spcfdRemove_wtc : (spcfdRemove spcfd).wtc = spcfd.wtc := by
  rw [spcfdRemove]
  split <;> rfl

@[simp] theorem spcfdRemove_rtc : (spcfdRemove spcfd).rtc = spcfd.rtc := by
  rw [spcfdRemove]
  split <;> rfl

theorem spcfdRemove_freed : (spcfdRemove spcfd).freed = true ↔
    spcfd.freed = true ∨ spcfd.wbuf = [] ∧ spcfd.rtc = false := by
  rw [spcfdRemove]
  split
  · rename_i busy
    constructor
    · exact .inl
    · rintro (freed | ⟨empty, idle⟩)
      · exact freed
      · simp [empty, idle] at busy
  · rename_i idle
    simp only [true_iff]
    right
    simpa [not_or, List.length_pos_iff] using idle

theorem spcfdRemove_waits : Waits (spcfdRemove spcfd) := by
  intro _
  rw [spcfdRemove]
  split
  · rename_i busy
    right
    simpa [List.length_pos_iff] using busy
  · exact .inl rfl

@[simp] theorem doNotify_wbuf : (doNotify spcfd).wbuf = spcfd.wbuf := by
  rw [doNotify]
  split
  · exact spcfdRemove_wbuf
  · rfl

@[simp] theorem doNotify_wtc : (doNotify spcfd).wtc = spcfd.wtc := by
  rw [doNotify]
  split
  · exact spcfdRemove_wtc
  · rfl

@[simp] theorem doNotify_rtc : (doNotify spcfd).rtc = spcfd.rtc := by
  rw [doNotify]
  split
  · exact spcfdRemove_rtc
  · rfl

theorem doNotify_freed : (doNotify spcfd).freed = true ↔
    spcfd.freed = true ∨ spcfd.flags &&& Remove ≠ 0 ∧ spcfd.wbuf = [] ∧ spcfd.rtc = false := by
  rw [doNotify]
  split
  · rename_i asked
    rw [spcfdRemove_freed]
    simp [asked]
  · rename_i staying
    simp [staying]

theorem doNotify_waits : Waits (doNotify spcfd) := by
  rw [doNotify]
  split
  · exact spcfdRemove_waits
  · rename_i staying
    exact fun asked => absurd asked staying

theorem doNotify_asked (asked : (doNotify spcfd).flags &&& Remove ≠ 0) : spcfd.flags &&& Remove ≠ 0 := by
  rw [doNotify] at asked
  split at asked
  · assumption
  · exact asked

/-- What the answer to a Tread leaves alone, and when it frees the descriptor. -/
structure ReadStep (spcfd later : Spcfd) : Prop where
  wbuf : later.wbuf = spcfd.wbuf
  wtc : later.wtc = spcfd.wtc
  rtc : later.rtc = false
  asked : later.flags &&& Remove ≠ 0 → spcfd.flags &&& Remove ≠ 0
  waits : Waits later
  freed : later.freed = true ↔ spcfd.freed = true ∨ spcfd.flags &&& Remove ≠ 0 ∧ spcfd.wbuf = []

theorem readStep_doNotify (wbuf : later.wbuf = spcfd.wbuf) (wtc : later.wtc = spcfd.wtc)
    (asked : later.flags &&& Remove = spcfd.flags &&& Remove) (freed : later.freed = spcfd.freed)
    (rtc : later.rtc = false) : ReadStep spcfd (doNotify later) where
  wbuf := doNotify_wbuf.trans wbuf
  wtc := doNotify_wtc.trans wtc
  rtc := doNotify_rtc.trans rtc
  asked := fun remove => asked ▸ doNotify_asked remove
  waits := doNotify_waits
  freed := by
    rw [doNotify_freed, asked, freed, wbuf, rtc]
    simp

theorem spcfdReadCb_error (spcfd : Spcfd) {answer : Answer (List UInt8)} (failed : answer.error ≠ 0) :
    spcfdReadCb spcfd answer = some (doNotify { spcfd with flags := spcfd.flags ||| Error, rtc := false }) := by
  cases answer <;> exact if_pos failed

theorem spcfdReadCb_step {answer : Answer (List UInt8)} (read : spcfdReadCb spcfd answer = some later) :
    ReadStep spcfd later := by
  by_cases failed : answer.error = 0
  · cases answer with
    | reply data =>
        simp only [spcfdReadCb, Answer.error, ne_eq, not_true_eq_false, if_false] at read
        split at read
        · cases read
          exact readStep_doNotify rfl rfl (remove_or (.inr rfl)) rfl rfl
        · split at read
          · cases read
            exact readStep_doNotify rfl rfl rfl rfl rfl
          · contradiction
    | rerror ecode => simp [spcfdReadCb, failed] at read
    | lost ecode => simp [spcfdReadCb, failed] at read
  · rw [spcfdReadCb_error spcfd failed, Option.some.injEq] at read
    subst later
    exact readStep_doNotify rfl rfl (remove_or (.inl rfl)) rfl rfl

theorem spcfdReadCb_fits {answer : Answer (List UInt8)} :
    (∃ later, spcfdReadCb spcfd answer = some later) ↔ ReadFits spcfd answer := by
  cases answer with
  | reply data =>
      simp only [spcfdReadCb, Answer.error, ne_eq, not_true_eq_false, if_false, ReadFits]
      split
      · rename_i empty
        simp [empty]
      · split
        · rename_i fits
          simp [fits]
        · rename_i bytes long
          simp [bytes, long]
  | rerror ecode =>
      rw [ReadFits]
      by_cases zero : ecode = 0
      · subst ecode
        simp [spcfdReadCb, Answer.error]
      · exact iff_of_true ⟨_, spcfdReadCb_error spcfd zero⟩ zero
  | lost ecode =>
      rw [ReadFits]
      by_cases zero : ecode = 0
      · subst ecode
        simp [spcfdReadCb, Answer.error]
      · exact iff_of_true ⟨_, spcfdReadCb_error spcfd zero⟩ zero

theorem spcfdSendReadRequest_step (waits : Waits spcfd) (sends : Bool) :
    ∃ later, spcfdSendReadRequest spcfd sends = some later ∧ later.wbuf = spcfd.wbuf ∧ later.wtc = spcfd.wtc ∧
      (later.flags &&& Remove ≠ 0 → spcfd.flags &&& Remove ≠ 0) ∧ Waits later ∧ later.freed = spcfd.freed := by
  rw [spcfdSendReadRequest]
  split
  · rename_i idle
    cases sends with
    | true => exact ⟨_, rfl, rfl, rfl, id, fun _ => .inr (.inr rfl), rfl⟩
    | false =>
        have lost : (Answer.lost ECONNRESET : Answer (List UInt8)).error ≠ 0 := by decide
        have read := spcfdReadCb_error { spcfd with rtc := true } lost
        have step := spcfdReadCb_step read
        refine ⟨_, read, step.wbuf, step.wtc, step.asked, step.waits, ?_⟩
        rw [Bool.eq_iff_iff, step.freed]
        constructor
        · rintro (freed | ⟨asked, empty⟩)
          · exact freed
          · have busy := waits asked
            rw [idle.1] at busy
            exact busy.resolve_right (by simp [show spcfd.wbuf = [] from empty])
        · exact .inl
  · exact ⟨spcfd, rfl, rfl, rfl, id, waits, rfl⟩

end Descriptor

section Events

variable {client next : Client} {buf : List UInt8} {sends : Bool}

theorem Sound.not_failed (sound : Sound client) : client.failed = false := by
  rw [← Bool.not_eq_true]
  intro failed
  have reported := sound.reported failed
  rw [spcfdHasError_never] at reported
  contradiction

theorem sound_same (next : Client) (sound : Sound client) (accepted : next.accepted = client.accepted)
    (log : next.log = client.log) (failed : next.failed = client.failed) (wbuf : next.spcfd.wbuf = client.spcfd.wbuf)
    (wtc : next.spcfd.wtc = client.spcfd.wtc) :
    Sound next ↔ (next.spcfd.freed = true → client.spcfd.wtc = none) := by
  constructor
  · intro proper freed
    rw [← wtc]
    exact proper.kept freed
  · intro kept
    refine ⟨?_, ?_, ?_, ?_, ?_⟩
    · rw [accepted, Client.delivered, log, wbuf]
      exact sound.content
    · rw [Client.sent, log, wtc]
      exact sound.placed
    · rw [wtc, wbuf]
      exact sound.idle
    · rw [failed, sound.not_failed]
      exact fun none => by contradiction
    · rw [wtc]
      exact kept

theorem write_waits (buf : List UInt8) (sends : Bool) (inv : Inv client) (staying : client.removed = false)
    (waits : client.sendsTwrite = false) :
    ∃ n, (client.spcfd.wtc = none → n = 0) ∧ step client (.write buf sends) = some { client with
      spcfd := { client.spcfd with wbuf := client.spcfd.wbuf ++ buf.take n }
      accepted := client.accepted ++ buf.take n } := by
  have there : client.spcfd.freed = false := by
    by_contra freed
    simp [(inv.gone (by simpa using freed)).1] at staying
  rw [step, staying, there, waits, spcfdWrite]
  by_cases full : client.spcfd.wbuf.length = client.spcfd.iounit
  · refine ⟨0, fun _ => rfl, ?_⟩
    simp [full]
  · have busy : client.spcfd.wtc ≠ none := by
      intro none
      simp [Client.sendsTwrite, none, full] at waits
    refine ⟨min (client.spcfd.iounit - client.spcfd.wbuf.length) buf.length, fun none => absurd none busy, ?_⟩
    simp [full, busy]

theorem write_sends (buf : List UInt8) (inv : Inv client) (staying : client.removed = false)
    (waits : client.sendsTwrite = true) :
    ∃ n, step client (.write buf true) = some { client with
      spcfd := { client.spcfd with
        wbuf := client.spcfd.wbuf ++ buf.take n
        wtc := some { offset := client.spcfd.offset, data := client.spcfd.wbuf ++ buf.take n } }
      accepted := client.accepted ++ buf.take n } := by
  have there : client.spcfd.freed = false := by
    by_contra freed
    simp [(inv.gone (by simpa using freed)).1] at staying
  have ready : client.spcfd.wtc = none ∧ client.spcfd.wbuf.length ≠ client.spcfd.iounit := by
    simpa [Client.sendsTwrite] using waits
  refine ⟨min (client.spcfd.iounit - client.spcfd.wbuf.length) buf.length, ?_⟩
  rw [step, staying, there, waits, spcfdWrite]
  simp [ready]

theorem write_fails (inv : Inv client) (staying : client.removed = false) (waits : client.sendsTwrite = true)
    (stepped : step client (.write buf false) = some next) : next.failed = true := by
  have there : client.spcfd.freed = false := by
    by_contra freed
    simp [(inv.gone (by simpa using freed)).1] at staying
  rw [step, staying, there, waits] at stepped
  simp only [Bool.false_eq_true, if_false, Option.bind_eq_bind, Option.bind_eq_some_iff] at stepped
  obtain ⟨⟨written, spcfd⟩, -, same⟩ := stepped
  cases same
  simp

/-- The outcome of an event: it is defined and sound when the guard allows it, and a sound outcome keeps
the invariant. -/
structure Exact (client : Client) (event : Event) : Prop where
  guarded : (∃ next, step client event = some next ∧ Sound next) ↔ Guard client event
  kept : ∀ next, step client event = some next → Sound next → Inv next

theorem Exact.of_inv {event : Event} (stepped : step client event = some next) (guard : Guard client event)
    (inv : Inv next) : Exact client event where
  guarded := iff_of_true ⟨next, stepped, inv.sound⟩ guard
  kept := by
    intro other same _
    rw [stepped, Option.some.injEq] at same
    exact same ▸ inv

theorem exact_write (inv : Inv client) : Exact client (.write buf sends) := by
  by_cases removed : client.removed = true
  · have stepped : step client (.write buf sends) = some client := by rw [step, if_pos removed]
    exact .of_inv stepped (fun staying => by simp [removed] at staying) inv
  · have staying : client.removed = false := by simpa using removed
    by_cases waits : client.sendsTwrite = true
    · cases sends with
      | true =>
          obtain ⟨n, stepped⟩ := write_sends buf inv staying waits
          have ready : client.spcfd.wtc = none := by
            have both := waits
            simp only [Client.sendsTwrite, Bool.and_eq_true, decide_eq_true_eq] at both
            exact both.1
          have content : client.accepted ++ buf.take n = client.delivered ++ (client.spcfd.wbuf ++ buf.take n) := by
            rw [inv.sound.content, List.append_assoc]
          have before := inv.sound.placed
          rw [Client.sent, ready, Option.map_none, Option.toList_none, List.append_nil] at before
          have part : ∀ tw : Twrite, some { offset := client.spcfd.offset, data := client.spcfd.wbuf ++ buf.take n } =
              some tw → tw.data <+: client.spcfd.wbuf ++ buf.take n := by
            intro tw same
            cases same
            exact List.prefix_rfl
          refine ⟨⟨?_, ?_⟩, ?_⟩
          · rintro ⟨next, same, sound⟩ - -
            rw [stepped, Option.some.injEq] at same
            subst next
            have placed := (List.isChain_append.mp sound.placed).2.2
            exact ⟨rfl, fun last member => placed last member _ rfl⟩
          · intro guard
            obtain ⟨-, follows⟩ := guard staying waits
            refine ⟨_, stepped, ⟨content, ?_, ?_, ?_, ?_⟩⟩
            · refine List.isChain_append.mpr ⟨before, List.isChain_singleton _, ?_⟩
              intro last member first head
              cases head
              exact follows last member
            · exact fun none => absurd none (Option.some_ne_none _)
            · intro failed
              simp [inv.sound.not_failed] at failed
            · intro freed
              simp [(inv.gone freed).1] at staying
          · intro next same sound
            rw [stepped, Option.some.injEq] at same
            subst next
            refine ⟨sound, part, inv.asked, ?_, inv.gone⟩
            intro asked
            simp [inv.asked asked] at staying
      | false =>
          have unsound : ∀ next, step client (.write buf false) = some next → ¬Sound next := by
            intro next stepped sound
            have failed := write_fails inv staying waits stepped
            simp [sound.not_failed] at failed
          refine ⟨iff_of_false ?_ ?_, fun next stepped sound => absurd sound (unsound next stepped)⟩
          · rintro ⟨next, stepped, sound⟩
            exact unsound next stepped sound
          · exact fun guard => Bool.false_ne_true (guard staying waits).1
    · obtain ⟨n, none, stepped⟩ := write_waits buf sends inv staying (by simpa using waits)
      refine .of_inv stepped (fun _ sendsTwrite => absurd sendsTwrite waits)
        ⟨⟨?_, inv.sound.placed, ?_, ?_, inv.sound.kept⟩, ?_, inv.asked, ?_, inv.gone⟩
      · rw [inv.sound.content, List.append_assoc]
        rfl
      · intro idle
        rw [none idle, List.take_zero, List.append_nil]
        exact inv.sound.idle idle
      · intro failed
        simp [inv.sound.not_failed] at failed
      · intro tw outstanding
        exact (inv.part tw outstanding).trans (List.prefix_append _ _)
      · intro asked
        exact (inv.waits asked).imp_right (Or.imp_left fun some none => some (List.append_eq_nil_iff.mp none).1)

/-- What leaves the buffer and the outstanding Twrite alone, and frees nothing. -/
theorem inv_reads {later : Spcfd} (inv : Inv client) (wbuf : later.wbuf = client.spcfd.wbuf)
    (wtc : later.wtc = client.spcfd.wtc) (asked : later.flags &&& Remove ≠ 0 → client.spcfd.flags &&& Remove ≠ 0)
    (waits : Waits later)
    (freed : later.freed = true → client.spcfd.wtc = none ∧ client.removed = true ∧ later.rtc = false) :
    Inv { client with spcfd := later } where
  sound := (sound_same { client with spcfd := later } inv.sound rfl rfl rfl wbuf wtc).mpr fun gone => (freed gone).1
  part := by
    rw [wtc, wbuf]
    exact inv.part
  asked := fun remove => inv.asked (asked remove)
  waits := waits
  gone := fun gone => (freed gone).2

theorem exact_startLoop (inv : Inv client) : Exact client (.startLoop sends) := by
  by_cases freed : client.spcfd.freed = true
  · have stepped : step client (.startLoop sends) = some client := by rw [step, if_pos freed]
    exact .of_inv stepped trivial inv
  · obtain ⟨later, sent, wbuf, wtc, asked, waits, same⟩ := spcfdSendReadRequest_step inv.waits sends
    have stepped : step client (.startLoop sends) = some { client with spcfd := later } := by
      rw [step, if_neg freed, sent]
      rfl
    exact .of_inv stepped trivial (inv_reads inv wbuf wtc asked waits fun gone => absurd (same ▸ gone) freed)

theorem exact_read {buflen : Nat} (inv : Inv client) : Exact client (.read buflen sends) := by
  by_cases removed : client.removed = true
  · have stepped : step client (.read buflen sends) = some client := by rw [step, if_pos removed]
    exact .of_inv stepped trivial inv
  · have there : client.spcfd.freed ≠ true := fun freed => removed (inv.gone freed).1
    have same : spcfdRead client.spcfd buflen sends = some client.spcfd →
        Exact client (.read buflen sends) := by
      intro idle
      have stepped : step client (.read buflen sends) = some client := by
        rw [step, if_neg removed, if_neg there, idle]
        rfl
      exact .of_inv stepped trivial inv
    by_cases done : client.spcfd.flags &&& Reof ≠ 0
    · exact same (by rw [spcfdRead, if_pos done])
    · by_cases empty : client.spcfd.rbuf = []
      · exact same (by rw [spcfdRead, if_neg done, if_pos empty])
      · let taken : Spcfd := { client.spcfd with
          rbuf := client.spcfd.rbuf.drop (min buflen client.spcfd.rbuf.length) }
        have waiting : Waits taken := inv.waits
        obtain ⟨later, sent, wbuf, wtc, asked, waits, same⟩ := spcfdSendReadRequest_step waiting sends
        have stepped : step client (.read buflen sends) = some { client with spcfd := later } := by
          rw [step, if_neg removed, if_neg there, spcfdRead, if_neg done, if_neg empty, sent]
          rfl
        exact .of_inv stepped trivial (inv_reads inv wbuf wtc asked waits fun gone => absurd (same ▸ gone) there)

theorem exact_readAnswer {answer : Answer (List UInt8)} (inv : Inv client) : Exact client (.readAnswer answer) := by
  by_cases outstanding : client.spcfd.rtc = true
  · have there : client.spcfd.freed ≠ true := by
      intro freed
      simp [(inv.gone freed).2] at outstanding
    cases read : spcfdReadCb client.spcfd answer with
    | none =>
        have stepped : step client (.readAnswer answer) = none := by
          rw [step, if_pos outstanding, if_neg there, read]
          rfl
        refine ⟨iff_of_false ?_ ?_, ?_⟩
        · rintro ⟨next, same, -⟩
          rw [stepped] at same
          cases same
        · intro guard
          obtain ⟨later, fits⟩ := spcfdReadCb_fits.mpr (guard outstanding).1
          rw [read] at fits
          cases fits
        · intro next same
          rw [stepped] at same
          cases same
    | some later =>
        have effect := spcfdReadCb_step read
        have stepped : step client (.readAnswer answer) = some { client with spcfd := later } := by
          rw [step, if_pos outstanding, if_neg there, read]
          rfl
        have same := sound_same { client with spcfd := later } inv.sound rfl rfl rfl effect.wbuf effect.wtc
        refine ⟨⟨?_, ?_⟩, ?_⟩
        · rintro ⟨next, moved, sound⟩ -
          rw [stepped, Option.some.injEq] at moved
          subst next
          exact ⟨spcfdReadCb_fits.mp ⟨later, read⟩,
            fun asked empty => same.mp sound (effect.freed.mpr (.inr ⟨asked, empty⟩))⟩
        · intro guard
          refine ⟨_, stepped, same.mpr fun freed => ?_⟩
          rcases effect.freed.mp freed with before | ⟨asked, empty⟩
          · exact absurd before there
          · exact (guard outstanding).2 asked empty
        · intro next moved sound
          rw [stepped, Option.some.injEq] at moved
          subst next
          refine inv_reads inv effect.wbuf effect.wtc effect.asked effect.waits fun freed => ?_
          refine ⟨same.mp sound freed, ?_, effect.rtc⟩
          rcases effect.freed.mp freed with before | ⟨asked, -⟩
          · exact absurd before there
          · exact inv.asked asked
  · have stepped : step client (.readAnswer answer) = some client := by rw [step, if_neg outstanding]
    exact .of_inv stepped (fun rtc => absurd rtc outstanding) inv

theorem exact_remove (inv : Inv client) : Exact client .remove := by
  by_cases removed : client.removed = true
  · have stepped : step client .remove = some client := by rw [step, if_pos removed]
    exact .of_inv stepped (fun staying => by simp [removed] at staying) inv
  · have there : client.spcfd.freed ≠ true := fun freed => removed (inv.gone freed).1
    have stepped : step client .remove = some { client with spcfd := spcfdRemove client.spcfd, removed := true } := by
      rw [step, if_neg removed, if_neg there]
    have same := sound_same { client with spcfd := spcfdRemove client.spcfd, removed := true } inv.sound rfl rfl rfl
      spcfdRemove_wbuf spcfdRemove_wtc
    have frees : (spcfdRemove client.spcfd).freed = true ↔ client.spcfd.wbuf = [] ∧ client.spcfd.rtc = false := by
      rw [spcfdRemove_freed, or_iff_right there]
    refine ⟨⟨?_, ?_⟩, ?_⟩
    · rintro ⟨next, moved, sound⟩ - empty idle
      rw [stepped, Option.some.injEq] at moved
      subst next
      exact same.mp sound (frees.mpr ⟨empty, idle⟩)
    · intro guard
      refine ⟨_, stepped, same.mpr fun freed => ?_⟩
      obtain ⟨empty, idle⟩ := frees.mp freed
      exact guard (by simpa using removed) empty idle
    · intro next moved sound
      rw [stepped, Option.some.injEq] at moved
      subst next
      refine ⟨sound, ?_, fun _ => rfl, spcfdRemove_waits, fun freed => ⟨rfl, ?_⟩⟩
      · rw [spcfdRemove_wtc, spcfdRemove_wbuf]
        exact inv.part
      · rw [spcfdRemove_rtc]
        exact (frees.mp freed).2

/-- An answer without a count is never sound: it leaves the defined behaviour or an error unreported. -/
theorem writeAnswer_unsound {tw : Twrite} {answer : Answer Nat} (outstanding : client.spcfd.wtc = some tw)
    (error : ∀ count, answer ≠ .reply count) (stepped : step client (.writeAnswer answer) = some next) :
    ¬Sound next := by
  intro sound
  rw [step, outstanding] at stepped
  simp only [Option.bind_eq_bind] at stepped
  split at stepped
  · contradiction
  · obtain ⟨spcfd, -, same⟩ := Option.bind_eq_some_iff.mp stepped
    cases same
    have failed := sound.not_failed
    cases answer with
    | reply count => exact error count rfl
    | rerror ecode => cases failed
    | lost ecode => cases failed

theorem full_iff {tw : Twrite} {wbuf : List UInt8} {count : Nat} (part : tw.data <+: wbuf)
    (fits : count ≤ wbuf.length) :
    (count = tw.data.length ∧ tw.data = wbuf) ↔ tw.data.take count = wbuf ∧ wbuf.drop count = [] := by
  constructor
  · rintro ⟨rfl, rfl⟩
    exact ⟨List.take_length, List.drop_length⟩
  · rintro ⟨taken, rest⟩
    have short := part.length_le
    have long : wbuf.length ≤ count := List.drop_eq_nil_iff.mp rest
    have all : tw.data.take count = tw.data := List.take_of_length_le (by omega)
    rw [all] at taken
    subst taken
    exact ⟨Nat.le_antisymm fits long, rfl⟩

theorem exact_writeReply {tw : Twrite} {count : Nat} (inv : Inv client) (outstanding : client.spcfd.wtc = some tw) :
    Exact client (.writeAnswer (.reply count)) := by
  have there : client.spcfd.freed ≠ true := by
    intro freed
    have none := inv.sound.kept freed
    rw [outstanding] at none
    cases none
  have part := inv.part tw outstanding
  let taken : Spcfd := { client.spcfd with
    offset := client.spcfd.offset + UInt64.ofNat count
    wbuf := client.spcfd.wbuf.drop count
    wtc := none }
  have stepped : step client (.writeAnswer (.reply count)) =
      if count ≤ client.spcfd.wbuf.length then
        some { client with spcfd := doNotify taken, log := client.log ++ [(tw.offset, tw.data.take count)] }
      else none := by
    rw [step, outstanding]
    simp only [if_neg there, spcfdWriteCb, Answer.error, ne_eq, not_true_eq_false, if_false]
    split <;> rfl
  by_cases fits : count ≤ client.spcfd.wbuf.length
  · rw [if_pos fits] at stepped
    have whole := full_iff part fits
    let next : Client :=
      { client with spcfd := doNotify taken, log := client.log ++ [(tw.offset, tw.data.take count)] }
    have delivered : next.delivered = client.delivered ++ tw.data.take count := by
      simp [next, Client.delivered]
    have wbuf : next.spcfd.wbuf = client.spcfd.wbuf.drop count := doNotify_wbuf
    have wtc : next.spcfd.wtc = none := doNotify_wtc
    have sound_iff : Sound next ↔ tw.data.take count = client.spcfd.wbuf ∧ client.spcfd.wbuf.drop count = [] := by
      constructor
      · intro sound
        have empty := sound.idle wtc
        rw [wbuf] at empty
        have content : client.accepted = next.delivered ++ next.spcfd.wbuf := sound.content
        rw [wbuf, empty, List.append_nil, delivered, inv.sound.content] at content
        exact ⟨(List.append_cancel_left content).symm, empty⟩
      · rintro ⟨all, empty⟩
        refine ⟨?_, ?_, fun _ => wbuf.trans empty, ?_, fun _ => wtc⟩
        · rw [delivered, wbuf, all, empty, List.append_nil]
          exact inv.sound.content
        · have placed := inv.sound.placed
          have same := (whole.mpr ⟨all, empty⟩).2
          rw [Client.sent, outstanding, Option.map_some, Option.toList_some, same] at placed
          rw [Client.sent, wtc, Option.map_none, Option.toList_none, List.append_nil]
          dsimp only [next]
          rw [all]
          exact placed
        · intro failed
          have none : client.failed = true := failed
          simp [inv.sound.not_failed] at none
    refine ⟨?_, ?_⟩
    · have guard : Guard client (.writeAnswer (.reply count)) ↔
          count = tw.data.length ∧ tw.data = client.spcfd.wbuf := by
        simp only [Guard, outstanding, Option.some.injEq, forall_eq', Answer.reply.injEq]
      rw [guard, whole, ← sound_iff, stepped]
      simp only [Option.some.injEq, exists_eq_left']
      rfl
    · intro other moved sound
      rw [stepped, Option.some.injEq] at moved
      subst other
      refine ⟨sound, ?_, ?_, doNotify_waits, ?_⟩
      · intro left same
        rw [wtc] at same
        cases same
      · exact fun asked => inv.asked (@doNotify_asked taken asked)
      · intro freed
        obtain before | ⟨asked, -, idle⟩ := doNotify_freed.mp freed
        · exact absurd before there
        · exact ⟨inv.asked asked, doNotify_rtc.trans idle⟩
  · rw [if_neg fits] at stepped
    have short := part.length_le
    refine ⟨iff_of_false ?_ ?_, ?_⟩
    · rintro ⟨next, moved, -⟩
      rw [stepped] at moved
      cases moved
    · intro guard
      obtain ⟨same, -⟩ := guard tw outstanding
      cases same
      exact fits short
    · intro next moved
      rw [stepped] at moved
      cases moved

theorem exact_writeAnswer {answer : Answer Nat} (inv : Inv client) : Exact client (.writeAnswer answer) := by
  cases outstanding : client.spcfd.wtc with
  | none =>
      have stepped : step client (.writeAnswer answer) = some client := by rw [step, outstanding]
      exact .of_inv stepped (fun tw same => by simp [outstanding] at same) inv
  | some tw =>
      by_cases counted : ∃ count, answer = .reply count
      · obtain ⟨count, rfl⟩ := counted
        exact exact_writeReply inv outstanding
      · have error : ∀ count, answer ≠ .reply count := fun count same => counted ⟨count, same⟩
        refine ⟨iff_of_false ?_ ?_, ?_⟩
        · rintro ⟨next, stepped, sound⟩
          exact writeAnswer_unsound outstanding error stepped sound
        · exact fun guard => error _ (guard tw outstanding).1
        · exact fun next stepped sound => absurd sound (writeAnswer_unsound outstanding error stepped)

theorem exact_step (inv : Inv client) (event : Event) : Exact client event := by
  cases event with
  | write buf sends => exact exact_write inv
  | read buflen sends => exact exact_read inv
  | startLoop sends => exact exact_startLoop inv
  | writeAnswer answer => exact exact_writeAnswer inv
  | readAnswer answer => exact exact_readAnswer inv
  | remove => exact exact_remove inv

end Events

theorem inv_spcfdAdd (iounit : Nat) (offset : UInt64) : Inv (spcfdAdd iounit offset) where
  sound := {
    content := rfl
    placed := List.isChain_nil
    idle := fun _ => rfl
    reported := fun failed => by contradiction
    kept := fun _ => rfl }
  part := fun tw same => by contradiction
  asked := fun asked => absurd (Nat.zero_and Remove) asked
  waits := fun asked => absurd (Nat.zero_and Remove) asked
  gone := fun freed => by contradiction

/-- The writes to a descriptor, in any run. -/
theorem writes_delivered (iounit : Nat) (offset : UInt64) (events : List Event) :
    Throughout step Sound (spcfdAdd iounit offset) events ↔ Guarded step Guard (spcfdAdd iounit offset) events :=
  throughout_iff_guarded step (fun _ event inv => (exact_step inv event).guarded)
    (fun _ event next inv stepped sound => (exact_step inv event).kept next stepped sound) events
    (inv_spcfdAdd iounit offset)

/-- Bytes that are accepted while a Twrite is outstanding stay in the buffer when it is answered, and
are dropped with the descriptor. -/
theorem written_twice : ¬∀ (iounit : Nat) (offset : UInt64) (events : List Event),
    Throughout step Sound (spcfdAdd iounit offset) events := by
  intro all
  have unsound := all 8 0 [.write [1] true, .write [2] true, .writeAnswer (.reply 1)]
  obtain ⟨first, stepped, -, second, stepped', -, third, stepped'', sound, -⟩ := unsound
  cases stepped
  cases stepped'
  cases stepped''
  have full : [(2 : UInt8)] = [] := sound.idle rfl
  cases full

end Xcpu.Libspclient.Poll
