import Xcpu.Lib.Transition
import Xcpu.Libspfs.ConnFraming
import Xcpu.Libnpfs.Np

/-!
`np_conn_read_proc`, the thread that takes the incoming stream of a connection apart. Every
buffer has room for `msize` bytes, the value of the server; the bytes behind the received ones
are those of an earlier message. A signed size lets three kinds of size fields slip through.
-/

namespace Xcpu.Libnpfs

open Xcpu.Packet Xcpu.Libspfs Xcpu.Transition

structure Npconn where
  msize : Nat
  /-- the first `n` bytes of `fc->pkt`, and the rest of it -/
  bytes : List UInt8 := []
  stale : List UInt8
  shut : Bool := false
  -- an access outside the buffer, after which nothing is known
  fault : Bool := false
  handed : List (List UInt8) := []
  deriving DecidableEq, Repr

inductive ReadEvent where
  -- `np_trans_read` returns `data`; a reset that is under way discards all input
  | read (data : List UInt8) (resetting : Bool)
  -- a round at the label `again`, with `conn->dotu`, the message last decoded into `fc` and a recycled buffer
  | again (dotu : Bool) (prev : Npfcall) (resetting : Bool) (fresh : List UInt8)
  -- `np_trans_read` returns 0 or an error, or the transport is gone
  | ended
  deriving DecidableEq, Repr

namespace Npconn

variable (conn : Npconn)

/-- `fc->pkt`, all of it. -/
def pkt : List UInt8 := conn.bytes ++ conn.stale

def running : Bool := !conn.shut && !conn.fault

/-- `n >= 4 && n >= size`, with `size` an `int`. -/
def ready : Bool := decide (4 ≤ conn.bytes.length) && decide (int32 (sizeField conn.bytes) ≤ conn.bytes.length)

def decode (dotu : Bool) (prev : Npfcall) : Option Npfcall × Cbuf × List Access :=
  runCbuf conn.pkt (npFcallLayout prev dotu (sizeField conn.pkt)) (fcallBuf (sizeField conn.pkt))

/-- A scalar is read from behind the end of the buffer. -/
def readsOutside (dotu : Bool) (prev : Npfcall) : Bool :=
  (conn.decode dotu prev).2.2.any fun access =>
    !access.slice && access.got && decide (conn.msize < access.start + access.length)

/-- The message goes to `np_srv_add_req`, what follows it to the next buffer. -/
def handOn (size : Nat) (resetting : Bool) (fresh : List UInt8) : Npconn :=
  { conn with
    bytes := conn.bytes.drop size
    stale := fresh.drop (conn.bytes.length - size)
    handed := if resetting then conn.handed else conn.handed ++ [conn.bytes.take size] }

/-- With a negative size the `memmove` starts before the buffer and ends behind the next one. -/
def again (dotu : Bool) (prev : Npfcall) (resetting : Bool) (fresh : List UInt8) : Npconn :=
  if conn.readsOutside dotu prev then { conn with fault := true }
  else if (npDeserialize prev conn.pkt dotu).isNone then { conn with shut := true }
  else if int32 (sizeField conn.bytes) < 0 then { conn with fault := true }
  else conn.handOn (int32 (sizeField conn.bytes)).toNat resetting fresh

def received (data : List UInt8) (resetting : Bool) : Npconn :=
  if resetting then { conn with bytes := [], stale := conn.bytes ++ data ++ conn.stale.drop data.length }
  else { conn with bytes := conn.bytes ++ data, stale := conn.stale.drop data.length }

/-- `np_trans_read` is asked for `msize - n` bytes and returns at least one. -/
def step (conn : Npconn) (event : ReadEvent) : Option Npconn :=
  if conn.running then
    match event with
    | .read data resetting =>
        if conn.ready = false ∧ data ≠ [] ∧ conn.bytes.length + data.length ≤ conn.msize then
          some (conn.received data resetting)
        else none
    | .again dotu prev resetting fresh =>
        if conn.ready = true ∧ fresh.length = conn.msize then some (conn.again dotu prev resetting fresh) else none
    | .ended => if conn.ready = false then some { conn with shut := true } else none
  else none

end Npconn

def npConnCreate (srvMsize : Nat) (pkt : List UInt8) : Npconn :=
  { msize := srvMsize, stale := pkt }

/-- The message at the front of the buffer, whole and of an admissible size, leaves it. -/
structure TakesFirst (conn next : Npconn) (message : List UInt8) : Prop where
  split : conn.bytes = message ++ next.bytes
  size : sizeField conn.bytes = message.length
  header : 7 ≤ message.length
  fits : message.length ≤ conn.msize

/-- The next size field is known and no message can have it. -/
def Npconn.Doomed (conn : Npconn) : Prop :=
  4 ≤ conn.bytes.length ∧ (sizeField conn.bytes < 7 ∨ conn.msize < sizeField conn.bytes)

/-- What one step of the thread may do. -/
structure ReadSafe (conn : Npconn) (event : ReadEvent) (next : Npconn) : Prop where
  inside : next.fault = false
  handed : next.handed = conn.handed ∨ ∃ message, TakesFirst conn next message ∧
    next.handed = conn.handed ++ [message]
  taken : ∀ dotu prev resetting fresh, event = .again dotu prev resetting fresh →
    next.shut = true ∨ ∃ message, TakesFirst conn next message
  -- until the connection shuts down each read adds to the buffer, which is finite
  doomed : conn.Doomed → next.handed = conn.handed ∧ (next.shut = true ∨ next.bytes = [] ∨
    ∃ more, more ≠ [] ∧ next.bytes = conn.bytes ++ more)

/-- `np_deserialize` refuses the packet, and from bytes of the buffer alone. -/
structure Npconn.Refuses (conn : Npconn) (dotu : Bool) (prev : Npfcall) : Prop where
  refused : npDeserialize prev conn.pkt dotu = none
  inside : conn.readsOutside dotu prev = false

/-- No size field of five before a known type; no size field from `2 ^ 31` to `2 ^ 31 + 3`, which
leaves a positive length after the size field, unless the packet is refused all the same. -/
def Framed (conn : Npconn) : ReadEvent → Prop
  | .again dotu prev resetting fresh => (conn.step (.again dotu prev resetting fresh)).isSome = true →
      (sizeField conn.bytes = 5 → FcallType.ofNat? (byteAt conn.bytes 4) = none) ∧
      (2 ^ 31 ≤ sizeField conn.bytes → sizeField conn.bytes < 2 ^ 31 + 4 → conn.Refuses dotu prev)
  | _ => True

section Decode

variable (data : List UInt8) (prev : Npfcall) (dotu : Bool)

theorem npFcallBody_calm (fc : Npfcall) : Calm (npFcallBody dotu fc) := by
  unfold npFcallBody
  split
  · exact .int fun _ => .str fun _ => .str fun _ => .done _
  · exact .int fun _ => .int fun _ => .str fun _ => .str fun _ => .done _
  · exact .int fun _ => .stat dotu fun _ => .done _
  · exact .int fun _ => .int fun _ => .stat dotu fun _ => .done _
  · exact fcallBody_calm dotu fc

theorem npFcallLayout_type (size : Nat) (large : 5 ≤ size) :
    runCbuf data (npFcallLayout prev dotu size) ⟨4, size⟩ =
      let run := runCbuf data (.int 2 fun tag =>
        match FcallType.ofNat? (byteAt data 4) with
        | none => .reject
        | some type => npFcallBody dotu (Npfcall.begin prev size type tag)) ⟨5, size⟩
      (run.1, run.2.1, ⟨false, 4, 1, true⟩ :: run.2.2) := by
  have type : littleEndian data (4 : Int).toNat 1 = byteAt data 4 := by
    simp [littleEndian]
  rw [npFcallLayout, runCbuf, bufGetInt_fits data (by dsimp only; omega)]
  simp only [Option.getD_some, type, Option.isSome_some]
  rfl

theorem npFcallLayout_no_room (size : Nat) (buf : Cbuf) (past : buf.ep ≤ buf.p) :
    (runCbuf data (npFcallLayout prev dotu size) buf).1 = none := by
  have missing : bufGetInt data 1 buf = (none, buf) := bufGetInt_past data (by omega) past
  have unknown : FcallType.ofNat? 0 = none := rfl
  simp only [npFcallLayout, runCbuf, missing, Option.getD_none, unknown]

/-- A size below five, or from `2 ^ 31 + 4` on, leaves no room for the type. -/
theorem npDeserialize_no_room (room : (fcallBuf (sizeField data)).ep ≤ 4) : npDeserialize prev data dotu = none := by
  have refused := npFcallLayout_no_room data prev dotu (sizeField data) (fcallBuf (sizeField data)) room
  rw [npDeserialize, overrun, refused, ite_self]

theorem fcallBuf_small {size : Nat} (small : size < 2 ^ 31 + 4) : fcallBuf size = ⟨4, size⟩ := by
  have ep := @fcallBuf_ep size (by omega)
  rw [if_pos small] at ep
  rw [← ep]
  rfl

theorem npDeserialize_six (six : sizeField data = 6) : npDeserialize prev data dotu = none := by
  rw [npDeserialize, six, fcallBuf_small (by omega), npFcallLayout_type data prev dotu 6 (by omega), runCbuf,
    bufGetInt_short data (by dsimp only; omega) (by dsimp only; omega), overrun]
  rw [if_pos]
  exact runCbuf_past data _ _ (by dsimp only; omega)

theorem npDeserialize_five (five : sizeField data = 5) :
    npDeserialize prev data dotu = none ↔ FcallType.ofNat? (byteAt data 4) = none := by
  rw [npDeserialize, five, fcallBuf_small (by omega), npFcallLayout_type data prev dotu 5 (by omega), runCbuf,
    bufGetInt_past data (by dsimp only; omega) (by dsimp only; omega), overrun]
  cases FcallType.ofNat? (byteAt data 4) with
  | none => simp [runCbuf]
  | some type =>
      obtain ⟨value, log, ran⟩ := runCbuf_end data _ (npFcallBody_calm dotu (Npfcall.begin prev 5 type 0)).zeros
        ⟨5, (5 : Nat)⟩ rfl
      simp only [Option.getD_none, ran, reduceCtorEq, iff_false]
      rw [if_neg (by omega)]
      exact Option.some_ne_none value

end Decode

section Steps

variable {conn next : Npconn} {dotu : Bool} {prev : Npfcall}

/-- The received bytes and the rest of the buffer make up the buffer. -/
structure Filled (conn : Npconn) : Prop where
  full : conn.bytes.length + conn.stale.length = conn.msize
  small : conn.msize < 2 ^ 31

theorem sizeField_pkt (header : 4 ≤ conn.bytes.length) : sizeField conn.pkt = sizeField conn.bytes :=
  Conn.sizeField_append conn.bytes conn.stale header

theorem readsOutside_of_ep (within : (fcallBuf (sizeField conn.pkt)).ep ≤ conn.msize) :
    conn.readsOutside dotu prev = false := by
  rw [Npconn.readsOutside, List.any_eq_false]
  intro access member outside
  simp only [Bool.and_eq_true, Bool.not_eq_true', decide_eq_true_eq] at outside
  obtain ⟨⟨scalar, got⟩, behind⟩ := outside
  have read := runCbuf_reads conn.pkt _ (fcallBuf (sizeField conn.pkt)) (Int.le_refl 4) access member scalar got
  have last := read.before
  omega

theorem ready_iff : conn.ready = true ↔ 4 ≤ conn.bytes.length ∧
    int32 (sizeField conn.bytes) ≤ conn.bytes.length := by
  simp only [Npconn.ready, Bool.and_eq_true, decide_eq_true_eq]

/-- Where the size leaves no room for a tag the packet is refused, a lone known type apart. -/
theorem refuses_tiny (filled : Filled conn) (ready : conn.ready = true) (tiny : sizeField conn.bytes < 7)
    (unknown : sizeField conn.bytes = 5 → FcallType.ofNat? (byteAt conn.bytes 4) = none) :
    conn.Refuses dotu prev := by
  obtain ⟨header, enough⟩ := ready_iff.mp ready
  have full := filled.full
  have same := sizeField_pkt header
  rw [int32_small (by omega)] at enough
  have ep := fcallBuf_ep (sizeField_lt conn.pkt)
  rw [if_pos (by omega)] at ep
  refine ⟨?_, readsOutside_of_ep (by omega)⟩
  rcases Nat.lt_or_ge (sizeField conn.bytes) 5 with none | some
  · exact npDeserialize_no_room conn.pkt prev dotu (by omega)
  · rcases Nat.lt_or_ge 5 (sizeField conn.bytes) with six | five
    · exact npDeserialize_six conn.pkt prev dotu (by omega)
    · rw [npDeserialize_five conn.pkt prev dotu (by omega), Npconn.pkt, byteAt,
        List.getElem?_append_left (by omega)]
      exact unknown (by omega)

/-- A size that is negative and stays so leaves no room at all. -/
theorem refuses_negative (filled : Filled conn) (ready : conn.ready = true)
    (large : 2 ^ 31 + 4 ≤ sizeField conn.bytes) : conn.Refuses dotu prev := by
  obtain ⟨header, -⟩ := ready_iff.mp ready
  have full := filled.full
  have same := sizeField_pkt header
  have bounded := sizeField_lt conn.pkt
  have ep := fcallBuf_ep bounded
  rw [if_neg (by omega)] at ep
  exact ⟨npDeserialize_no_room conn.pkt prev dotu (by omega), readsOutside_of_ep (by omega)⟩

theorem again_of_refuses (refuses : conn.Refuses dotu prev) (resetting : Bool) (fresh : List UInt8) :
    conn.again dotu prev resetting fresh = { conn with shut := true } := by
  rw [Npconn.again, refuses.inside, refuses.refused]
  rfl

/-- A size field between 7 and the number of bytes: the message is refused or leaves the buffer. -/
theorem again_of_whole (filled : Filled conn) (header : 7 ≤ sizeField conn.bytes)
    (enough : sizeField conn.bytes ≤ conn.bytes.length) (resetting : Bool) (fresh : List UInt8) :
    conn.again dotu prev resetting fresh = { conn with shut := true } ∨
      conn.again dotu prev resetting fresh = conn.handOn (sizeField conn.bytes) resetting fresh := by
  have full := filled.full
  have small := filled.small
  have started : 4 ≤ conn.bytes.length := by omega
  have same := sizeField_pkt started
  have ep := fcallBuf_ep (sizeField_lt conn.pkt)
  rw [if_pos (by omega)] at ep
  rw [Npconn.again, readsOutside_of_ep (by omega), int32_small (by omega)]
  simp only [Bool.false_eq_true, if_false]
  split
  · exact .inl rfl
  · rw [if_neg (by omega), Int.toNat_natCast]
    exact .inr rfl

theorem handOn_takesFirst (filled : Filled conn) (header : 7 ≤ sizeField conn.bytes)
    (enough : sizeField conn.bytes ≤ conn.bytes.length) (resetting : Bool) (fresh : List UInt8) :
    TakesFirst conn (conn.handOn (sizeField conn.bytes) resetting fresh)
      (conn.bytes.take (sizeField conn.bytes)) := by
  have full := filled.full
  have long : (conn.bytes.take (sizeField conn.bytes)).length = sizeField conn.bytes := by
    rw [List.length_take]
    omega
  exact ⟨(List.take_append_drop _ _).symm, long.symm, by omega, by omega⟩

theorem step_cases {event : ReadEvent} (stepped : conn.step event = some next) :
    (∃ data resetting, event = .read data resetting ∧ conn.ready = false ∧ data ≠ [] ∧
      conn.bytes.length + data.length ≤ conn.msize ∧ next = conn.received data resetting) ∨
    (∃ dotu prev resetting fresh, event = .again dotu prev resetting fresh ∧ conn.ready = true ∧
      fresh.length = conn.msize ∧ next = conn.again dotu prev resetting fresh) ∨
    (event = .ended ∧ conn.ready = false ∧ next = { conn with shut := true }) := by
  unfold Npconn.step at stepped
  split at stepped
  · cases event with
    | read data resetting =>
        dsimp only at stepped
        split at stepped
        · rename_i held
          exact .inl ⟨data, resetting, rfl, held.1, held.2.1, held.2.2, (Option.some.inj stepped).symm⟩
        · contradiction
    | again dotu prev resetting fresh =>
        dsimp only at stepped
        split at stepped
        · rename_i held
          exact .inr (.inl ⟨dotu, prev, resetting, fresh, rfl, held.1, held.2, (Option.some.inj stepped).symm⟩)
        · contradiction
    | ended =>
        dsimp only at stepped
        split at stepped
        · rename_i stopped
          exact .inr (.inr ⟨rfl, stopped, (Option.some.inj stepped).symm⟩)
        · contradiction
  · contradiction

theorem step_running {event : ReadEvent} (stepped : conn.step event = some next) : conn.running = true := by
  unfold Npconn.step at stepped
  split at stepped
  · assumption
  · contradiction

theorem running_opened (running : conn.running = true) : conn.fault = false := by
  simp only [Npconn.running, Bool.and_eq_true, Bool.not_eq_true'] at running
  exact running.2

theorem again_filled (filled : Filled conn) (ready : conn.ready = true) {fresh : List UInt8}
    (length : fresh.length = conn.msize) (resetting : Bool) : Filled (conn.again dotu prev resetting fresh) := by
  have full := filled.full
  obtain ⟨-, enough⟩ := ready_iff.mp ready
  unfold Npconn.again
  split
  · exact ⟨full, filled.small⟩
  · split
    · exact ⟨full, filled.small⟩
    · split
      · exact ⟨full, filled.small⟩
      · refine ⟨?_, filled.small⟩
        simp only [Npconn.handOn, List.length_drop]
        omega

theorem step_filled {event : ReadEvent} (filled : Filled conn) (stepped : conn.step event = some next) :
    Filled next := by
  have full := filled.full
  rcases step_cases stepped with ⟨data, resetting, -, -, -, fits, rfl⟩ |
    ⟨dotu, prev, resetting, fresh, -, ready, length, rfl⟩ | ⟨-, -, rfl⟩
  · cases resetting with
    | true =>
        refine ⟨?_, filled.small⟩
        simp only [Npconn.received, if_true, List.length_nil, List.length_append, List.length_drop]
        omega
    | false =>
        refine ⟨?_, filled.small⟩
        simp only [Npconn.received, Bool.false_eq_true, if_false, List.length_append, List.length_drop]
        omega
  · exact again_filled filled ready length resetting
  · exact ⟨full, filled.small⟩

theorem shut_safe (opened : conn.fault = false) (event : ReadEvent) :
    ReadSafe conn event { conn with shut := true } :=
  ⟨opened, .inl rfl, fun _ _ _ _ _ => .inl rfl, fun _ => ⟨rfl, .inl rfl⟩⟩

theorem received_safe (opened : conn.fault = false) {data : List UInt8} (some : data ≠ []) (resetting : Bool) :
    ReadSafe conn (.read data resetting) (conn.received data resetting) := by
  cases resetting with
  | true =>
      refine ⟨opened, .inl rfl, ?_, fun _ => ⟨rfl, .inr (.inl rfl)⟩⟩
      intro dotu prev resetting fresh same
      cases same
  | false =>
      refine ⟨opened, .inl rfl, ?_, fun _ => ⟨rfl, .inr (.inr ⟨data, some, rfl⟩)⟩⟩
      intro dotu prev resetting fresh same
      cases same

theorem handOn_safe (filled : Filled conn) (opened : conn.fault = false) (header : 7 ≤ sizeField conn.bytes)
    (enough : sizeField conn.bytes ≤ conn.bytes.length) (resetting : Bool) (fresh : List UInt8) :
    ReadSafe conn (.again dotu prev resetting fresh) (conn.handOn (sizeField conn.bytes) resetting fresh) := by
  have takes := handOn_takesFirst filled header enough resetting fresh
  have full := filled.full
  refine ⟨opened, ?_, fun _ _ _ _ _ => .inr ⟨_, takes⟩, ?_⟩
  · cases resetting with
    | true => exact .inl rfl
    | false => exact .inr ⟨_, takes, rfl⟩
  · intro doomed
    rcases doomed.2 with short | long
    · omega
    · omega

theorem ReadSafe.refuses {resetting : Bool} {fresh : List UInt8} (running : conn.running = true)
    (doomed : conn.Doomed)
    (safe : ReadSafe conn (.again dotu prev resetting fresh) (conn.again dotu prev resetting fresh)) :
    conn.Refuses dotu prev := by
  simp only [Npconn.running, Bool.and_eq_true, Bool.not_eq_true'] at running
  have shut : (conn.again dotu prev resetting fresh).shut = true := by
    rcases safe.taken dotu prev resetting fresh rfl with shut | ⟨message, takes⟩
    · exact shut
    · have size := takes.size
      have header := takes.header
      have fits := takes.fits
      rcases doomed.2 with short | long
      · omega
      · omega
  have inside := safe.inside
  cases outside : conn.readsOutside dotu prev with
  | true => simp [Npconn.again, outside] at inside
  | false =>
      cases decoded : npDeserialize prev conn.pkt dotu with
      | none => exact ⟨decoded, outside⟩
      | some tc =>
          simp only [Npconn.again, outside, decoded, Option.isNone_some, Bool.false_eq_true, if_false] at shut
          split at shut
          · rw [running.1] at shut
            contradiction
          · rw [Npconn.handOn, running.1] at shut
            contradiction

theorem again_safe_iff (filled : Filled conn) (running : conn.running = true) (ready : conn.ready = true)
    (resetting : Bool) (fresh : List UInt8) :
    ReadSafe conn (.again dotu prev resetting fresh) (conn.again dotu prev resetting fresh) ↔
      (sizeField conn.bytes = 5 → FcallType.ofNat? (byteAt conn.bytes 4) = none) ∧
      (2 ^ 31 ≤ sizeField conn.bytes → sizeField conn.bytes < 2 ^ 31 + 4 → conn.Refuses dotu prev) := by
  obtain ⟨header, enough⟩ := ready_iff.mp ready
  have full := filled.full
  have small := filled.small
  have opened := running_opened running
  constructor
  · intro safe
    have refuses (doomed : conn.Doomed) : conn.Refuses dotu prev := safe.refuses running doomed
    refine ⟨?_, fun large _ => refuses ⟨header, .inr (by omega)⟩⟩
    intro five
    have refused := (refuses ⟨header, .inl (by omega)⟩).refused
    rw [int32_small (by omega)] at enough
    rw [npDeserialize_five conn.pkt prev dotu ((sizeField_pkt header).trans five), Npconn.pkt, byteAt,
      List.getElem?_append_left (by omega)] at refused
    exact refused
  · rintro ⟨lone, positive⟩
    rcases Nat.lt_or_ge (sizeField conn.bytes) 7 with tiny | whole
    · rw [again_of_refuses (refuses_tiny filled ready tiny lone)]
      exact shut_safe opened _
    · rcases Nat.lt_or_ge (sizeField conn.bytes) (2 ^ 31) with nonnegative | negative
      · rw [int32_small nonnegative] at enough
        rcases again_of_whole filled whole (by omega) resetting fresh with shut | handed
        · rw [shut]
          exact shut_safe opened _
        · rw [handed]
          exact handOn_safe filled opened whole (by omega) resetting fresh
      · have refuses : conn.Refuses dotu prev := by
          rcases Nat.lt_or_ge (sizeField conn.bytes) (2 ^ 31 + 4) with low | high
          · exact positive negative low
          · exact refuses_negative filled ready high
        rw [again_of_refuses refuses]
        exact shut_safe opened _

theorem step_safe_iff {event : ReadEvent} (filled : Filled conn) (stepped : conn.step event = some next) :
    ReadSafe conn event next ↔ Framed conn event := by
  have running := step_running stepped
  have opened := running_opened running
  rcases step_cases stepped with ⟨data, resetting, rfl, -, some, -, rfl⟩ |
    ⟨dotu, prev, resetting, fresh, rfl, ready, length, rfl⟩ | ⟨rfl, -, rfl⟩
  · exact iff_of_true (received_safe opened some resetting) trivial
  · rw [again_safe_iff filled running ready, Framed, stepped]
    exact ⟨fun held _ => held, fun held => held rfl⟩
  · exact iff_of_true (shut_safe opened _) trivial

theorem framed_of_undefined (conn : Npconn) (event : ReadEvent) (undefined : conn.step event = none) :
    Framed conn event := by
  cases event with
  | read data resetting => trivial
  | again dotu prev resetting fresh =>
      intro made
      rw [undefined] at made
      contradiction
  | ended => trivial

theorem step_msize {event : ReadEvent} (stepped : conn.step event = some next) : next.msize = conn.msize := by
  rcases step_cases stepped with ⟨data, resetting, rfl, -, -, -, rfl⟩ |
    ⟨dotu, prev, resetting, fresh, rfl, -, -, rfl⟩ | ⟨rfl, -, rfl⟩
  · cases resetting <;> rfl
  · unfold Npconn.again
    split_ifs <;> rfl
  · rfl

/-- A reset under way, the one thing that clears the buffer of a doomed connection. -/
def Discards : ReadEvent → Prop
  | .read _ resetting => resetting = true
  | _ => False

theorem step_doomed {event : ReadEvent} (filled : Filled conn) (doomed : conn.Doomed) (kept : ¬ Discards event)
    (framed : Framed conn event) (stepped : conn.step event = some next) :
    next.handed = conn.handed ∧ (next.shut = true ∨
      next.Doomed ∧ conn.bytes.length + 1 ≤ next.bytes.length) := by
  have safe := (step_safe_iff filled stepped).mpr framed
  obtain ⟨handed, shut | cleared | ⟨more, some, grown⟩⟩ := safe.doomed doomed
  · exact ⟨handed, .inl shut⟩
  · refine ⟨handed, .inl ?_⟩
    rcases step_cases stepped with ⟨data, resetting, rfl, -, -, -, rfl⟩ |
      ⟨dotu, prev, resetting, fresh, rfl, -, -, rfl⟩ | ⟨rfl, -, rfl⟩
    · cases resetting with
      | true => exact absurd rfl kept
      | false =>
          have header := doomed.1
          have empty := (List.append_eq_nil_iff.mp cleared).1
          rw [empty] at header
          contradiction
    · rcases safe.taken dotu prev resetting fresh rfl with shut | ⟨message, takes⟩
      · exact shut
      · have size := takes.size
        have least := takes.header
        have fits := takes.fits
        rcases doomed.2 with short | long <;> omega
    · rfl
  · refine ⟨handed, .inr ⟨⟨?_, ?_⟩, ?_⟩⟩
    · rw [grown, List.length_append]
      have header := doomed.1
      omega
    · rw [grown, Conn.sizeField_append _ _ doomed.1, step_msize stepped]
      exact doomed.2
    · have positive := List.length_pos_iff.mpr some
      rw [grown, List.length_append]
      omega

theorem doomed_run {final : Npconn} {events : List ReadEvent} (filled : Filled conn) (doomed : conn.Doomed)
    (kept : ∀ event ∈ events, ¬ Discards event) (framed : Guarded Npconn.step Framed conn events)
    (ran : run Npconn.step conn events = some final) :
    final.handed = conn.handed ∧ (final.shut = true ∨
      conn.bytes.length + events.length ≤ final.bytes.length) := by
  induction events generalizing conn with
  | nil =>
      cases ran
      exact ⟨rfl, .inr (Nat.le_refl _)⟩
  | cons event events ih =>
      obtain ⟨next, stepped, rest⟩ := run_cons_some Npconn.step ran
      obtain ⟨handed, shut | ⟨still, grown⟩⟩ := step_doomed filled doomed (kept event List.mem_cons_self)
        framed.1 stepped
      · have stopped : events = [] := by
          cases events with
          | nil => rfl
          | cons later _ =>
              obtain ⟨_, again, _⟩ := run_cons_some Npconn.step rest
              have running := step_running again
              simp [Npconn.running, shut] at running
        subst stopped
        cases rest
        exact ⟨handed, .inl shut⟩
      · obtain ⟨same, outcome⟩ := ih (step_filled filled stepped) still
          (fun later member => kept later (List.mem_cons_of_mem _ member)) (framed.2 next stepped) rest
        refine ⟨same.trans handed, outcome.imp_right ?_⟩
        intro longer
        rw [List.length_cons]
        omega

theorem doomed_shuts {final : Npconn} {events : List ReadEvent} (filled : Filled conn) (doomed : conn.Doomed)
    (kept : ∀ event ∈ events, ¬ Discards event) (framed : Guarded Npconn.step Framed conn events)
    (enough : conn.msize < events.length) (ran : run Npconn.step conn events = some final) :
    final.shut = true := by
  have last : Filled final ∧ final.msize = conn.msize := by
    have preserved (state : Npconn) (event : ReadEvent) (next : Npconn)
        (held : Filled state ∧ state.msize = conn.msize) (_ : True) (stepped : state.step event = some next) :
        Filled next ∧ next.msize = conn.msize :=
      ⟨step_filled held.1 stepped, (step_msize stepped).trans held.2⟩
    exact run_invariant Npconn.step preserved ⟨filled, rfl⟩ (guarded_true Npconn.step conn events) ran
  obtain ⟨-, shut | longer⟩ := doomed_run filled doomed kept framed ran
  · exact shut
  · have full := last.1.full
    have msize := last.2
    omega

end Steps

/-- Each step of the thread is safe exactly where none of the three size fields slips through. -/
theorem npConnReadProc_safe_iff (srvMsize : Nat) (small : srvMsize < 2 ^ 31) (pkt : List UInt8)
    (room : pkt.length = srvMsize) (events : List ReadEvent) :
    EveryStep Npconn.step ReadSafe (npConnCreate srvMsize pkt) events ↔
      Guarded Npconn.step Framed (npConnCreate srvMsize pkt) events := by
  have filled : Filled (npConnCreate srvMsize pkt) := ⟨by simp [npConnCreate, room], small⟩
  refine everyStep_iff_guarded Npconn.step ?_ ?_ framed_of_undefined events filled
  · intro conn event next filled _ stepped
    exact step_filled filled stepped
  · intro conn event next filled stepped
    exact step_safe_iff filled stepped

def smallConn : Npconn := npConnCreate 32 (List.replicate 32 0)

def recycled : ReadEvent := .again true {} false (List.replicate 32 0)

/-- A Tclunk that comes in two pieces is handed on when it is whole. -/
theorem npConnReadProc_safe_iff_tclunk :
    EveryStep Npconn.step ReadSafe smallConn
      [.read [11, 0, 0] false, .read [0, 120, 1, 0, 7, 0, 0, 0] false, recycled] := by
  rw [smallConn, npConnReadProc_safe_iff 32 (by omega) (List.replicate 32 0) rfl]
  have first : smallConn.step (.read [11, 0, 0] false) = some (smallConn.received [11, 0, 0] false) := by
    decide
  have second : (smallConn.received [11, 0, 0] false).step (.read [0, 120, 1, 0, 7, 0, 0, 0] false) =
      some ((smallConn.received [11, 0, 0] false).received [0, 120, 1, 0, 7, 0, 0, 0] false) := by decide
  refine guarded_cons _ first trivial (guarded_cons _ second trivial ⟨?_, fun _ _ => trivial⟩)
  have eleven : sizeField ((smallConn.received [11, 0, 0] false).received
      [0, 120, 1, 0, 7, 0, 0, 0] false).bytes = 11 := by decide
  rw [recycled, Framed, eleven]
  intro _
  exact ⟨fun same => by omega, fun large => by omega⟩

theorem second_safe {data : List UInt8}
    (taken : smallConn.step (.read data false) = some (smallConn.received data false))
    (made : (smallConn.received data false).step recycled =
      some ((smallConn.received data false).again true {} false (List.replicate 32 0)))
    (every : EveryStep Npconn.step ReadSafe smallConn [.read data false, recycled]) :
    ReadSafe (smallConn.received data false) recycled
      ((smallConn.received data false).again true {} false (List.replicate 32 0)) :=
  ((every _ taken).2 _ made).1

/-- Neither a Tflush of five bytes nor a Tclunk with a negative size shuts the connection down. -/
theorem npConnReadProc_unsafe :
    ¬ EveryStep Npconn.step ReadSafe smallConn [.read [5, 0, 0, 0, 108] false, recycled] ∧
    ¬ EveryStep Npconn.step ReadSafe smallConn
      [.read [0, 0, 0, 128, 120, 1, 0, 7, 0, 0, 0] false, recycled] := by
  constructor
  · intro every
    have safe := second_safe (by with_unfolding_all decide) (by with_unfolding_all decide) every
    rcases safe.taken true {} false (List.replicate 32 0) rfl with shut | ⟨message, takes⟩
    · revert shut
      with_unfolding_all decide
    · have five : sizeField (smallConn.received [5, 0, 0, 0, 108] false).bytes = 5 := by decide
      have size := takes.size
      have header := takes.header
      omega
  · intro every
    have inside := (second_safe (by with_unfolding_all decide) (by with_unfolding_all decide) every).inside
    revert inside
    with_unfolding_all decide

end Xcpu.Libnpfs
