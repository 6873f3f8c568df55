import Xcpu.Lib.Framing
import Xcpu.Libspfs.ConnBuffers
import Xcpu.Libspfs.NpDecode

/-!
How `sp_conn_read` takes the incoming stream apart. However the stream is split into reads,
the same messages are handed on, and the unfinished one stays in the buffer.
-/

namespace Xcpu.Libspfs.Conn

open Xcpu.Packet Xcpu.Transition Xcpu.Framing

theorem sizeField_append (data more : List UInt8) (header : 4 ≤ data.length) :
    sizeField (data ++ more) = sizeField data := by
  have byte (position : Nat) (inside : position < 4) : byteAt (data ++ more) position = byteAt data position := by
    rw [byteAt, byteAt, List.getElem?_append_left (by omega)]
  simp only [sizeField, littleEndian, byte 0 (by omega), byte 1 (by omega), byte 2 (by omega), byte 3 (by omega)]

def sizeHeader : Header UInt8 := ⟨4, sizeField, by decide, sizeField_append⟩

/-- A message that the connection accepts and that does not reset it. -/
structure WellFormed (conn : Spconn) (message : List UInt8) : Prop where
  whole : sizeHeader.Whole message
  fits : message.length ≤ conn.msize
  accepted : ∃ tc, spDeserialize message conn.dotu = some tc ∧ tc.type ≠ .tversion

/-- The events between and during reads that leave the incoming stream alone. -/
def Quiet : ConnEvent → Prop
  | .answer _ _ _ => True
  | .write _ => True
  | _ => False

/-- What has been handed on since `start`, and the buffer, are the stream read so far. -/
structure Taken (start conn : Spconn) (stream : List UInt8) : Prop where
  opened : conn.closed = false
  msize : conn.msize = start.msize
  dotu : conn.dotu = start.dotu
  roomy : Roomy conn
  frames : ∃ frames, conn.handed = start.handed ++ frames ∧ (∀ frame ∈ frames, sizeHeader.Whole frame) ∧
    frames.flatten ++ conn.buffer = stream

variable {start conn next : Spconn} {stream : List UInt8} {messages : List (List UInt8)}

structure Unread (conn next : Spconn) : Prop where
  closed : next.closed = conn.closed
  msize : next.msize = conn.msize
  dotu : next.dotu = conn.dotu
  ifcall : next.ifcall = conn.ifcall
  handed : next.handed = conn.handed

theorem spConnWrite_unread (conn : Spconn) (count : Nat) : Unread conn (spConnWrite conn count) := by
  unfold spConnWrite
  split
  · exact ⟨rfl, rfl, rfl, rfl, rfl⟩
  · split
    · exact ⟨rfl, rfl, rfl, rfl, rfl⟩
    · unfold Spconn.wrote
      split <;> exact ⟨rfl, rfl, rfl, rfl, rfl⟩

theorem spConnRespond_unread (conn : Spconn) (req : Request) (rc : Option (List UInt8)) (count : Nat) :
    Unread conn (spConnRespond conn req rc count) := by
  obtain ⟨freerclist, freercnum, freed⟩ := spConnFreeIncall_frame conn (some req.fc)
  cases rc with
  | none =>
      simp only [spConnRespond, freed]
      exact ⟨rfl, rfl, rfl, rfl, rfl⟩
  | some pkt =>
      simp only [spConnRespond, freed]
      split
      · obtain ⟨closed, msize, dotu, ifcall, handed⟩ := spConnWrite_unread ({ conn with
          freerclist := freerclist, freercnum := freercnum : Spconn }.queue pkt) count
        exact ⟨closed, msize, dotu, ifcall, handed⟩
      · exact ⟨rfl, rfl, rfl, rfl, rfl⟩

theorem step_unread {event : ConnEvent} (quiet : Quiet event) (stepped : conn.step event = some next) :
    Unread conn next := by
  cases event with
  | answer ref rc count =>
      rw [← Option.some.inj stepped, spAnswer]
      split
      · exact ⟨rfl, rfl, rfl, rfl, rfl⟩
      · rename_i req _
        obtain ⟨closed, msize, dotu, ifcall, handed⟩ := spConnRespond_unread { conn with
          requests := conn.requests.filter (·.ref ≠ ref) } req rc count
        exact ⟨closed, msize, dotu, ifcall, handed⟩
  | write count => exact Option.some.inj stepped ▸ spConnWrite_unread conn count
  | receive data => exact quiet.elim
  | next => exact quiet.elim
  | version rc count => exact quiet.elim

theorem Taken.quiet {event : ConnEvent} (taken : Taken start conn stream) (quiet : Quiet event) :
    ∃ next, conn.step event = some next ∧ Taken start next stream := by
  have defined : ∃ next, conn.step event = some next := by
    cases event with
    | answer ref rc count => exact ⟨_, rfl⟩
    | write count => exact ⟨_, rfl⟩
    | receive data => exact quiet.elim
    | next => exact quiet.elim
    | version rc count => exact quiet.elim
  obtain ⟨next, stepped⟩ := defined
  obtain ⟨closed, msize, dotu, ifcall, handed⟩ := step_unread quiet stepped
  have fits : VersionFits conn event := by
    cases event <;> trivial
  refine ⟨next, stepped, closed.trans taken.opened, msize.trans taken.msize, dotu.trans taken.dotu,
    step_roomy taken.roomy fits stepped, ?_⟩
  rw [handed, Spconn.buffer, ifcall]
  exact taken.frames

theorem Taken.quiet_run {events : List ConnEvent} (taken : Taken start conn stream)
    (quiet : ∀ event ∈ events, Quiet event) :
    ∃ next, run Spconn.step conn events = some next ∧ Taken start next stream ∧
      next.buffer = conn.buffer := by
  induction events generalizing conn with
  | nil => exact ⟨conn, rfl, taken, rfl⟩
  | cons event events ih =>
      obtain ⟨middle, stepped, kept⟩ := taken.quiet (quiet event List.mem_cons_self)
      obtain ⟨next, ran, last, same⟩ := ih kept fun other member => quiet other (List.mem_cons_of_mem _ member)
      refine ⟨next, ?_, last, ?_⟩
      · rw [run_cons, stepped, Option.bind_some, ran]
      · rw [same, Spconn.buffer, (step_unread (quiet event List.mem_cons_self) stepped).ifcall, Spconn.buffer]

theorem Taken.receive {data : List UInt8} (taken : Taken start conn stream)
    (fits : conn.buffer.length + data.length ≤ conn.msize) :
    ∃ next, spConnReceive conn data = some next ∧ Taken start next (stream ++ data) := by
  obtain ⟨next, received⟩ := Option.isSome_iff_exists.mp (taken.roomy.staysInside.1 data fits)
  have roomy := spConnReceive_roomy taken.roomy received
  refine ⟨next, received, ?_⟩
  obtain ⟨frames, handed, whole, same⟩ := taken.frames
  obtain ⟨freerclist, freercnum, new⟩ := spConnNewIncall_frame conn
  unfold spConnReceive at received
  cases input : conn.ifcall with
  | some fc =>
      simp only [input] at received
      split at received
      · rw [← Option.some.inj received] at roomy ⊢
        refine ⟨taken.opened, taken.msize, taken.dotu, roomy, frames, handed, whole, ?_⟩
        rw [← same]
        simp [Spconn.buffer, input]
      · contradiction
  | none =>
      simp only [input, new, spConnNewIncall_bytes] at received
      split at received
      · rw [← Option.some.inj received] at roomy ⊢
        refine ⟨taken.opened, taken.msize, taken.dotu, roomy, frames, handed, whole, ?_⟩
        rw [← same]
        simp [Spconn.buffer, input]
      · contradiction

theorem int32_le {value : Nat} (bounded : value < 2 ^ 32) : int32 value ≤ value := by
  rcases Nat.lt_or_ge value (2 ^ 31) with small | large
  · exact Int.le_of_eq (int32_small small)
  · rw [int32_large large bounded]
    omega

/-- When the loop stops there is no whole message in the buffer. -/
theorem unfinished_of_not_ready (opened : conn.closed = false) (stopped : conn.ready = false) :
    sizeHeader.Unfinished conn.buffer := by
  simp only [Spconn.ready, opened, Bool.not_false, Bool.true_and, Bool.and_eq_false_iff,
    decide_eq_false_iff_not] at stopped
  rcases stopped with short | more
  · exact .inl (by simpa [sizeHeader] using short)
  · right
    have size := int32_le (sizeField_lt conn.buffer)
    simp only [sizeHeader]
    omega

/-- A round of the loop hands on the next message of the stream. -/
theorem Taken.round (taken : Taken start conn stream) (ready : conn.ready = true)
    (small : conn.msize < 2 ^ 31) (formed : ∀ message ∈ messages, WellFormed start message)
    (before : stream <+: messages.flatten) :
    ∃ next, spConnNext conn = some next ∧ Taken start next stream ∧
      next.buffer.length < conn.buffer.length := by
  obtain ⟨frames, handed, whole, same⟩ := taken.frames
  simp only [Spconn.ready, Bool.and_eq_true, Bool.not_eq_true', decide_eq_true_eq] at ready
  obtain ⟨⟨-, header⟩, enough⟩ := ready
  have aligned := frames_next whole (fun message member => (formed message member).whole)
    (same ▸ before)
  rcases aligned with ⟨-, empty⟩ | ⟨message, found, begins⟩
  · rw [empty] at header
    simp at header
  · have inside := List.mem_of_getElem? found
    obtain ⟨message_whole, fits, tc, accepted, kind⟩ := formed message inside
    have size : sizeField conn.buffer = message.length := by
      rcases begins with ⟨rest, equal⟩ | ⟨rest, equal⟩
      · have read : sizeField (conn.buffer ++ rest) = sizeField conn.buffer :=
          sizeField_append conn.buffer rest header
        rw [← read, equal]
        exact message_whole.2
      · rw [← equal]
        exact message_whole.size_append
    have fits' : message.length ≤ conn.msize := taken.msize ▸ fits
    rw [size, int32_small (by omega)] at enough
    have first : conn.buffer.take message.length = message := by
      rcases begins with short | long
      · have equal := short.eq_of_length (by have := short.length_le; omega)
        rw [equal, List.take_length]
      · exact (List.prefix_iff_eq_take.mp long).symm
    have positive : 0 < message.length := by
      have whole_header : 4 ≤ message.length := message_whole.1
      omega
    cases input : conn.ifcall with
    | none =>
        simp [Spconn.buffer, input] at header
    | some fc =>
        have bytes : fc.bytes = conn.buffer := by simp [Spconn.buffer, input]
        obtain ⟨handed_on, ran⟩ := Option.isSome_iff_exists.mp
          (taken.roomy.staysInside.2 fc message.length tc input)
        have stepped : spConnNext conn = some handed_on := by
          unfold spConnNext
          simp only [input, bytes, size, first, taken.dotu, accepted]
          rw [if_neg, if_neg (by omega), if_neg (by omega)]
          · exact ran
          · simp only [not_not, Spconn.ready, taken.opened, size, Bool.not_false, Bool.true_and,
              Bool.and_eq_true, decide_eq_true_eq]
            exact ⟨header, by rw [int32_small (by omega)]; exact enough⟩
        have roomy := spConnNext_roomy taken.roomy stepped
        refine ⟨handed_on, stepped, ?_⟩
        obtain ⟨freerclist, freercnum, new⟩ := spConnNewIncall_frame conn
        simp only [Spconn.handOn, new] at ran
        split at ran
        · rw [← Option.some.inj ran] at roomy ⊢
          refine ⟨⟨taken.opened, taken.msize, taken.dotu, roomy, frames ++ [message], ?_, ?_, ?_⟩, ?_⟩
          · simp only [handed, bytes, first, List.append_assoc]
          · intro frame member
            rcases List.mem_append.mp member with old | last
            · exact whole frame old
            · exact List.mem_singleton.mp last ▸ message_whole
          · rw [← same]
            simp only [Spconn.buffer, Option.map_some, Option.getD_some, bytes, List.flatten_append,
              List.flatten_cons, List.flatten_nil, List.append_nil, List.append_assoc]
            congr 1
            conv => lhs; lhs; rw [← first]
            exact List.take_append_drop message.length conn.buffer
          · simp only [Spconn.buffer, Option.map_some, Option.getD_some, bytes, List.length_drop]
            have long : 0 < conn.buffer.length := by omega
            simp only [Spconn.buffer] at long ⊢
            omega
        · contradiction

theorem Taken.again {during : Nat → List ConnEvent} {rounds : Nat} (taken : Taken start conn stream)
    (enough : conn.buffer.length ≤ rounds) (quiet : ∀ round, ∀ event ∈ during round, Quiet event)
    (small : start.msize < 2 ^ 31) (formed : ∀ message ∈ messages, WellFormed start message)
    (before : stream <+: messages.flatten) :
    ∃ next, spConnAgain during rounds conn = some next ∧ Taken start next stream ∧ next.ready = false := by
  induction rounds generalizing conn with
  | zero =>
      have empty : ¬ 4 ≤ conn.buffer.length := by omega
      exact ⟨conn, rfl, taken, by simp [Spconn.ready, empty]⟩
  | succ rounds ih =>
      rw [spConnAgain]
      cases ready : conn.ready with
      | false => exact ⟨conn, rfl, taken, ready⟩
      | true =>
          obtain ⟨handed, stepped, kept, shorter⟩ := taken.round ready (taken.msize ▸ small) formed before
          obtain ⟨answered, ran, last, same⟩ := kept.quiet_run (quiet rounds)
          obtain ⟨next, finished, result⟩ := ih last (by rw [same]; omega)
          refine ⟨next, ?_, result⟩
          rw [if_pos rfl, stepped, Option.bind_some, ran, Option.bind_some, finished]

/-- What the event loop of a connection does: a read, or an answer or write between reads. -/
inductive Turn where
  | read (data : List UInt8) (during : Nat → List ConnEvent)
  | between (event : ConnEvent)

def Spconn.turn (conn : Spconn) : Turn → Option Spconn
  | .read data during => spConnRead conn data during
  | .between event => conn.step event

def Turn.data : Turn → List UInt8
  | .read data _ => data
  | .between _ => []

/-- A read returns at least one byte and no more than there is space left in the buffer. -/
def Admissible (conn : Spconn) : Turn → Prop
  | .read data during => data ≠ [] ∧ conn.buffer.length + data.length ≤ conn.msize ∧
      ∀ round, ∀ event ∈ during round, Quiet event
  | .between event => Quiet event

theorem Taken.turns {turns : List Turn} (taken : Taken start conn stream)
    (unfinished : sizeHeader.Unfinished conn.buffer) (small : start.msize < 2 ^ 31)
    (formed : ∀ message ∈ messages, WellFormed start message)
    (admissible : Guarded Spconn.turn Admissible conn turns)
    (before : stream ++ turns.flatMap Turn.data <+: messages.flatten) :
    ∃ next, run Spconn.turn conn turns = some next ∧ Taken start next (stream ++ turns.flatMap Turn.data) ∧
      sizeHeader.Unfinished next.buffer := by
  induction turns generalizing conn stream with
  | nil => exact ⟨conn, rfl, by simpa using taken, unfinished⟩
  | cons turn turns ih =>
      have turned : ∃ next, conn.turn turn = some next ∧ Taken start next (stream ++ turn.data) ∧
          sizeHeader.Unfinished next.buffer := by
        cases turn with
        | between event =>
            have quiet : ∀ other ∈ [event], Quiet other := by
              intro other member
              exact List.mem_singleton.mp member ▸ admissible.1
            obtain ⟨next, ran, kept, same⟩ := taken.quiet_run quiet
            refine ⟨next, ?_, by simpa [Turn.data] using kept, same ▸ unfinished⟩
            rw [run_cons] at ran
            simpa [Spconn.turn, Option.bind_eq_some_iff] using ran
        | read data during =>
            obtain ⟨-, fits, quiet⟩ := admissible.1
            obtain ⟨received, ran, kept⟩ := taken.receive fits
            have inside : stream ++ data <+: messages.flatten := by
              refine List.IsPrefix.trans ?_ before
              simp [Turn.data]
            obtain ⟨next, looped, last, stopped⟩ := kept.again (Nat.le_refl _) quiet small formed inside
            refine ⟨next, ?_, last, unfinished_of_not_ready last.opened stopped⟩
            simp only [Spconn.turn, spConnRead, taken.opened, Bool.false_eq_true, if_false]
            rw [ran, Option.bind_some, looped]
      obtain ⟨middle, stepped, kept, left⟩ := turned
      have later : stream ++ turn.data ++ turns.flatMap Turn.data <+: messages.flatten := by
        simpa using before
      obtain ⟨next, ran, last, done⟩ := ih kept left (admissible.2 middle stepped) later
      refine ⟨next, ?_, by simpa using last, done⟩
      rw [run_cons, stepped, Option.bind_some, ran]

/-- However the stream is split into reads, its whole messages are handed on in their order, and
what is left in the buffer is the beginning of the next one. -/
theorem read_splits_stream (start : Spconn) (roomy : Roomy start) (opened : start.closed = false)
    (empty : start.buffer = []) (small : start.msize < 2 ^ 31) (messages : List (List UInt8))
    (formed : ∀ message ∈ messages, WellFormed start message) (turns : List Turn)
    (admissible : Guarded Spconn.turn Admissible start turns)
    (stream : turns.flatMap Turn.data <+: messages.flatten) :
    ∃ conn, run Spconn.turn start turns = some conn ∧ ∃ count,
      conn.handed = start.handed ++ messages.take count ∧
      (messages.take count).flatten ++ conn.buffer = turns.flatMap Turn.data ∧
      ((messages.length ≤ count ∧ conn.buffer = []) ∨
        ∃ message, messages[count]? = some message ∧ conn.buffer <+: message ∧
          conn.buffer.length < message.length) := by
  have taken : Taken start start [] :=
    ⟨opened, rfl, rfl, roomy, [], by simp, by simp, by simp [empty]⟩
  have unfinished : sizeHeader.Unfinished start.buffer := .inl (by simp [empty, sizeHeader])
  obtain ⟨conn, ran, last, left⟩ := taken.turns unfinished small formed admissible (by simpa using stream)
  obtain ⟨frames, handed, whole, same⟩ := last.frames
  rw [List.nil_append] at same
  obtain ⟨equal, rest⟩ := frames_eq_take whole (fun message member => (formed message member).whole)
    left (same ▸ stream)
  refine ⟨conn, ran, frames.length, ?_, ?_, rest⟩
  · rw [← equal, handed]
  · rw [← equal, same]

def secondTclunk : List UInt8 := [11, 0, 0, 0, 120, 2, 0, 9, 0, 0, 0]

/-- Two Tclunks, the first of them read together with the size field of the second. -/
def twoReads : List Turn :=
  [.read (tclunk ++ [11, 0, 0]) fun _ => [.answer 0 (some rclunk) 7],
    .between (.write 1),
    .read [0, 120, 2, 0, 9, 0, 0, 0] fun _ => []]

theorem twoReads_buffer :
    (run Spconn.turn (spConnCreate 8192 false) (twoReads.take 2)).map
        (fun conn => (conn.buffer.length, conn.msize)) = some (3, 8192) := by
  with_unfolding_all decide

theorem twoReads_formed : ∀ message ∈ [tclunk, secondTclunk],
    WellFormed (spConnCreate 8192 false) message := by
  intro message member
  simp only [List.mem_cons, List.not_mem_nil, or_false] at member
  rcases member with rfl | rfl
  · exact ⟨⟨by decide, by decide⟩, by decide, { size := 11, type := .tclunk, tag := 1, fid := 7 },
      by with_unfolding_all decide, by decide⟩
  · exact ⟨⟨by decide, by decide⟩, by decide, { size := 11, type := .tclunk, tag := 2, fid := 9 },
      by with_unfolding_all decide, by decide⟩

theorem read_splits_stream_twoReads :
    ∃ conn, run Spconn.turn (spConnCreate 8192 false) twoReads = some conn ∧ ∃ count,
      conn.handed = (spConnCreate 8192 false).handed ++ [tclunk, secondTclunk].take count ∧
      ([tclunk, secondTclunk].take count).flatten ++ conn.buffer = twoReads.flatMap Turn.data ∧
      (([tclunk, secondTclunk].length ≤ count ∧ conn.buffer = []) ∨
        ∃ message, [tclunk, secondTclunk][count]? = some message ∧ conn.buffer <+: message ∧
          conn.buffer.length < message.length) := by
  refine read_splits_stream _ (spConnCreate_roomy 8192 false) rfl rfl (by decide)
    [tclunk, secondTclunk] twoReads_formed twoReads ?_ (by decide)
  refine ⟨⟨by decide, by decide, by simp [Quiet]⟩, fun first read => ⟨trivial, fun second wrote =>
    ⟨⟨by decide, ?_, by simp⟩, fun _ _ => trivial⟩⟩⟩
  have reached := twoReads_buffer
  simp only [twoReads, List.take_succ_cons, List.take_zero] at reached
  rw [run_cons, read, Option.bind_some, run_cons, wrote] at reached
  simp only [Option.bind_some, run_nil, Option.map_some, Option.some.injEq, Prod.mk.injEq] at reached
  simp only [List.length_cons, List.length_nil]
  omega

end Xcpu.Libspfs.Conn
