import Xcpu.Bjs.Client
import Xcpu.Lib.Cells

/-!
The buffer of the answers to a client (`client_send` and `client_write` in `bjs.c`), cell by cell. Whatever is
ready when, the socket gets the answers in the order in which they were given, and a client that is closed after
its answers has got them all.
-/

namespace Xcpu.Bjs.ClientBuffer

open Transition Cells Client

/-- The part of a `struct client_t` that its answers go through. `socket` is what was written to it. -/
structure Output where
  state : ClientState := .read
  buf : Option (List (Option UInt8)) := none
  bsize : Nat := 0
  bptr : Nat := 0
  socket : Bytes := []
  destroyed : Option Cause := none

/-- What was written goes, and the rest moves to the front. -/
def shiftDown (c : Output) (cells : List (Option UInt8)) : Option (List (Option UInt8)) :=
  if 0 < c.bptr then
    (load cells c.bptr (c.bsize - c.bptr)).bind fun left => storeAll cells 0 (left.map some)
  else some cells

/-- The sizes are of type `int`. -/
def clientSend (c : Output) (data : Bytes) : Option Output :=
  if 2 ^ 31 ≤ c.bsize - c.bptr + data.length then none
  else
    match c.buf with
    | none => (storeAll (realloc [] data.length) 0 (data.map some)).map fun cells =>
        { c with buf := some cells, bsize := data.length, bptr := 0 }
    | some cells => (shiftDown c cells).bind fun cells =>
        (storeAll (realloc cells (c.bsize - c.bptr + data.length)) (c.bsize - c.bptr) (data.map some)).map fun cells =>
          { c with buf := some cells, bsize := c.bsize - c.bptr + data.length, bptr := 0 }

/-- `w` is what `write` returns, or `none` for an error. -/
def clientWrite (c : Output) (w : Option Nat) : Option Output :=
  c.buf.bind fun cells => (load cells c.bptr (c.bsize - c.bptr)).map fun left =>
    match w with
    | none => { c with destroyed := some .writeError }
    | some w =>
        let c := { c with socket := c.socket ++ left.take w, bptr := c.bptr + (left.take w).length }
        if c.bptr = c.bsize then
          if c.state = .flush then { c with destroyed := some .replied }
          else { c with buf := none, bsize := 0, bptr := 0 }
        else c

inductive Event
  | send (data : Bytes)
  | writable (w : Option Nat)
  | processed (state : ClientState)
  -- `client_destroy` for a read that fails, or for one that comes ready after the request
  | close (stop : Option Stop)

/-- The main loop calls `client_write` when there is a buffer. A client that is destroyed is not in memory. -/
def step (c : Output) (event : Event) : Option Output :=
  if c.destroyed = none then
    match event with
    | .send data => clientSend c data
    | .writable w => if c.buf.isSome then clientWrite c w else some c
    | .processed state => some { c with state }
    | .close stop => some { c with destroyed := some (stop.elim .readable .stopped) }
  else none

/-- A client gets answers and is served as long as it is there, and has no more than `INT_MAX` bytes to take. -/
def Allowed (c : Output) (event : Event) : Prop :=
  c.destroyed = none ∧
    match event with
    | .send data => c.bsize - c.bptr + data.length < 2 ^ 31
    | _ => True

/-- The answers that are given, one after the other. -/
def answers (events : List Event) : Bytes :=
  events.flatMap fun
    | .send data => data
    | _ => []

/-- The buffer has what was written since it was last empty, and then what is left. -/
def Holds (c : Output) (left : Bytes) : Prop :=
  ∃ gone : Bytes, c.bptr = gone.length ∧ c.bsize = gone.length + left.length ∧
    c.buf.getD [] = (gone ++ left).map some

structure Delivered (c : Output) (given : Bytes) : Prop where
  order : c.socket <+: given
  kept : c.destroyed = none → ∃ left, Holds c left ∧ c.socket ++ left = given
  whole : c.destroyed = some .replied → c.socket = given

variable {c next : Output} {left data given : Bytes}

theorem Holds.left_length (holds : Holds c left) : c.bsize - c.bptr = left.length := by
  obtain ⟨gone, place, size, -⟩ := holds
  omega

/-- Everything in the buffer is written. -/
theorem Holds.load {cells : List (Option UInt8)} (holds : Holds c left) (there : c.buf = some cells) :
    Cells.load cells c.bptr (c.bsize - c.bptr) = some left := by
  obtain ⟨gone, place, size, filled⟩ := holds
  rw [there, Option.getD_some] at filled
  have read : Cells.load ((gone ++ left).map some ++ []) gone.length left.length = _ :=
    load_written (Nat.le_of_eq List.length_append.symm)
  rw [List.append_nil, List.drop_left, List.take_length] at read
  rw [filled, size, place, Nat.add_sub_cancel_left, read]

theorem shiftDown_front {cells : List (Option UInt8)} (holds : Holds c left) (there : c.buf = some cells) :
    ∃ rest, shiftDown c cells = some (left.map some ++ rest) := by
  have read := holds.load there
  obtain ⟨gone, place, size, filled⟩ := holds
  rw [there, Option.getD_some] at filled
  rw [shiftDown]
  split
  · have stored := storeAll_front [] cells (left.map some)
      (by rw [filled, List.length_map, List.length_map, List.length_append]; omega)
    rw [read, Option.bind_some]
    exact ⟨_, stored⟩
  · have nothing : gone = [] := List.eq_nil_of_length_eq_zero (by omega)
    rw [nothing, List.nil_append] at filled
    exact ⟨[], by rw [filled, List.append_nil]⟩

/-- The new bytes come behind those that are left, and nothing is behind them. -/
theorem storeAll_grown (front rest : List (Option UInt8)) (data : Bytes) :
    storeAll (realloc (front ++ rest) (front.length + data.length)) front.length (data.map some) =
      some (front ++ data.map some) := by
  have room : (data.map some).length = (realloc rest data.length).length := by
    rw [List.length_map, length_realloc]
  rw [realloc_front, storeAll_front front _ _ (Nat.le_of_eq room), room, List.drop_length, List.append_nil]

theorem clientSend_holds (holds : Holds c left) (fits : left.length + data.length < 2 ^ 31) :
    ∃ cells, clientSend c data =
        some { c with buf := some cells, bsize := left.length + data.length, bptr := 0 } ∧
      Holds { c with buf := some cells, bsize := left.length + data.length, bptr := 0 } (left ++ data) := by
  refine ⟨(left ++ data).map some, ?_, [], rfl, ?_, rfl⟩
  · rw [clientSend, holds.left_length, if_neg (Nat.not_le.mpr fits)]
    cases there : c.buf with
    | none =>
        obtain ⟨gone, place, size, filled⟩ := holds
        rw [there, Option.getD_none, eq_comm, List.map_eq_nil_iff, List.append_eq_nil_iff] at filled
        have stored := storeAll_grown [] [] data
        simp only [List.nil_append, List.length_nil, Nat.zero_add] at stored
        simp only [filled.2, stored, List.nil_append, List.length_nil, Nat.zero_add, Option.map_some]
    | some cells =>
        obtain ⟨rest, shifted⟩ := shiftDown_front holds there
        have stored := storeAll_grown (left.map some) rest data
        rw [List.length_map] at stored
        simp only [shifted, Option.bind_some, stored, Option.map_some, List.map_append]
  · rw [List.length_nil, Nat.zero_add, List.length_append]

theorem clientWrite_error (holds : Holds c left) (there : c.buf.isSome) :
    clientWrite c none = some { c with destroyed := some .writeError } := by
  obtain ⟨cells, there⟩ := Option.isSome_iff_exists.mp there
  rw [clientWrite, there, Option.bind_some, holds.load there]
  rfl

/-- A write that takes everything. -/
theorem clientWrite_all {w : Nat} (holds : Holds c left) (there : c.buf.isSome) (all : left.length ≤ w) :
    clientWrite c (some w) = some (if c.state = .flush then
        { c with socket := c.socket ++ left, bptr := c.bsize, destroyed := some .replied }
      else { c with socket := c.socket ++ left, buf := none, bsize := 0, bptr := 0 }) := by
  obtain ⟨cells, there⟩ := Option.isSome_iff_exists.mp there
  have reaches : c.bptr + left.length = c.bsize := by
    obtain ⟨gone, place, size, -⟩ := holds
    omega
  rw [clientWrite, there, Option.bind_some, holds.load there]
  simp only [Option.map_some, List.take_of_length_le all, reaches, if_true]

/-- A write that leaves something. -/
theorem clientWrite_some {w : Nat} (holds : Holds c left) (there : c.buf.isSome) (part : w < left.length) :
    clientWrite c (some w) = some { c with socket := c.socket ++ left.take w, bptr := c.bptr + w } ∧
      Holds { c with socket := c.socket ++ left.take w, bptr := c.bptr + w } (left.drop w) := by
  obtain ⟨cells, there⟩ := Option.isSome_iff_exists.mp there
  have length : (left.take w).length = w := List.length_take_of_le part.le
  have read := holds.load there
  obtain ⟨gone, place, size, filled⟩ := holds
  constructor
  · rw [clientWrite, there, Option.bind_some, read]
    simp only [Option.map_some, length]
    rw [if_neg (by omega)]
  · refine ⟨gone ++ left.take w, ?_, ?_, ?_⟩
    · rw [List.length_append, length, place]
    · rw [List.length_append, length, List.length_drop, size]
      omega
    · rw [List.append_assoc, List.take_append_drop]
      exact filled

/-- The buffer in memory does what that of the connection does. -/
theorem clientWrite_client {client : Client} {w : Option Nat} (holds : Holds c left) (there : c.buf.isSome)
    (same : client.state = c.state) (alive : client.destroyed = c.destroyed) :
    ∃ next, clientWrite c w = some next ∧ (Client.clientWrite client left w).state = next.state ∧
      (Client.clientWrite client left w).destroyed = next.destroyed ∧
      (next.destroyed = none → Holds next ((Client.clientWrite client left w).buf.getD []) ∧
        (Client.clientWrite client left w).buf.isSome = next.buf.isSome) := by
  cases w with
  | none => exact ⟨_, clientWrite_error holds there, same, rfl, fun kept => absurd kept (Option.some_ne_none _)⟩
  | some w =>
      rcases Nat.lt_or_ge w left.length with part | all
      · obtain ⟨wrote, held⟩ := clientWrite_some holds there part
        rw [Client.clientWrite, if_neg (Nat.not_le.mpr part)]
        exact ⟨_, wrote, same, alive, fun _ => ⟨held, there.symm⟩⟩
      · refine ⟨_, clientWrite_all holds there all, ?_⟩
        rw [Client.clientWrite, if_pos all, same]
        split
        · exact ⟨rfl, rfl, fun kept => absurd kept (Option.some_ne_none _)⟩
        · exact ⟨rfl, alive, fun _ => ⟨⟨[], rfl, rfl, rfl⟩, rfl⟩⟩

theorem step_delivered {event : Event} (delivered : Delivered c given) (allowed : Allowed c event) :
    ∃ next, step c event = some next ∧ Delivered next (given ++ answers [event]) := by
  obtain ⟨alive, fits⟩ := allowed
  obtain ⟨left, holds, rfl⟩ := delivered.kept alive
  have open_ : c.destroyed ≠ some .replied := by rw [alive]; exact nofun
  unfold step
  rw [if_pos alive, answers, List.flatMap_singleton]
  cases event with
  | send data =>
      dsimp only at fits
      rw [holds.left_length] at fits
      obtain ⟨cells, sent, holds⟩ := clientSend_holds holds fits
      refine ⟨_, sent, (List.prefix_append c.socket left).trans (List.prefix_append _ data),
        fun _ => ⟨left ++ data, holds, (List.append_assoc ..).symm⟩, fun done => absurd done open_⟩
  | writable w =>
      rw [List.append_nil]
      dsimp only
      split
      · rename_i there
        cases w with
        | none =>
            exact ⟨_, clientWrite_error holds there, delivered.order, nofun, nofun⟩
        | some w =>
            rcases Nat.lt_or_ge w left.length with part | all
            · obtain ⟨wrote, holds⟩ := clientWrite_some holds there part
              refine ⟨_, wrote, ?_, fun _ => ⟨_, holds, ?_⟩, fun done => absurd done open_⟩
              · exact (List.prefix_append_right_inj _).mpr (List.take_prefix w left)
              · rw [List.append_assoc, List.take_append_drop]
            · refine ⟨_, clientWrite_all holds there all, ?_⟩
              split
              · exact ⟨List.prefix_rfl, nofun, fun _ => rfl⟩
              · exact ⟨List.prefix_rfl, fun _ => ⟨[], ⟨[], rfl, rfl, rfl⟩, List.append_nil _⟩, fun _ => rfl⟩
      · exact ⟨c, rfl, delivered⟩
  | processed state =>
      rw [List.append_nil]
      exact ⟨_, rfl, delivered.order, fun _ => ⟨left, holds, rfl⟩, fun done => absurd done open_⟩
  | close stop =>
      rw [List.append_nil]
      refine ⟨_, rfl, delivered.order, nofun, fun done => ?_⟩
      cases stop <;> cases done

theorem run_delivered {events : List Event} (delivered : Delivered c given) (allowed : Guarded step Allowed c events) :
    ∃ last, run step c events = some last ∧ Delivered last (given ++ answers events) := by
  induction events generalizing c given with
  | nil => exact ⟨c, rfl, by rwa [answers, List.flatMap_nil, List.append_nil]⟩
  | cons event events ih =>
      obtain ⟨next, stepped, still⟩ := step_delivered delivered allowed.1
      obtain ⟨last, ran, all⟩ := ih still (allowed.2 next stepped)
      refine ⟨last, ?_, ?_⟩
      · rw [run_cons, stepped, Option.bind_some, ran]
      · rw [List.append_assoc, answers, answers, ← List.flatMap_append, List.singleton_append] at all
        exact all

/-- A client that was accepted gets its answers in order, and when it is closed for having them it has them all. -/
theorem answers_delivered {events : List Event} (allowed : Guarded step Allowed {} events) :
    ∃ last, run step {} events = some last ∧ Delivered last (answers events) := by
  have accepted : Delivered {} [] := ⟨List.prefix_rfl, fun _ => ⟨[], ⟨[], rfl, rfl, rfl⟩, rfl⟩, nofun⟩
  obtain ⟨last, ran, delivered⟩ := run_delivered accepted allowed
  rw [List.nil_append] at delivered
  exact ⟨last, ran, delivered⟩

/-- Two answers, the second while the first is partly written. -/
theorem answers_delivered_two : ∃ last, run step {}
    [.send [1, 2, 3], .writable (some 2), .send [4], .processed .flush, .writable (some 5)] = some last ∧
      Delivered last [1, 2, 3, 4] :=
  answers_delivered (guarded_cons step rfl ⟨rfl, by decide⟩ (guarded_cons step rfl ⟨rfl, trivial⟩
    (guarded_cons step rfl ⟨rfl, by decide⟩ (guarded_cons step rfl ⟨rfl, trivial⟩
      (guarded_cons step rfl ⟨rfl, trivial⟩ trivial)))))

end Xcpu.Bjs.ClientBuffer
