import Xcpu.Lib.Handles
import Xcpu.Libspfs.Conn

/-!
The descriptors of a connection: what `conn.c` and the poll loop do with their numbers. The
connection keeps its buffers and queues as before; `log` are the system calls it makes.
-/

namespace Xcpu.Libspfs.Descriptors

open Xcpu.Handles Xcpu.Transition

inductive FdCall where
  | poll
  | read
  | write
  | close
  deriving DecidableEq, Repr

structure FdOp where
  call : FdCall
  fd : Nat
  deriving DecidableEq, Repr

def FdOp.closing (op : FdOp) : Prop := op.call = .close

instance (op : FdOp) : Decidable op.closing := inferInstanceAs (Decidable (op.call = .close))

instance (log : List FdOp) : Decidable (Sound FdOp.closing FdOp.fd log) :=
  inferInstanceAs (Decidable (List.Pairwise _ _))

/-- `writable` is the flag of `spfdout`. The memory of a destroyed connection is gone. -/
structure Fdconn where
  conn : Conn.Spconn
  fdin : Nat
  fdout : Nat
  writable : Bool := false
  destroyed : Bool := false
  log : List FdOp := []

def spConnCreate (srvMsize : Nat) (srvDotu : Bool) (fdin fdout : Nat) : Fdconn where
  conn := Conn.spConnCreate srvMsize srvDotu
  fdin := fdin
  fdout := fdout

def Fdconn.call (c : Fdconn) (ops : List FdOp) : Fdconn := { c with log := c.log ++ ops }

/-- The descriptors that `sp_poll_once` passes to `poll`, until their entries are removed. -/
def Fdconn.polled (c : Fdconn) : List FdOp :=
  ⟨.poll, c.fdin⟩ :: if c.fdin = c.fdout then [] else [⟨.poll, c.fdout⟩]

/-- The descriptor is offered the first reply. -/
def spConnWrite (c : Fdconn) (count : Nat) : Fdconn :=
  if c.conn.ofcalls = [] then c
  else { c.call [⟨.write, c.fdout⟩] with conn := Conn.spConnWrite c.conn count, writable := false }

/-- A reply that is the only one is written when the descriptor is writable. -/
def spConnRespond (c : Fdconn) (req : Conn.Request) (rc : Option (List UInt8)) (count : Nat) : Fdconn :=
  if c.conn.ofcalls = [] ∧ c.writable ∧ rc.isSome then
    { c.call [⟨.write, c.fdout⟩] with
      conn := Conn.spConnRespond c.conn req rc count
      writable := false }
  else { c with conn := Conn.spConnRespond c.conn req rc 0 }

def spAnswer (c : Fdconn) (ref : Nat) (rc : Option (List UInt8)) (count : Nat) : Fdconn :=
  match c.conn.requests.find? (·.ref == ref) with
  | none => c
  | some req => spConnRespond
      { c with conn := { c.conn with requests := c.conn.requests.filter (·.ref ≠ ref) } } req rc count

/-- Whether the answer to a Tversion is the only reply: it is after the reset. -/
def versionFirst (conn : Conn.Spconn) : Bool :=
  match conn.requests with
  | [req] => conn.ofcalls.isEmpty || iohdrsz + 1 ≤ req.tc.msize
  | _ => false

def spVersion (c : Fdconn) (rc : List UInt8) (count : Nat) : Option Fdconn :=
  if c.writable ∧ versionFirst c.conn then
    (Conn.spVersion c.conn rc count).map fun conn =>
      { c.call [⟨.write, c.fdout⟩] with conn := conn, writable := false }
  else (Conn.spVersion c.conn rc 0).map fun conn => { c with conn := conn }

/-- What the flush callback answers for a request, and how much of it the socket takes. -/
abbrev Flush := Nat → Option (List UInt8) × Nat

/-- `sp_conn_reset` of a connection that ends: every request is flushed. -/
def spConnReset (c : Fdconn) (flush : Flush) : Fdconn :=
  let flushed := c.conn.requests.foldl
    (fun c req => spConnRespond c req (flush req.ref).1 (flush req.ref).2)
    { c with conn := { c.conn with requests := [] } }
  { flushed with conn := Conn.spConnReset flushed.conn 0 false }

/-- The second descriptor is the first one again. -/
def Fdconn.destroys (c : Fdconn) : List FdOp :=
  ⟨.close, c.fdin⟩ :: if c.fdout = c.fdin then [] else [⟨.close, c.fdin⟩]

def spConnDestroy (c : Fdconn) (flush : Flush) : Fdconn :=
  { spConnReset (c.call c.destroys) flush with destroyed := true }

/-- How `sp_conn_read` closes when it cannot take a message apart. -/
def Fdconn.shuts (c : Fdconn) : List FdOp :=
  ⟨.close, c.fdin⟩ :: if c.fdout = c.fdin then [] else [⟨.close, c.fdout⟩]

/-- The room left in the incoming fcall; `spfd_read` reads nothing into none. -/
def Fdconn.room (c : Fdconn) : Nat := c.conn.msize - c.conn.buffer.length

/-- `ready` is a descriptor reported writable, `read` one `spfd_read` with what it returns
(`none` below zero), `next` a round of the loop of `sp_conn_read`, `version` and `answer` a
request answered, `write` the other half of `sp_conn_notify`, and `error` its last. -/
inductive FdEvent where
  | poll
  | ready
  | read (got : Option (List UInt8)) (flush : Flush)
  | next
  | version (rc : List UInt8) (count : Nat)
  | answer (ref : Nat) (rc : Option (List UInt8)) (count : Nat)
  | write (count : Nat)
  | error (flush : Flush)

def spConnRead (c : Fdconn) (got : Option (List UInt8)) (flush : Flush) : Option Fdconn :=
  if c.room = 0 then some (spConnDestroy c flush)
  else match got with
    | none => some (c.call [⟨.read, c.fdin⟩])
    | some [] => some (spConnDestroy (c.call [⟨.read, c.fdin⟩]) flush)
    | some data => (Conn.spConnReceive c.conn data).map fun conn =>
        { c.call [⟨.read, c.fdin⟩] with conn := conn }

def spConnNext (c : Fdconn) : Option Fdconn :=
  (Conn.spConnNext c.conn).map fun conn =>
    if conn.closed ∧ ¬ c.conn.closed then { c.call c.shuts with conn := conn }
    else { c with conn := conn }

def Fdconn.step (c : Fdconn) (event : FdEvent) : Option Fdconn :=
  if c.destroyed then some c
  else match event with
    | .poll => some (c.call c.polled)
    | .ready => some { c with writable := true }
    | .read got flush => spConnRead c got flush
    | .next => spConnNext c
    | .version rc count => spVersion c rc count
    | .answer ref rc count => some (spAnswer c ref rc count)
    | .write count => some (spConnWrite c count)
    | .error flush => some (spConnDestroy c flush)

/-- No call on a descriptor after its close, and both are closed once the connection is gone. -/
structure Owned (c : Fdconn) : Prop where
  sound : Sound FdOp.closing FdOp.fd c.log
  released : c.destroyed = true → c.log.count ⟨.close, c.fdin⟩ = 1 ∧ c.log.count ⟨.close, c.fdout⟩ = 1

/-- The flush of the last requests writes no reply, and there is one descriptor only. -/
def Fdconn.Releases (c : Fdconn) (flush : Flush) : Prop :=
  c.fdin = c.fdout ∧ ¬ (c.conn.ofcalls = [] ∧ c.writable ∧
    ∃ req ∈ c.conn.requests, (flush req.ref).1.isSome)

/-- After `sp_conn_read` has closed the descriptors nothing polls, reads, writes or destroys;
a connection is destroyed as `Releases` says. -/
def Permitted (c : Fdconn) : FdEvent → Prop
  | .poll => c.conn.closed = false
  | .ready => True
  | .read got flush => c.conn.closed = false ∧ (c.room = 0 ∨ got = some [] → c.Releases flush)
  | .next => True
  | .version _ _ => c.conn.closed = true → ¬ (c.writable ∧ versionFirst c.conn)
  | .answer ref rc _ => c.conn.closed = true →
      ¬ (c.conn.ofcalls = [] ∧ c.writable ∧ rc.isSome ∧ ∃ req ∈ c.conn.requests, req.ref = ref)
  | .write _ => c.conn.closed = true → c.conn.ofcalls = []
  | .error flush => c.conn.closed = false ∧ c.Releases flush

def Keeps (c : Fdconn) (event : FdEvent) : Prop :=
  c.destroyed = false → c.step event ≠ none → Permitted c event

variable {c next : Fdconn}

theorem connFreeIncall_ofcalls (conn : Conn.Spconn) (fc : Option Conn.Incall) :
    (Conn.spConnFreeIncall conn fc).ofcalls = conn.ofcalls ∧
      (Conn.spConnFreeIncall conn fc).closed = conn.closed := by
  obtain ⟨freerclist, freercnum, freed⟩ := Conn.spConnFreeIncall_frame conn fc
  rw [freed]
  exact ⟨rfl, rfl⟩

theorem connWrite_closed (conn : Conn.Spconn) (count : Nat) :
    (Conn.spConnWrite conn count).closed = conn.closed := by
  unfold Conn.spConnWrite
  split
  · rfl
  · split
    · rfl
    · unfold Conn.Spconn.wrote
      split <;> rfl

theorem connWrite_zero (conn : Conn.Spconn) : Conn.spConnWrite conn 0 = conn := by
  unfold Conn.spConnWrite
  split <;> simp

theorem connRespond_closed (conn : Conn.Spconn) (req : Conn.Request) (rc : Option (List UInt8)) (count : Nat) :
    (Conn.spConnRespond conn req rc count).closed = conn.closed := by
  have freed := (connFreeIncall_ofcalls conn (some req.fc)).2
  cases rc with
  | none => exact freed
  | some pkt =>
      simp only [Conn.spConnRespond]
      split
      · rw [connWrite_closed]
        exact freed
      · exact freed

theorem respond_frame (c : Fdconn) (req : Conn.Request) (rc : Option (List UInt8)) (count : Nat) :
    (spConnRespond c req rc count).fdin = c.fdin ∧ (spConnRespond c req rc count).fdout = c.fdout ∧
    (spConnRespond c req rc count).destroyed = c.destroyed ∧
    (spConnRespond c req rc count).conn.closed = c.conn.closed := by
  unfold spConnRespond
  split
  · exact ⟨rfl, rfl, rfl, connRespond_closed _ _ _ _⟩
  · exact ⟨rfl, rfl, rfl, connRespond_closed _ _ _ _⟩

theorem respond_log (c : Fdconn) (req : Conn.Request) (rc : Option (List UInt8)) (count : Nat) :
    (spConnRespond c req rc count).log = c.log ++
      if c.conn.ofcalls = [] ∧ c.writable ∧ rc.isSome then [⟨.write, c.fdout⟩] else [] := by
  unfold spConnRespond
  split
  · rfl
  · exact (List.append_nil _).symm

theorem respond_queued (c : Fdconn) (req : Conn.Request) (pkt : List UInt8) (count : Nat) :
    ¬ ((spConnRespond c req (some pkt) count).conn.ofcalls = [] ∧
      (spConnRespond c req (some pkt) count).writable) := by
  unfold spConnRespond
  split
  · simp
  · rintro ⟨empty, -⟩
    simp only [Conn.spConnRespond, Conn.Spconn.queue] at empty
    split at empty
    · rw [connWrite_zero] at empty
      simp at empty
    · simp at empty

theorem respond_none (c : Fdconn) (req : Conn.Request) (count : Nat) :
    (spConnRespond c req none count).conn.ofcalls = c.conn.ofcalls ∧
      (spConnRespond c req none count).writable = c.writable := by
  unfold spConnRespond
  rw [if_neg (by simp)]
  exact ⟨(connFreeIncall_ofcalls c.conn (some req.fc)).1, rfl⟩

theorem flush_log (flush : Flush) (reqs : List Conn.Request) (c : Fdconn) :
    (reqs.foldl (fun c req => spConnRespond c req (flush req.ref).1 (flush req.ref).2) c).log =
      c.log ++ if c.conn.ofcalls = [] ∧ c.writable ∧ ∃ req ∈ reqs, (flush req.ref).1.isSome
        then [⟨.write, c.fdout⟩] else [] := by
  induction reqs generalizing c with
  | nil => simp
  | cons req rest ih =>
      rw [List.foldl_cons, ih, respond_log, (respond_frame c req _ _).2.1]
      cases answered : (flush req.ref).1 with
      | none =>
          obtain ⟨ofcalls, writable⟩ := respond_none c req (flush req.ref).2
          rw [ofcalls, writable]
          simp [answered]
      | some pkt =>
          have queued : ¬ ((spConnRespond c req (some pkt) (flush req.ref).2).conn.ofcalls = [] ∧
              (spConnRespond c req (some pkt) (flush req.ref).2).writable ∧
              ∃ req ∈ rest, (flush req.ref).1.isSome) := fun all =>
            respond_queued c req pkt (flush req.ref).2 ⟨all.1, all.2.1⟩
          rw [if_neg queued, List.append_nil]
          simp [answered]

theorem flush_frame (flush : Flush) (reqs : List Conn.Request) (c : Fdconn) :
    (reqs.foldl (fun c req => spConnRespond c req (flush req.ref).1 (flush req.ref).2) c).fdin = c.fdin ∧
    (reqs.foldl (fun c req => spConnRespond c req (flush req.ref).1 (flush req.ref).2) c).fdout = c.fdout := by
  induction reqs generalizing c with
  | nil => exact ⟨rfl, rfl⟩
  | cons req rest ih =>
      obtain ⟨fdin, fdout, -⟩ := respond_frame c req (flush req.ref).1 (flush req.ref).2
      rw [List.foldl_cons, (ih _).1, (ih _).2, fdin, fdout]
      exact ⟨rfl, rfl⟩

theorem destroy_log (c : Fdconn) (ops : List FdOp) (flush : Flush) :
    ∃ written, (spConnDestroy (c.call ops) flush).log = c.log ++ (ops ++ (c.destroys ++ written)) ∧
      (written = [] ∨ written = [⟨.write, c.fdout⟩]) ∧
      (written = [] ↔ ¬ (c.conn.ofcalls = [] ∧ c.writable ∧
        ∃ req ∈ c.conn.requests, (flush req.ref).1.isSome)) := by
  refine ⟨if c.conn.ofcalls = [] ∧ c.writable ∧ ∃ req ∈ c.conn.requests, (flush req.ref).1.isSome
    then [⟨.write, c.fdout⟩] else [], ?_, ?_, ?_⟩
  · rw [← List.append_assoc, ← List.append_assoc]
    exact flush_log flush c.conn.requests
      { (c.call ops).call c.destroys with conn := { c.conn with requests := [] } }
  · split
    · exact .inr rfl
    · exact .inl rfl
  · split
    · rename_i writes
      exact iff_of_false (by simp) (fun silent => silent writes)
    · rename_i silent
      exact iff_of_true rfl silent

theorem destroy_fds (c : Fdconn) (flush : Flush) :
    (spConnDestroy c flush).fdin = c.fdin ∧ (spConnDestroy c flush).fdout = c.fdout :=
  flush_frame flush c.conn.requests { c.call c.destroys with conn := { c.conn with requests := [] } }

/-- The calls before and after `sp_conn_read` has closed the descriptors. -/
structure Logged (c : Fdconn) : Prop where
  own : ∀ op ∈ c.log, op.fd = c.fdin ∨ op.fd = c.fdout
  opened : c.destroyed = false → c.conn.closed = false → ∀ op ∈ c.log, ¬ op.closing
  shut : c.destroyed = false → c.conn.closed = true →
    Spent FdOp.closing FdOp.fd c.log c.fdin ∧ Spent FdOp.closing FdOp.fd c.log c.fdout

/-- A step that makes some calls and closes nothing. -/
structure Quiet (c next : Fdconn) (ops : List FdOp) : Prop where
  log : next.log = c.log ++ ops
  fds : next.fdin = c.fdin ∧ next.fdout = c.fdout
  closed : next.conn.closed = c.conn.closed
  destroyed : next.destroyed = c.destroyed
  own : ∀ op ∈ ops, op.fd = c.fdin ∨ op.fd = c.fdout
  opened : ∀ op ∈ ops, ¬ op.closing

theorem Quiet.logged {ops : List FdOp} (quiet : Quiet c next ops) (logged : Logged c) : Logged next := by
  obtain ⟨fdin, fdout⟩ := quiet.fds
  refine ⟨?_, ?_, ?_⟩
  · intro op member
    rw [quiet.log] at member
    rw [fdin, fdout]
    rcases List.mem_append.mp member with old | new
    · exact logged.own op old
    · exact quiet.own op new
  · intro running opened op member
    rw [quiet.log] at member
    rw [quiet.destroyed] at running
    rw [quiet.closed] at opened
    rcases List.mem_append.mp member with old | new
    · exact logged.opened running opened op old
    · exact quiet.opened op new
  · intro running closed
    rw [quiet.destroyed] at running
    rw [quiet.closed] at closed
    rw [quiet.log, fdin, fdout]
    obtain ⟨first, second⟩ := logged.shut running closed
    constructor
    · obtain ⟨op, member, gone⟩ := first
      exact ⟨op, List.mem_append_left _ member, gone⟩
    · obtain ⟨op, member, gone⟩ := second
      exact ⟨op, List.mem_append_left _ member, gone⟩

theorem owned_iff (running : next.destroyed = false) : Owned next ↔ Sound FdOp.closing FdOp.fd next.log := by
  constructor
  · exact Owned.sound
  · intro sound
    refine ⟨sound, fun gone => ?_⟩
    rw [running] at gone
    contradiction

theorem Logged.spent (logged : Logged c) (running : c.destroyed = false) (closed : c.conn.closed = true)
    {fd : Nat} (own : fd = c.fdin ∨ fd = c.fdout) : Spent FdOp.closing FdOp.fd c.log fd := by
  obtain ⟨fdin, fdout⟩ := logged.shut running closed
  rcases own with rfl | rfl
  · exact fdin
  · exact fdout

theorem Quiet.owned_iff {ops : List FdOp} (quiet : Quiet c next ops) (logged : Logged c) (owned : Owned c)
    (running : c.destroyed = false) : Owned next ↔ (c.conn.closed = true → ops = []) := by
  rw [Descriptors.owned_iff (quiet.destroyed.trans running), quiet.log]
  cases closed : c.conn.closed with
  | false =>
      refine iff_of_true ?_ (by simp)
      exact (sound_append_of_open (logged.opened running closed) owned.sound).mpr (sound_of_open quiet.opened)
  | true =>
      rw [sound_append_of_spent owned.sound fun op member => logged.spent running closed (quiet.own op member)]
      simp

theorem destroys_mem {op : FdOp} (member : op ∈ c.destroys) : op.closing ∧ op.fd = c.fdin := by
  unfold Fdconn.destroys at member
  rcases List.mem_cons.mp member with first | second
  · exact first ▸ ⟨rfl, rfl⟩
  · split at second
    · exact absurd second List.not_mem_nil
    · exact List.mem_singleton.mp second ▸ ⟨rfl, rfl⟩

theorem destroy_owned_iff {ops : List FdOp} (logged : Logged c) (owned : Owned c)
    (running : c.destroyed = false) (own : ∀ op ∈ ops, op.fd = c.fdin ∨ op.fd = c.fdout)
    (opened : ∀ op ∈ ops, ¬ op.closing) (flush : Flush) :
    Owned (spConnDestroy (c.call ops) flush) ↔ c.conn.closed = false ∧ c.Releases flush := by
  obtain ⟨written, log, shape, silent⟩ := destroy_log c ops flush
  obtain ⟨fdin, fdout⟩ := destroy_fds (c.call ops) flush
  cases closed : c.conn.closed with
  | true =>
      refine iff_of_false (fun after => ?_) (by simp)
      have sound := after.sound
      rw [log, sound_append_of_spent owned.sound] at sound
      · simp [Fdconn.destroys] at sound
      · intro op member
        refine logged.spent running closed ?_
        rcases List.mem_append.mp member with before | rest
        · exact own op before
        · rcases List.mem_append.mp rest with closing | writing
          · exact .inl (destroys_mem closing).2
          · rcases shape with none | one
            · exact absurd (none ▸ writing) List.not_mem_nil
            · exact .inr (List.mem_singleton.mp (one ▸ writing) ▸ rfl)
  | false =>
      have before := logged.opened running closed
      constructor
      · intro after
        have sound := after.sound
        rw [log, sound_append_of_open before owned.sound] at sound
        obtain ⟨closes, -, unspent⟩ := sound_append.mp (sound_append.mp sound).2.1
        have one : c.fdin = c.fdout := by
          by_contra different
          rw [Fdconn.destroys, if_neg (Ne.symm different)] at closes
          exact (List.pairwise_cons.mp closes).1 _ List.mem_cons_self rfl rfl
        refine ⟨rfl, one, silent.mp ?_⟩
        rcases shape with none | some
        · exact none
        · refine absurd ?_ (unspent ⟨.write, c.fdout⟩ (some ▸ List.mem_cons_self))
          exact ⟨⟨.close, c.fdin⟩, List.mem_cons_self, rfl, one⟩
      · rintro ⟨-, one, quiet⟩
        rw [silent.mpr quiet, List.append_nil, Fdconn.destroys, if_pos one.symm] at log
        have calls : ∀ op ∈ c.log ++ ops, ¬ op.closing := by
          intro op member
          rcases List.mem_append.mp member with old | new
          · exact before op old
          · exact opened op new
        have unclosed (fd : Nat) : ⟨.close, fd⟩ ∉ c.log ++ ops := fun member => calls _ member rfl
        rw [← List.append_assoc] at log
        have count : (spConnDestroy (c.call ops) flush).log.count ⟨.close, c.fdin⟩ = 1 := by
          rw [log, List.count_append, List.count_eq_zero.mpr (unclosed c.fdin)]
          simp
        refine ⟨?_, fun _ => ?_⟩
        · rw [log, sound_append_of_open calls (sound_of_open calls)]
          exact List.pairwise_singleton _ _
        · rw [fdin, fdout]
          exact ⟨count, one ▸ count⟩

theorem connReceive_closed {conn conn' : Conn.Spconn} {data : List UInt8}
    (received : Conn.spConnReceive conn data = some conn') : conn'.closed = conn.closed := by
  obtain ⟨freerclist, freercnum, taken⟩ := Conn.spConnNewIncall_frame conn
  unfold Conn.spConnReceive at received
  cases input : conn.ifcall with
  | some fc =>
      simp only [input] at received
      split at received
      · exact Option.some.inj received ▸ rfl
      · contradiction
  | none =>
      simp only [input, taken] at received
      split at received
      · exact Option.some.inj received ▸ rfl
      · contradiction

theorem connVersion_closed {conn conn' : Conn.Spconn} {rc : List UInt8} {count : Nat}
    (ran : Conn.spVersion conn rc count = some conn') : conn'.closed = conn.closed := by
  unfold Conn.spVersion at ran
  split at ran
  · split at ran
    · contradiction
    · split at ran
      · rw [← Option.some.inj ran]
        exact connRespond_closed _ _ _ _
      · split at ran
        · contradiction
        · split at ran
          · contradiction
          · rw [← Option.some.inj ran, connRespond_closed]
            exact (connFreeIncall_ofcalls _ _).2
  · contradiction

theorem connNext_closed {conn conn' : Conn.Spconn} (closed : conn.closed = true)
    (ran : Conn.spConnNext conn = some conn') : conn'.closed = true := by
  unfold Conn.spConnNext at ran
  split at ran
  · exact Option.some.inj ran ▸ closed
  · have stopped : conn.ready = false := by simp [Conn.Spconn.ready, closed]
    rw [if_pos (by simp [stopped])] at ran
    exact Option.some.inj ran ▸ closed

theorem Quiet.silent {conn : Conn.Spconn} (closed : conn.closed = c.conn.closed) (writable : Bool) :
    Quiet c { c with conn := conn, writable := writable } [] :=
  ⟨(List.append_nil _).symm, ⟨rfl, rfl⟩, closed, rfl, by simp, by simp⟩

theorem Quiet.one {conn : Conn.Spconn} (closed : conn.closed = c.conn.closed) (writable : Bool) {op : FdOp}
    (own : op.fd = c.fdin ∨ op.fd = c.fdout) (opened : ¬ op.closing) :
    Quiet c { c.call [op] with conn := conn, writable := writable } [op] where
  log := rfl
  fds := ⟨rfl, rfl⟩
  closed := closed
  destroyed := rfl
  own other member := List.mem_singleton.mp member ▸ own
  opened other member := List.mem_singleton.mp member ▸ opened

theorem polled_mem {op : FdOp} (member : op ∈ c.polled) :
    (op.fd = c.fdin ∨ op.fd = c.fdout) ∧ ¬ op.closing := by
  unfold Fdconn.polled at member
  rcases List.mem_cons.mp member with first | second
  · exact first ▸ ⟨.inl rfl, by simp [FdOp.closing]⟩
  · split at second
    · exact absurd second List.not_mem_nil
    · exact List.mem_singleton.mp second ▸ ⟨.inr rfl, by simp [FdOp.closing]⟩

/-- What one step of a connection that is there can do. -/
inductive Did (c next : Fdconn) (event : FdEvent) : Prop where
  | quiet (ops : List FdOp) (quiet : Quiet c next ops)
      (permitted : (c.conn.closed = true → ops = []) ↔ Permitted c event)
  | destroyed (ops : List FdOp) (flush : Flush) (own : ∀ op ∈ ops, op.fd = c.fdin ∨ op.fd = c.fdout)
      (opened : ∀ op ∈ ops, ¬ op.closing) (gone : next = spConnDestroy (c.call ops) flush)
      (permitted : c.conn.closed = false ∧ c.Releases flush ↔ Permitted c event)
  | shut (conn : Conn.Spconn) (open_ : c.conn.closed = false) (closed : conn.closed = true)
      (done : next = { c.call c.shuts with conn := conn }) (permitted : Permitted c event)

theorem respond_quiet (c : Fdconn) (req : Conn.Request) (rc : Option (List UInt8)) (count : Nat) :
    Quiet c (spConnRespond c req rc count)
      (if c.conn.ofcalls = [] ∧ c.writable ∧ rc.isSome then [⟨.write, c.fdout⟩] else []) := by
  unfold spConnRespond
  split
  · exact .one (connRespond_closed _ _ _ _) false (.inr rfl) (by simp [FdOp.closing])
  · exact .silent (connRespond_closed _ _ _ _) c.writable

theorem read_did {got : Option (List UInt8)} {flush : Flush} (read : spConnRead c got flush = some next) :
    Did c next (.read got flush) := by
  have reading : ∀ op ∈ [(⟨.read, c.fdin⟩ : FdOp)], (op.fd = c.fdin ∨ op.fd = c.fdout) ∧ ¬ op.closing := by
    intro op member
    rw [List.mem_singleton.mp member]
    exact ⟨.inl rfl, by simp [FdOp.closing]⟩
  unfold spConnRead at read
  split at read
  · rename_i full
    refine .destroyed [] flush (by simp) (by simp) ?_ ?_
    · rw [← Option.some.inj read]
      simp [Fdconn.call]
    · simp [Permitted, full]
  · rename_i room
    split at read
    · rw [← Option.some.inj read]
      refine .quiet [⟨.read, c.fdin⟩] (.one rfl c.writable (.inl rfl) (by simp [FdOp.closing])) ?_
      simp [Permitted, room]
    · refine .destroyed [⟨.read, c.fdin⟩] flush (fun op member => (reading op member).1)
        (fun op member => (reading op member).2) (Option.some.inj read).symm ?_
      simp [Permitted]
    · rename_i data nonempty
      obtain ⟨conn, received, rfl⟩ := Option.map_eq_some_iff.mp read
      refine .quiet [⟨.read, c.fdin⟩]
        (.one (connReceive_closed received) c.writable (.inl rfl) (by simp [FdOp.closing])) ?_
      simp only [Permitted, room, Option.some.injEq, false_or]
      simpa using fun _ empty => absurd empty nonempty

theorem next_did (stepped : spConnNext c = some next) : Did c next .next := by
  obtain ⟨conn, ran, rfl⟩ := Option.map_eq_some_iff.mp stepped
  split
  · rename_i shut
    exact .shut conn (by simpa using shut.2) shut.1 rfl trivial
  · rename_i kept
    refine .quiet [] (.silent ?_ c.writable) (by simp [Permitted])
    cases closed : c.conn.closed with
    | true => exact connNext_closed closed ran
    | false => simpa [closed] using kept

theorem version_did {rc : List UInt8} {count : Nat} (stepped : spVersion c rc count = some next) :
    Did c next (.version rc count) := by
  unfold spVersion at stepped
  split at stepped
  · rename_i first
    obtain ⟨conn, ran, rfl⟩ := Option.map_eq_some_iff.mp stepped
    refine .quiet [⟨.write, c.fdout⟩]
      (.one (connVersion_closed ran) false (.inr rfl) (by simp [FdOp.closing])) ?_
    simp [Permitted, first]
  · rename_i later
    obtain ⟨conn, ran, rfl⟩ := Option.map_eq_some_iff.mp stepped
    refine .quiet [] (.silent (connVersion_closed ran) c.writable) ?_
    simp [Permitted, later]

theorem answer_did (c : Fdconn) (ref : Nat) (rc : Option (List UInt8)) (count : Nat) :
    Did c (spAnswer c ref rc count) (.answer ref rc count) := by
  unfold spAnswer
  split
  · rename_i missing
    refine .quiet [] (.silent rfl c.writable) ?_
    have absent : ¬ ∃ req ∈ c.conn.requests, req.ref = ref := by
      rintro ⟨req, member, same⟩
      exact List.find?_eq_none.mp missing req member (by simp [same])
    simp only [Permitted, absent, and_false, not_false_eq_true, implies_true]
  · rename_i req found
    have present : ∃ req ∈ c.conn.requests, req.ref = ref :=
      ⟨req, List.mem_of_find?_eq_some found, by simpa using List.find?_some found⟩
    have quiet := respond_quiet
      { c with conn := { c.conn with requests := c.conn.requests.filter (·.ref ≠ ref) } } req rc count
    refine .quiet _ ⟨quiet.log, quiet.fds, quiet.closed, quiet.destroyed, quiet.own, quiet.opened⟩ ?_
    simp only [Permitted, present, and_true]
    split
    · rename_i first
      simp [first]
    · rename_i later
      simp [later]

theorem write_did (c : Fdconn) (count : Nat) : Did c (spConnWrite c count) (.write count) := by
  unfold spConnWrite
  split
  · rename_i empty
    exact .quiet [] (.silent rfl c.writable) (by simp [Permitted, empty])
  · rename_i waiting
    refine .quiet [⟨.write, c.fdout⟩]
      (.one (connWrite_closed _ _) false (.inr rfl) (by simp [FdOp.closing])) ?_
    simp [Permitted, waiting]

theorem step_did {event : FdEvent} (running : c.destroyed = false) (stepped : c.step event = some next) :
    Did c next event := by
  rw [Fdconn.step.eq_def, if_neg (by simp [running])] at stepped
  cases event with
  | poll =>
      rw [← Option.some.inj stepped]
      refine .quiet c.polled ⟨rfl, ⟨rfl, rfl⟩, rfl, rfl, fun op member => (polled_mem member).1,
        fun op member => (polled_mem member).2⟩ ?_
      simp [Permitted, Fdconn.polled]
  | ready =>
      rw [← Option.some.inj stepped]
      exact .quiet [] (.silent rfl true) (by simp [Permitted])
  | read got flush => exact read_did stepped
  | next => exact next_did stepped
  | version rc count => exact version_did stepped
  | answer ref rc count => exact Option.some.inj stepped ▸ answer_did c ref rc count
  | write count => exact Option.some.inj stepped ▸ write_did c count
  | error flush =>
      refine .destroyed [] flush (by simp) (by simp) ?_ Iff.rfl
      rw [← Option.some.inj stepped]
      simp [Fdconn.call]

theorem step_destroyed (gone : c.destroyed = true) (event : FdEvent) : c.step event = some c := by
  cases event with simp only [Fdconn.step, gone, if_true]

theorem shuts_mem {op : FdOp} (member : op ∈ c.shuts) : op.fd = c.fdin ∨ op.fd = c.fdout := by
  unfold Fdconn.shuts at member
  rcases List.mem_cons.mp member with first | second
  · exact first ▸ .inl rfl
  · split at second
    · exact absurd second List.not_mem_nil
    · exact List.mem_singleton.mp second ▸ .inr rfl

theorem shuts_sound (c : Fdconn) : Sound FdOp.closing FdOp.fd c.shuts := by
  unfold Fdconn.shuts
  split
  · exact List.pairwise_singleton _ _
  · rename_i different
    refine List.pairwise_cons.mpr ⟨?_, List.pairwise_singleton _ _⟩
    intro op member _
    rw [List.mem_singleton.mp member]
    exact Ne.symm different

theorem shuts_spent (c : Fdconn) (log : List FdOp) :
    Spent FdOp.closing FdOp.fd (log ++ c.shuts) c.fdin ∧ Spent FdOp.closing FdOp.fd (log ++ c.shuts) c.fdout := by
  have first : Spent FdOp.closing FdOp.fd (log ++ c.shuts) c.fdin :=
    ⟨⟨.close, c.fdin⟩, List.mem_append_right _ List.mem_cons_self, rfl, rfl⟩
  refine ⟨first, ?_⟩
  by_cases one : c.fdout = c.fdin
  · exact one ▸ first
  · refine ⟨⟨.close, c.fdout⟩, List.mem_append_right _ ?_, rfl, rfl⟩
    rw [Fdconn.shuts, if_neg one]
    exact List.mem_cons_of_mem _ List.mem_cons_self

theorem step_logged {event : FdEvent} (logged : Logged c) (running : c.destroyed = false)
    (stepped : c.step event = some next) : Logged next := by
  rcases step_did running stepped with ⟨ops, quiet, -⟩ | ⟨ops, flush, own, opened, rfl, -⟩ |
    ⟨conn, -, closed, rfl, -⟩
  · exact quiet.logged logged
  · obtain ⟨written, log, shape, -⟩ := destroy_log c ops flush
    obtain ⟨fdin, fdout⟩ := destroy_fds (c.call ops) flush
    have gone : (spConnDestroy (c.call ops) flush).destroyed ≠ false := by simp [spConnDestroy]
    refine ⟨?_, fun there => absurd there gone, fun there => absurd there gone⟩
    intro op member
    rw [log] at member
    rw [fdin, fdout]
    rcases List.mem_append.mp member with old | new
    · exact logged.own op old
    · rcases List.mem_append.mp new with before | rest
      · exact own op before
      · rcases List.mem_append.mp rest with closing | writing
        · exact .inl (destroys_mem closing).2
        · rcases shape with none | one
          · exact absurd (none ▸ writing) List.not_mem_nil
          · exact .inr (List.mem_singleton.mp (one ▸ writing) ▸ rfl)
  · refine ⟨?_, fun _ opened => absurd (closed.symm.trans opened) (by decide), fun _ _ => shuts_spent c c.log⟩
    intro op member
    rcases List.mem_append.mp member with old | new
    · exact logged.own op old
    · exact shuts_mem new

theorem step_owned_iff {event : FdEvent} (logged : Logged c) (owned : Owned c) (running : c.destroyed = false)
    (stepped : c.step event = some next) : Owned next ↔ Permitted c event := by
  rcases step_did running stepped with ⟨ops, quiet, permitted⟩ | ⟨ops, flush, own, opened, rfl, permitted⟩ |
    ⟨conn, open_, closed, rfl, permitted⟩
  · exact (quiet.owned_iff logged owned running).trans permitted
  · exact (destroy_owned_iff logged owned running own opened flush).trans permitted
  · refine iff_of_true ⟨?_, fun gone => absurd (running.symm.trans gone) (by decide)⟩ permitted
    exact (sound_append_of_open (logged.opened running open_) owned.sound).mpr (shuts_sound c)

/-- The descriptors are closed once and left alone then, in every state of a run, if and only if
each step of it keeps to what is permitted. -/
theorem descriptors_owned_iff (srvMsize : Nat) (srvDotu : Bool) (fdin fdout : Nat) (events : List FdEvent) :
    EveryStep Fdconn.step (fun _ _ next => Owned next) (spConnCreate srvMsize srvDotu fdin fdout) events ↔
      Guarded Fdconn.step Keeps (spConnCreate srvMsize srvDotu fdin fdout) events := by
  have exact_ (c : Fdconn) (event : FdEvent) (next : Fdconn) (inv : Logged c ∧ Owned c)
      (stepped : c.step event = some next) : Owned next ↔ Keeps c event := by
    cases running : c.destroyed with
    | true =>
        rw [step_destroyed running] at stepped
        refine iff_of_true (Option.some.inj stepped ▸ inv.2) fun there => ?_
        rw [running] at there
        contradiction
    | false =>
        rw [step_owned_iff inv.1 inv.2 running stepped, Keeps]
        simp [running, stepped]
  have preserved (c : Fdconn) (event : FdEvent) (next : Fdconn) (inv : Logged c ∧ Owned c)
      (keeps : Keeps c event) (stepped : c.step event = some next) : Logged next ∧ Owned next := by
    refine ⟨?_, (exact_ c event next inv stepped).mpr keeps⟩
    cases running : c.destroyed with
    | true =>
        rw [step_destroyed running] at stepped
        exact Option.some.inj stepped ▸ inv.1
    | false => exact step_logged inv.1 running stepped
  have initial : Logged (spConnCreate srvMsize srvDotu fdin fdout) ∧
      Owned (spConnCreate srvMsize srvDotu fdin fdout) :=
    ⟨⟨by simp [spConnCreate], by simp [spConnCreate], by simp [spConnCreate, Conn.spConnCreate]⟩,
      ⟨List.Pairwise.nil, by simp [spConnCreate]⟩⟩
  refine everyStep_iff_guarded Fdconn.step preserved exact_ ?_ events initial
  intro c event undefined _ defined
  exact absurd undefined defined

theorem badSize_log :
    (run Fdconn.step (spConnCreate 8192 false 5 5)
      [.poll, .read (some [255, 255, 255, 255]) fun _ => (none, 0), .next]).bind (fun c =>
        (c.step .poll).map Fdconn.log) =
      some [⟨.poll, 5⟩, ⟨.read, 5⟩, ⟨.close, 5⟩, ⟨.poll, 5⟩] := by
  with_unfolding_all decide

theorem badSize_polled_closed :
    ¬ EveryStep Fdconn.step (fun _ _ next => Owned next) (spConnCreate 8192 false 5 5)
      ([.poll, .read (some [255, 255, 255, 255]) fun _ => (none, 0), .next] ++ [.poll]) := by
  intro every
  obtain ⟨c, ran, stepped⟩ := Option.bind_eq_some_iff.mp badSize_log
  obtain ⟨next, polled, log⟩ := Option.map_eq_some_iff.mp stepped
  have last := (everyStep_append Fdconn.step every ran next polled).1.sound
  rw [log] at last
  exact absurd last (by decide)

end Xcpu.Libspfs.Descriptors
