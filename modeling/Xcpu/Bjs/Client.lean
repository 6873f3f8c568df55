import Xcpu.Bjs.Pool
import Xcpu.Lib.Transition

/-!
A client's connection: `client_accept`, the loop of `client_read` over a non-blocking socket, and
`client_write`. The request is processed once, and never lost, exactly as long as no read would block
before it is there as a whole.
-/

namespace Xcpu.Bjs.Client

open Xcpu.Transition

inductive ClientState where
  | read
  | waitNodes
  | waitUpdate
  | flush
  deriving DecidableEq

/-- What a `read` without data returns. -/
inductive Stop where
  | wouldBlock
  | eof
  | error
  deriving DecidableEq

/-- Why `client_destroy` was called: `readable` is a descriptor that comes ready after the request. -/
inductive Cause where
  | stopped (stop : Stop)
  | readable
  | writeError
  | replied
  deriving DecidableEq

/-- A `struct client_t`. `unread` is what the client sends and was not read, `processed` are the values that
were handed to `client_process_sexp`. -/
structure Client where
  state : ClientState := .read
  parser : SexpParser := { sexpParserNew with maxBytes := 10 * 1024 }
  buf : Option Bytes := none
  unread : Bytes
  processed : List Sexp := []
  destroyed : Option Cause := none

/-- `client_accept` of a client that sends `text`. -/
def clientAccept (text : Bytes) : Client := { unread := text }

def bsize : Nat := 4096

/-- `"jobi"` and `"statusupdate"` -/
def jobiAtom : Bytes := [106, 111, 98, 105]
def statusUpdateAtom : Bytes := [115, 116, 97, 116, 117, 115, 117, 112, 100, 97, 116, 101]

section Server

-- the pools of the server, who the client is, and what a request is answered with at once
variable (pools : List Pool) (creds : Creds) (reply : Sexp → Option Bytes)

def clientProcessSexp (c : Client) (sx : Sexp) : Client :=
  let state := match sx.elements with
    | .value val _ =>
        if val = jobiAtom ∧ (submitJob pools creds sx).toBool then .waitNodes
        else if val = statusUpdateAtom then .waitUpdate
        else .flush
    | _ => .flush
  { c with state, buf := reply sx, processed := c.processed ++ [sx] }

/-- `client_read`, where the first reads return up to `n + 1` bytes for each of the numbers, as long as there
are some, and the next one returns `stop`. What a parse error leaves in the parser is not modelled. -/
def clientRead (c : Client) : List Nat → Stop → Option Client
  | [], stop => some { c with destroyed := some (.stopped stop) }
  | n :: sizes, stop =>
      if c.unread = [] then some { c with destroyed := some (.stopped stop) }
      else
        let r := min (n + 1) bsize
        match sexpParserParse c.parser (c.unread.take r) with
        | .error => none
        | .more _ parser => clientRead { c with parser, unread := c.unread.drop r } sizes stop
        | .value _ sx parser =>
            some (clientProcessSexp pools creds reply { c with parser, unread := c.unread.drop r } sx)

/-- `client_write`; `w` is what `write` returns, or `none` for an error. -/
def clientWrite (c : Client) (buf : Bytes) : Option Nat → Client
  | none => { c with destroyed := some .writeError }
  | some w =>
      if buf.length ≤ w then
        if c.state = .flush then { c with destroyed := some .replied } else { c with buf := none }
      else { c with buf := some (buf.drop w) }

inductive Event where
  | readable (sizes : List Nat) (stop : Stop)
  | writable (w : Option Nat)
  deriving DecidableEq

/-- The rounds of the main loop, for one client. -/
def step (c : Client) : Event → Option Client
  | .readable sizes stop =>
      if c.destroyed ≠ none then some c
      else if c.state = .read then clientRead pools creds reply c sizes stop
      else some { c with destroyed := some .readable }
  | .writable w =>
      if c.destroyed ≠ none then some c
      else
        match c.buf with
        | none => some c
        | some buf => some (clientWrite c buf w)

/-- The request is processed once, when all of it was read, and a read that would block is not taken for
the end of the connection. -/
structure Proper (sx : Sexp) (c : Client) : Prop where
  once : c.processed = if c.unread = [] then [sx] else []
  kept : c.destroyed ≠ some (.stopped .wouldBlock)

/-- The reads of one `client_read` that come before one without data. -/
def readable (sizes : List Nat) : Nat := (sizes.map fun n => min (n + 1) bsize).sum

/-- No read would block before the request is there. -/
def Guard (c : Client) : Event → Prop
  | .readable sizes stop => c.destroyed = none → c.state = .read →
      c.unread.length ≤ readable sizes ∨ stop ≠ .wouldBlock
  | .writable _ => True

/-- What is left to read completes the request, or it was processed. -/
structure Inv (sx : Sexp) (t : SexpParser) (c : Client) : Prop where
  reading : c.state = .read →
    c.processed = [] ∧ sexpParserParse c.parser c.unread = .value c.unread.length sx t
  done : c.state ≠ .read → c.processed = [sx] ∧ c.unread = []
  kept : c.destroyed ≠ some (.stopped .wouldBlock)

variable {sx : Sexp} {t : SexpParser} {c next : Client}

theorem clientProcessSexp_state (c : Client) (sx : Sexp) :
    (clientProcessSexp pools creds reply c sx).state ≠ .read := by
  rw [clientProcessSexp]
  dsimp only
  split
  · split
    · exact fun same => by cases same
    · split <;> exact fun same => by cases same
  · exact fun same => by cases same

theorem unread_some (whole : sexpParserParse c.parser c.unread = .value c.unread.length sx t) : c.unread ≠ [] := by
  intro none
  rw [none] at whole
  cases whole

theorem Inv.proper (inv : Inv sx t c) : Proper sx c := by
  refine ⟨?_, inv.kept⟩
  by_cases reading : c.state = .read
  · obtain ⟨nothing, whole⟩ := inv.reading reading
    rw [nothing, if_neg (unread_some whole)]
  · obtain ⟨processed, read⟩ := inv.done reading
    rw [processed, if_pos read]

/-- The whole loop: the request is processed, or the reads ended before it was there. -/
theorem clientRead_cases (sizes : List Nat) (stop : Stop) (reading : c.state = .read) (alive : c.destroyed = none)
    (nothing : c.processed = []) (whole : sexpParserParse c.parser c.unread = .value c.unread.length sx t) :
    ∃ next, clientRead pools creds reply c sizes stop = some next ∧
      if c.unread.length ≤ readable sizes then
        next.state ≠ .read ∧ next.processed = [sx] ∧ next.unread = [] ∧ next.destroyed = none
      else
        next.state = .read ∧ next.processed = [] ∧ next.destroyed = some (.stopped stop) ∧
          sexpParserParse next.parser next.unread = .value next.unread.length sx t := by
  induction sizes generalizing c with
  | nil =>
      have some_left : ¬c.unread.length ≤ readable [] := by
        have bytes := List.length_pos_iff.mpr (unread_some whole)
        rw [readable, List.map_nil, List.sum_nil]
        omega
      refine ⟨_, rfl, ?_⟩
      rw [if_neg some_left]
      exact ⟨reading, nothing, rfl, whole⟩
  | cons n sizes ih =>
      have bytes := unread_some whole
      have lengths : (c.unread.take (min (n + 1) bsize)).length + (c.unread.drop (min (n + 1) bsize)).length =
          c.unread.length := by
        rw [← List.length_append, List.take_append_drop]
      have more : readable (n :: sizes) = min (n + 1) bsize + readable sizes := List.sum_cons
      rw [clientRead, if_neg bytes]
      dsimp only
      rcases sexpParserParse_cut (by rw [List.take_append_drop]; exact whole :
          sexpParserParse c.parser (c.unread.take (min (n + 1) bsize) ++ c.unread.drop (min (n + 1) bsize)) =
            .value c.unread.length sx t) with ⟨short, parsed⟩ | ⟨parser, later, split, parsed, onward⟩
      · have all : (c.unread.drop (min (n + 1) bsize)) = [] := List.eq_nil_of_length_eq_zero (by omega)
        rw [parsed]
        refine ⟨_, rfl, ?_⟩
        rw [List.length_take] at short
        rw [if_pos (by omega)]
        refine ⟨clientProcessSexp_state pools creds reply _ sx, ?_, all, alive⟩
        rw [clientProcessSexp]
        dsimp only
        rw [nothing, List.nil_append]
      · have used := sexpParserParse_used onward
        have same : later = (c.unread.drop (min (n + 1) bsize)).length := by omega
        rw [parsed]
        obtain ⟨next, read, outcome⟩ := @ih { c with parser, unread := c.unread.drop (min (n + 1) bsize) }
          reading alive nothing (same ▸ onward)
        refine ⟨next, read, ?_⟩
        rw [List.length_take] at lengths split
        have enough : (c.unread.drop (min (n + 1) bsize)).length ≤ readable sizes ↔
            c.unread.length ≤ readable (n :: sizes) := by omega
        simpa only [enough] using outcome

theorem clientWrite_keeps (inv : Inv sx t c) (buf : Bytes) (w : Option Nat) : Inv sx t (clientWrite c buf w) := by
  cases w with
  | none => exact ⟨inv.reading, inv.done, fun same => by cases same⟩
  | some w =>
      rw [clientWrite]
      split
      · split
        · exact ⟨inv.reading, inv.done, fun same => by cases same⟩
        · exact ⟨inv.reading, inv.done, inv.kept⟩
      · exact ⟨inv.reading, inv.done, inv.kept⟩

theorem step_exact (inv : Inv sx t c) (event : Event) :
    ((∃ next, step pools creds reply c event = some next ∧ Proper sx next) ↔ Guard c event) ∧
      ∀ next, step pools creds reply c event = some next → Proper sx next → Inv sx t next := by
  have unchanged (next : Client) (stepped : step pools creds reply c event = some next) (guard : Guard c event)
      (kept : Inv sx t next) :
      ((∃ next, step pools creds reply c event = some next ∧ Proper sx next) ↔ Guard c event) ∧
        ∀ next, step pools creds reply c event = some next → Proper sx next → Inv sx t next := by
    refine ⟨iff_of_true ⟨next, stepped, kept.proper⟩ guard, fun other same _ => ?_⟩
    rw [stepped, Option.some.injEq] at same
    exact same ▸ kept
  cases event with
  | readable sizes stop =>
      by_cases gone : c.destroyed = none
      · by_cases reading : c.state = .read
        · obtain ⟨nothing, whole⟩ := inv.reading reading
          have stepped : step pools creds reply c (.readable sizes stop) =
              clientRead pools creds reply c sizes stop := by
            rw [step, if_neg (not_not.mpr gone), if_pos reading]
          obtain ⟨next, read, outcome⟩ := clientRead_cases pools creds reply sizes stop reading gone nothing whole
          by_cases enough : c.unread.length ≤ readable sizes
          · rw [if_pos enough] at outcome
            obtain ⟨busy, processed, all, alive⟩ := outcome
            refine unchanged next (stepped.trans read) (fun _ _ => .inl enough)
              ⟨fun still => absurd still busy, fun _ => ⟨processed, all⟩, ?_⟩
            rw [alive]
            exact fun same => by cases same
          · rw [if_neg enough] at outcome
            obtain ⟨still, processed, ended, onward⟩ := outcome
            by_cases blocks : stop = .wouldBlock
            · have lost (other : Client) (same : step pools creds reply c (.readable sizes stop) = some other) :
                  ¬Proper sx other := by
                rw [stepped, read, Option.some.injEq] at same
                intro proper
                rw [← same] at proper
                exact proper.kept (by rw [ended, blocks])
              refine ⟨iff_of_false (fun ⟨other, same, proper⟩ => lost other same proper) ?_,
                fun other same proper => absurd proper (lost other same)⟩
              exact fun guard => (guard gone reading).elim enough fun other => other blocks
            · refine unchanged next (stepped.trans read) (fun _ _ => .inr blocks)
                ⟨fun _ => ⟨processed, onward⟩, fun busy => absurd still busy, ?_⟩
              rw [ended]
              intro same
              cases same
              exact blocks rfl
        · refine unchanged { c with destroyed := some .readable } ?_ (fun _ still => absurd still reading)
            ⟨inv.reading, inv.done, fun same => by cases same⟩
          rw [step, if_neg (not_not.mpr gone), if_neg reading]
      · refine unchanged c ?_ (fun alive => absurd alive gone) inv
        rw [step, if_pos gone]
  | writable w =>
      by_cases gone : c.destroyed = none
      · cases there : c.buf with
        | none =>
            refine unchanged c ?_ trivial inv
            rw [step, if_neg (not_not.mpr gone), there]
        | some buf =>
            refine unchanged (clientWrite c buf w) ?_ trivial (clientWrite_keeps inv buf w)
            rw [step, if_neg (not_not.mpr gone), there]
      · refine unchanged c ?_ trivial inv
        rw [step, if_pos gone]

/-- A request within the limit of the parser, however it arrives. -/
theorem request_processed_once (text : Bytes) (sx : Sexp) (t : SexpParser)
    (request : sexpParserParse { sexpParserNew with maxBytes := 10 * 1024 } text = .value text.length sx t)
    (events : List Event) :
    Throughout (step pools creds reply) (Proper sx) (clientAccept text) events ↔
      Guarded (step pools creds reply) Guard (clientAccept text) events := by
  have accepted : Inv sx t (clientAccept text) :=
    ⟨fun _ => ⟨rfl, request⟩, fun busy => absurd rfl busy, fun same => by cases same⟩
  exact throughout_iff_guarded _ (fun _ event (inv : Inv sx t _) => (step_exact pools creds reply inv event).1)
    (fun _ event next inv => (step_exact pools creds reply inv event).2 next) events accepted

end Server

/-- `(a)` in two segments. -/
theorem request_processed_once_a :
    Throughout (step [] ⟨0, 0⟩ fun _ => none) (Proper (.list (.value [97] .null) .null)) (clientAccept [40, 97, 41])
        [.readable [0, 1] .wouldBlock] ↔
      Guarded (step [] ⟨0, 0⟩ fun _ => none) Guard (clientAccept [40, 97, 41]) [.readable [0, 1] .wouldBlock] :=
  request_processed_once [] ⟨0, 0⟩ (fun _ => none) [40, 97, 41] _ sexpParserNew (by decide) _

/-- Between the segments a read would block. -/
theorem segment_lost :
    sexpParserParse { sexpParserNew with maxBytes := 10 * 1024 } [40, 97, 41] =
        .value 3 (.list (.value [97] .null) .null) sexpParserNew ∧
      ¬Throughout (step [] ⟨0, 0⟩ fun _ => none) (Proper (.list (.value [97] .null) .null))
        (clientAccept [40, 97, 41]) [.readable [0] .wouldBlock, .readable [1] .wouldBlock] := by
  refine ⟨by decide, ?_⟩
  rintro ⟨next, stepped, proper, -⟩
  have ended : ((step [] ⟨0, 0⟩ (fun _ => none) (clientAccept [40, 97, 41]) (.readable [0] .wouldBlock)).map
      Client.destroyed) = some (some (.stopped .wouldBlock)) := by decide
  rw [stepped, Option.map_some, Option.some.injEq] at ended
  exact proper.kept ended

end Xcpu.Bjs.Client
