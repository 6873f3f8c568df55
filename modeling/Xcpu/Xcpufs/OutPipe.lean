import Xcpu.Lib.Transition

/-!
A pipe from the standard output or error of a session. Treads wait in a queue sorted by fid,
and every pass over it answers all of them from the one buffer.
-/

namespace Xcpu.Xcpufs.OutPipe

open Xcpu.Transition

/-- `seq` stands for the address of the request and numbers the requests as they arrive. -/
structure Xpipereq where
  seq : Nat
  fid : Nat
  count : Nat
  deriving DecidableEq, Repr

/-- `opened` is whether `lspfd` is set, `readable` and `error` are its flags; the fields from
`produced` on are the history. -/
structure Xfilepipe where
  opened : Bool := true
  readable : Bool := false
  error : Bool := false
  reqs : List Xpipereq := []
  buf : List UInt8 := []
  bufsize : Nat := 256
  nextSeq : Nat := 0
  -- what is in the pipe of the kernel, and whether its last writer is gone
  pending : List UInt8 := []
  ended : Bool := false
  produced : List UInt8 := []
  answers : List (Xpipereq × List UInt8) := []
  flushed : List Xpipereq := []
  deriving DecidableEq, Repr

/-- `spfd_read` into the rest of the buffer. -/
def spfdRead (p : Xfilepipe) : Xfilepipe :=
  { p with
    buf := p.buf ++ p.pending.take (p.bufsize - p.buf.length)
    pending := p.pending.drop (p.bufsize - p.buf.length)
    readable := false }

/-- The loop over the requests in `pip_read_buf`; its counter `n` starts again with each fid. -/
def readBuf (buf : List UInt8) (opened : Bool) : List Xpipereq → Nat → Nat → Nat →
    List Xpipereq × List (Xpipereq × List UInt8) × Nat
  | [], _, n, len => ([], [], min len n)
  | preq :: rest, fid, n, len =>
      let count := if preq.fid = fid then n else 0
      let least := if preq.fid = fid then len else min len n
      if count ≤ buf.length ∨ opened = false then
        let m := min (buf.length - count) preq.count
        let (kept, answers, shortest) := readBuf buf opened rest preq.fid (count + m) least
        (kept, (preq, (buf.drop count).take m) :: answers, shortest)
      else
        let (kept, answers, shortest) := readBuf buf opened rest preq.fid count least
        (preq :: kept, answers, shortest)

def pipReadBuf (p : Xfilepipe) : Xfilepipe :=
  match p.reqs with
  | [] => p
  | first :: _ =>
      let (kept, answers, len) := readBuf p.buf p.opened p.reqs first.fid 0 p.buf.length
      { p with reqs := kept, buf := p.buf.drop len, answers := p.answers ++ answers }

/-- The loop of `pip_read_eof`, which ends with the first read that returns nothing. -/
def readEof : Nat → Xfilepipe → Xfilepipe
  | 0, p => p
  | fuel + 1, p =>
      let p := if p.bufsize < p.buf.length + 32 then { p with bufsize := p.bufsize + 32 } else p
      if p.pending = [] then spfdRead p else readEof fuel (spfdRead p)

def pipReadEof (p : Xfilepipe) : Xfilepipe := readEof (p.pending.length + 1) p

def pipRead (p : Xfilepipe) : Xfilepipe :=
  if p.error then pipReadBuf (pipReadEof p)
  else pipReadBuf (if p.buf.length < p.bufsize then spfdRead p else p)

def pipDisconnect (p : Xfilepipe) : Xfilepipe := pipReadBuf { p with opened := false }

def pipNotify (p : Xfilepipe) : Xfilepipe :=
  let p := if p.buf ≠ [] ∨ p.readable = true then pipRead p else p
  if p.error then pipDisconnect (pipReadEof p) else p

def queue (p : Xfilepipe) (r : Xpipereq) : Xfilepipe :=
  { p with
    reqs := p.reqs.takeWhile (·.fid ≤ r.fid) ++ r :: p.reqs.dropWhile (·.fid ≤ r.fid)
    nextSeq := p.nextSeq + 1 }

/-- On a pipe that is disconnected and empty the request is answered at once, and stays queued. -/
def pipAddreq (p : Xfilepipe) (fid count : Nat) : Xfilepipe :=
  let r : Xpipereq := ⟨p.nextSeq, fid, count⟩
  let queued := queue p r
  if p.opened then pipNotify queued
  else if p.buf = [] then { queued with answers := queued.answers ++ [(r, [])] }
  else pipReadBuf queued

def pipFlushreq (p : Xfilepipe) (seq : Nat) : Xfilepipe :=
  match p.reqs.find? (·.seq == seq) with
  | some preq => { p with reqs := p.reqs.eraseP (·.seq == seq), flushed := p.flushed ++ [preq] }
  | none => p

/-- `sp_poll_once`: an end of file is reported as an error, each time, and new input once. -/
def poll (p : Xfilepipe) : Xfilepipe :=
  if p.opened = false then p
  else if p.ended then pipNotify { p with error := true, readable := p.readable || decide (p.pending ≠ []) }
  else if p.pending ≠ [] ∧ p.readable = false then pipNotify { p with readable := true }
  else p

inductive PipeEvent where
  -- the process writes, and its last descriptor is closed
  | produce (data : List UInt8)
  | finish
  | poll
  | addreq (fid count : Nat)
  | flushreq (seq : Nat)
  deriving DecidableEq, Repr

def step (p : Xfilepipe) : PipeEvent → Option Xfilepipe
  | .produce data =>
      if p.ended then none
      else some { p with pending := p.pending ++ data, produced := p.produced ++ data }
  | .finish => some { p with ended := true }
  | .poll => some (poll p)
  | .addreq fid count => some (pipAddreq p fid count)
  | .flushreq seq => some (pipFlushreq p seq)

section OneReader

/-- What a session and one reader of its output do. -/
inductive ReaderEvent where
  | produce (data : List UInt8)
  | finish
  | poll
  | tread (count : Nat)
  | flush (seq : Nat)
  deriving DecidableEq, Repr

def ReaderEvent.through (fid : Nat) : ReaderEvent → PipeEvent
  | .produce data => .produce data
  | .finish => .finish
  | .poll => .poll
  | .tread count => .addreq fid count
  | .flush seq => .flushreq seq

def stepThrough (fid : Nat) (p : Xfilepipe) (event : ReaderEvent) : Option Xfilepipe := step p (event.through fid)

/-- The replies and the buffer are the output in order, and only at its end is a reply empty. -/
structure Delivers (p : Xfilepipe) (_event : ReaderEvent) (next : Xfilepipe) : Prop where
  stream : next.answers.flatMap Prod.snd ++ next.buf ++ next.pending = next.produced
  empty : ∀ answer ∈ next.answers.drop p.answers.length, answer.2 = [] → answer.1.count ≠ 0 →
    next.ended = true ∧ next.buf = [] ∧ next.pending = []

/-- The bytes reach every request that asks for some. -/
def Served : List Xpipereq → Nat → Prop
  | [], _ => True
  | preq :: rest, bytes => (preq.count ≠ 0 → 0 < bytes) ∧ Served rest (bytes - preq.count)

/-- What has come in when the poll loop looks at the pipe is enough for all requests that wait. -/
def Enough (p : Xfilepipe) : ReaderEvent → Prop
  | .poll => p.opened = true → p.ended = false → p.pending ≠ [] → p.readable = false →
      Served p.reqs (min p.pending.length p.bufsize)
  | _ => True

/-- What each of the requests gets of the buffer when one reader sent them all. -/
def serve : List Xpipereq → List UInt8 → List (Xpipereq × List UInt8)
  | [], _ => []
  | preq :: rest, buf => (preq, buf.take preq.count) :: serve rest (buf.drop preq.count)

def total (reqs : List Xpipereq) : Nat := (reqs.map Xpipereq.count).sum

theorem serve_stream (reqs : List Xpipereq) (buf : List UInt8) :
    (serve reqs buf).flatMap Prod.snd ++ buf.drop (total reqs) = buf := by
  induction reqs generalizing buf with
  | nil => simp [serve, total]
  | cons preq rest ih =>
      have later := ih (buf.drop preq.count)
      rw [List.drop_drop] at later
      simp only [serve, List.flatMap_cons, total, List.map_cons, List.sum_cons, List.append_assoc] at later ⊢
      rw [later, List.take_append_drop]

theorem serve_nonempty_iff (reqs : List Xpipereq) (buf : List UInt8) :
    (∀ answer ∈ serve reqs buf, answer.2 = [] → answer.1.count = 0) ↔ Served reqs buf.length := by
  induction reqs generalizing buf with
  | nil => simp [serve, Served]
  | cons preq rest ih =>
      have later := ih (buf.drop preq.count)
      rw [List.length_drop] at later
      rw [Served, ← later, serve, List.forall_mem_cons]
      refine and_congr_left' ?_
      cases buf with
      | nil => simp
      | cons byte bytes =>
          simp only [List.take_eq_nil_iff, reduceCtorEq, or_false, List.length_cons, Nat.zero_lt_succ, implies_true,
            iff_true]
          exact id

theorem serve_empty {reqs : List Xpipereq} {buf : List UInt8} {answer : Xpipereq × List UInt8}
    (member : answer ∈ serve reqs buf) (empty : answer.2 = []) (asked : answer.1.count ≠ 0) :
    buf.drop (total reqs) = [] := by
  induction reqs generalizing buf with
  | nil => exact absurd member List.not_mem_nil
  | cons preq rest ih =>
      rw [total, List.map_cons, List.sum_cons, ← List.drop_drop]
      rcases List.mem_cons.mp member with rfl | later
      · rcases List.take_eq_nil_iff.mp empty with zero | none
        · exact absurd zero asked
        · rw [none, List.drop_nil, List.drop_nil]
      · exact ih later

theorem readBuf_one {fid : Nat} {reqs : List Xpipereq} (same : ∀ preq ∈ reqs, preq.fid = fid) (buf : List UInt8)
    (opened : Bool) {n len : Nat} (within : n ≤ buf.length) :
    readBuf buf opened reqs fid n len =
      ([], serve reqs (buf.drop n), min len (min buf.length (n + total reqs))) := by
  induction reqs generalizing n with
  | nil =>
      simp only [readBuf, serve, total, List.map_nil, List.sum_nil, Nat.add_zero]
      rw [Nat.min_eq_right within]
  | cons preq rest ih =>
      have mine : preq.fid = fid := same preq List.mem_cons_self
      have later := ih (fun other member => same other (List.mem_cons_of_mem _ member))
        (n := n + min (buf.length - n) preq.count) (by omega)
      simp only [readBuf, mine, if_true, within, true_or, later, serve, total, List.map_cons, List.sum_cons,
        List.drop_drop]
      by_cases fits : preq.count ≤ buf.length - n
      · rw [Nat.min_eq_right fits, Nat.add_assoc]
      · have all : buf.drop (n + (buf.length - n)) = [] := List.drop_eq_nil_of_le (by omega)
        have none : buf.drop (n + preq.count) = [] := List.drop_eq_nil_of_le (by omega)
        have taken : (buf.drop n).take (buf.length - n) = (buf.drop n).take preq.count := by
          rw [List.take_of_length_le (by simp), List.take_of_length_le (by rw [List.length_drop]; omega)]
        have length : min buf.length (n + (buf.length - n) + (rest.map Xpipereq.count).sum) =
            min buf.length (n + (preq.count + (rest.map Xpipereq.count).sum)) := by omega
        rw [Nat.min_eq_left (by omega), all, none, taken, length]

theorem pipReadBuf_one {fid : Nat} {p : Xfilepipe} (same : ∀ preq ∈ p.reqs, preq.fid = fid) :
    pipReadBuf p =
      { p with reqs := [], buf := p.buf.drop (total p.reqs), answers := p.answers ++ serve p.reqs p.buf } := by
  obtain ⟨opened, readable, error, reqs, buf, bufsize, nextSeq, pending, ended, produced, answers, flushed⟩ := p
  cases reqs with
  | nil => simp [pipReadBuf, serve, total]
  | cons first rest =>
      have mine : first.fid = fid := same first List.mem_cons_self
      have pass := @readBuf_one fid (first :: rest) same buf opened 0 buf.length (Nat.zero_le _)
      rw [List.drop_zero, Nat.zero_add] at pass
      simp only [pipReadBuf, mine, pass]
      congr 1
      rcases Nat.le_total buf.length (total (first :: rest)) with short | long
      · rw [Nat.min_eq_left short, Nat.min_self, List.drop_length, List.drop_eq_nil_of_le short]
      · rw [Nat.min_eq_right long, Nat.min_eq_right long]

theorem readEof_succ (fuel : Nat) (p : Xfilepipe) :
    ∃ bufsize, (p.buf.length ≤ p.bufsize → p.buf.length + 32 ≤ bufsize) ∧
      readEof (fuel + 1) p = if p.pending = [] then spfdRead { p with bufsize := bufsize }
        else readEof fuel (spfdRead { p with bufsize := bufsize }) := by
  by_cases crowded : p.bufsize < p.buf.length + 32
  · refine ⟨p.bufsize + 32, by omega, ?_⟩
    rw [readEof, if_pos crowded]
  · refine ⟨p.bufsize, by omega, ?_⟩
    rw [readEof, if_neg crowded]

theorem readEof_drains {fuel : Nat} {p : Xfilepipe} (enough : p.pending.length < fuel)
    (room : p.buf.length ≤ p.bufsize) :
    ∃ bufsize, p.buf.length + p.pending.length ≤ bufsize ∧ readEof fuel p =
      { p with buf := p.buf ++ p.pending, pending := [], readable := false, bufsize := bufsize } := by
  induction fuel generalizing p with
  | zero => omega
  | succ fuel ih =>
      obtain ⟨bufsize, grown, ran⟩ := readEof_succ fuel p
      have larger := grown room
      rw [ran]
      by_cases drained : p.pending = []
      · refine ⟨bufsize, by rw [drained, List.length_nil]; omega, ?_⟩
        rw [if_pos drained]
        simp [spfdRead, drained]
      · have some := List.length_pos_iff.mpr drained
        obtain ⟨final, fits, rest⟩ := ih (p := spfdRead { p with bufsize := bufsize })
          (by simp only [spfdRead, List.length_drop]; omega)
          (by simp only [spfdRead, List.length_append, List.length_take]; omega)
        simp only [spfdRead, List.length_append, List.length_take, List.length_drop] at fits
        refine ⟨final, by omega, ?_⟩
        rw [if_neg drained, rest]
        simp [spfdRead]

theorem pipReadEof_drains {p : Xfilepipe} (room : p.buf.length ≤ p.bufsize) :
    ∃ bufsize, p.buf.length + p.pending.length ≤ bufsize ∧ pipReadEof p =
      { p with buf := p.buf ++ p.pending, pending := [], readable := false, bufsize := bufsize } :=
  readEof_drains (Nat.lt_succ_self _) room

/-- All that is left of the output has been read and offered to the requests that wait. -/
def Xfilepipe.servedAll (p : Xfilepipe) (bufsize : Nat) : Xfilepipe :=
  { p with
    readable := false
    reqs := []
    buf := (p.buf ++ p.pending).drop (total p.reqs)
    pending := []
    bufsize := bufsize
    answers := p.answers ++ serve p.reqs (p.buf ++ p.pending) }

theorem pipNotify_eof {fid : Nat} {p : Xfilepipe} (mine : ∀ preq ∈ p.reqs, preq.fid = fid)
    (room : p.buf.length ≤ p.bufsize) (error : p.error = true) :
    ∃ bufsize, (p.servedAll bufsize).buf.length ≤ bufsize ∧
      pipNotify p = { p.servedAll bufsize with opened := false } := by
  obtain ⟨size, fits, drained⟩ := pipReadEof_drains room
  have inside : (p.servedAll size).buf.length ≤ size := by
    simp only [Xfilepipe.servedAll, List.length_drop, List.length_append]
    omega
  unfold pipNotify
  by_cases called : p.buf ≠ [] ∨ p.readable = true
  · have read : pipRead p = p.servedAll size := by
      rw [pipRead, if_pos error, drained]
      exact pipReadBuf_one mine
    obtain ⟨final, larger, again⟩ := pipReadEof_drains (p := p.servedAll size) inside
    have same : pipReadEof (p.servedAll size) = p.servedAll final := by
      rw [again]
      simp [Xfilepipe.servedAll]
    refine ⟨final, (Nat.le_add_right _ _).trans larger, ?_⟩
    rw [if_pos called, read]
    dsimp only
    rw [if_pos (show (p.servedAll size).error = true from error), same]
    rfl
  · rw [if_neg called]
    dsimp only
    rw [if_pos error, drained]
    exact ⟨size, inside, pipReadBuf_one mine⟩

theorem pipNotify_input {fid : Nat} {p : Xfilepipe} (mine : ∀ preq ∈ p.reqs, preq.fid = fid)
    (calm : p.error = false) (called : p.buf ≠ [] ∨ p.readable = true) :
    ∃ readable, (readable = true → p.readable = true ∧ p.bufsize ≤ p.buf.length) ∧ pipNotify p =
      { p with
        readable := readable
        reqs := []
        buf := (p.buf ++ p.pending.take (p.bufsize - p.buf.length)).drop (total p.reqs)
        pending := p.pending.drop (p.bufsize - p.buf.length)
        answers := p.answers ++ serve p.reqs (p.buf ++ p.pending.take (p.bufsize - p.buf.length)) } := by
  have error : ¬ p.error = true := by
    rw [calm]
    exact Bool.false_ne_true
  by_cases room : p.buf.length < p.bufsize
  · have read : pipRead p = pipReadBuf (spfdRead p) := by
      rw [pipRead, if_neg error, if_pos room]
    refine ⟨false, fun same => by contradiction, ?_⟩
    rw [pipNotify, if_pos called, read, pipReadBuf_one (p := spfdRead p) mine]
    exact if_neg error
  · have read : pipRead p = pipReadBuf p := by
      rw [pipRead, if_neg error, if_neg room]
    have full : p.bufsize - p.buf.length = 0 := by omega
    refine ⟨p.readable, fun same => ⟨same, by omega⟩, ?_⟩
    rw [pipNotify, if_pos called, read, pipReadBuf_one mine, full]
    simp only [List.take_zero, List.drop_zero, List.append_nil]
    exact if_neg error

theorem pipNotify_quiet {p : Xfilepipe} (calm : p.error = false) (quiet : ¬ (p.buf ≠ [] ∨ p.readable = true)) :
    pipNotify p = p := by
  rw [pipNotify, if_neg quiet, calm]
  rfl

/-- What one reader's requests leave between two steps. -/
structure Flowing (fid : Nat) (p : Xfilepipe) : Prop where
  mine : ∀ preq ∈ p.reqs, preq.fid = fid
  stream : p.answers.flatMap Prod.snd ++ p.buf ++ p.pending = p.produced
  room : p.buf.length ≤ p.bufsize
  positive : p.opened = true → 0 < p.bufsize
  waiting : p.opened = true → p.reqs ≠ [] → p.buf = [] ∧ p.readable = false
  calm : p.opened = true → p.error = false
  readable : p.opened = true → p.readable = true → p.pending ≠ []
  closed : p.opened = false → p.ended = true ∧ p.pending = [] ∧ (p.buf ≠ [] → p.reqs = [])

variable {fid : Nat} {p next : Xfilepipe}

theorem Delivers.of_silent {event : ReaderEvent} (flowing : Flowing fid next) (silent : next.answers = p.answers) :
    Delivers p event next := by
  refine ⟨flowing.stream, ?_⟩
  intro answer member
  rw [silent, List.drop_length] at member
  exact absurd member List.not_mem_nil

theorem produce_flowing (flowing : Flowing fid p) (ended : p.ended = false) (data : List UInt8) :
    Flowing fid { p with pending := p.pending ++ data, produced := p.produced ++ data } := by
  refine ⟨flowing.mine, ?_, flowing.room, flowing.positive, flowing.waiting, flowing.calm, ?_, ?_⟩
  · exact (List.append_assoc _ _ _).symm.trans (congrArg (· ++ data) flowing.stream)
  · intro opened readable empty
    exact flowing.readable opened readable (List.append_eq_nil_iff.mp empty).1
  · intro closed
    have stopped := (flowing.closed closed).1
    rw [ended] at stopped
    contradiction

theorem finish_flowing (flowing : Flowing fid p) : Flowing fid { p with ended := true } := by
  refine ⟨flowing.mine, flowing.stream, flowing.room, flowing.positive, flowing.waiting, flowing.calm,
    flowing.readable, ?_⟩
  intro closed
  exact ⟨rfl, (flowing.closed closed).2⟩

theorem flush_flowing (flowing : Flowing fid p) (seq : Nat) :
    Flowing fid (pipFlushreq p seq) ∧ (pipFlushreq p seq).answers = p.answers := by
  unfold pipFlushreq
  split
  · refine ⟨⟨?_, flowing.stream, flowing.room, flowing.positive, ?_, flowing.calm, flowing.readable, ?_⟩, rfl⟩
    · intro preq member
      exact flowing.mine preq (List.mem_of_mem_eraseP member)
    · intro opened some
      refine flowing.waiting opened fun none => some ?_
      dsimp only
      rw [none]
      rfl
    · intro closed
      obtain ⟨ended, pending, stale⟩ := flowing.closed closed
      refine ⟨ended, pending, fun some => ?_⟩
      dsimp only
      rw [stale some]
      rfl
  · exact ⟨flowing, rfl⟩

theorem queue_mine (flowing : Flowing fid p) (count : Nat) :
    ∀ preq ∈ (queue p ⟨p.nextSeq, fid, count⟩).reqs, preq.fid = fid := by
  intro preq member
  rcases List.mem_append.mp member with before | here
  · exact flowing.mine preq (List.takeWhile_subset _ before)
  · rcases List.mem_cons.mp here with rfl | after
    · rfl
    · exact flowing.mine preq (List.dropWhile_subset _ after)

theorem served_stream (flowing : Flowing fid p) (reqs : List Xpipereq) {taken rest : List UInt8}
    (split : taken ++ rest = p.pending) :
    (p.answers ++ serve reqs (p.buf ++ taken)).flatMap Prod.snd ++ (p.buf ++ taken).drop (total reqs) ++ rest =
      p.produced := by
  rw [List.flatMap_append, List.append_assoc (p.answers.flatMap Prod.snd), serve_stream, ← flowing.stream, ← split]
  simp only [List.append_assoc]

/-- What `pipNotify_input` leaves, for the requests that were waiting and maybe one more. -/
theorem input_flowing (flowing : Flowing fid p) (opened : p.opened = true) (reqs : List Xpipereq) (nextSeq : Nat)
    {readable : Bool} (unread : readable = true → p.pending ≠ [] ∧ p.bufsize ≤ p.buf.length) :
    Flowing fid
      { p with
        readable := readable
        reqs := []
        nextSeq := nextSeq
        buf := (p.buf ++ p.pending.take (p.bufsize - p.buf.length)).drop (total reqs)
        pending := p.pending.drop (p.bufsize - p.buf.length)
        answers := p.answers ++ serve reqs (p.buf ++ p.pending.take (p.bufsize - p.buf.length)) } := by
  have room := flowing.room
  refine ⟨fun preq member => absurd member List.not_mem_nil, ?_, ?_, flowing.positive, ?_, flowing.calm, ?_, ?_⟩
  · exact served_stream flowing reqs (List.take_append_drop _ _)
  · simp only [List.length_drop, List.length_append, List.length_take]
    omega
  · intro _ some
    exact absurd rfl some
  · intro _ still
    obtain ⟨some, full⟩ := unread still
    have none : p.bufsize - p.buf.length = 0 := by omega
    dsimp only
    rw [none, List.drop_zero]
    exact some
  · intro closed
    exact absurd (opened.symm.trans closed) (by decide)

theorem drop_answers {answers : List (Xpipereq × List UInt8)} (added : next.answers = p.answers ++ answers) :
    next.answers.drop p.answers.length = answers := by
  rw [added, List.drop_left]

theorem servedAll_flowing (flowing : Flowing fid p) (ended : p.ended = true) (readable : Bool) {bufsize : Nat}
    (room : (p.servedAll bufsize).buf.length ≤ bufsize) :
    Flowing fid { ({ p with error := true, readable := readable }).servedAll bufsize with opened := false } := by
  have stream := served_stream flowing p.reqs (List.append_nil p.pending)
  refine ⟨fun preq member => absurd member List.not_mem_nil, stream, room, ?_, ?_, ?_, ?_, ?_⟩
  · intro opened
    contradiction
  · intro opened
    contradiction
  · intro opened
    contradiction
  · intro opened
    contradiction
  · intro _
    exact ⟨ended, rfl, fun _ => rfl⟩

theorem delivers_iff_served {event : ReaderEvent} {reqs : List Xpipereq} {avail : List UInt8}
    (flowing : Flowing fid next) (added : next.answers = p.answers ++ serve reqs avail) (running : next.ended = false) :
    Delivers p event next ↔ Served reqs avail.length := by
  rw [← serve_nonempty_iff]
  constructor
  · intro delivers answer member empty
    by_contra asked
    rw [← drop_answers added] at member
    have stopped := (delivers.empty answer member empty asked).1
    rw [running] at stopped
    contradiction
  · intro served
    refine ⟨flowing.stream, ?_⟩
    intro answer member empty asked
    rw [drop_answers added] at member
    exact absurd (served answer member empty) asked

theorem poll_step (flowing : Flowing fid p) :
    Flowing fid (poll p) ∧ (Delivers p .poll (poll p) ↔ Enough p .poll) := by
  unfold poll
  split
  · rename_i closed
    refine ⟨flowing, iff_of_true (.of_silent flowing rfl) ?_⟩
    intro opened
    rw [closed] at opened
    contradiction
  · rename_i opened
    rw [Bool.not_eq_false] at opened
    split
    · rename_i ended
      obtain ⟨bufsize, room, stopped⟩ := pipNotify_eof
        (p := { p with error := true, readable := p.readable || decide (p.pending ≠ []) })
        flowing.mine flowing.room rfl
      have kept := servedAll_flowing flowing ended (p.readable || decide (p.pending ≠ [])) room
      rw [stopped]
      refine ⟨kept, iff_of_true ⟨kept.stream, ?_⟩ ?_⟩
      · intro answer member empty asked
        rw [drop_answers rfl] at member
        exact ⟨ended, serve_empty member empty asked, rfl⟩
      · intro _ running
        rw [ended] at running
        contradiction
    · rename_i running
      rw [Bool.not_eq_true] at running
      split
      · rename_i input
        obtain ⟨readable, unread, read⟩ := pipNotify_input (p := { p with readable := true }) flowing.mine
          (flowing.calm opened) (.inr rfl)
        have kept := input_flowing flowing opened p.reqs p.nextSeq fun still => ⟨input.1, (unread still).2⟩
        rw [read]
        refine ⟨kept, (delivers_iff_served kept rfl running).trans ?_⟩
        have same : Served p.reqs (p.buf ++ p.pending.take (p.bufsize - p.buf.length)).length ↔
            Served p.reqs (min p.pending.length p.bufsize) := by
          by_cases none : p.reqs = []
          · rw [none]
            exact Iff.rfl
          · rw [(flowing.waiting opened none).1, List.nil_append, List.length_nil, Nat.sub_zero, List.length_take,
              Nat.min_comm]
        exact ⟨fun served _ _ _ _ => same.mp served, fun enough => same.mpr (enough opened running input.1 input.2)⟩
      · rename_i quiet
        refine ⟨flowing, iff_of_true (.of_silent flowing rfl) ?_⟩
        intro _ _ some unread
        exact absurd ⟨some, unread⟩ quiet

theorem single_delivers {event : ReaderEvent} (preq : Xpipereq) {avail : List UInt8}
    (flowing : Flowing fid next) (added : next.answers = p.answers ++ serve [preq] avail) (some : avail ≠ []) :
    Delivers p event next := by
  refine ⟨flowing.stream, ?_⟩
  intro answer member empty asked
  rw [drop_answers added] at member
  have served : Served [preq] avail.length := ⟨fun _ => List.length_pos_iff.mpr some, trivial⟩
  exact absurd ((serve_nonempty_iff [preq] avail).mpr served answer member empty) asked

theorem tread_step (flowing : Flowing fid p) (count : Nat) :
    Flowing fid (pipAddreq p fid count) ∧ Delivers p (.tread count) (pipAddreq p fid count) := by
  have mine := queue_mine flowing count
  have alone (none : p.reqs = []) : (queue p ⟨p.nextSeq, fid, count⟩).reqs = [⟨p.nextSeq, fid, count⟩] := by
    rw [queue, none]
    rfl
  unfold pipAddreq
  dsimp only
  split
  · rename_i opened
    by_cases called : p.buf ≠ [] ∨ p.readable = true
    · have none : p.reqs = [] := by
        by_contra some
        obtain ⟨empty, unread⟩ := flowing.waiting opened some
        rcases called with buffered | readable
        · exact buffered empty
        · rw [unread] at readable
          contradiction
      have avail : p.buf ++ p.pending.take (p.bufsize - p.buf.length) ≠ [] := by
        intro empty
        obtain ⟨drained, untaken⟩ := List.append_eq_nil_iff.mp empty
        rcases called with buffered | readable
        · exact buffered drained
        · have some := flowing.readable opened readable
          have positive := flowing.positive opened
          rcases List.take_eq_nil_iff.mp untaken with full | nothing
          · rw [drained, List.length_nil] at full
            omega
          · exact some nothing
      obtain ⟨readable, unread, read⟩ := pipNotify_input mine (flowing.calm opened) called
      have kept := input_flowing flowing opened (queue p ⟨p.nextSeq, fid, count⟩).reqs (p.nextSeq + 1)
        fun still => ⟨flowing.readable opened (unread still).1, (unread still).2⟩
      rw [read]
      refine ⟨kept, single_delivers ⟨p.nextSeq, fid, count⟩ kept ?_ avail⟩
      rw [alone none]
      rfl
    · have silent : pipNotify (queue p ⟨p.nextSeq, fid, count⟩) = queue p ⟨p.nextSeq, fid, count⟩ :=
        pipNotify_quiet (flowing.calm opened) called
      rw [silent]
      have kept : Flowing fid (queue p ⟨p.nextSeq, fid, count⟩) := by
        refine ⟨mine, flowing.stream, flowing.room, flowing.positive, ?_, flowing.calm, flowing.readable, ?_⟩
        · intro _ _
          obtain ⟨empty, unread⟩ := not_or.mp called
          exact ⟨not_not.mp empty, Bool.eq_false_of_not_eq_true unread⟩
        · intro closed
          exact absurd (opened.symm.trans closed) (by decide)
      exact ⟨kept, .of_silent kept rfl⟩
  · rename_i closed
    rw [Bool.not_eq_true] at closed
    obtain ⟨ended, drained, stale⟩ := flowing.closed closed
    have vacuous {claim : Prop} (opened : p.opened = true) : claim := by
      rw [closed] at opened
      contradiction
    split
    · rename_i empty
      have kept : Flowing fid { queue p ⟨p.nextSeq, fid, count⟩ with
          answers := p.answers ++ [(⟨p.nextSeq, fid, count⟩, [])] } := by
        refine ⟨mine, ?_, flowing.room, flowing.positive, vacuous, flowing.calm, flowing.readable, ?_⟩
        · have stream := flowing.stream
          simp only [queue, List.flatMap_append, List.flatMap_cons, List.flatMap_nil, List.append_nil]
          exact stream
        · intro _
          exact ⟨ended, drained, fun some => absurd empty some⟩
      exact ⟨kept, kept.stream, fun _ _ _ _ => ⟨ended, empty, drained⟩⟩
    · rename_i some
      have pass : pipReadBuf (queue p ⟨p.nextSeq, fid, count⟩) = _ := pipReadBuf_one mine
      rw [pass, alone (stale some)]
      have kept : Flowing fid { queue p ⟨p.nextSeq, fid, count⟩ with
          reqs := []
          buf := p.buf.drop (total [⟨p.nextSeq, fid, count⟩])
          answers := p.answers ++ serve [⟨p.nextSeq, fid, count⟩] p.buf } := by
        have stream := served_stream flowing [⟨p.nextSeq, fid, count⟩] (List.nil_append p.pending)
        rw [List.append_nil] at stream
        have room := flowing.room
        refine ⟨fun preq member => absurd member List.not_mem_nil, stream, ?_, flowing.positive, vacuous,
          flowing.calm, flowing.readable, fun _ => ⟨ended, drained, fun _ => rfl⟩⟩
        simp only [queue, List.length_drop]
        omega
      exact ⟨kept, single_delivers _ kept rfl some⟩

theorem step_delivers {event : ReaderEvent} (flowing : Flowing fid p) (stepped : stepThrough fid p event = some next) :
    Flowing fid next ∧ (Delivers p event next ↔ Enough p event) := by
  cases event with
  | produce data =>
      simp only [stepThrough, ReaderEvent.through, step] at stepped
      split at stepped
      · contradiction
      · rename_i running
        cases stepped
        have kept := produce_flowing flowing (Bool.eq_false_of_not_eq_true running) data
        exact ⟨kept, iff_of_true (.of_silent kept rfl) trivial⟩
  | finish =>
      cases stepped
      have kept := finish_flowing flowing
      exact ⟨kept, iff_of_true (.of_silent kept rfl) trivial⟩
  | poll =>
      cases stepped
      exact poll_step flowing
  | tread count =>
      cases stepped
      obtain ⟨kept, delivers⟩ := tread_step flowing count
      exact ⟨kept, iff_of_true delivers trivial⟩
  | flush seq =>
      cases stepped
      obtain ⟨kept, silent⟩ := flush_flowing flowing seq
      exact ⟨kept, iff_of_true (.of_silent kept silent) trivial⟩

/-- A session and its reader: what comes out is what went in, exactly while the Treads that wait
when output arrives all get some of it. -/
theorem output_delivered_iff (fid : Nat) (events : List ReaderEvent) :
    EveryStep (stepThrough fid) Delivers {} events ↔ Guarded (stepThrough fid) Enough {} events := by
  have created : Flowing fid {} := by
    refine ⟨fun preq member => absurd member List.not_mem_nil, rfl, Nat.zero_le _, fun _ => by decide, ?_,
      fun _ => rfl, ?_, ?_⟩
    · intro _ some
      exact absurd rfl some
    · intro _ readable
      contradiction
    · intro closed
      contradiction
  refine everyStep_iff_guarded (stepThrough fid) ?_ ?_ ?_ events created
  · intro p event next flowing _ stepped
    exact (step_delivers flowing stepped).1
  · intro p event next flowing stepped
    exact (step_delivers flowing stepped).2
  · intro p event undefined
    cases event with
    | poll => contradiction
    | _ => trivial

theorem enough_of_single (flowing : Flowing fid p) (single : p.reqs.length ≤ 1) (event : ReaderEvent) :
    Enough p event := by
  cases event with
  | poll =>
      intro opened _ some _
      have positive := flowing.positive opened
      have bytes := List.length_pos_iff.mpr some
      rcases reqs : p.reqs with _ | ⟨preq, _ | ⟨second, rest⟩⟩
      · trivial
      · exact ⟨fun _ => by omega, trivial⟩
      · rw [reqs] at single
        simp at single
  | _ => trivial

/-- Of two Treads that wait for 10 bytes each the second one is told that the output has ended. -/
theorem output_cut_short :
    ¬ EveryStep (stepThrough 1) Delivers {} [.tread 10, .tread 10, .produce [104, 105], .poll] := by
  intro every
  have ran : run (stepThrough 1) {} [.tread 10, .tread 10, .produce [104, 105]] =
      some { reqs := [⟨0, 1, 10⟩, ⟨1, 1, 10⟩], nextSeq := 2, pending := [104, 105], produced := [104, 105] } :=
    rfl
  have last := everyStep_append (stepThrough 1) every ran
  have stopped := (last _ rfl).1.empty (⟨1, 1, 10⟩, []) (by decide) rfl (by decide)
  exact absurd stopped.1 (by decide)

end OneReader

end Xcpu.Xcpufs.OutPipe
