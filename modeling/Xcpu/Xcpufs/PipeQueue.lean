import Xcpu.Lib.Ledger
import Xcpu.Xcpufs.OutPipe
import Xcpu.Xcpufs.Pipe

/-!
The request lists of the pipes of a session. Every pass of either direction answers what it
unlinks; only `pip_addreq` on a disconnected pipe answers a request that it has linked.
-/

namespace Xcpu.Xcpufs

open Xcpu.Transition Xcpu.Ledger

section Owner

/-- A pipe in the hands of its session, which destroys it in the end. `refused` are the requests
whose handler left an error set although it had linked them: `sp_srv_process_fcall` answers them. -/
structure Owned (Pipe Request : Type) where
  pipe : Pipe
  refused : List Request := []
  destroyed : Bool := false

inductive OwnedEvent (Event : Type) where
  | pipe (event : Event)
  -- the descriptor fails with something other than `EAGAIN` while `pip_addreq` runs
  | refuse (event : Event)
  -- `pip_destroy` frees the pipe with the requests it has
  | destroy

variable {Pipe Event Request : Type} (step : Pipe → Event → Option Pipe)
  (refuse : Pipe → Event → Option (Request × Pipe)) (book : Pipe → Book Request) (number : Request → Nat)

def ownedStep (owned : Owned Pipe Request) (event : OwnedEvent Event) : Option (Owned Pipe Request) :=
  if owned.destroyed then none
  else
    match event with
    | .pipe event => (step owned.pipe event).map fun pipe => { owned with pipe }
    | .refuse event => (refuse owned.pipe event).map fun (request, pipe) =>
        { owned with pipe, refused := request :: owned.refused }
    | .destroy => some { owned with destroyed := true }

def ownedBook (owned : Owned Pipe Request) : Book Request :=
  { book owned.pipe with answered := owned.refused ++ (book owned.pipe).answered }

/-- Each request waits or has been answered or flushed, one of these and once, and when the pipe
is gone none waits. -/
structure Answered (owned : Owned Pipe Request) : Prop where
  settled : (ownedBook book owned).Settled number
  finished : owned.destroyed = true → (book owned.pipe).waiting = []

def OwnedAllowed (allowed : Pipe → Event → Prop) (owned : Owned Pipe Request) : OwnedEvent Event → Prop
  | .pipe event => owned.destroyed = false → allowed owned.pipe event
  | .refuse event => owned.destroyed = false → refuse owned.pipe event = none
  | .destroy => owned.destroyed = false → (book owned.pipe).waiting = []

variable {step refuse book number}

theorem owned_settled {owned : Owned Pipe Request} (none : owned.refused = []) :
    (ownedBook book owned).Settled number ↔ (book owned.pipe).Settled number := by
  rw [ownedBook, none, List.nil_append]

theorem refused_unsettled {owned : Owned Pipe Request} {request : Request} {rest : List Request}
    (refused : owned.refused = request :: rest) (settled : (book owned.pipe).Settled number) :
    ¬ (ownedBook book owned).Settled number := by
  intro more
  have total := settled.length_all
  have counted := more.length_all
  simp only [ownedBook, Book.all, refused, List.length_append, List.length_cons] at counted total
  omega

theorem owned_answered_iff {allowed : Pipe → Event → Prop} {start : Pipe}
    (exact : ∀ pipe event next, (book pipe).Settled number → step pipe event = some next →
      ((book next).Settled number ↔ allowed pipe event))
    (undefined : ∀ pipe event, step pipe event = none → allowed pipe event)
    (linked : ∀ pipe event request next, (book pipe).Settled number → refuse pipe event = some (request, next) →
      (book next).Settled number)
    (settled : (book start).Settled number) (events : List (OwnedEvent Event)) :
    EveryStep (ownedStep step refuse) (fun _ _ => Answered book number) { pipe := start } events ↔
      Guarded (ownedStep step refuse) (OwnedAllowed refuse book allowed) { pipe := start } events := by
  have decided (owned : Owned Pipe Request) (event : OwnedEvent Event) (next : Owned Pipe Request)
      (answered : Answered book number owned ∧ owned.refused = [])
      (stepped : ownedStep step refuse owned event = some next) :
      Answered book number next ↔ OwnedAllowed refuse book allowed owned event := by
    have settled := (owned_settled answered.2).mp answered.1.settled
    unfold ownedStep at stepped
    split at stepped
    · contradiction
    · rename_i here
      rw [Bool.not_eq_true] at here
      cases event with
      | pipe event =>
          obtain ⟨pipe, ran, rfl⟩ := Option.map_eq_some_iff.mp stepped
          have same := exact owned.pipe event pipe settled ran
          have whole : (ownedBook book { owned with pipe }).Settled number ↔ (book pipe).Settled number :=
            owned_settled answered.2
          constructor
          · intro after _
            exact same.mp (whole.mp after.settled)
          · intro allowed
            refine ⟨whole.mpr (same.mpr (allowed here)), ?_⟩
            intro gone
            rw [here] at gone
            contradiction
      | refuse event =>
          obtain ⟨⟨request, pipe⟩, ran, rfl⟩ := Option.map_eq_some_iff.mp stepped
          refine iff_of_false ?_ ?_
          · intro after
            exact refused_unsettled rfl (linked owned.pipe event request pipe settled ran) after.settled
          · intro allowed
            rw [allowed here] at ran
            contradiction
      | destroy =>
          cases stepped
          constructor
          · intro after _
            exact after.finished rfl
          · intro none
            exact ⟨answered.1.settled, fun _ => none here⟩
  have preserved (owned : Owned Pipe Request) (event : OwnedEvent Event) (next : Owned Pipe Request)
      (answered : Answered book number owned ∧ owned.refused = [])
      (allowed : OwnedAllowed refuse book allowed owned event)
      (stepped : ownedStep step refuse owned event = some next) :
      Answered book number next ∧ next.refused = [] := by
    refine ⟨(decided owned event next answered stepped).mpr allowed, ?_⟩
    unfold ownedStep at stepped
    split at stepped
    · contradiction
    · rename_i here
      rw [Bool.not_eq_true] at here
      cases event with
      | pipe event =>
          obtain ⟨pipe, ran, rfl⟩ := Option.map_eq_some_iff.mp stepped
          exact answered.2
      | refuse event =>
          dsimp only at stepped
          rw [allowed here] at stepped
          contradiction
      | destroy =>
          cases stepped
          exact answered.2
  refine everyStep_iff_guarded (ownedStep step refuse) preserved decided ?_ events ?_
  · intro owned event none
    unfold ownedStep at none
    split at none
    · rename_i gone
      cases event <;>
        · intro here
          rw [gone] at here
          contradiction
    · cases event with
      | pipe event => exact fun _ => undefined owned.pipe event (Option.map_eq_none_iff.mp none)
      | refuse event => exact fun _ => Option.map_eq_none_iff.mp none
      | destroy => contradiction
  · refine ⟨⟨(owned_settled rfl).mpr settled, ?_⟩, rfl⟩
    intro gone
    contradiction

end Owner

section Input

variable {p next : Xfilepipe}

def Xfilepipe.book (p : Xfilepipe) : Book Xpipereq := ⟨p.reqs, p.answers.map Prod.fst, p.flushed, p.nextSeq⟩

theorem readBuf_moves (buflen : Nat) (reqs : List Xpipereq) (fid n len : Nat) :
    ((readBuf buflen reqs fid n len).1 ++ (readBuf buflen reqs fid n len).2.1.map Prod.fst).Perm reqs := by
  induction reqs generalizing fid n len with
  | nil => exact .refl _
  | cons preq rest ih =>
      simp only [readBuf]
      generalize (if preq.fid = fid then n else 0) = count
      generalize (if preq.fid = fid then len else min len n) = least
      split
      · have later := ih preq.fid (count + min (buflen - count) preq.payload.length) least
        revert later
        generalize readBuf buflen rest preq.fid (count + min (buflen - count) preq.payload.length) least = pass
        intro later
        exact List.perm_middle.trans (later.cons preq)
      · have later := ih preq.fid count least
        revert later
        generalize readBuf buflen rest preq.fid count least = pass
        intro later
        exact later.cons preq

theorem pipReadBuf_moves (p : Xfilepipe) : p.book.Moves (pipReadBuf p).book := by
  unfold pipReadBuf
  split
  · exact .refl _
  · rename_i first rest reqs
    have moved := readBuf_moves p.buflen p.reqs first.fid 0 p.buflen
    revert moved
    generalize readBuf p.buflen p.reqs first.fid 0 p.buflen = pass
    intro moved
    refine ⟨⟨pass.2.1.map Prod.fst, moved, ?_⟩, rfl, rfl⟩
    simp only [Xfilepipe.book, List.map_append, List.map_reverse]
    exact (List.reverse_perm _).append_right _

theorem wrote_moves {preq : Xpipereq} {rest : List Xpipereq} (reqs : p.reqs = preq :: rest) (count : Nat) :
    p.book.Moves (p.wrote preq rest count).book := by
  unfold Xfilepipe.wrote
  split
  · refine ⟨⟨[preq], ?_, .refl _⟩, rfl, rfl⟩
    simp only [Xfilepipe.book, reqs]
    exact List.perm_append_singleton preq rest
  · exact .refl _

theorem pipWrite_moves {takes : Option Nat} (wrote : pipWrite p takes = some next) : p.book.Moves next.book := by
  unfold pipWrite at wrote
  split at wrote
  · cases wrote
    exact .refl _
  · rename_i preq rest reqs
    split at wrote
    · cases wrote
      exact .refl _
    · split at wrote
      · cases wrote
        exact wrote_moves reqs _
      · contradiction

theorem pipDisconnect_moves (p : Xfilepipe) : p.book.Moves (pipDisconnect p).book := by
  refine ⟨⟨p.reqs, .refl _, ?_⟩, rfl, rfl⟩
  simp only [pipDisconnect, Xfilepipe.book]
  split
  · rename_i none
    rw [none]
    exact .refl _
  · rename_i first rest some
    rw [some, List.map_append, List.map_map, List.map_cons]
    exact (List.perm_middle.trans (by rw [Function.comp_def, List.map_id']; exact .refl _))

theorem pipNotify_moves {ready : Ready} (notified : pipNotify p ready = some next) : p.book.Moves next.book := by
  have read : p.book.Moves (if 0 < p.buflen ∧ ready.error then pipReadBuf p else p).book := by
    split
    · exact pipReadBuf_moves p
    · exact .refl _
  obtain ⟨written, wrote, rfl⟩ := Option.map_eq_some_iff.mp notified
  refine (read.trans (pipWrite_moves wrote)).trans ?_
  split
  · exact pipDisconnect_moves written
  · exact .refl _

theorem insert_perm (reqs : List Xpipereq) (r : Xpipereq) :
    (reqs.takeWhile (·.fid ≤ r.fid) ++ r :: reqs.dropWhile (·.fid ≤ r.fid)).Perm (r :: reqs) := by
  refine List.perm_middle.trans ?_
  rw [List.takeWhile_append_dropWhile]

theorem pipFlushreq_settled (settled : p.book.Settled Xpipereq.seq) (seq : Nat) :
    (pipFlushreq p seq).book.Settled Xpipereq.seq := by
  unfold pipFlushreq
  split
  · rename_i preq found
    exact settled.withdraws (eraseP_perm found) (.refl _)
  · exact settled

/-- A Twrite to a disconnected pipe is the one that is answered and stays linked. -/
def Connected (p : Xfilepipe) : PipeEvent → Prop
  | .addreq _ _ _ => p.opened = true
  | _ => True

theorem step_settled_iff {event : PipeEvent} (settled : p.book.Settled Xpipereq.seq)
    (stepped : p.step event = some next) : next.book.Settled Xpipereq.seq ↔ Connected p event := by
  cases event with
  | addreq fid payload ready =>
      cases opened : p.opened with
      | true =>
          simp only [Xfilepipe.step, pipAddreq, opened, if_true] at stepped
          have queued := Book.Settled.arrives ⟨p.nextSeq, fid, payload⟩ settled rfl
            (insert_perm p.reqs ⟨p.nextSeq, fid, payload⟩)
          exact iff_of_true (Book.Settled.moves queued (pipNotify_moves stepped)) opened
      | false =>
          simp only [Xfilepipe.step, pipAddreq, opened, Bool.false_eq_true, if_false, Option.some.injEq] at stepped
          subst next
          refine iff_of_false (Book.not_settled ⟨p.nextSeq, fid, payload⟩ ?_ ?_) ?_
          · exact List.mem_append_right _ List.mem_cons_self
          · exact List.mem_cons_self
          · rw [Connected, opened]
            exact Bool.false_ne_true
  | notify ready =>
      simp only [Xfilepipe.step] at stepped
      split at stepped
      · exact iff_of_true (settled.moves (pipNotify_moves stepped)) trivial
      · cases stepped
        exact iff_of_true settled trivial
  | flushreq seq =>
      cases stepped
      exact iff_of_true (pipFlushreq_settled settled seq) trivial

/-- `spfd_write` fails in `pip_addreq`: the request is linked, and the error becomes its answer. -/
def refuse (p : Xfilepipe) : PipeEvent → Option (Xpipereq × Xfilepipe)
  | .addreq fid payload _ =>
      if p.opened then
        (pipAddreq p fid payload ⟨none, false⟩).map fun linked => (⟨p.nextSeq, fid, payload⟩, linked)
      else none
  | _ => none

theorem refuse_settled {event : PipeEvent} {request : Xpipereq} (settled : p.book.Settled Xpipereq.seq)
    (refused : refuse p event = some (request, next)) : next.book.Settled Xpipereq.seq := by
  cases event with
  | addreq fid payload ready =>
      simp only [refuse] at refused
      split at refused
      · rename_i opened
        obtain ⟨linked, added, same⟩ := Option.map_eq_some_iff.mp refused
        cases same
        have stepped : p.step (.addreq fid payload ⟨none, false⟩) = some next := added
        exact (step_settled_iff settled stepped).mpr opened
      · contradiction
  | notify ready => contradiction
  | flushreq seq => contradiction

end Input

namespace OutPipe

variable {p next : Xfilepipe}

def Xfilepipe.book (p : Xfilepipe) : Book Xpipereq := ⟨p.reqs, p.answers.map Prod.fst, p.flushed, p.nextSeq⟩

theorem readBuf_moves (buf : List UInt8) (opened : Bool) (reqs : List Xpipereq) (fid n len : Nat) :
    ((readBuf buf opened reqs fid n len).1 ++ (readBuf buf opened reqs fid n len).2.1.map Prod.fst).Perm reqs := by
  induction reqs generalizing fid n len with
  | nil => exact .refl _
  | cons preq rest ih =>
      simp only [readBuf]
      generalize (if preq.fid = fid then n else 0) = count
      generalize (if preq.fid = fid then len else min len n) = least
      split
      · have later := ih preq.fid (count + min (buf.length - count) preq.count) least
        revert later
        generalize readBuf buf opened rest preq.fid (count + min (buf.length - count) preq.count) least = pass
        intro later
        exact List.perm_middle.trans (later.cons preq)
      · have later := ih preq.fid count least
        revert later
        generalize readBuf buf opened rest preq.fid count least = pass
        intro later
        exact later.cons preq

theorem pipReadBuf_moves (p : Xfilepipe) : p.book.Moves (pipReadBuf p).book := by
  unfold pipReadBuf
  split
  · exact .refl _
  · rename_i first rest reqs
    have moved := readBuf_moves p.buf p.opened p.reqs first.fid 0 p.buf.length
    revert moved
    generalize readBuf p.buf p.opened p.reqs first.fid 0 p.buf.length = pass
    intro moved
    refine ⟨⟨pass.2.1.map Prod.fst, moved, ?_⟩, rfl, rfl⟩
    simp only [Xfilepipe.book, List.map_append]
    exact List.perm_append_comm

theorem readEof_book (fuel : Nat) (p : Xfilepipe) : (readEof fuel p).book = p.book := by
  induction fuel generalizing p with
  | zero => rfl
  | succ fuel ih =>
      obtain ⟨bufsize, -, ran⟩ := readEof_succ fuel p
      rw [ran]
      split
      · rfl
      · exact ih _

theorem pipReadEof_book (p : Xfilepipe) : (pipReadEof p).book = p.book := readEof_book _ p

theorem pipRead_moves (p : Xfilepipe) : p.book.Moves (pipRead p).book := by
  unfold pipRead
  split
  · rw [← pipReadEof_book p]
    exact pipReadBuf_moves _
  · split
    · exact pipReadBuf_moves (spfdRead p)
    · exact pipReadBuf_moves p

theorem pipNotify_moves (p : Xfilepipe) : p.book.Moves (pipNotify p).book := by
  have read : p.book.Moves (if p.buf ≠ [] ∨ p.readable = true then pipRead p else p).book := by
    split
    · exact pipRead_moves p
    · exact .refl _
  unfold pipNotify
  generalize (if p.buf ≠ [] ∨ p.readable = true then pipRead p else p) = later at read
  dsimp only
  split
  · refine read.trans ?_
    rw [← pipReadEof_book later]
    exact pipReadBuf_moves { pipReadEof later with opened := false }
  · exact read

theorem poll_moves (p : Xfilepipe) : p.book.Moves (poll p).book := by
  unfold poll
  split
  · exact .refl _
  · split
    · exact pipNotify_moves { p with error := true, readable := p.readable || decide (p.pending ≠ []) }
    · split
      · exact pipNotify_moves { p with readable := true }
      · exact .refl _

theorem queue_settled (settled : p.book.Settled Xpipereq.seq) (fid count : Nat) :
    (queue p ⟨p.nextSeq, fid, count⟩).book.Settled Xpipereq.seq := by
  refine Book.Settled.arrives ⟨p.nextSeq, fid, count⟩ settled rfl ?_
  refine List.perm_middle.trans ?_
  rw [List.takeWhile_append_dropWhile]
  exact .refl _

/-- A Tread of a disconnected pipe that has nothing left is answered and stays linked. -/
def Connected (p : Xfilepipe) : PipeEvent → Prop
  | .addreq _ _ => p.opened = true ∨ p.buf ≠ []
  | _ => True

theorem step_settled_iff {event : PipeEvent} (settled : p.book.Settled Xpipereq.seq)
    (stepped : step p event = some next) : next.book.Settled Xpipereq.seq ↔ Connected p event := by
  cases event with
  | produce data =>
      simp only [step] at stepped
      split at stepped
      · contradiction
      · cases stepped
        exact iff_of_true settled trivial
  | finish =>
      cases stepped
      exact iff_of_true settled trivial
  | poll =>
      cases stepped
      exact iff_of_true (settled.moves (poll_moves p)) trivial
  | addreq fid count =>
      have queued := queue_settled settled fid count
      simp only [step, pipAddreq, Option.some.injEq] at stepped
      subst next
      split
      · rename_i opened
        exact iff_of_true (queued.moves (pipNotify_moves _)) (.inl opened)
      · rename_i closed
        split
        · rename_i empty
          refine iff_of_false (Book.not_settled ⟨p.nextSeq, fid, count⟩ ?_ ?_) ?_
          · exact List.mem_append_right _ List.mem_cons_self
          · simp only [Xfilepipe.book, List.map_append]
            exact List.mem_append_right _ List.mem_cons_self
          · rintro (opened | some)
            · exact closed opened
            · exact some empty
        · rename_i some
          exact iff_of_true (queued.moves (pipReadBuf_moves _)) (.inr some)
  | flushreq seq =>
      cases stepped
      refine iff_of_true ?_ trivial
      unfold pipFlushreq
      split
      · rename_i preq found
        exact settled.withdraws (eraseP_perm found) (List.perm_append_singleton _ _)
      · exact settled

/-- `spfd_read` fails in `pip_addreq`, on a descriptor that has been closed: what is buffered goes
to the requests, and the error becomes one more answer. -/
def refuse (p : Xfilepipe) : PipeEvent → Option (Xpipereq × Xfilepipe)
  | .addreq fid count =>
      if p.opened = true ∧ (p.buf ≠ [] ∨ p.readable = true) ∧ p.buf.length < p.bufsize then
        some (⟨p.nextSeq, fid, count⟩, pipReadBuf { queue p ⟨p.nextSeq, fid, count⟩ with readable := false })
      else none
  | _ => none

theorem refuse_settled {event : PipeEvent} {request : Xpipereq} (settled : p.book.Settled Xpipereq.seq)
    (refused : refuse p event = some (request, next)) : next.book.Settled Xpipereq.seq := by
  cases event with
  | addreq fid count =>
      simp only [refuse] at refused
      split at refused
      · cases refused
        have queued : Book.Settled Xpipereq.seq
            ({ queue p ⟨p.nextSeq, fid, count⟩ with readable := false } : Xfilepipe).book :=
          queue_settled settled fid count
        exact queued.moves (pipReadBuf_moves _)
      · contradiction
  | produce data => contradiction
  | finish => contradiction
  | poll => contradiction
  | flushreq seq => contradiction

end OutPipe

/-- Stdin, and stdout or stderr, from their creation: every request waits or has been answered or
flushed once exactly as long as none comes to a pipe that is disconnected (and has nothing to
read), the descriptor does not fail on one that comes, and no pipe is destroyed while one waits. -/
theorem pipeQueues_answered_iff (events : List (OwnedEvent PipeEvent)) (events' : List (OwnedEvent OutPipe.PipeEvent)) :
    (EveryStep (ownedStep Xfilepipe.step refuse) (fun _ _ => Answered Xfilepipe.book Xpipereq.seq)
        { pipe := pipCreate } events ↔
      Guarded (ownedStep Xfilepipe.step refuse) (OwnedAllowed refuse Xfilepipe.book Connected)
        { pipe := pipCreate } events) ∧
    (EveryStep (ownedStep OutPipe.step OutPipe.refuse)
        (fun _ _ => Answered OutPipe.Xfilepipe.book OutPipe.Xpipereq.seq) { pipe := {} } events' ↔
      Guarded (ownedStep OutPipe.step OutPipe.refuse)
        (OwnedAllowed OutPipe.refuse OutPipe.Xfilepipe.book OutPipe.Connected) { pipe := {} } events') := by
  constructor
  · have empty : pipCreate.book.Settled Xpipereq.seq := Book.settled_empty
    refine owned_answered_iff ?_ ?_ ?_ empty events
    · intro p event next settled stepped
      exact step_settled_iff settled stepped
    · intro p event undefined
      cases event with
      | addreq fid payload ready =>
          by_contra closed
          have disconnected : ¬ p.opened = true := closed
          simp only [Xfilepipe.step, pipAddreq, if_neg disconnected, reduceCtorEq] at undefined
      | _ => trivial
    · intro p event request next settled refused
      exact refuse_settled settled refused
  · have empty : ({} : OutPipe.Xfilepipe).book.Settled OutPipe.Xpipereq.seq := Book.settled_empty
    refine owned_answered_iff ?_ ?_ ?_ empty events'
    · intro p event next settled stepped
      exact OutPipe.step_settled_iff settled stepped
    · intro p event undefined
      cases event with
      | addreq fid count => contradiction
      | _ => trivial
    · intro p event request next settled refused
      exact OutPipe.refuse_settled settled refused

/-- A Twrite after the broken pipe, one that meets it first, and a Tread after the end of file. -/
theorem pipeQueues_unsettled :
    ¬ EveryStep (ownedStep Xfilepipe.step refuse) (fun _ _ => Answered Xfilepipe.book Xpipereq.seq)
        { pipe := pipCreate } [.pipe (.notify ⟨none, true⟩), .pipe (.addreq 1 [97] ⟨none, false⟩)] ∧
      ¬ EveryStep (ownedStep Xfilepipe.step refuse) (fun _ _ => Answered Xfilepipe.book Xpipereq.seq)
        { pipe := pipCreate } [.refuse (.addreq 1 [97] ⟨none, false⟩)] ∧
      ¬ EveryStep (ownedStep OutPipe.step OutPipe.refuse)
        (fun _ _ => Answered OutPipe.Xfilepipe.book OutPipe.Xpipereq.seq) { pipe := {} }
        [.pipe .finish, .pipe .poll, .pipe (.addreq 1 10)] := by
  refine ⟨?_, ?_, ?_⟩
  · intro every
    have settled := ((every _ rfl).2 _ rfl).1.settled
    exact Book.not_settled ⟨0, 1, [97]⟩ List.mem_cons_self List.mem_cons_self settled
  · intro every
    have settled := (every _ rfl).1.settled
    exact Book.not_settled ⟨0, 1, [97]⟩ List.mem_cons_self List.mem_cons_self settled
  · intro every
    have settled := ((((every _ rfl).2 _ rfl).2 _ rfl).1).settled
    exact Book.not_settled ⟨0, 1, 10⟩ List.mem_cons_self List.mem_cons_self settled

end Xcpu.Xcpufs
