import Xcpu.Libspclient.Fsys

/-!
The stream of requests a client connection writes. It stays a sequence of whole messages,
the last perhaps unfinished, as long as no flush takes the partly written request away.
-/

namespace Xcpu.Libspclient

open Xcpu.Transition Xcpu.Outbound

def Spcfsys.stream (fs : Spcfsys) : Outbox Spcreq UInt8 where
  opened := fs.connected
  queue := fs.pend
  position := fs.pendPos
  wire := fs.wire
  completed := fs.completed
  removed := fs.removed
  lost := fs.lost
  next := fs.nextRef

/-- Once the connection is gone nothing waits to be written. -/
structure StreamKept (fs : Spcfsys) : Prop where
  kept : fs.stream.Kept Spcreq.bytes Spcreq.ref
  idle : fs.connected = false → fs.pend = []

theorem StreamKept.of_stream {fs next : Spcfsys} (same : next.stream = fs.stream)
    (kept : StreamKept fs) : StreamKept next := by
  have connected : next.connected = fs.connected := congrArg Outbox.opened same
  have pend : next.pend = fs.pend := congrArg Outbox.queue same
  refine ⟨?_, ?_⟩
  · rw [same]
    exact kept.kept
  · rw [connected, pend]
    exact kept.idle

theorem putTag_stream {fs next : Spcfsys} {tag : Nat} (put : fs.putTag tag = some next) :
    next.stream = fs.stream := by
  obtain ⟨pool, _, same⟩ := Option.map_eq_some_iff.mp put
  subst next
  rfl

theorem spcRequestFlushed_stream {fs next : Spcfsys} {ref : Nat}
    (flushed : spcRequestFlushed fs ref = some next) : next.stream = fs.stream := by
  generalize waiting : fs.sent.length = length
  induction length using Nat.strongRecOn generalizing fs ref next with
  | ind length ih =>
      rcases spcRequestFlushed_cases flushed with ⟨req, middle, _, shorter, called, put⟩ | ⟨req, _, put⟩
      · have unlinked : (fs.unlink ref).stream = fs.stream := rfl
        refine (putTag_stream put).trans ?_
        cases callback : req.cb with
        | user =>
            rw [callback] at called
            simp only [Spcfsys.callback, Option.some.injEq] at called
            subst middle
            exact unlinked
        | flushCb request =>
            rw [callback] at called
            exact (ih _ (waiting ▸ shorter) called rfl).trans unlinked
      · have kept := putTag_stream put
        exact kept

theorem callback_stream {fs next : Spcfsys} {cb : Callback}
    (called : fs.callback cb = some next) : next.stream = fs.stream := by
  cases cb with
  | user =>
      simp only [Spcfsys.callback, Option.some.injEq] at called
      rw [called]
  | flushCb request => exact spcRequestFlushed_stream called

theorem spcCreateFsys_kept : StreamKept spcCreateFsys := by
  refine ⟨⟨List.nodup_nil, ?_, fun _ => ⟨rfl, rfl, rfl⟩, ?_⟩, fun _ => rfl⟩
  · intro req member
    exact absurd member List.not_mem_nil
  · intro disconnected
    contradiction

theorem spcFdWrite_stream {fs next : Spcfsys} {socket : Socket} (kept : StreamKept fs)
    (written : spcFdWrite fs socket = some next) :
    StreamKept next ∧ fs.stream.Continues next.stream := by
  unfold spcFdWrite at written
  split at written
  · simp only [Option.some.injEq] at written
    subst next
    exact ⟨kept, Outbox.Continues.refl _⟩
  · rename_i req rest pending
    have connected : fs.connected = true := by
      by_contra lost
      rw [kept.idle (by simpa using lost)] at pending
      contradiction
    split at written
    · contradiction
    · cases socket with
      | refuses =>
          simp only [Option.some.injEq] at written
          subst next
          exact ⟨kept, Outbox.Continues.refl _⟩
      | closed =>
          simp only [Option.some.injEq] at written
          subst next
          exact ⟨⟨Outbox.kept_close kept.kept fs.pendPos, fun _ => rfl⟩,
            Outbox.continues_closed rfl⟩
      | takes count =>
          simp only at written
          split at written
          · rename_i fits
            simp only [Option.some.injEq] at written
            subst next
            have idle : ∀ pend, fs.connected = false → pend = ([] : List Spcreq) := by
              intro pend lost
              rw [connected] at lost
              contradiction
            unfold Spcfsys.wrote
            split
            · rename_i last
              exact ⟨⟨Outbox.kept_done kept.kept connected pending last, idle _⟩,
                Outbox.continues_done pending⟩
            · exact ⟨⟨Outbox.kept_more kept.kept connected pending fits.2, idle _⟩,
                Outbox.continues_more⟩
          · contradiction

theorem enqueue_stream {fs next : Spcfsys} {tc : Tcall} {tag : Nat} {cb : Callback}
    {socket : Socket} (kept : StreamKept fs) (connected : fs.connected = true)
    (queued : fs.enqueue tc tag cb socket = some next) :
    StreamKept next ∧ fs.stream.Continues next.stream := by
  have end_of_queue : fs.stream.queue = fs.pend ++ [] := (List.append_nil _).symm
  have added : StreamKept { fs with
      pend := fs.pend ++ [⟨fs.nextRef, tag, tc, cb, false⟩]
      nextRef := fs.nextRef + 1 } := by
    refine ⟨Outbox.kept_insert kept.kept rfl end_of_queue (fun _ full => absurd rfl full), ?_⟩
    intro lost
    simp only at lost
    rw [connected] at lost
    contradiction
  unfold Spcfsys.enqueue at queued
  simp only at queued
  split at queued
  · rename_i empty
    obtain ⟨nextKept, _⟩ := spcFdWrite_stream added queued
    refine ⟨nextKept, ?_⟩
    intro req rest pending
    rw [Spcfsys.stream, empty] at pending
    contradiction
  · simp only [Option.some.injEq] at queued
    subst next
    refine ⟨added, ?_⟩
    exact (Outbox.Continues.refl _).after rfl rfl
      (Outbox.insert_first end_of_queue fun _ full => absurd rfl full)

theorem spcRpcnb_stream {fs next : Spcfsys} {tc : Tcall} {cb : Callback} {around : Surroundings}
    (kept : StreamKept fs) (called : spcRpcnb fs tc cb around = some next) :
    StreamKept next ∧ fs.stream.Continues next.stream := by
  have unchanged : next.stream = fs.stream → StreamKept next ∧ fs.stream.Continues next.stream := by
    intro same
    refine ⟨kept.of_stream same, ?_⟩
    rw [same]
    exact Outbox.Continues.refl _
  unfold spcRpcnb at called
  split at called
  · exact unchanged (callback_stream called)
  · rename_i ready
    have connected : fs.connected = true := by
      simp only [not_or, not_not] at ready
      exact ready.1
    split at called
    · exact enqueue_stream kept connected called
    · unfold Spcfsys.tagged at called
      have taken : StreamKept { fs with tagpool := (spcGetId fs.tagpool around.grows).2 } :=
        ⟨kept.kept, kept.idle⟩
      split at called
      · have same := callback_stream called
        exact unchanged same
      · have queued := enqueue_stream taken connected called
        exact queued

theorem spcFdRead_stream {fs next : Spcfsys} {tag : Nat} (read : spcFdRead fs tag = some next) :
    next.stream = fs.stream := by
  unfold spcFdRead at read
  split at read
  · simp only [Option.some.injEq] at read
    rw [read]
  · obtain ⟨rest, called, finished⟩ := Option.bind_eq_some_iff.mp read
    have called := callback_stream called
    split at finished
    · simp only [Option.some.injEq] at finished
      subst next
      exact called
    · exact (putTag_stream finished).trans called

/-- A flush does not take away the first unsent request once part of it is written. -/
def KeepsHead (fs : Spcfsys) : FsysEvent → Prop
  | .flushUnsent index fid => ∀ req rest, fs.pend = req :: rest → index = 0 → req.tc.fid = fid →
      fs.pendPos = 0
  | _ => True

theorem flushUnsent_stream {fs next : Spcfsys} {index fid : Nat} (kept : StreamKept fs)
    (allowed : KeepsHead fs (.flushUnsent index fid))
    (flushed : flushUnsent fs index fid = some next) :
    StreamKept next ∧ fs.stream.Continues next.stream := by
  unfold flushUnsent at flushed
  split at flushed
  · simp only [Option.some.injEq] at flushed
    subst next
    exact ⟨kept, Outbox.Continues.refl _⟩
  · rename_i req found
    split at flushed
    · rename_i wanted
      obtain ⟨inside, same⟩ := List.getElem?_eq_some_iff.mp found
      have queued : fs.stream.queue = fs.pend.take index ++ req :: fs.pend.drop (index + 1) := by
        rw [← same, List.getElem_cons_drop, List.take_append_drop]
        rfl
      have unstarted : fs.pend.take index = [] → fs.stream.position = 0 := by
        intro front
        cases pending : fs.pend with
        | nil => simp [pending] at inside
        | cons first rest =>
            cases index with
            | zero =>
                rw [pending, List.getElem?_cons_zero, Option.some.injEq] at found
                exact allowed first rest pending rfl (found ▸ wanted)
            | succ index => simp [pending] at front
      have same := callback_stream flushed
      have removed : next.stream =
          fs.stream.remove (fs.pend.take index) (fs.pend.drop (index + 1)) req := by
        rw [same, Outbox.remove, ← List.eraseIdx_eq_take_drop_succ]
        rfl
      refine ⟨⟨?_, ?_⟩, ?_⟩
      · rw [removed]
        exact Outbox.kept_remove kept.kept queued unstarted
      · intro lost
        have before := kept.idle ((congrArg Outbox.opened same).symm.trans lost)
        rw [before] at inside
        exact absurd inside (Nat.not_lt_zero _)
      · rw [removed]
        exact (Outbox.Continues.refl _).after rfl rfl (Outbox.remove_first queued unstarted)
    · simp only [Option.some.injEq] at flushed
      subst next
      exact ⟨kept, Outbox.Continues.refl _⟩

theorem spcFlushRequest_stream {fs next : Spcfsys} {index : Nat} {polling : Bool}
    {around : Surroundings} (kept : StreamKept fs)
    (flushed : spcFlushRequest fs index polling around = some next) :
    StreamKept next ∧ fs.stream.Continues next.stream := by
  unfold spcFlushRequest at flushed
  split at flushed
  · simp only [Option.some.injEq] at flushed
    subst next
    exact ⟨kept, Outbox.Continues.refl _⟩
  · split at flushed
    · simp only [Option.some.injEq] at flushed
      subst next
      exact ⟨kept, Outbox.Continues.refl _⟩
    · split at flushed
      · have marked := spcRpcnb_stream ?_ flushed
        · exact marked
        · exact ⟨kept.kept, kept.idle⟩
      · have marked := spcRpcnb_stream ?_ flushed
        · exact marked
        · exact ⟨kept.kept, kept.idle⟩

/-- Each event keeps the invariant and goes on with the message that was being written. -/
theorem step_stream (fs : Spcfsys) (event : FsysEvent) (next : Spcfsys) (kept : StreamKept fs)
    (allowed : KeepsHead fs event) (stepped : fs.step event = some next) :
    StreamKept next ∧ fs.stream.Continues next.stream := by
  have unchanged : next.stream = fs.stream → StreamKept next ∧ fs.stream.Continues next.stream := by
    intro same
    refine ⟨kept.of_stream same, ?_⟩
    rw [same]
    exact Outbox.Continues.refl _
  cases event with
  | rpcnb tc around => exact spcRpcnb_stream kept stepped
  | write socket => exact spcFdWrite_stream kept stepped
  | reply tag => exact unchanged (spcFdRead_stream stepped)
  | flushUnsent index fid => exact flushUnsent_stream kept allowed stepped
  | flushRequest index polling around => exact spcFlushRequest_stream kept stepped
  | flushAnswered ref =>
      simp only [Spcfsys.step] at stepped
      split at stepped
      · have same := spcRequestFlushed_stream stepped
        exact unchanged same
      · contradiction
  | disconnect =>
      simp only [Spcfsys.step, Option.some.injEq] at stepped
      subst next
      exact ⟨⟨Outbox.kept_close kept.kept fs.pendPos, fun _ => rfl⟩, Outbox.continues_closed rfl⟩

/-- While no flush takes away a partly written request, the stream is whole messages. -/
theorem requestStream_whole (events : List FsysEvent)
    (keeps : Guarded Spcfsys.step KeepsHead spcCreateFsys events) :
    EveryStep Spcfsys.step (fun fs _ next => fs.stream.Continues next.stream) spcCreateFsys events ∧
      ∀ fs, run Spcfsys.step spcCreateFsys events = some fs →
        fs.stream.Framed Spcreq.bytes Spcreq.ref := by
  have preserved := fun fs event next kept allowed stepped =>
    (step_stream fs event next kept allowed stepped).1
  constructor
  · exact everyStep_of_invariant Spcfsys.step preserved
      (fun fs event next kept allowed stepped =>
        (step_stream fs event next kept allowed stepped).2)
      spcCreateFsys_kept keeps
  · intro fs ran
    exact (run_invariant Spcfsys.step preserved spcCreateFsys_kept keeps ran).kept.framed

def tread (fid : UInt8) : Tcall :=
  ⟨116, fid.toNat, [23, 0, 0, 0, 116, 0, 0, fid, 0, 0, 0, 0, 0, 0, 0, 0, 0, 0, 0, 8, 0, 0, 0]⟩

def tclunk (fid : UInt8) : Tcall := ⟨120, fid.toNat, [11, 0, 0, 0, 120, 0, 0, fid, 0, 0, 0]⟩

theorem requestStream_whole_flush_behind_head :
    ∃ fs, run Spcfsys.step spcCreateFsys
        [.rpcnb (tread 1) ⟨true, true, .takes 3⟩, .rpcnb (tclunk 2) ⟨true, true, .refuses⟩,
          .flushUnsent 1 2, .write (.takes 20)] = some fs ∧
      fs.stream.Framed Spcreq.bytes Spcreq.ref := by
  refine exists_final _ (by decide) ?_
  apply And.right
  apply requestStream_whole
  refine ⟨trivial, fun _ _ => ⟨trivial, fun _ _ => ⟨?_, fun _ _ => ⟨trivial, fun _ _ => trivial⟩⟩⟩⟩
  intro req rest _ zero
  contradiction

/-- Three bytes of a Tread are sent, the Tread is flushed, and a Tclunk goes out from its
fourth byte on. -/
def flushStarted : List FsysEvent :=
  [.rpcnb (tread 1) ⟨true, true, .takes 3⟩, .flushUnsent 0 1,
    .rpcnb (tclunk 2) ⟨true, true, .takes 8⟩]

theorem flushStarted_sent :
    (run Spcfsys.step spcCreateFsys flushStarted).map
        (fun fs => (fs.wire, fs.completed.map Spcreq.bytes)) =
      some ([23, 0, 0, 0, 120, 1, 0, 2, 0, 0, 0], [[11, 0, 0, 0, 120, 1, 0, 2, 0, 0, 0]]) := by
  decide

theorem flushStarted_breaks_stream :
    ∃ fs, run Spcfsys.step spcCreateFsys flushStarted = some fs ∧
      ¬ fs.stream.Framed Spcreq.bytes Spcreq.ref := by
  obtain ⟨fs, ran, sent⟩ := Option.map_eq_some_iff.mp flushStarted_sent
  refine ⟨fs, ran, ?_⟩
  rintro ⟨last, _, written, _⟩
  simp only [Prod.mk.injEq] at sent
  have bytes : fs.completed.flatMap Spcreq.bytes = [11, 0, 0, 0, 120, 1, 0, 2, 0, 0, 0] := by
    rw [List.flatMap_def, sent.2]
    rfl
  rw [Spcfsys.stream, List.flatMap_append, bytes, sent.1] at written
  simp at written

end Xcpu.Libspclient
