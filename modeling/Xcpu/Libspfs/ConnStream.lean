import Xcpu.Libspfs.Conn

/-!
The stream of replies a connection writes. It stays a sequence of whole packets, the last
perhaps unfinished, as long as no Tversion comes while a reply is partly written.
-/

namespace Xcpu.Libspfs.Conn

open Xcpu.Transition Xcpu.Outbound

def Spconn.stream (conn : Spconn) : Outbox Reply UInt8 where
  opened := true
  queue := conn.ofcalls
  position := conn.ofcallPos
  wire := conn.wire
  completed := conn.completed
  removed := conn.dropped
  lost := []
  next := conn.nextReply

abbrev StreamKept (conn : Spconn) : Prop := conn.stream.Kept Reply.pkt Reply.ref

variable {conn next : Spconn}

theorem spConnCreate_kept (srvMsize : Nat) (srvDotu : Bool) : StreamKept (spConnCreate srvMsize srvDotu) where
  distinct := List.nodup_nil
  bounded _ member := absurd member List.not_mem_nil
  whole _ := ⟨rfl, rfl, rfl⟩
  ended closed := by contradiction

theorem spConnWrite_stream (count : Nat) (kept : StreamKept conn) :
    StreamKept (spConnWrite conn count) ∧ conn.stream.Continues (spConnWrite conn count).stream := by
  unfold spConnWrite
  split
  · exact ⟨kept, Outbox.Continues.refl _⟩
  · rename_i rc rest pending
    split
    · exact ⟨kept, Outbox.Continues.refl _⟩
    · rename_i takes
      unfold Spconn.wrote
      split
      · rename_i last
        exact ⟨Outbox.kept_done kept rfl pending last, Outbox.continues_done pending⟩
      · have fits : conn.ofcallPos + min count (rc.pkt.length - conn.ofcallPos) ≤ rc.pkt.length := by
          omega
        exact ⟨Outbox.kept_more kept rfl pending fits, Outbox.continues_more⟩

theorem spConnRespond_stream (req : Request) (rc : Option (List UInt8)) (count : Nat)
    (kept : StreamKept conn) :
    StreamKept (spConnRespond conn req rc count) ∧
      conn.stream.Continues (spConnRespond conn req rc count).stream := by
  obtain ⟨freerclist, freercnum, freed⟩ := spConnFreeIncall_frame conn (some req.fc)
  cases rc with
  | none =>
      simp only [spConnRespond, freed]
      exact ⟨kept, Outbox.Continues.refl _⟩
  | some pkt =>
      simp only [spConnRespond, freed]
      have end_of_queue : conn.stream.queue = conn.ofcalls ++ [] := (List.append_nil _).symm
      have queued_kept : StreamKept ({ conn with
          freerclist := freerclist, freercnum := freercnum : Spconn }.queue pkt) :=
        Outbox.kept_insert kept rfl end_of_queue fun _ full => absurd rfl full
      have first : ∀ message rest, conn.stream.queue = message :: rest → 0 < conn.stream.position →
          ∃ others, (conn.stream.insert conn.ofcalls [] ⟨conn.nextReply, pkt⟩).queue = message :: others :=
        Outbox.insert_first end_of_queue fun _ full => absurd rfl full
      split
      · have written := spConnWrite_stream count queued_kept
        exact ⟨written.1, written.2.after rfl rfl first⟩
      · exact ⟨queued_kept, (Outbox.Continues.refl _).after rfl rfl first⟩

/-- No Tversion resets the connection while a reply is partly written. -/
def NothingStarted (conn : Spconn) : ConnEvent → Prop
  | .version _ _ => ∀ req, conn.requests = [req] → iohdrsz < req.tc.msize → conn.ofcallPos = 0
  | _ => True

theorem spVersion_stream {rc : List UInt8} {count : Nat} (kept : StreamKept conn)
    (unstarted : NothingStarted conn (.version rc count)) (ran : spVersion conn rc count = some next) :
    StreamKept next ∧ conn.stream.Continues next.stream := by
  unfold spVersion at ran
  split at ran
  · rename_i req waiting
    split at ran
    · contradiction
    · split at ran
      · rw [← Option.some.inj ran]
        have idle : StreamKept { conn with requests := [] } := kept
        exact spConnRespond_stream req (some rc) count idle
      · rename_i large
        split at ran
        · contradiction
        · rename_i dotu _
          split at ran
          · contradiction
          · have start := unstarted req waiting (by omega)
            have reset : StreamKept (spConnReset { conn with requests := [] } (newMsize conn req.tc) dotu) := by
              obtain ⟨freerclist, freercnum, freed⟩ :=
                spConnFreeIncall_frame { conn with requests := [] } conn.ifcall
              unfold spConnReset
              rw [freed]
              exact Outbox.kept_clear kept start
            rw [← Option.some.inj ran]
            exact ⟨(spConnRespond_stream req (some rc) count reset).1, Outbox.continues_unstarted start⟩
  · contradiction

theorem spConnReceive_stream {data : List UInt8} (received : spConnReceive conn data = some next) :
    next.stream = conn.stream := by
  obtain ⟨freerclist, freercnum, taken⟩ := spConnNewIncall_frame conn
  unfold spConnReceive at received
  cases input : conn.ifcall with
  | some fc =>
      simp only [input] at received
      split at received
      · rw [← Option.some.inj received]
        rfl
      · contradiction
  | none =>
      simp only [input, taken] at received
      split at received
      · rw [← Option.some.inj received]
        rfl
      · contradiction

theorem spConnNext_stream (ran : spConnNext conn = some next) : next.stream = conn.stream := by
  obtain ⟨freerclist, freercnum, taken⟩ := spConnNewIncall_frame conn
  unfold spConnNext at ran
  split at ran
  · rw [Option.some.inj ran]
  · split at ran
    · rw [Option.some.inj ran]
    · split at ran
      · rw [← Option.some.inj ran]
        rfl
      · split at ran
        · contradiction
        · split at ran
          · rw [← Option.some.inj ran]
            rfl
          · simp only [Spconn.handOn, taken] at ran
            split at ran
            · rw [← Option.some.inj ran]
              rfl
            · contradiction

/-- Each event keeps the invariant and goes on with the reply that was being written. -/
theorem step_stream (conn : Spconn) (event : ConnEvent) (next : Spconn) (kept : StreamKept conn)
    (unstarted : NothingStarted conn event) (stepped : conn.step event = some next) :
    StreamKept next ∧ conn.stream.Continues next.stream := by
  have unchanged (same : next.stream = conn.stream) :
      StreamKept next ∧ conn.stream.Continues next.stream := by
    rw [StreamKept, same]
    exact ⟨kept, Outbox.Continues.refl _⟩
  cases event with
  | receive data =>
      simp only [Spconn.step] at stepped
      split at stepped
      · exact unchanged (Option.some.inj stepped ▸ rfl)
      · exact unchanged (spConnReceive_stream stepped)
  | next => exact unchanged (spConnNext_stream stepped)
  | version rc count => exact spVersion_stream kept unstarted stepped
  | answer ref rc count =>
      rw [← Option.some.inj stepped, spAnswer]
      split
      · exact ⟨kept, Outbox.Continues.refl _⟩
      · rename_i req _
        have idle : StreamKept { conn with requests := conn.requests.filter (·.ref ≠ ref) } := kept
        exact spConnRespond_stream req rc count idle
  | write count => exact Option.some.inj stepped ▸ spConnWrite_stream count kept

/-- While no Tversion resets the connection in the middle of a reply, the stream is whole replies. -/
theorem replyStream_whole (srvMsize : Nat) (srvDotu : Bool) (events : List ConnEvent)
    (unstarted : Guarded Spconn.step NothingStarted (spConnCreate srvMsize srvDotu) events) :
    EveryStep Spconn.step (fun conn _ next => conn.stream.Continues next.stream)
        (spConnCreate srvMsize srvDotu) events ∧
      ∀ conn, run Spconn.step (spConnCreate srvMsize srvDotu) events = some conn →
        conn.stream.Framed Reply.pkt Reply.ref := by
  have preserved := fun conn event next kept allowed stepped =>
    (step_stream conn event next kept allowed stepped).1
  constructor
  · exact everyStep_of_invariant Spconn.step preserved
      (fun conn event next kept allowed stepped =>
        (step_stream conn event next kept allowed stepped).2)
      (spConnCreate_kept srvMsize srvDotu) unstarted
  · intro conn ran
    have kept := run_invariant Spconn.step preserved (spConnCreate_kept srvMsize srvDotu) unstarted ran
    exact kept.framed

def rversion : List UInt8 :=
  [19, 0, 0, 0, 101, 255, 255, 0, 32, 0, 0, 6, 0, 57, 80, 50, 48, 48, 48]

/-- Three bytes of an Rclunk are written when a Tversion is read. -/
def versionInReply : List ConnEvent :=
  [.receive tclunk, .next, .answer 0 (some rclunk) 3, .receive (tversion 0 32), .next, .version rversion 19]

theorem versionInReply_wire :
    (run Spconn.step (spConnCreate 8192 false) versionInReply).map
        (fun conn => (conn.wire, conn.completed.map Reply.pkt)) =
      some ([7, 0, 0] ++ rversion, [rversion]) := by
  with_unfolding_all decide

theorem versionInReply_breaks_stream :
    ∃ conn, run Spconn.step (spConnCreate 8192 false) versionInReply = some conn ∧
      ¬ conn.stream.Framed Reply.pkt Reply.ref := by
  obtain ⟨conn, ran, same⟩ := Option.map_eq_some_iff.mp versionInReply_wire
  simp only [Prod.mk.injEq] at same
  obtain ⟨wire, completed⟩ := same
  refine ⟨conn, ran, ?_⟩
  rintro ⟨last, -, written, -⟩
  have bytes : conn.completed.flatMap Reply.pkt = rversion := by
    rw [List.flatMap_def, completed]
    rfl
  rw [Spconn.stream, List.flatMap_append, bytes, wire] at written
  simp [rversion] at written

theorem replyStream_whole_between :
    EveryStep Spconn.step (fun conn _ next => conn.stream.Continues next.stream)
        (spConnCreate 8192 false)
        [.receive (tversion 0 32), .next, .version rversion 3, .receive tclunk, .write 16] ∧
      ∀ conn, run Spconn.step (spConnCreate 8192 false)
          [.receive (tversion 0 32), .next, .version rversion 3, .receive tclunk, .write 16] = some conn →
        conn.stream.Framed Reply.pkt Reply.ref := by
  apply replyStream_whole
  refine ⟨trivial, fun first received => ⟨trivial, fun second handed => ⟨?_, fun _ _ =>
    ⟨trivial, fun _ _ => ⟨trivial, fun _ _ => trivial⟩⟩⟩⟩⟩
  intro req _ _
  have idle : (run Spconn.step (spConnCreate 8192 false) [.receive (tversion 0 32), .next]).map Spconn.ofcallPos =
      some 0 := by with_unfolding_all decide
  rw [run_cons, received, Option.bind_some, run_cons, handed] at idle
  exact Option.some.inj idle

end Xcpu.Libspfs.Conn
