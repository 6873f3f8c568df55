import Mathlib.Data.List.TakeWhile
import Xcpu.Xcpufs.Pipe

/-!
The bytes of Twrites on their way through the input pipe: whole payloads, in order for each
fid, and an answered count is what was delivered, as long as nothing gets in front of a
partly written Twrite and nothing takes it away.
-/

namespace Xcpu.Xcpufs

open Xcpu.Transition Xcpu.Outbound

def Xfilepipe.stream (p : Xfilepipe) : Outbox Xpipereq UInt8 where
  opened := p.opened
  queue := p.reqs
  position := p.buflen
  wire := p.writes.flatMap Prod.snd
  completed := p.completed
  removed := p.flushed
  lost := p.lost
  next := p.nextSeq

def deliveredTo (writes : List (Nat × List UInt8)) (preq : Xpipereq) : List UInt8 :=
  (writes.filter (·.1 == preq.seq)).flatMap Prod.snd

/-- Of the waiting requests only the first has got bytes through. -/
def Partly (writes : List (Nat × List UInt8)) (reqs : List Xpipereq) (buflen : Nat) : Prop :=
  match reqs with
  | [] => True
  | first :: rest => deliveredTo writes first = first.payload.take buflen ∧
      ∀ preq ∈ rest, deliveredTo writes preq = []

def SameFidOrder (first second : Xpipereq) : Prop := first.fid = second.fid → first.seq < second.seq

structure PipeKept (p : Xfilepipe) : Prop where
  kept : p.stream.Kept Xpipereq.payload Xpipereq.seq
  sorted : p.reqs.Pairwise (·.fid ≤ ·.fid)
  order : (p.completed ++ p.lost ++ p.reqs).Pairwise SameFidOrder
  known : ∀ write ∈ p.writes, write.1 < p.nextSeq
  delivered : ∀ preq ∈ p.completed, deliveredTo p.writes preq = preq.payload
  partly : p.opened = true → Partly p.writes p.reqs p.buflen
  finished : p.opened = true → ∀ preq count, (preq, .rwrite count) ∈ p.answers → preq ∈ p.completed
  answered : ∀ preq count, (preq, .rwrite count) ∈ p.answers →
    deliveredTo p.writes preq = preq.payload.take count ∧ count ≤ preq.payload.length

theorem deliveredTo_append (writes more : List (Nat × List UInt8)) (preq : Xpipereq) :
    deliveredTo (writes ++ more) preq = deliveredTo writes preq ++ deliveredTo more preq := by
  simp [deliveredTo]

theorem deliveredTo_same (seq : Nat) (bytes : List UInt8) (preq : Xpipereq) (same : preq.seq = seq) :
    deliveredTo [(seq, bytes)] preq = bytes := by
  simp [deliveredTo, same]

theorem deliveredTo_other (seq : Nat) (bytes : List UInt8) (preq : Xpipereq)
    (other : preq.seq ≠ seq) : deliveredTo [(seq, bytes)] preq = [] := by
  have different : ¬ seq = preq.seq := fun same => other same.symm
  simp [deliveredTo, different]

theorem deliveredTo_unknown {writes : List (Nat × List UInt8)} {preq : Xpipereq}
    (known : ∀ write ∈ writes, write.1 < preq.seq) : deliveredTo writes preq = [] := by
  have none : writes.filter (·.1 == preq.seq) = [] := by
    rw [List.filter_eq_nil_iff]
    intro write member
    have earlier := known write member
    simp
    omega
  rw [deliveredTo, none]
  rfl

theorem pipCreate_kept : PipeKept pipCreate := by
  refine ⟨⟨List.nodup_nil, ?_, fun _ => ⟨rfl, rfl, rfl⟩, ?_⟩, List.Pairwise.nil, List.Pairwise.nil,
    ?_, ?_, fun _ => trivial, ?_, ?_⟩
  · intro preq member
    exact absurd member List.not_mem_nil
  · intro closed
    contradiction
  · intro write member
    exact absurd member List.not_mem_nil
  · intro preq member
    exact absurd member List.not_mem_nil
  · intro _ preq count member
    exact absurd member List.not_mem_nil
  · intro preq count member
    exact absurd member List.not_mem_nil

theorem partly_unstarted {writes : List (Nat × List UInt8)} {reqs : List Xpipereq} :
    Partly writes reqs 0 ↔ ∀ preq ∈ reqs, deliveredTo writes preq = [] := by
  cases reqs with
  | nil => simp [Partly]
  | cons first rest => simp [Partly]

theorem PipeKept.seq_ne {p : Xfilepipe} (kept : PipeKept p) {preq other : Xpipereq}
    {rest : List Xpipereq} (queued : p.reqs = preq :: rest)
    (member : other ∈ p.completed ∨ other ∈ rest) : other.seq ≠ preq.seq := by
  have distinct := kept.kept.distinct
  simp only [Outbox.messages, Xfilepipe.stream, queued, List.map_append, List.map_cons,
    List.nodup_append, List.nodup_cons, List.mem_append, List.mem_cons, List.mem_map] at distinct
  intro same
  rcases member with old | waiting
  · exact distinct.1.2.2 _ (Or.inl ⟨other, old, rfl⟩) _ (Or.inl rfl) same
  · exact distinct.1.2.1.1 ⟨other, waiting, same⟩

theorem wrote_kept {p : Xfilepipe} {preq : Xpipereq} {rest : List Xpipereq} {count : Nat}
    (kept : PipeKept p) (opened : p.opened = true) (queued : p.reqs = preq :: rest)
    (fits : p.buflen + count ≤ preq.payload.length) : PipeKept (p.wrote preq rest count) := by
  have partly := kept.partly opened
  rw [queued] at partly
  obtain ⟨head, tail⟩ := partly
  have grown : deliveredTo (p.writes ++ [(preq.seq, chunk Xpipereq.payload preq p.buflen count)]) preq =
      preq.payload.take (p.buflen + count) := by
    rw [deliveredTo_append, deliveredTo_same _ _ _ rfl, head, chunk, ← List.take_add]
  have others : ∀ other, other.seq ≠ preq.seq →
      deliveredTo (p.writes ++ [(preq.seq, chunk Xpipereq.payload preq p.buflen count)]) other =
        deliveredTo p.writes other := by
    intro other different
    rw [deliveredTo_append, deliveredTo_other _ _ _ different, List.append_nil]
  have known : ∀ write ∈ p.writes ++ [(preq.seq, chunk Xpipereq.payload preq p.buflen count)],
      write.1 < p.nextSeq := by
    intro write member
    rcases List.mem_append.mp member with old | new
    · exact kept.known write old
    · rw [List.mem_singleton.mp new]
      apply kept.kept.bounded
      simp [Outbox.messages, Xfilepipe.stream, queued]
  have wire : (p.writes ++ [(preq.seq, chunk Xpipereq.payload preq p.buflen count)]).flatMap Prod.snd =
      p.writes.flatMap Prod.snd ++ chunk Xpipereq.payload preq p.buflen count := by
    simp
  unfold Xfilepipe.wrote
  split
  · rename_i last
    refine ⟨?_, ?_, ?_, known, ?_, ?_, ?_, ?_⟩
    · have done := Outbox.kept_done kept.kept opened queued last
      simp only [Outbox.done, Xfilepipe.stream] at done
      simp only [Xfilepipe.stream, wire]
      exact done
    · have sorted := kept.sorted
      rw [queued] at sorted
      exact sorted.of_cons
    · have order := kept.order
      rw [queued] at order
      have none : p.lost = [] := (kept.kept.whole opened).1
      simpa [none] using order
    · intro other member
      rcases List.mem_append.mp member with old | new
      · rw [others other (kept.seq_ne queued (Or.inl old))]
        exact kept.delivered other old
      · rw [List.mem_singleton.mp new, grown, last, List.take_length]
    · intro _
      apply partly_unstarted.mpr
      intro other waiting
      rw [others other (kept.seq_ne queued (Or.inr waiting))]
      exact tail other waiting
    · intro _ other answer member
      rcases List.mem_cons.mp member with new | old
      · simp only [Prod.mk.injEq] at new
        rw [new.1]
        exact List.mem_append_right _ (List.mem_singleton_self _)
      · exact List.mem_append_left _ (kept.finished opened other answer old)
    · intro other answer member
      rcases List.mem_cons.mp member with new | old
      · simp only [Prod.mk.injEq, PipeAnswer.rwrite.injEq] at new
        rw [new.1, new.2]
        exact ⟨grown, fits⟩
      · have finished := kept.finished opened other answer old
        rw [others other (kept.seq_ne queued (Or.inl finished))]
        exact kept.answered other answer old
  · refine ⟨?_, kept.sorted, kept.order, known, ?_, ?_, kept.finished, ?_⟩
    · have more := Outbox.kept_more kept.kept opened queued fits
      simp only [Outbox.more, Xfilepipe.stream] at more
      simp only [Xfilepipe.stream, wire]
      exact more
    · intro other old
      rw [others other (kept.seq_ne queued (Or.inl old))]
      exact kept.delivered other old
    · intro _
      simp only [queued]
      refine ⟨grown, ?_⟩
      intro other waiting
      rw [others other (kept.seq_ne queued (Or.inr waiting))]
      exact tail other waiting
    · intro other answer member
      have finished := kept.finished opened other answer member
      rw [others other (kept.seq_ne queued (Or.inl finished))]
      exact kept.answered other answer member

theorem pipWrite_kept {p written : Xfilepipe} {takes : Option Nat} (kept : PipeKept p)
    (opened : p.opened = true) (wrote : pipWrite p takes = some written) :
    PipeKept written ∧ written.opened = true ∧ p.stream.Continues written.stream := by
  unfold pipWrite at wrote
  split at wrote
  · simp only [Option.some.injEq] at wrote
    subst written
    exact ⟨kept, opened, Outbox.Continues.refl _⟩
  · rename_i preq rest queued
    split at wrote
    · simp only [Option.some.injEq] at wrote
      subst written
      exact ⟨kept, opened, Outbox.Continues.refl _⟩
    · rename_i count
      split at wrote
      · rename_i fits
        simp only [Option.some.injEq] at wrote
        subst written
        refine ⟨wrote_kept kept opened queued fits.2, ?_, ?_⟩
        · unfold Xfilepipe.wrote
          split <;> exact opened
        · intro first others head _ _
          unfold Xfilepipe.wrote
          split
          · right
            simp only [Xfilepipe.stream, queued, List.cons.injEq] at head ⊢
            rw [head.1]
          · exact Or.inl ⟨others, head, Nat.le_add_right _ _⟩
      · contradiction

theorem pipDisconnect_kept {p : Xfilepipe} (kept : PipeKept p) (opened : p.opened = true) :
    PipeKept (pipDisconnect p) := by
  have none : p.lost = [] := (kept.kept.whole opened).1
  have partly := kept.partly opened
  refine ⟨Outbox.kept_close kept.kept 0, List.Pairwise.nil, ?_, kept.known, kept.delivered, ?_, ?_, ?_⟩
  · have order := kept.order
    simp only [pipDisconnect, none, opened, if_true, List.nil_append, List.append_nil] at order ⊢
    exact order.sublist ((List.Sublist.refl _).append (List.take_sublist 1 _))
  · intro again
    simp [pipDisconnect] at again
  · intro again
    simp [pipDisconnect] at again
  · intro preq count member
    simp only [pipDisconnect] at member ⊢
    split at member
    · exact kept.answered preq count member
    · rename_i first rest queued
      rw [queued] at partly
      rcases List.mem_append.mp member with unstarted | others
      · obtain ⟨waiting, inside, same⟩ := List.mem_map.mp unstarted
        simp only [Prod.mk.injEq, PipeAnswer.rwrite.injEq] at same
        rw [← same.1, ← same.2, partly.2 waiting inside]
        exact ⟨rfl, Nat.zero_le _⟩
      · rcases List.mem_cons.mp others with head | old
        · simp only [Prod.mk.injEq, PipeAnswer.rwrite.injEq] at head
          have whole := (kept.kept.whole opened).2
          simp only [Xfilepipe.stream, queued] at whole
          rw [head.1, head.2]
          exact ⟨partly.1, whole.1⟩
        · exact kept.answered preq count old

/-- With a Twrite partly written, no other gets before it, no flush takes it away and the
descriptor has no error. -/
def PipeHeadKept (p : Xfilepipe) : PipeEvent → Prop
  | .addreq fid _ ready => 0 < p.buflen →
      (∀ first rest, p.reqs = first :: rest → first.fid ≤ fid) ∧ ready.error = false
  | .notify ready => 0 < p.buflen → ready.error = false
  | .flushreq seq => 0 < p.buflen → ∀ first rest, p.reqs = first :: rest → first.seq ≠ seq

theorem pipNotify_kept {p next : Xfilepipe} {ready : Ready} (kept : PipeKept p)
    (opened : p.opened = true) (calm : 0 < p.buflen → ready.error = false)
    (notified : pipNotify p ready = some next) :
    PipeKept next ∧ p.stream.Continues next.stream := by
  have unread : ¬ (0 < p.buflen ∧ ready.error = true) := by
    rintro ⟨started, error⟩
    rw [calm started] at error
    contradiction
  unfold pipNotify at notified
  simp only [if_neg unread] at notified
  obtain ⟨written, wrote, same⟩ := Option.map_eq_some_iff.mp notified
  obtain ⟨writtenKept, still, continues⟩ := pipWrite_kept kept opened wrote
  subst next
  split
  · exact ⟨pipDisconnect_kept writtenKept still, Outbox.continues_closed rfl⟩
  · exact ⟨writtenKept, continues⟩

theorem place_spec (reqs : List Xpipereq) (fid : Nat) (sorted : reqs.Pairwise (·.fid ≤ ·.fid)) :
    reqs = reqs.takeWhile (·.fid ≤ fid) ++ reqs.dropWhile (·.fid ≤ fid) ∧
      (∀ preq ∈ reqs.takeWhile (·.fid ≤ fid), preq.fid ≤ fid) ∧
      ∀ preq ∈ reqs.dropWhile (·.fid ≤ fid), fid < preq.fid := by
  refine ⟨(List.takeWhile_append_dropWhile).symm, ?_, ?_⟩
  · intro preq member
    simpa using List.mem_takeWhile_imp member
  · induction reqs with
    | nil => simp
    | cons first rest ih =>
        obtain ⟨least, sorted⟩ := List.pairwise_cons.mp sorted
        by_cases early : first.fid ≤ fid
        · rw [List.dropWhile_cons_of_pos (by simpa using early)]
          exact ih sorted
        · rw [List.dropWhile_cons_of_neg (by simpa using early)]
          intro preq member
          rcases List.mem_cons.mp member with same | later
          · rw [same]
            omega
          · have above := least preq later
            omega

theorem order_insert {early front back : List Xpipereq} {r : Xpipereq}
    (order : (early ++ (front ++ back)).Pairwise SameFidOrder)
    (newest : ∀ preq ∈ early ++ (front ++ back), preq.seq < r.seq)
    (greater : ∀ preq ∈ back, r.fid < preq.fid) :
    (early ++ (front ++ r :: back)).Pairwise SameFidOrder := by
  simp only [List.pairwise_append, List.pairwise_cons, List.mem_append, List.mem_cons] at order newest ⊢
  obtain ⟨earlyOrder, ⟨frontOrder, backOrder, between⟩, across⟩ := order
  refine ⟨earlyOrder, ⟨frontOrder, ⟨?_, backOrder⟩, ?_⟩, ?_⟩
  · intro preq member same
    have above := greater preq member
    omega
  · rintro first member second (same | later)
    · intro _
      rw [same]
      exact newest first (Or.inr (Or.inl member))
    · exact between first member second later
  · rintro first member second (inFront | same | later)
    · exact across first member second (Or.inl inFront)
    · intro _
      rw [same]
      exact newest first (Or.inl member)
    · exact across first member second (Or.inr later)

theorem addreq_kept {p : Xfilepipe} {fid : Nat} {payload : List UInt8} (kept : PipeKept p)
    (behind : 0 < p.buflen → ∀ first rest, p.reqs = first :: rest → first.fid ≤ fid) :
    PipeKept { p with
      reqs := p.reqs.takeWhile (·.fid ≤ fid) ++
        ⟨p.nextSeq, fid, payload⟩ :: p.reqs.dropWhile (·.fid ≤ fid)
      nextSeq := p.nextSeq + 1 } ∧
    ∀ next : Xfilepipe, (Outbox.Continues (Xfilepipe.stream { p with
      reqs := p.reqs.takeWhile (·.fid ≤ fid) ++
        ⟨p.nextSeq, fid, payload⟩ :: p.reqs.dropWhile (·.fid ≤ fid)
      nextSeq := p.nextSeq + 1 }) next.stream) → p.stream.Continues next.stream := by
  obtain ⟨queued, front, back⟩ := place_spec p.reqs fid kept.sorted
  generalize p.reqs.takeWhile (·.fid ≤ fid) = before at queued front ⊢
  generalize p.reqs.dropWhile (·.fid ≤ fid) = after at queued back ⊢
  have first : before = [] → after ≠ [] → p.stream.position = 0 := by
    intro empty full
    by_contra started
    cases after with
    | nil => exact full rfl
    | cons first rest =>
        rw [empty, List.nil_append] at queued
        have low := behind (Nat.pos_of_ne_zero started) first rest queued
        have high := back first List.mem_cons_self
        omega
  have unknown : deliveredTo p.writes ⟨p.nextSeq, fid, payload⟩ = [] := deliveredTo_unknown kept.known
  have bounded : ∀ preq ∈ p.completed ++ p.lost ++ (before ++ after), preq.seq < p.nextSeq := by
    intro preq member
    apply kept.kept.bounded
    simp only [Outbox.messages, Xfilepipe.stream]
    rw [queued]
    exact List.mem_append_left _ member
  constructor
  · refine ⟨Outbox.kept_insert kept.kept rfl queued first, ?_, ?_, ?_, kept.delivered, ?_,
      kept.finished, kept.answered⟩
    · have sorted := kept.sorted
      rw [queued] at sorted
      simp only [List.pairwise_append, List.pairwise_cons, List.mem_cons] at sorted ⊢
      refine ⟨sorted.1, ⟨fun preq member => Nat.le_of_lt (back preq member), sorted.2.1⟩, ?_⟩
      rintro preq member other (same | later)
      · rw [same]
        exact front preq member
      · exact sorted.2.2 preq member other later
    · have order := kept.order
      rw [queued] at order
      exact order_insert order bounded back
    · intro write member
      exact Nat.lt_succ_of_lt (kept.known write member)
    · intro opened
      have partly := kept.partly opened
      rw [queued] at partly
      cases before with
      | cons head rest =>
          refine ⟨partly.1, ?_⟩
          intro preq member
          rcases List.mem_append.mp member with inFront | others
          · exact partly.2 preq (List.mem_append_left _ inFront)
          · rcases List.mem_cons.mp others with new | later
            · rw [new]
              exact unknown
            · exact partly.2 preq (List.mem_append_right _ later)
      | nil =>
          have start : p.buflen = 0 := by
            cases after with
            | nil =>
                have whole := (kept.kept.whole opened).2
                simp only [Xfilepipe.stream, queued, List.append_nil] at whole
                exact whole.1
            | cons head rest => exact first rfl (List.cons_ne_nil _ _)
          simp only [start, List.nil_append] at partly ⊢
          rw [partly_unstarted] at partly ⊢
          intro preq member
          rcases List.mem_cons.mp member with new | later
          · rw [new]
            exact unknown
          · exact partly preq later
  · intro next continues
    exact continues.after rfl rfl (Outbox.insert_first queued first)

theorem pipAddreq_kept {p next : Xfilepipe} {fid : Nat} {payload : List UInt8} {ready : Ready}
    (kept : PipeKept p) (allowed : PipeHeadKept p (.addreq fid payload ready))
    (added : pipAddreq p fid payload ready = some next) :
    PipeKept next ∧ p.stream.Continues next.stream := by
  obtain ⟨queuedKept, continued⟩ := @addreq_kept _ _ payload kept fun started => (allowed started).1
  unfold pipAddreq at added
  simp only at added
  split at added
  · rename_i opened
    obtain ⟨nextKept, continues⟩ := pipNotify_kept queuedKept opened
      (fun started => (allowed started).2) added
    exact ⟨nextKept, continued next continues⟩
  · rename_i closed
    simp only [Option.some.injEq] at added
    subst next
    have shut : p.opened = false := by simpa using closed
    refine ⟨⟨queuedKept.kept, queuedKept.sorted, queuedKept.order, queuedKept.known,
      queuedKept.delivered, ?_, ?_, ?_⟩, Outbox.continues_closed shut⟩
    · intro opened
      exact absurd opened closed
    · intro opened
      exact absurd opened closed
    · intro preq count member
      rcases List.mem_cons.mp member with new | old
      · simp at new
      · exact kept.answered preq count old

theorem pipFlushreq_kept {p : Xfilepipe} {seq : Nat} (kept : PipeKept p)
    (allowed : PipeHeadKept p (.flushreq seq)) :
    PipeKept (pipFlushreq p seq) ∧ p.stream.Continues (pipFlushreq p seq).stream := by
  unfold pipFlushreq
  split
  · rename_i preq found
    obtain ⟨matched, front, back, queued, others⟩ := List.find?_eq_some_iff_append.mp found
    have erased : p.reqs.eraseP (·.seq == seq) = front ++ back := by
      have skipped : ∀ other ∈ front, ¬ (other.seq == seq) = true := by
        intro other member
        simpa using others other member
      rw [queued, List.eraseP_append_right _ skipped]
      simp only [List.eraseP_cons, matched, cond_true]
    have unstarted : front = [] → p.stream.position = 0 := by
      intro empty
      by_contra started
      rw [empty, List.nil_append] at queued
      exact allowed (Nat.pos_of_ne_zero started) preq back queued (by simpa using matched)
    have fewer : (front ++ back).Sublist p.reqs := by
      rw [queued]
      exact (List.Sublist.refl _).append (List.sublist_cons_self _ _)
    rw [erased]
    constructor
    · refine ⟨Outbox.kept_remove kept.kept queued unstarted, kept.sorted.sublist fewer, ?_, kept.known,
        kept.delivered, ?_, kept.finished, kept.answered⟩
      · exact kept.order.sublist ((List.Sublist.refl _).append fewer)
      · intro opened
        have partly := kept.partly opened
        rw [queued] at partly
        cases front with
        | cons first rest =>
            refine ⟨partly.1, ?_⟩
            intro other member
            apply partly.2
            rcases List.mem_append.mp member with early | late
            · exact List.mem_append_left _ early
            · exact List.mem_append_right _ (List.mem_cons_of_mem _ late)
        | nil =>
            have start : p.buflen = 0 := unstarted rfl
            simp only [start, List.nil_append] at partly ⊢
            rw [partly_unstarted] at partly ⊢
            exact fun other member => partly other (List.mem_cons_of_mem _ member)
    · exact (Outbox.Continues.refl _).after rfl rfl (Outbox.remove_first queued unstarted)
  · exact ⟨kept, Outbox.Continues.refl _⟩

theorem pipeStep_kept (p : Xfilepipe) (event : PipeEvent) (next : Xfilepipe) (kept : PipeKept p)
    (allowed : PipeHeadKept p event) (stepped : p.step event = some next) :
    PipeKept next ∧ p.stream.Continues next.stream := by
  cases event with
  | addreq fid payload ready => exact pipAddreq_kept kept allowed stepped
  | notify ready =>
      simp only [Xfilepipe.step] at stepped
      split at stepped
      · rename_i opened
        exact pipNotify_kept kept opened allowed stepped
      · simp only [Option.some.injEq] at stepped
        subst next
        exact ⟨kept, Outbox.Continues.refl _⟩
  | flushreq seq =>
      simp only [Xfilepipe.step, Option.some.injEq] at stepped
      subst next
      exact pipFlushreq_kept kept allowed

/-- The bytes delivered are whole payloads, those of one fid in the order they arrived, and the
count of an answered Twrite is what it delivered. -/
structure PipeWhole (p : Xfilepipe) : Prop where
  framed : p.stream.Framed Xpipereq.payload Xpipereq.seq
  order : (p.completed ++ p.lost ++ p.reqs).Pairwise SameFidOrder
  answered : ∀ preq count, (preq, .rwrite count) ∈ p.answers →
    deliveredTo p.writes preq = preq.payload.take count ∧ count ≤ preq.payload.length

/-- While a partly written Twrite stays first and the descriptor has no error, the pipe delivers
whole payloads. -/
theorem pipe_delivers_whole (events : List PipeEvent)
    (keeps : Guarded Xfilepipe.step PipeHeadKept pipCreate events) :
    EveryStep Xfilepipe.step (fun p _ next => p.stream.Continues next.stream) pipCreate events ∧
      ∀ p, run Xfilepipe.step pipCreate events = some p → PipeWhole p := by
  have preserved := fun p event next kept allowed stepped =>
    (pipeStep_kept p event next kept allowed stepped).1
  constructor
  · exact everyStep_of_invariant Xfilepipe.step preserved
      (fun p event next kept allowed stepped => (pipeStep_kept p event next kept allowed stepped).2)
      pipCreate_kept keeps
  · intro p ran
    have kept := run_invariant Xfilepipe.step preserved pipCreate_kept keeps ran
    exact ⟨kept.kept.framed, kept.order, kept.answered⟩

theorem pipe_delivers_whole_two_fids :
    ∃ p, run Xfilepipe.step pipCreate
        [.addreq 3 [97, 98, 99] ⟨some 1, false⟩, .addreq 5 [120, 121] ⟨some 2, false⟩] = some p ∧
      PipeWhole p := by
  refine exists_final _ (by decide) ?_
  refine (pipe_delivers_whole _ ?_).2
  refine ⟨fun started => absurd started (by decide), fun next stepped => ⟨?_, fun _ _ => trivial⟩⟩
  change some _ = some next at stepped
  cases stepped
  intro _
  refine ⟨?_, rfl⟩
  intro first rest queued
  cases queued
  decide

/-- One byte of a Twrite on fid 5 is delivered, then a Twrite on fid 3 gets before it. -/
def overtaken : List PipeEvent :=
  [.addreq 5 [97, 98, 99] ⟨some 1, false⟩, .addreq 3 [120, 121, 122] ⟨some 2, false⟩]

theorem overtaken_delivers :
    (run Xfilepipe.step pipCreate overtaken).map (fun p => (p.writes, p.answers)) =
      some ([(0, [97]), (1, [121, 122])], [(⟨1, 3, [120, 121, 122]⟩, .rwrite 3)]) := by
  decide

theorem overtaken_breaks_pipe :
    ∃ p, run Xfilepipe.step pipCreate overtaken = some p ∧ ¬ PipeWhole p := by
  obtain ⟨p, ran, delivered⟩ := Option.map_eq_some_iff.mp overtaken_delivers
  refine ⟨p, ran, ?_⟩
  intro whole
  simp only [Prod.mk.injEq] at delivered
  have answer := (whole.answered ⟨1, 3, [120, 121, 122]⟩ 3 (by rw [delivered.2]; simp)).1
  rw [delivered.1] at answer
  exact absurd answer (by decide)

end Xcpu.Xcpufs
