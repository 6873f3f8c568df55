import Xcpu.Libspfs.FidHandlers

/-!
The references to fids over whole runs of a connection.
-/

namespace Xcpu.Libspfs

open Xcpu.Keyed Xcpu.Transition

section Refs

variable {Tree User Aux : Type} {srv : Spsrv Tree User Aux} {conn now next : Spconn Tree User Aux}
  {tc : Spfcall} {bound : Option Nat} {extra : Nat → Int} {outcome : Outcome}

theorem InHand.respond_cases {rc : Option Rcall} (queue : Queue conn.workreqs conn.nextRef)
    (hand : InHand conn tc bound extra now) (responded : spRespond srv now conn.nextRef rc = some next) :
    ∃ noted dropped, noteDiroffset { now with workreqs := conn.workreqs } (conn.request tc bound) rc =
        some noted ∧
      spFidDecref? srv noted bound = some dropped ∧
      next = { dropped with sent := conn.sent ++ replies conn.nextRef rc [] } := by
  obtain ⟨req, chain, noted, dropped, found, chained, note, drop, same⟩ := spRespond_cases responded
  have itself : req = conn.request tc bound := by
    unfold Spconn.reqAt at found
    rw [hand.reqs, List.find?_cons_of_pos (by simp [Spconn.request])] at found
    exact (Option.some.inj found).symm
  subst req
  have alone : chain = [] := by
    cases length : now.workreqs.length <;> simp_all [Spconn.request, flushChain]
  subst chain
  have others : now.workreqs.filter (·.ref ∉ [conn.nextRef]) = conn.workreqs := by
    rw [hand.reqs, List.filter_cons_of_neg (by simp [Spconn.request]), List.filter_eq_self]
    intro r waiting
    have below := queue.recent r waiting
    simp only [List.mem_singleton, decide_eq_true_eq]
    omega
  rw [others] at note
  rw [hand.sent] at same
  exact ⟨noted, dropped, note, drop, same⟩

theorem InHand.respond_frame {rc : Option Rcall} (queue : Queue conn.workreqs conn.nextRef)
    (hand : InHand conn tc bound extra now) (responded : spRespond srv now conn.nextRef rc = some next) :
    next.workreqs = conn.workreqs ∧ next.nextRef = now.nextRef ∧
      next.sent = conn.sent ++ (rc.map fun rc => (conn.nextRef, rc.type)).toList := by
  obtain ⟨noted, dropped, note, drop, same⟩ := hand.respond_cases queue responded
  have noted_queue := noteDiroffset_queue note
  have dropped_queue := spFidDecref?_queue drop
  subst next
  refine ⟨dropped_queue.workreqs.trans noted_queue.workreqs,
    dropped_queue.nextRef.trans noted_queue.nextRef, ?_⟩
  simp [replies]

theorem InHand.inv (inv : FidInv conn) (hand : InHand conn tc bound (owned bound) now)
    (kind : tc.type = .tversion → bound = none) : FidInv now := by
  have later := Nat.le_of_lt hand.later
  have queue := inv.queue.later later
  refine ⟨⟨hand.counted.refs, hand.counted.numbers, hand.counted.fresh, ?_, ?_⟩, ?_, ?_⟩
  · intro r waiting ref held
    rw [hand.reqs] at waiting
    rcases List.mem_cons.mp waiting with newest | older
    · subst r
      exact hand.inside ref held
    · exact hand.counted.bound r older ref held
  · intro f member
    have count := hand.counted.counts f member
    rw [hand.reqs, holders_cons]
    by_cases own : bound = some f.ref
    · simp only [owned, own, if_true] at count
      simp only [Spconn.request, own, if_true]
      omega
    · simp only [owned, own, if_false] at count
      simp only [Spconn.request, own, if_false]
      omega
  · have newest : (conn.request tc bound).ref ∉ conn.workreqs.map Spreq.ref := by
      intro member
      obtain ⟨r, waiting, same⟩ := List.mem_map.mp member
      have below := inv.queue.recent r waiting
      simp only [Spconn.request] at same
      omega
    rw [hand.reqs]
    constructor
    · exact List.nodup_cons.mpr ⟨newest, inv.queue.distinct⟩
    · intro r waiting
      rcases List.mem_cons.mp waiting with here | older
      · exact here ▸ hand.later
      · exact queue.recent r older
    · intro r waiting ref linked
      rcases List.mem_cons.mp waiting with here | older
      · simp [here, Spconn.request] at linked
      · exact queue.links r older ref linked
    · intro r waiting q other linked
      rcases List.mem_cons.mp waiting with here | older
      · simp [here, Spconn.request] at linked
      · rcases List.mem_cons.mp other with here | older'
        · have below := inv.queue.links r older q.ref linked
          simp only [here, Spconn.request] at below
          omega
        · exact inv.queue.hung r older q older' linked
    · intro r waiting version
      rcases List.mem_cons.mp waiting with here | older
      · subst r
        exact kind version
      · exact inv.queue.versions r older version
  · intro reply queued
    rw [hand.sent] at queued
    have below := inv.past reply queued
    omega

theorem InHand.respond_last {ref : Nat} {rc : Option Rcall} (inv : FidInv conn)
    (hand : InHand conn tc (some ref) (fun _ => 0) now) (unheld : holders conn.workreqs ref = 0)
    (responded : spRespond srv now conn.nextRef rc = some next) :
    FidInv next ∧ ∀ f ∈ conn.fids, f.ref ≠ ref → ∃ g ∈ next.fids, g.ref = f.ref ∧ g.fid = f.fid := by
  obtain ⟨same_reqs, same_next, same_sent⟩ := hand.respond_frame inv.queue responded
  obtain ⟨noted, dropped, note, drop, same⟩ := hand.respond_cases inv.queue responded
  obtain ⟨counted, keeps⟩ := noteDiroffset_counted note hand.counted
  have dropped_next : dropped.nextRef = next.nextRef := same ▸ rfl
  have dropped_fids : dropped.fids = next.fids := same ▸ rfl
  obtain ⟨f, member, here, -⟩ := spFidDecref_cases counted drop
  subst ref
  have gone := counted.decref_last member (by omega) drop
  have less := counted.decref (Int.le_refl 0) drop
  have others := counted.decref_others drop
  rw [dropped_fids] at gone less others
  rw [dropped_next] at less
  refine ⟨⟨?_, ?_, ?_⟩, ?_⟩
  · rw [same_reqs]
    refine less.congr ?_
    intro other inside
    have different : other ≠ f.ref := fun equal => gone (equal ▸ inside)
    simp [bump, different]
  · rw [same_reqs, same_next]
    exact inv.queue.later (Nat.le_of_lt hand.later)
  · rw [same_sent, same_next]
    intro reply queued
    have later := hand.later
    rcases List.mem_append.mp queued with before | added
    · have below := inv.past reply before
      omega
    · obtain ⟨sent, -, equal⟩ := Option.map_eq_some_iff.mp (Option.mem_toList.mp added)
      rw [← equal]
      exact later
  · intro g inside apart
    obtain ⟨h, stays, ref, fid⟩ := (hand.keeps.trans keeps) g inside
    exact ⟨h, others h stays (by omega), ref, fid⟩

theorem FidInv.tree {tree : Tree} (inv : FidInv conn) : FidInv { conn with tree := tree } :=
  ⟨inv.counted, inv.queue, inv.past⟩

theorem holders_update {reqs : List Spreq} {ref other : Nat} {change : Spreq → Spreq}
    (same : ∀ r, (change r).fid = r.fid) :
    holders (update Spreq.ref reqs ref change) other = holders reqs other := by
  have mapped (reqs : List Spreq) : holders reqs other = (reqs.map Spreq.fid).countP (· == some other) := by
    rw [holders, List.countP_map]
    rfl
  rw [mapped, mapped, update_map Spreq.fid same]

theorem FidInv.setReq {ref : Nat} {flushreq : Option Nat} (inv : FidInv conn)
    (linked : ∀ other, flushreq = some other →
      other < conn.nextRef ∧ ∀ q ∈ conn.workreqs, q.ref = other → q.fid = none) :
    FidInv (conn.setReq ref fun r => { r with flushreq := flushreq }) := by
  have keys : (update Spreq.ref conn.workreqs ref fun r => { r with flushreq := flushreq }).map
      Spreq.ref = conn.workreqs.map Spreq.ref := update_map Spreq.ref fun _ => rfl
  have held_same (other : Nat) : holders (update Spreq.ref conn.workreqs ref fun r =>
      { r with flushreq := flushreq }) other = holders conn.workreqs other := holders_update fun _ => rfl
  refine ⟨⟨inv.counted.refs, inv.counted.numbers, inv.counted.fresh, ?_, ?_⟩, ?_, inv.past⟩
  · intro r waiting other held
    obtain ⟨old, inside, rfl⟩ := mem_update.mp waiting
    refine inv.counted.bound old inside other ?_
    split at held <;> exact held
  · intro f member
    rw [inv.counted.counts f member]
    simp only [Spconn.setReq, held_same]
  · constructor
    · exact keys ▸ inv.queue.distinct
    · intro r waiting
      obtain ⟨old, inside, rfl⟩ := mem_update.mp waiting
      have below := inv.queue.recent old inside
      split <;> exact below
    · intro r waiting other link
      obtain ⟨old, inside, rfl⟩ := mem_update.mp waiting
      split at link
      · exact (linked other link).1
      · exact inv.queue.links old inside other link
    · intro r waiting q inside link
      obtain ⟨old, member, rfl⟩ := mem_update.mp waiting
      obtain ⟨old', member', rfl⟩ := mem_update.mp inside
      have free : old'.fid = none := by
        have same : (if old'.ref = ref then { old' with flushreq := flushreq } else old').ref = old'.ref := by
          split <;> rfl
        rw [same] at link
        split at link
        · exact (linked old'.ref link).2 old' member' rfl
        · exact inv.queue.hung old member old' member' link
      split <;> exact free
    · intro r waiting version
      obtain ⟨old, inside, rfl⟩ := mem_update.mp waiting
      have free : old.fid = none := by
        refine inv.queue.versions old inside ?_
        split at version <;> exact version
      split <;> exact free

theorem FidInv.xflush {creq : Spreq} {flushed : Bool} (inv : FidInv conn)
    (ran : xflush srv conn creq = some (flushed, next)) : FidInv next ∧ Keeps conn.fids next.fids := by
  rcases xflush_cases ran with ⟨-, tree, same⟩ | ⟨-, -, tree, responded⟩
  · subst next
    exact ⟨inv.tree, .refl _⟩
  · have inv' : FidInv { conn with tree := tree } := inv.tree
    exact inv'.respond responded

theorem FidInv.flushWorkreqs {steps : Nat} (inv : FidInv conn)
    (ran : flushWorkreqs srv conn steps = some next) :
    FidInv next ∧ ∀ r ∈ next.workreqs, r.tcall.type = .tversion := by
  induction steps generalizing conn with
  | zero => simp [Libspfs.flushWorkreqs] at ran
  | succ steps ih =>
      unfold Libspfs.flushWorkreqs at ran
      split at ran
      · rename_i rest
        simp only [Option.some.injEq] at ran
        subst next
        refine ⟨inv, ?_⟩
        intro r waiting
        have version := List.find?_eq_none.mp rest r waiting
        simpa using version
      · obtain ⟨⟨flushed, mid⟩, ran, again⟩ := Option.bind_eq_some_iff.mp ran
        dsimp only at again
        split at again
        · exact ih (inv.xflush ran).1 again
        · contradiction

theorem FidInv.reset {msize : Nat} {dotu : Bool} (inv : FidInv conn)
    (ran : spConnReset srv conn msize dotu = some next) : FidInv next := by
  obtain ⟨mid, flushed, same⟩ := Option.map_eq_some_iff.mp ran
  obtain ⟨inv', versions⟩ := inv.flushWorkreqs flushed
  subst next
  refine ⟨⟨List.nodup_nil, List.nodup_nil, by simp, ?_, by simp⟩, inv'.queue, inv'.past⟩
  intro r waiting ref held
  rw [inv'.queue.versions r waiting (versions r waiting)] at held
  contradiction

/-- What a step may do to the fids there are. A failed request takes nothing from any of them. -/
def FidsStay (conn : Spconn Tree User Aux) : ConnEvent → Spconn Tree User Aux → Prop
  | .answer _ _, next => Keeps conn.fids next.fids
  | .message tc _, next =>
      (tc.type ≠ .tversion → ∀ f ∈ conn.fids, (∃ g ∈ next.fids, g.ref = f.ref ∧ g.fid = f.fid) ∨
        (f.fid = tc.fid ∧ ∃ rc, Releases tc rc ∧ (conn.nextRef, rc.type) ∈ next.sent)) ∧
      ((conn.nextRef, FcallType.rerror) ∈ next.sent → ∀ f ∈ conn.fids,
        ∃ g ∈ next.fids, g.ref = f.ref ∧ g.fid = f.fid ∧ g.refcount = f.refcount)

theorem FidInv.same_counts (inv : FidInv conn) (inv' : FidInv next) (keeps : Keeps conn.fids next.fids)
    (same : next.workreqs = conn.workreqs) : ∀ f ∈ conn.fids,
      ∃ g ∈ next.fids, g.ref = f.ref ∧ g.fid = f.fid ∧ g.refcount = f.refcount := by
  intro f member
  obtain ⟨g, inside, ref, fid⟩ := keeps f member
  refine ⟨g, inside, ref, fid, ?_⟩
  rw [inv'.counted.counts g inside, inv.counted.counts f member, same, ref]

theorem FidInv.unanswered (inv : FidInv conn) {type : FcallType} : (conn.nextRef, type) ∉ conn.sent :=
  fun queued => Nat.lt_irrefl _ (inv.past _ queued)

theorem Handled.step {pkt : Packet} (inv : FidInv conn) (kind : tc.type ≠ .tversion)
    (handled : Handled conn tc now outcome)
    (answered : answerOutcome srv now conn.nextRef outcome = some next) :
    FidInv next ∧ FidsStay conn (.message tc pkt) next := by
  cases handled with
  | held hand =>
      have inv' := hand.inv inv fun version => absurd version kind
      rcases answerOutcome_cases answered with ⟨-, -, same⟩ | ⟨rc, responded, -⟩
      · subst next
        refine ⟨inv', fun _ f member => .inl (hand.keeps f member), ?_⟩
        intro failed
        exact absurd (hand.sent ▸ failed) inv.unanswered
      · obtain ⟨inv'', keeps⟩ := inv'.respond responded
        have whole := hand.keeps.trans keeps
        refine ⟨inv'', fun _ f member => .inl (whole f member), fun _ => ?_⟩
        exact inv.same_counts inv'' whole (hand.respond_frame inv.queue responded).1
  | @unmade ref hand new failed =>
      rcases answerOutcome_cases answered with ⟨clean, -, -⟩ | ⟨rc, responded, -⟩
      · rw [failed] at clean
        contradiction
      · obtain ⟨inv', others⟩ := hand.respond_last inv (inv.holders_new new) responded
        have whole : Keeps conn.fids next.fids := by
          intro f member
          have below := inv.counted.fresh f member
          exact others f member (by omega)
        refine ⟨inv', fun _ f member => .inl (whole f member), fun _ => ?_⟩
        exact inv.same_counts inv' whole (hand.respond_frame inv.queue responded).1
  | @released f rc hand member number unheld same reply =>
      subst outcome
      rcases answerOutcome_cases answered with ⟨-, nothing, -⟩ | ⟨sent, responded, ⟨failed, -⟩ | ⟨-, given⟩⟩
      · contradiction
      · contradiction
      · have given : rc = sent := Option.some.inj given
        subst sent
        obtain ⟨inv', others⟩ := hand.respond_last inv unheld responded
        obtain ⟨-, -, queued⟩ := hand.respond_frame inv.queue responded
        refine ⟨inv', ?_, ?_⟩
        · intro _ g inside
          by_cases here : g.ref = f.ref
          · have itself := List.inj_on_of_nodup_map inv.counted.refs inside member here
            subst g
            exact .inr ⟨number, rc, reply, by simp [queued]⟩
          · exact .inl (others g inside here)
        · intro failed
          rw [queued] at failed
          rcases List.mem_append.mp failed with before | added
          · exact absurd before inv.unanswered
          · have error : FcallType.rerror = rc.type := by simpa using added
            rcases reply with ⟨-, clunked⟩ | ⟨-, removed⟩
            · rw [clunked] at error
              contradiction
            · rw [removed] at error
              contradiction

theorem spRespond_rerror {ref other : Nat} {rc : Option Rcall}
    (responded : spRespond srv conn ref rc = some next)
    (failed : (other, FcallType.rerror) ∈ next.sent) :
    (other, FcallType.rerror) ∈ conn.sent ∨ ∃ sent, rc = some sent ∧ sent.type = .rerror := by
  obtain ⟨req, chain, noted, dropped, -, -, -, -, same⟩ := spRespond_cases responded
  subst next
  rcases List.mem_append.mp failed with before | added
  · exact .inl before
  · rcases List.mem_append.mp added with own | flushed
    · obtain ⟨sent, given, equal⟩ := Option.map_eq_some_iff.mp (Option.mem_toList.mp own)
      exact .inr ⟨sent, given, (Prod.mk.inj equal).2⟩
    · obtain ⟨freq, -, equal⟩ := List.mem_map.mp flushed
      simp at equal

theorem FidInv.replied {ref other : Nat} {type : FcallType} (inv : FidInv now)
    (clean : (other, FcallType.rerror) ∉ now.sent) (reply : type ≠ .rerror)
    (answered : answerOutcome srv now ref (.replied type) = some next) :
    FidInv next ∧ Keeps now.fids next.fids ∧ (other, FcallType.rerror) ∉ next.sent := by
  rcases answerOutcome_cases answered with ⟨-, nothing, -⟩ | ⟨sent, responded, ⟨failed, -⟩ | ⟨-, given⟩⟩
  · contradiction
  · contradiction
  · obtain ⟨inv', keeps⟩ := inv.respond responded
    refine ⟨inv', keeps, ?_⟩
    intro failed
    rcases spRespond_rerror responded failed with before | ⟨rc, same, error⟩
    · exact clean before
    · rw [← Option.some.inj given] at same
      rw [← Option.some.inj same] at error
      exact reply error

theorem xflush_clean {creq : Spreq} {flushed : Bool} {other : Nat}
    (clean : (other, FcallType.rerror) ∉ conn.sent) (ran : xflush srv conn creq = some (flushed, next)) :
    (other, FcallType.rerror) ∉ next.sent := by
  rcases xflush_cases ran with ⟨-, tree, same⟩ | ⟨-, -, tree, responded⟩
  · subst next
    exact clean
  · intro failed
    rcases spRespond_rerror responded failed with before | ⟨rc, same, -⟩
    · exact clean before
    · contradiction

theorem flushWorkreqs_clean {steps other : Nat} (clean : (other, FcallType.rerror) ∉ conn.sent)
    (ran : flushWorkreqs srv conn steps = some next) : (other, FcallType.rerror) ∉ next.sent := by
  induction steps generalizing conn with
  | zero => simp [Libspfs.flushWorkreqs] at ran
  | succ steps ih =>
      unfold Libspfs.flushWorkreqs at ran
      split at ran
      · rw [← Option.some.inj ran]
        exact clean
      · obtain ⟨⟨flushed, mid⟩, tried, again⟩ := Option.bind_eq_some_iff.mp ran
        dsimp only at again
        split at again
        · exact ih (xflush_clean clean tried) again
        · contradiction

theorem spFlush_step {pkt : Packet} (inv : FidInv conn)
    (ran : spFlush srv (conn.accept tc) conn.nextRef tc = some (now, outcome))
    (answered : answerOutcome srv now conn.nextRef outcome = some next) :
    FidInv next ∧ FidsStay conn (.message tc pkt) next := by
  have accepted : InHand conn tc none (owned none) (conn.accept tc) := .accept inv
  have start := accepted.inv inv fun _ => rfl
  have later : conn.nextRef < (conn.accept tc).nextRef := accepted.later
  have finish (inv' : FidInv now) (keeps : Keeps conn.fids now.fids)
      (clean : (conn.nextRef, FcallType.rerror) ∉ now.sent) (replied : outcome = .replied .rflush) :
      FidInv next ∧ FidsStay conn (.message tc pkt) next := by
    subst outcome
    obtain ⟨inv'', keeps', clean'⟩ := inv'.replied clean (by decide) answered
    exact ⟨inv'', fun _ f member => .inl ((keeps.trans keeps') f member),
      fun failed => absurd failed clean'⟩
  unfold spFlush at ran
  split at ran
  · simp only [Option.some.injEq, Prod.mk.injEq] at ran
    obtain ⟨rfl, rfl⟩ := ran
    exact finish start (.refl _) inv.unanswered rfl
  · rename_i creq found
    obtain ⟨⟨flushed, mid⟩, tried, rest⟩ := Option.bind_eq_some_iff.mp ran
    have mid_cases : (flushed = false ∧ ∃ tree, mid = { conn.accept tc with tree := tree }) ∨
        (flushed = true ∧ creq.fid ≠ none ∧ ∃ tree,
          spRespond srv { conn.accept tc with tree := tree } creq.ref none = some mid) := by
      split at tried
      · exact xflush_cases tried
      · simp only [Option.some.injEq, Prod.mk.injEq] at tried
        obtain ⟨rfl, rfl⟩ := tried
        exact .inl ⟨rfl, _, rfl⟩
    rcases mid_cases with ⟨rfl, tree, same⟩ | ⟨rfl, -, tree, responded⟩
    · simp only [Bool.false_eq_true, if_false, Option.some.injEq, Prod.mk.injEq] at rest
      obtain ⟨linked, rfl⟩ := rest
      have start' : FidInv mid := same ▸ start.tree
      have member : creq ∈ mid.workreqs := by
        have inside := List.mem_of_find?_eq_some found
        exact same ▸ inside
      have taken : FidInv (mid.setReq conn.nextRef fun r => { r with flushreq := creq.flushreq }) := by
        refine start'.setReq ?_
        intro other link
        refine ⟨start'.queue.links creq member other link, ?_⟩
        intro q inside here
        exact start'.queue.hung creq member q inside (here ▸ link)
      have linked' : FidInv now := by
        rw [← linked]
        refine taken.setReq ?_
        intro other link
        have here : other = conn.nextRef := (Option.some.inj link).symm
        subst other
        have mid_next : mid.nextRef = (conn.accept tc).nextRef := same ▸ rfl
        refine ⟨mid_next ▸ later, ?_⟩
        intro q inside itself
        obtain ⟨old, waiting, rfl⟩ := mem_update.mp inside
        have free : old.fid = none := by
          have same_reqs : mid.workreqs = (conn.accept tc).workreqs := same ▸ rfl
          rw [same_reqs] at waiting
          rcases List.mem_cons.mp waiting with newest | older
          · rw [newest]
          · have below := inv.queue.recent old older
            have key : old.ref = conn.nextRef := by
              rw [← itself]
              split <;> rfl
            omega
        split <;> exact free
      rcases answerOutcome_cases answered with ⟨-, -, done⟩ | ⟨sent, -, ⟨failed, -⟩ | ⟨-, given⟩⟩
      · subst next
        have keeps : Keeps conn.fids now.fids := by
          rw [← linked, same]
          exact .refl _
        refine ⟨linked', fun _ f inside => .inl (keeps f inside), ?_⟩
        intro failed
        rw [← linked, same] at failed
        exact absurd failed inv.unanswered
      · contradiction
      · contradiction
    · simp only [if_true, Option.some.injEq, Prod.mk.injEq] at rest
      obtain ⟨rfl, rfl⟩ := rest
      have start' : FidInv { conn.accept tc with tree := tree } := start.tree
      obtain ⟨inv', keeps⟩ := start'.respond responded
      refine finish inv' keeps ?_ rfl
      intro failed
      rcases spRespond_rerror responded failed with before | ⟨rc, same, -⟩
      · exact inv.unanswered before
      · contradiction

theorem spVersion_step {pkt : Packet} (inv : FidInv conn) (kind : tc.type = .tversion)
    (ran : spVersion srv (conn.accept tc) conn.nextRef tc pkt = some (now, outcome))
    (answered : answerOutcome srv now conn.nextRef outcome = some next) :
    FidInv next ∧ FidsStay conn (.message tc pkt) next := by
  have accepted : InHand conn tc none (owned none) (conn.accept tc) := .accept inv
  have start := accepted.inv inv fun _ => rfl
  unfold spVersion at ran
  split at ran
  · simp only [Option.some.injEq, Prod.mk.injEq] at ran
    obtain ⟨rfl, rfl⟩ := ran
    rcases answerOutcome_cases answered with ⟨clean, -, -⟩ | ⟨rc, responded, -⟩
    · contradiction
    · obtain ⟨inv', keeps⟩ := start.respond responded
      have keeps : Keeps conn.fids next.fids := keeps
      refine ⟨inv', fun other => absurd kind other, fun _ => ?_⟩
      exact inv.same_counts inv' keeps (accepted.respond_frame inv.queue responded).1
  · unfold spDefaultVersion at ran
    split at ran
    · contradiction
    · split at ran
      · contradiction
      · obtain ⟨mid, reset, same⟩ := Option.map_eq_some_iff.mp ran
        obtain ⟨rfl, rfl⟩ := Prod.mk.inj same
        have clean : (conn.nextRef, FcallType.rerror) ∉ mid.sent := by
          obtain ⟨flushed, ran, same⟩ := Option.map_eq_some_iff.mp reset
          have before : (conn.nextRef, FcallType.rerror) ∉ (conn.accept tc).sent := inv.unanswered
          have after := flushWorkreqs_clean before ran
          exact same ▸ after
        obtain ⟨inv', -, clean'⟩ := (start.reset reset).replied clean (by decide) answered
        exact ⟨inv', fun other => absurd kind other, fun failed => absurd failed clean'⟩

/-- When the fids of a connection stay counted. A Tauth must not name a fid there is, nor a
Twalk as its new fid, and the walked file must be cloned; a Tclunk or Tremove that succeeds
must be the only request on its fid. -/
def FidSafe (srv : Spsrv Tree User Aux) (conn : Spconn Tree User Aux) : ConnEvent → Prop
  | .answer _ _ => True
  | .message tc _ =>
      match tc.type with
      | .tauth => spFidFind conn tc.afid = none
      | .twalk => ∀ f, spFidFind conn tc.fid = some f → f.omode = omodeNone → tc.nwname ≤ maxwelem →
          tc.fid ≠ tc.newfid → spFidFind conn tc.newfid = none ∧
            (srv.clone conn.tree f { ref := conn.nextRef + 1, fid := tc.newfid }).value.isSome
      | .tclunk => ∀ f, spFidFind conn tc.fid = some f → clunks srv conn f →
          holders conn.workreqs f.ref = 0
      | .tremove => ∀ f, spFidFind conn tc.fid = some f → removes srv conn f →
          holders conn.workreqs f.ref = 0
      | type => type.number % 2 = 0

theorem FidInv.step {event : ConnEvent} (answers : srv.Answers) (inv : FidInv conn)
    (safe : FidSafe srv conn event) (stepped : Spconn.step srv conn event = some next) :
    FidInv next ∧ FidsStay conn event next := by
  cases event with
  | answer ref rc =>
      simp only [Spconn.step] at stepped
      split at stepped
      · rw [← Option.some.inj stepped]
        exact ⟨inv, .refl _⟩
      · split at stepped
        · rw [← Option.some.inj stepped]
          exact ⟨inv, .refl _⟩
        · exact inv.respond stepped
  | message tc pkt =>
      obtain ⟨now, outcome, found, answered⟩ := spSrvProcessFcall_cases stepped
      cases kind : tc.type <;> simp only [FidSafe, kind, FcallType.number] at safe <;>
        simp only [kind, FcallType.number, spFcalls, Option.some.injEq] at found
      case tversion => exact spVersion_step inv kind found answered
      case tauth => exact (spAuth_handled inv safe found).step inv (by simp [kind]) answered
      case tattach => exact (spAttach_handled answers inv found).step inv (by simp [kind]) answered
      case tflush => exact spFlush_step inv found answered
      case twalk => exact (spWalk_handled inv safe found).step inv (by simp [kind]) answered
      case topen => exact (spOpen_handled inv found).step inv (by simp [kind]) answered
      case tcreate => exact (spCreate_handled inv found).step inv (by simp [kind]) answered
      case tread => exact (spRead_handled inv found).step inv (by simp [kind]) answered
      case twrite => exact (spWrite_handled inv found).step inv (by simp [kind]) answered
      case tclunk => exact (spClunk_handled answers inv kind safe found).step inv (by simp [kind]) answered
      case tremove => exact (spRemove_handled answers inv kind safe found).step inv (by simp [kind]) answered
      case tstat => exact (spStat_handled inv found).step inv (by simp [kind]) answered
      case twstat => exact (spWstat_handled inv found).step inv (by simp [kind]) answered
      all_goals simp at safe

theorem spConnCreate_inv (srv : Spsrv Tree User Aux) (tree : Tree) : FidInv (spConnCreate srv tree) where
  counted := ⟨List.nodup_nil, List.nodup_nil, by simp [spConnCreate], by simp [spConnCreate],
    by simp [spConnCreate]⟩
  queue := ⟨List.nodup_nil, by simp [spConnCreate], by simp [spConnCreate], by simp [spConnCreate],
    by simp [spConnCreate]⟩
  past := by simp [spConnCreate]

/-- One reference for the table and one for each outstanding request. -/
def FidsCounted (conn : Spconn Tree User Aux) : Prop :=
  ∀ f ∈ conn.fids, f.refcount = 1 + holders conn.workreqs f.ref

/-- As long as the guard allows each step, every fid of every state is counted, and no step
takes away a fid except by a Tclunk or Tremove of it that succeeds, or a Tversion. -/
theorem fids_counted (answers : srv.Answers) (tree : Tree) (events : List ConnEvent)
    (safe : Guarded (Spconn.step srv) (FidSafe srv) (spConnCreate srv tree) events) :
    EveryStep (Spconn.step srv)
      (fun conn event next => FidsCounted next ∧ FidsStay conn event next)
      (spConnCreate srv tree) events := by
  refine everyStep_of_invariant (Spconn.step srv)
    (fun conn event next inv allowed stepped => (inv.step answers allowed stepped).1)
    ?_ (spConnCreate_inv srv tree) safe
  intro conn event next inv allowed stepped
  obtain ⟨inv', stay⟩ := inv.step answers allowed stepped
  refine ⟨?_, stay⟩
  intro f member
  simpa using inv'.counted.counts f member

end Refs

section Runs

theorem oneFile_answers : oneFile.Answers where
  checkauth _ _ _ _ nothing := by contradiction
  attach _ _ _ _ _ nothing := by contradiction
  clunk _ _ _ _ _ := rfl
  remove _ _ _ given := by contradiction

theorem fids_counted_clone : EveryStep (Spconn.step oneFile)
    (fun conn event next => FidsCounted next ∧ FidsStay conn event next)
    (spConnCreate oneFile ()) [version, attach 1, walk 1 2, clunk 2] := by
  apply fids_counted oneFile_answers
  refine guarded_cons _ rfl rfl (guarded_cons _ rfl rfl (guarded_cons _ rfl ?_
    (guarded_cons _ rfl ?_ trivial)))
  · intro f _ _ _ _
    exact ⟨rfl, rfl⟩
  · intro f found _
    cases found
    rfl

/-- The walk fails because its new fid is in use, and takes that fid away. -/
theorem walkInUse_fids :
    (run (Spconn.step oneFile) (spConnCreate oneFile ()) [version, attach 1, attach 2]).bind (fun conn =>
      (Spconn.step oneFile conn (walk 1 2)).map fun next =>
        (conn.fids.map Spfid.fid, next.fids.map Spfid.fid, next.sent.map Prod.snd)) =
      some ([2, 1], [1], [.rversion, .rattach, .rattach, .rerror]) := by
  decide

theorem walkInUse_loses_fid : ¬ EveryStep (Spconn.step oneFile)
    (fun conn event next => FidsCounted next ∧ FidsStay conn event next)
    (spConnCreate oneFile ()) ([version, attach 1, attach 2] ++ [walk 1 2]) := by
  intro every
  obtain ⟨conn, ran, stepped⟩ := Option.bind_eq_some_iff.mp walkInUse_fids
  obtain ⟨next, stepped, same⟩ := Option.map_eq_some_iff.mp stepped
  simp only [Prod.mk.injEq] at same
  obtain ⟨before, after, -⟩ := same
  obtain ⟨⟨-, stay, -⟩, -⟩ := everyStep_append _ every ran next stepped
  have held : 2 ∈ conn.fids.map Spfid.fid := by simp [before]
  obtain ⟨f, member, number⟩ := List.mem_map.mp held
  rcases stay (by decide) f member with ⟨g, inside, -, fid⟩ | ⟨-, rc, ⟨kind, -⟩ | ⟨kind, -⟩, -⟩
  · have left := List.mem_map_of_mem (f := Spfid.fid) inside
    rw [after, fid, number] at left
    simp at left
  · contradiction
  · contradiction

end Runs

end Xcpu.Libspfs
