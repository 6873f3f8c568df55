import Xcpu.Libspfs.Dispatch

/-!
What `sp_respond` changes: the request and the flushes that hang off it leave the working
requests and are answered, and the request's fid is let go.
-/

namespace Xcpu.Libspfs

open Xcpu.Keyed

variable {Tree User Aux : Type} {srv : Spsrv Tree User Aux} {conn next : Spconn Tree User Aux}

/-- The part of a connection that only `sp_respond` and the handlers' own bookkeeping change. -/
structure SameQueue (conn next : Spconn Tree User Aux) : Prop where
  workreqs : next.workreqs = conn.workreqs
  nextRef : next.nextRef = conn.nextRef
  sent : next.sent = conn.sent
  pool : next.pool = conn.pool
  msize : next.msize = conn.msize
  dotu : next.dotu = conn.dotu

theorem SameQueue.refl (conn : Spconn Tree User Aux) : SameQueue conn conn := ⟨rfl, rfl, rfl, rfl, rfl, rfl⟩

theorem SameQueue.trans {third : Spconn Tree User Aux} (one : SameQueue conn next)
    (two : SameQueue next third) : SameQueue conn third where
  workreqs := two.workreqs.trans one.workreqs
  nextRef := two.nextRef.trans one.nextRef
  sent := two.sent.trans one.sent
  pool := two.pool.trans one.pool
  msize := two.msize.trans one.msize
  dotu := two.dotu.trans one.dotu

theorem setFid_queue (ref : Nat) (change : Spfid User Aux → Spfid User Aux) :
    SameQueue conn (conn.setFid ref change) := ⟨rfl, rfl, rfl, rfl, rfl, rfl⟩

theorem spFidDestroy_queue (f : Spfid User Aux) : SameQueue conn (spFidDestroy srv conn f) := by
  unfold spFidDestroy
  split
  · exact ⟨rfl, rfl, rfl, rfl, rfl, rfl⟩
  · exact .refl conn

theorem spFidDecref_queue {ref : Nat} (dropped : spFidDecref srv conn ref = some next) :
    SameQueue conn next := by
  unfold spFidDecref at dropped
  split at dropped
  · contradiction
  · split at dropped
    · rw [← Option.some.inj dropped]
      exact spFidDestroy_queue _
    · rw [← Option.some.inj dropped]
      exact setFid_queue _ _

theorem spFidDecref?_queue {ref : Option Nat} (dropped : spFidDecref? srv conn ref = some next) :
    SameQueue conn next := by
  cases ref with
  | none =>
      rw [← Option.some.inj dropped]
      exact .refl conn
  | some ref => exact spFidDecref_queue dropped

theorem noteDiroffset_cases {req : Spreq} {rc : Option Rcall}
    (noted : noteDiroffset conn req rc = some next) :
    next = conn ∨ ∃ ref offset, next = conn.setFid ref fun f => { f with diroffset := offset } := by
  unfold noteDiroffset at noted
  split at noted
  · split at noted
    · contradiction
    · split at noted
      · contradiction
      · split at noted
        · exact .inr ⟨_, _, (Option.some.inj noted).symm⟩
        · exact .inl (Option.some.inj noted).symm
  · exact .inl (Option.some.inj noted).symm

theorem noteDiroffset_queue {req : Spreq} {rc : Option Rcall}
    (noted : noteDiroffset conn req rc = some next) : SameQueue conn next := by
  rcases noteDiroffset_cases noted with same | ⟨ref, offset, same⟩
  · subst next
    exact .refl conn
  · subst next
    exact setFid_queue ref _

/-- The replies `sp_respond` queues, with the requests they answer. -/
def replies (ref : Nat) (rc : Option Rcall) (chain : List Nat) : List (Nat × FcallType) :=
  (rc.map fun rc => (ref, rc.type)).toList ++ chain.map fun freq => (freq, FcallType.rflush)

theorem replies_mem {ref : Nat} {rc : Option Rcall} {chain : List Nat} {reply : Nat × FcallType}
    (queued : reply ∈ replies ref rc chain) : reply.1 = ref ∨ reply.1 ∈ chain := by
  rcases List.mem_append.mp queued with own | flushed
  · obtain ⟨sent, -, same⟩ := Option.map_eq_some_iff.mp (Option.mem_toList.mp own)
    exact .inl (same ▸ rfl)
  · obtain ⟨freq, listed, same⟩ := List.mem_map.mp flushed
    exact .inr (same ▸ listed)

theorem spConnRespond_rflush (chain : List Nat) :
    chain.foldl (fun conn freq => spConnRespond conn freq (some { type := .rflush })) conn =
      { conn with sent := conn.sent ++ chain.map fun freq => (freq, FcallType.rflush) } := by
  induction chain generalizing conn with
  | nil => simp
  | cons freq rest ih =>
      rw [List.foldl_cons, ih]
      simp [spConnRespond]

theorem spConnRespond_eq (ref : Nat) (rc : Option Rcall) :
    spConnRespond conn ref rc =
      { conn with sent := conn.sent ++ (rc.map fun rc => (ref, rc.type)).toList } := by
  cases rc with
  | none => simp [spConnRespond]
  | some rc => rfl

theorem spRespond_cases {ref : Nat} {rc : Option Rcall} (responded : spRespond srv conn ref rc = some next) :
    ∃ req chain noted dropped, conn.reqAt ref = some req ∧
      flushChain conn.workreqs conn.workreqs.length req.flushreq = some chain ∧
      noteDiroffset { conn with workreqs := conn.workreqs.filter (·.ref ∉ ref :: chain) } req rc =
        some noted ∧
      spFidDecref? srv noted req.fid = some dropped ∧
      next = { dropped with sent := conn.sent ++ replies ref rc chain } := by
  unfold spRespond at responded
  cases found : conn.reqAt ref with
  | none => simp [found] at responded
  | some req =>
      simp only [found] at responded
      obtain ⟨chain, chained, responded⟩ := Option.bind_eq_some_iff.mp responded
      obtain ⟨noted, note, responded⟩ := Option.bind_eq_some_iff.mp responded
      obtain ⟨dropped, drop, answered⟩ := Option.map_eq_some_iff.mp responded
      refine ⟨req, chain, noted, dropped, rfl, chained, note, drop, ?_⟩
      rw [← answered, spConnRespond_rflush, spConnRespond_eq,
        (spFidDecref?_queue drop).sent, (noteDiroffset_queue note).sent, List.append_assoc, replies]

theorem flushChain_linked {reqs : List Spreq} {steps : Nat} {first : Option Nat} {chain : List Nat}
    (chained : flushChain reqs steps first = some chain) :
    ∀ ref ∈ chain, first = some ref ∨ ∃ r ∈ reqs, r.flushreq = some ref := by
  induction steps generalizing first chain with
  | zero =>
      cases first with
      | none => simp_all [flushChain]
      | some ref => simp [flushChain] at chained
  | succ steps ih =>
      cases first with
      | none => simp_all [flushChain]
      | some head =>
          simp only [flushChain] at chained
          split at chained
          · contradiction
          · rename_i freq found
            obtain ⟨tail, rest, rfl⟩ := Option.map_eq_some_iff.mp chained
            obtain ⟨member, -⟩ := find?_key found
            intro ref listed
            rcases List.mem_cons.mp listed with here | later
            · exact .inl (here ▸ rfl)
            · rcases ih rest ref later with here | linked
              · exact .inr ⟨freq, member, here⟩
              · exact .inr linked

theorem flushChain_waiting {reqs : List Spreq} {steps : Nat} {first : Option Nat} {chain : List Nat}
    (chained : flushChain reqs steps first = some chain) : ∀ ref ∈ chain, ∃ r ∈ reqs, r.ref = ref := by
  induction steps generalizing first chain with
  | zero =>
      cases first with
      | none => simp_all [flushChain]
      | some ref => simp [flushChain] at chained
  | succ steps ih =>
      cases first with
      | none => simp_all [flushChain]
      | some head =>
          simp only [flushChain] at chained
          split at chained
          · contradiction
          · rename_i freq found
            obtain ⟨tail, rest, rfl⟩ := Option.map_eq_some_iff.mp chained
            intro ref listed
            rcases List.mem_cons.mp listed with here | later
            · exact ⟨freq, (find?_key found).1, here ▸ (find?_key found).2⟩
            · exact ih rest ref later

variable {outcome : Outcome} {tc : Spfcall}

theorem answerOutcome_cases {ref : Nat} (answered : answerOutcome srv conn ref outcome = some next) :
    (outcome.error = false ∧ outcome.rc = none ∧ next = conn) ∨
    ∃ rc, spRespond srv conn ref (some rc) = some next ∧
      (outcome.error = true ∧ rc = { type := .rerror } ∨ outcome.error = false ∧ outcome.rc = some rc) := by
  unfold answerOutcome at answered
  split at answered
  · rename_i failed
    exact .inr ⟨_, answered, .inl ⟨failed, rfl⟩⟩
  · rename_i clean
    have clean : outcome.error = false := by simpa using clean
    split at answered
    · rename_i nothing
      exact .inl ⟨clean, nothing, (Option.some.inj answered).symm⟩
    · rename_i rc given
      exact .inr ⟨rc, answered, .inr ⟨clean, given⟩⟩

theorem xflush_cases {creq : Spreq} {flushed : Bool} (ran : xflush srv conn creq = some (flushed, next)) :
    (flushed = false ∧ ∃ tree, next = { conn with tree := tree }) ∨
    (flushed = true ∧ creq.fid ≠ none ∧
      ∃ tree, spRespond srv { conn with tree := tree } creq.ref none = some next) := by
  unfold xflush at ran
  split at ran
  · simp only [Option.some.injEq, Prod.mk.injEq] at ran
    obtain ⟨rfl, rfl⟩ := ran
    exact .inl ⟨rfl, conn.tree, rfl⟩
  · rename_i fid held
    dsimp only at ran
    split at ran
    · obtain ⟨answered, responded, same⟩ := Option.map_eq_some_iff.mp ran
      obtain ⟨rfl, rfl⟩ := Prod.mk.inj same
      exact .inr ⟨rfl, by simp [held], _, responded⟩
    · simp only [Option.some.injEq, Prod.mk.injEq] at ran
      obtain ⟨rfl, rfl⟩ := ran
      exact .inl ⟨rfl, _, rfl⟩

theorem spSrvProcessFcall_cases {pkt : Packet} (ran : spSrvProcessFcall srv conn tc pkt = some next) :
    ∃ now outcome, spFcalls srv (conn.accept tc) conn.nextRef tc pkt ((tc.type.number - 100) / 2) =
        some (some (now, outcome)) ∧
      answerOutcome srv now conn.nextRef outcome = some next := by
  unfold spSrvProcessFcall at ran
  split at ran
  · contradiction
  · rename_i handled found
    obtain ⟨⟨now, outcome⟩, did, answered⟩ := Option.bind_eq_some_iff.mp ran
    exact ⟨now, outcome, did ▸ found, answered⟩

end Xcpu.Libspfs
