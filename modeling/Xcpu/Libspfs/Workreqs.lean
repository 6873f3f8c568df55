import Xcpu.Libspfs.Respond

/-!
The handlers and the working requests. Apart from `sp_version` and `sp_flush` a handler only
binds its own request to a fid; it neither answers nor links any request.
-/

namespace Xcpu.Libspfs

open Xcpu.Keyed

variable {Tree User Aux : Type} {srv : Spsrv Tree User Aux} {conn now next : Spconn Tree User Aux}

/-- The request, without the fid if it is the one the handler works for. -/
def Spreq.apartFrom (req : Nat) (r : Spreq) : Spreq := if r.ref = req then { r with fid := none } else r

structure SameWork (req : Nat) (now next : Spconn Tree User Aux) : Prop where
  work : next.workreqs.map (Spreq.apartFrom req) = now.workreqs.map (Spreq.apartFrom req)
  later : now.nextRef ≤ next.nextRef
  sent : next.sent = now.sent

theorem SameWork.refl (req : Nat) (now : Spconn Tree User Aux) : SameWork req now now :=
  ⟨rfl, Nat.le_refl _, rfl⟩

theorem SameWork.trans {req : Nat} {third : Spconn Tree User Aux} (one : SameWork req now next)
    (two : SameWork req next third) : SameWork req now third :=
  ⟨two.work.trans one.work, Nat.le_trans one.later two.later, two.sent.trans one.sent⟩

theorem SameQueue.sameWork (req : Nat) (same : SameQueue now next) : SameWork req now next :=
  ⟨by rw [same.workreqs], Nat.le_of_eq same.nextRef.symm, same.sent⟩

theorem SameWork.setFid {req ref : Nat} {change : Spfid User Aux → Spfid User Aux}
    (same : SameWork req now next) : SameWork req now (next.setFid ref change) :=
  ⟨same.work, same.later, same.sent⟩

theorem SameWork.tree {req : Nat} {tree : Tree} (same : SameWork req now next) :
    SameWork req now { next with tree := tree } := ⟨same.work, same.later, same.sent⟩

theorem SameWork.called {Value : Type} {req ref : Nat} {back : Back Tree Aux Value}
    (same : SameWork req now next) : SameWork req now (next.called ref back) := same.tree.setFid

theorem bindFid_sameWork (req ref : Nat) : SameWork req now (now.bindFid req ref) := by
  refine ⟨?_, Nat.le_refl _, rfl⟩
  have same : (now.bindFid req ref).workreqs =
      update Spreq.ref now.workreqs req fun r => { r with fid := some ref } := rfl
  rw [same, update, List.map_map]
  apply List.map_congr_left
  intro r _
  by_cases here : r.ref = req <;> simp [Spreq.apartFrom, here]

theorem spFidIncref_sameWork {req : Nat} (ref : Nat) (same : SameWork req now next) :
    SameWork req now (spFidIncref next ref) := same.setFid

theorem spFidCreate_sameWork {fid : Nat} (req : Nat) {created : Option Nat}
    (made : spFidCreate now fid = (created, next)) : SameWork req now next := by
  unfold spFidCreate at made
  split at made
  · simp only [Prod.mk.injEq] at made
    rw [← made.2]
    exact ⟨rfl, Nat.le_succ _, rfl⟩
  · simp only [Prod.mk.injEq] at made
    exact made.2 ▸ .refl req now

theorem spFidDecref_sameWork {ref : Nat} (req : Nat) (dropped : spFidDecref srv now ref = some next) :
    SameWork req now next :=
  (spFidDecref_queue dropped).sameWork req

theorem SameWork.done {req : Nat} {mid : Spconn Tree User Aux} {result outcome : Outcome}
    (same : SameWork req now mid) (ran : some (mid, result) = some (next, outcome)) :
    SameWork req now next := by
  simp only [Option.some.injEq, Prod.mk.injEq] at ran
  exact ran.1 ▸ same

theorem SameWork.dropped {req ref : Nat} {mid : Spconn Tree User Aux} {result outcome : Outcome}
    (same : SameWork req now mid)
    (ran : (spFidDecref srv mid ref).map (·, result) = some (next, outcome)) : SameWork req now next := by
  obtain ⟨after, drop, equal⟩ := Option.map_eq_some_iff.mp ran
  exact (Prod.mk.inj equal).1 ▸ same.trans (spFidDecref_sameWork req drop)

theorem withFid_sameWork {req fid : Nat} {outcome : Outcome}
    {body : Spconn Tree User Aux → Spfid User Aux → Option (Spconn Tree User Aux × Outcome)}
    (ran : withFid now req fid body = some (next, outcome))
    (body_same : ∀ mid f, SameWork req now mid → body mid f = some (next, outcome) →
      SameWork req now next) : SameWork req now next := by
  unfold withFid at ran
  split at ran
  · exact (SameWork.refl req now).done ran
  · rename_i f _
    exact body_same _ f (bindFid_sameWork req f.ref) ran

variable {req : Nat} {tc : Spfcall} {pkt : Packet} {outcome : Outcome}

theorem withReq_sameWork {ref : Nat} {mid : Spconn Tree User Aux} {callback : Spreq → Back Tree Aux Rcall}
    (same : SameWork req now mid)
    (ran : (withReq mid req fun r => calling mid ref (callback r)) = some (next, outcome)) :
    SameWork req now next := by
  obtain ⟨r, -, called⟩ := Option.bind_eq_some_iff.mp ran
  exact same.called.done called

theorem spAuth_sameWork (ran : spAuth srv now req tc pkt = some (next, outcome)) :
    SameWork req now next := by
  unfold spAuth at ran
  split at ran
  · exact (SameWork.refl req now).dropped ran
  · split at ran
    · rename_i made
      exact (spFidCreate_sameWork req made).done ran
    · rename_i afid mid made
      have counted : SameWork req now (spFidIncref mid afid) := (spFidCreate_sameWork req made).setFid
      have tried : SameWork req now (spAuthUser srv (spFidIncref mid afid) afid tc pkt).1 := by
        unfold spAuthUser
        split
        · exact counted
        · dsimp only
          split
          · exact counted.setFid
          · split
            · exact counted.setFid.called
            · exact counted.setFid
      dsimp only at ran
      split at ran
      · exact tried.dropped ran
      · exact tried.done ran

theorem spAttachUser_sameWork {mid : Spconn Tree User Aux} (srv : Spsrv Tree User Aux) (tc : Spfcall)
    (pkt : Packet) (ref : Nat) (afid : Option Nat) (same : SameWork req now mid) : SameWork req now (spAttachUser srv mid ref afid tc pkt).1 := by
  unfold spAttachUser
  split
  · exact same
  · dsimp only
    split
    · exact same.setFid
    · split
      · exact same.setFid.tree
      · generalize srv.attach _ _ _ tc pkt = back
        split
        · exact spFidIncref_sameWork ref same.setFid.called
        · exact same.setFid.called

theorem spAttach_sameWork (ran : spAttach srv now req tc pkt = some (next, outcome)) :
    SameWork req now next := by
  unfold spAttach at ran
  split at ran
  · exact (SameWork.refl req now).done ran
  · split at ran
    · rename_i made
      exact (spFidCreate_sameWork req made).done ran
    · rename_i ref mid made
      have bound := (spFidCreate_sameWork req made).trans (bindFid_sameWork req ref)
      dsimp only at ran
      split at ran
      · split at ran
        · exact bound.done ran
        · have tried := spAttachUser_sameWork srv tc pkt ref none bound
          simp only [Option.some.injEq] at ran
          rw [ran] at tried
          exact tried
      · rename_i a _
        have tried := spAttachUser_sameWork srv tc pkt ref (some a.ref) (spFidIncref_sameWork a.ref bound)
        exact tried.dropped ran

theorem walkNames_sameWork {mid : Spconn Tree User Aux} (srv : Spsrv Tree User Aux) (pkt : Packet)
    (ref : Nat) (names : List Spstr) (same : SameWork req now mid) : SameWork req now (walkNames srv mid ref pkt names).2.1 := by
  induction names generalizing mid with
  | nil => exact same
  | cons name names ih =>
      unfold walkNames
      split
      · exact same
      · dsimp only
        split
        · exact same.called
        · exact ih same.called.setFid

theorem spWalkOn_sameWork {newfid : Nat} {cloned : Bool} {mid : Spconn Tree User Aux}
    (same : SameWork req now mid) (ran : spWalkOn srv mid newfid cloned tc pkt = some (next, outcome)) :
    SameWork req now next := by
  have walked := walkNames_sameWork srv pkt newfid (tc.wnames.take tc.nwname)
    (spFidIncref_sameWork newfid same)
  unfold spWalkOn at ran
  dsimp only at ran
  split at ran
  · exact walked.dropped ran
  · cases cloned with
    | true => exact (spFidIncref_sameWork newfid walked).dropped ran
    | false => exact walked.dropped ran

theorem spWalk_sameWork (ran : spWalk srv now req tc pkt = some (next, outcome)) :
    SameWork req now next := by
  refine withFid_sameWork ran ?_
  intro mid f same walked
  split at walked
  · exact same.done walked
  · split at walked
    · exact same.done walked
    · split at walked
      · exact spWalkOn_sameWork same walked
      · split at walked
        · exact same.dropped walked
        · split at walked
          · rename_i made
            exact (same.trans (spFidCreate_sameWork req made)).done walked
          · rename_i newfid fresh made
            have created := same.trans (spFidCreate_sameWork req made)
            dsimp only at walked
            split at walked
            · exact created.called.dropped walked
            · exact spWalkOn_sameWork created.called.setFid walked

theorem spOpen_sameWork (ran : spOpen srv now req tc = some (next, outcome)) : SameWork req now next := by
  refine withFid_sameWork ran ?_
  intro mid f same opened
  split at opened
  · exact same.done opened
  · split at opened
    · exact same.done opened
    · exact same.called.setFid.done opened

theorem SameWork.created {ref mode : Nat} {rc : Option Rcall} (same : SameWork req now next) :
    SameWork req now (next.created ref mode rc) := by
  unfold Spconn.created
  split
  · exact same.setFid
  · exact same

theorem spCreate_sameWork (ran : spCreate srv now req tc pkt = some (next, outcome)) :
    SameWork req now next := by
  refine withFid_sameWork ran ?_
  intro mid f same made
  split at made
  · exact same.done made
  · split at made
    · exact same.done made
    · split at made
      · exact same.done made
      · exact same.called.created.done made

theorem spRead_sameWork (ran : spRead srv now req tc = some (next, outcome)) : SameWork req now next := by
  refine withFid_sameWork ran ?_
  intro mid f same did
  split at did
  · exact same.done did
  · split at did
    · split at did
      · exact same.called.done did
      · exact same.done did
    · split at did
      · exact same.done did
      · split at did
        · exact same.done did
        · exact withReq_sameWork same did

theorem spWrite_sameWork (ran : spWrite srv now req tc pkt = some (next, outcome)) :
    SameWork req now next := by
  refine withFid_sameWork ran ?_
  intro mid f same did
  split at did
  · split at did
    · exact same.called.done did
    · exact same.done did
  · split at did
    · exact same.done did
    · split at did
      · exact same.done did
      · exact withReq_sameWork same did

theorem spClunk_sameWork (ran : spClunk srv now req tc = some (next, outcome)) : SameWork req now next := by
  refine withFid_sameWork ran ?_
  intro mid f same did
  split at did
  · split at did
    · exact same.called.done did
    · exact same.done did
  · split at did
    · dsimp only at did
      split at did
      · contradiction
      · split at did
        · exact same.called.done did
        · exact same.called.dropped did
    · dsimp only at did
      split at did
      · exact same.called.dropped did
      · exact same.called.done did

theorem spRemove_sameWork (ran : spRemove srv now req tc = some (next, outcome)) :
    SameWork req now next := by
  refine withFid_sameWork ran ?_
  intro mid f same did
  dsimp only at did
  split at did
  · exact same.called.dropped did
  · exact same.called.done did

theorem spStat_sameWork (ran : spStat srv now req tc = some (next, outcome)) : SameWork req now next := by
  refine withFid_sameWork ran ?_
  intro mid f same called
  exact same.called.done called

theorem spWstat_sameWork (ran : spWstat srv now req tc pkt = some (next, outcome)) :
    SameWork req now next := by
  refine withFid_sameWork ran ?_
  intro mid f same called
  split at called
  · exact same.done called
  · exact same.called.done called

/-- The handlers of the table, but for the first and the fifth. -/
theorem spFcalls_sameWork {index : Nat} (version : index ≠ 0) (flush : index ≠ 4)
    (ran : spFcalls srv now req tc pkt index = some (some (next, outcome))) : SameWork req now next := by
  unfold spFcalls at ran
  split at ran
  · contradiction
  · exact spAuth_sameWork (Option.some.inj ran)
  · exact spAttach_sameWork (Option.some.inj ran)
  · contradiction
  · exact spWalk_sameWork (Option.some.inj ran)
  · exact spOpen_sameWork (Option.some.inj ran)
  · exact spCreate_sameWork (Option.some.inj ran)
  · exact spRead_sameWork (Option.some.inj ran)
  · exact spWrite_sameWork (Option.some.inj ran)
  · exact spClunk_sameWork (Option.some.inj ran)
  · exact spRemove_sameWork (Option.some.inj ran)
  · exact spStat_sameWork (Option.some.inj ran)
  · exact spWstat_sameWork (Option.some.inj ran)
  · contradiction

theorem SameWork.newest {tc : Spfcall} (same : SameWork conn.nextRef (conn.accept tc) now)
    (recent : ∀ r ∈ conn.workreqs, r.ref < conn.nextRef) :
    ∃ bound, now.workreqs =
      { ref := conn.nextRef, tag := tc.tag, tcall := tc, fid := bound } :: conn.workreqs := by
  have work := same.work
  simp only [Spconn.accept, List.map_cons] at work
  obtain ⟨newest, rest, split, head, tail⟩ := List.map_eq_cons_iff.mp work
  have others : conn.workreqs.map (Spreq.apartFrom conn.nextRef) = conn.workreqs := by
    conv => rhs; rw [← List.map_id conn.workreqs]
    apply List.map_congr_left
    intro r waiting
    have below := recent r waiting
    rw [Spreq.apartFrom, if_neg (by omega), id]
  have unchanged : rest = conn.workreqs := by
    rw [others] at tail
    rw [← tail]
    conv => lhs; rw [← List.map_id rest]
    apply List.map_congr_left
    intro r waiting
    have listed : r.apartFrom conn.nextRef ∈ conn.workreqs := tail ▸ List.mem_map_of_mem waiting
    have below := recent _ listed
    by_cases here : r.ref = conn.nextRef
    · simp [Spreq.apartFrom, here] at below
    · rw [Spreq.apartFrom, if_neg here, id]
  refine ⟨newest.fid, ?_⟩
  have itself : newest.ref = conn.nextRef := by
    have ref := congrArg Spreq.ref head
    unfold Spreq.apartFrom at ref
    split at ref <;> simpa using ref
  rw [split, unchanged]
  congr 1
  simp only [Spreq.apartFrom, itself, if_true] at head
  cases newest
  simp_all

end Xcpu.Libspfs
