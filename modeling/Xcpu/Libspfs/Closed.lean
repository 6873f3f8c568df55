import Xcpu.Libspfs.Respond

/-!
Properties of a connection that no handler can break. What a handler does to the fids comes down
to a few operations on the table, so a property that these keep holds in every reachable state,
whatever the callbacks of the server are.
-/

namespace Xcpu.Libspfs

open Xcpu.Keyed Xcpu.Transition

variable {Tree User Aux : Type} {srv : Spsrv Tree User Aux} {conn now next : Spconn Tree User Aux} {req : Nat}
  {tc : Spfcall} {pkt : Packet}

/-- The operations on the table keep the property; `same` is for all that is not in the table. -/
structure Closed (srv : Spsrv Tree User Aux) (inv : Spconn Tree User Aux → Prop) : Prop where
  same : ∀ {conn next}, inv conn → next.fids = conn.fids → conn.nextRef ≤ next.nextRef → inv next
  setFid : ∀ {conn ref change}, inv conn → (∀ f, (change f).ref = f.ref ∧ (change f).fid = f.fid) →
    inv (conn.setFid ref change)
  created : ∀ {conn fid result next}, inv conn → spFidCreate conn fid = (result, next) → inv next
  destroyed : ∀ {conn f}, inv conn → inv (spFidDestroy srv conn f)
  cleared : ∀ {conn next}, inv conn → next.fids = [] → conn.nextRef ≤ next.nextRef → inv next

/-- A handler leaves the property as it found it. -/
def Leaves (inv : Spconn Tree User Aux → Prop) (result : Option (Spconn Tree User Aux × Outcome)) : Prop :=
  ∀ next outcome, result = some (next, outcome) → inv next

section Rules

variable {inv : Spconn Tree User Aux → Prop} (closed : Closed srv inv)

theorem Leaves.done {outcome : Outcome} (holds : inv now) : Leaves inv (some (now, outcome)) := by
  rintro next outcome ⟨⟩
  exact holds

theorem Leaves.map {result : Option (Spconn Tree User Aux)} {outcome : Outcome}
    (holds : ∀ next, result = some next → inv next) : Leaves inv (result.map (·, outcome)) := by
  intro next other same
  obtain ⟨conn, ran, here⟩ := Option.map_eq_some_iff.mp same
  obtain ⟨rfl, -⟩ := Prod.mk.inj here
  exact holds conn ran

include closed

theorem Closed.tree {tree : Tree} (holds : inv conn) : inv { conn with tree := tree } :=
  closed.same holds rfl (Nat.le_refl _)

theorem Closed.incref {ref : Nat} (holds : inv conn) : inv (spFidIncref conn ref) :=
  closed.setFid holds fun _ => ⟨rfl, rfl⟩

theorem Closed.bindFid {req ref : Nat} (holds : inv conn) : inv (conn.bindFid req ref) :=
  closed.same (closed.incref holds) rfl (Nat.le_refl _)

theorem Closed.called {Value : Type} {ref : Nat} {back : Back Tree Aux Value} (holds : inv conn) :
    inv (conn.called ref back) :=
  closed.setFid (closed.tree holds) fun _ => ⟨rfl, rfl⟩

theorem Closed.decref {ref : Nat} (holds : inv conn) (dropped : spFidDecref srv conn ref = some next) : inv next := by
  rw [spFidDecref] at dropped
  split at dropped
  · cases dropped
  · split at dropped
    · exact Option.some.inj dropped ▸ closed.destroyed holds
    · exact Option.some.inj dropped ▸ closed.setFid holds fun _ => ⟨rfl, rfl⟩

theorem Closed.respond {ref : Nat} {rc : Option Rcall} (holds : inv conn)
    (responded : spRespond srv conn ref rc = some next) : inv next := by
  obtain ⟨req, chain, noted, dropped, -, -, note, drop, rfl⟩ := spRespond_cases responded
  have kept : inv noted := by
    rcases noteDiroffset_cases note with rfl | ⟨here, offset, rfl⟩
    · exact closed.same holds rfl (Nat.le_refl _)
    · exact closed.setFid (closed.same holds rfl (Nat.le_refl _)) fun _ => ⟨rfl, rfl⟩
  have given : inv dropped := by
    cases held : req.fid with
    | none =>
        rw [held] at drop
        exact Option.some.inj drop ▸ kept
    | some ref =>
        rw [held] at drop
        exact closed.decref kept drop
  exact closed.same given rfl (Nat.le_refl _)

theorem Closed.answered {ref : Nat} {outcome : Outcome} (holds : inv conn)
    (answered : answerOutcome srv conn ref outcome = some next) : inv next := by
  rcases answerOutcome_cases answered with ⟨-, -, rfl⟩ | ⟨rc, responded, -⟩
  · exact holds
  · exact closed.respond holds responded

theorem Closed.xflush {creq : Spreq} {flushed : Bool} (holds : inv conn)
    (ran : xflush srv conn creq = some (flushed, next)) : inv next := by
  rcases xflush_cases ran with ⟨-, tree, rfl⟩ | ⟨-, -, tree, responded⟩
  · exact closed.tree holds
  · exact closed.respond (@Closed.tree _ _ _ _ _ _ closed tree holds) responded

theorem Closed.flushWorkreqs {steps : Nat} (holds : inv conn)
    (ran : flushWorkreqs srv conn steps = some next) : inv next := by
  induction steps generalizing conn with
  | zero => cases ran
  | succ steps ih =>
      rw [Libspfs.flushWorkreqs] at ran
      split at ran
      · exact Option.some.inj ran ▸ holds
      · obtain ⟨⟨flushed, mid⟩, first, later⟩ := Option.bind_eq_some_iff.mp ran
        have kept := closed.xflush holds first
        cases flushed with
        | true => exact ih kept later
        | false => cases later

theorem Closed.spConnReset {msize : Nat} {dotu : Bool} (holds : inv conn)
    (ran : spConnReset srv conn msize dotu = some next) : inv next := by
  obtain ⟨mid, flushed, rfl⟩ := Option.map_eq_some_iff.mp ran
  exact closed.cleared (closed.flushWorkreqs holds flushed) rfl (Nat.le_refl _)

theorem Closed.spVersion (holds : inv conn) : Leaves inv (spVersion srv conn req tc pkt) := by
  rw [Libspfs.spVersion]
  split
  · exact .done holds
  · rw [spDefaultVersion]
    split
    · rintro next outcome ⟨⟩
    · split
      · rintro next outcome ⟨⟩
      · exact .map fun next ran => closed.spConnReset holds ran

theorem Closed.spAuthUser {afid : Nat} (holds : inv conn) : inv (spAuthUser srv conn afid tc pkt).1 := by
  rw [Libspfs.spAuthUser]
  split
  · exact holds
  · dsimp only
    split
    · exact closed.setFid holds fun _ => ⟨rfl, rfl⟩
    · split
      · exact closed.called (closed.setFid holds fun _ => ⟨rfl, rfl⟩)
      · exact closed.setFid holds fun _ => ⟨rfl, rfl⟩

theorem Closed.spAuth (holds : inv conn) : Leaves inv (spAuth srv conn req tc pkt) := by
  rw [Libspfs.spAuth]
  split
  · exact .map fun next dropped => closed.decref holds dropped
  · split
    · rename_i made
      exact .done (closed.created holds made)
    · rename_i afid mid made
      have user : inv (Libspfs.spAuthUser srv (spFidIncref mid afid) afid tc pkt).1 :=
        closed.spAuthUser (closed.incref (closed.created holds made))
      generalize Libspfs.spAuthUser srv (spFidIncref mid afid) afid tc pkt = result at user ⊢
      obtain ⟨last, outcome⟩ := result
      dsimp only
      split
      · exact .map fun next dropped => closed.decref user dropped
      · exact .done user

theorem Closed.attached {ref : Nat} {back : Back Tree Aux Rcall} (holds : inv conn) :
    inv (if back.value.isSome then spFidIncref (conn.called ref back) ref else conn.called ref back) := by
  split
  · exact closed.incref (closed.called holds)
  · exact closed.called holds

theorem Closed.spAttachUser {ref : Nat} {afid : Option Nat} (holds : inv conn) :
    inv (spAttachUser srv conn ref afid tc pkt).1 := by
  rw [Libspfs.spAttachUser]
  split
  · exact holds
  · rename_i user found
    have known : inv (conn.setFid ref fun f => { f with user := some user }) := closed.setFid holds fun _ => ⟨rfl, rfl⟩
    dsimp only
    split
    · exact known
    · split
      · exact closed.tree known
      · exact closed.attached known

theorem Closed.spAttach (holds : inv conn) : Leaves inv (spAttach srv conn req tc pkt) := by
  rw [Libspfs.spAttach]
  split
  · exact .done holds
  · split
    · rename_i made
      exact .done (closed.created holds made)
    · rename_i ref mid made
      have bound : inv (mid.bindFid req ref) := closed.bindFid (closed.created holds made)
      dsimp only
      split
      · split
        · exact .done bound
        · intro next outcome same
          have kept : inv (Libspfs.spAttachUser srv (mid.bindFid req ref) ref none tc pkt).1 := closed.spAttachUser bound
          rw [Option.some.inj same] at kept
          exact kept
      · rename_i a known
        have kept : inv (Libspfs.spAttachUser srv (spFidIncref (mid.bindFid req ref) a.ref) ref (some a.ref) tc pkt).1 :=
          closed.spAttachUser (closed.incref bound)
        exact .map fun next dropped => closed.decref kept dropped

theorem Closed.spFlush (holds : inv conn) : Leaves inv (spFlush srv conn req tc) := by
  rw [Libspfs.spFlush]
  split
  · exact .done holds
  · rintro next outcome ran
    obtain ⟨⟨flushed, mid⟩, first, later⟩ := Option.bind_eq_some_iff.mp ran
    have kept : inv mid := by
      split at first
      · exact closed.xflush holds first
      · obtain ⟨-, rfl⟩ := Prod.mk.inj (Option.some.inj first)
        exact holds
    cases flushed with
    | true =>
        obtain ⟨rfl, -⟩ := Prod.mk.inj (Option.some.inj later)
        exact kept
    | false =>
        obtain ⟨rfl, -⟩ := Prod.mk.inj (Option.some.inj later)
        exact closed.same kept rfl (Nat.le_refl _)

theorem Closed.walkNames {ref : Nat} {names : List Spstr} (holds : inv conn) :
    inv (walkNames srv conn ref pkt names).2.1 := by
  induction names generalizing conn with
  | nil => exact holds
  | cons name names ih =>
      rw [Libspfs.walkNames]
      split
      · exact holds
      · dsimp only
        split
        · exact closed.called holds
        · exact ih (closed.setFid (closed.called holds) fun _ => ⟨rfl, rfl⟩)

theorem Closed.spWalkOn {newfid : Nat} {cloned : Bool} (holds : inv conn) :
    Leaves inv (spWalkOn srv conn newfid cloned tc pkt) := by
  rw [Libspfs.spWalkOn]
  have walked : inv (Libspfs.walkNames srv (spFidIncref conn newfid) newfid pkt (tc.wnames.take tc.nwname)).2.1 :=
    closed.walkNames (closed.incref holds)
  generalize Libspfs.walkNames srv (spFidIncref conn newfid) newfid pkt (tc.wnames.take tc.nwname) = result at walked ⊢
  obtain ⟨count, last, error⟩ := result
  dsimp only at walked ⊢
  split
  · exact .map fun next dropped => closed.decref walked dropped
  · refine .map fun next dropped => ?_
    cases cloned with
    | true => exact closed.decref (closed.incref walked) dropped
    | false => exact closed.decref walked dropped

theorem Closed.withFid {fid : Nat} (holds : inv conn)
    {body : Spconn Tree User Aux → Spfid User Aux → Option (Spconn Tree User Aux × Outcome)}
    (goes : ∀ f, inv (conn.bindFid req f.ref) → Leaves inv (body (conn.bindFid req f.ref) f)) :
    Leaves inv (withFid conn req fid body) := by
  rw [Libspfs.withFid]
  cases spFidFind conn fid with
  | none => exact .done holds
  | some f => exact goes f (closed.bindFid holds)

theorem Closed.spWalk (holds : inv conn) : Leaves inv (spWalk srv conn req tc pkt) := by
  refine closed.withFid holds fun f bound => ?_
  split_ifs
  · exact .done bound
  · exact .done bound
  · exact closed.spWalkOn bound
  · split
    · exact .map fun next dropped => closed.decref bound dropped
    · split
      · rename_i made
        exact .done (closed.created bound made)
      · rename_i newfid mid made
        have cloned : inv (mid.called newfid (srv.clone mid.tree f { ref := newfid, fid := tc.newfid })) :=
          closed.called (closed.created bound made)
        dsimp only
        split
        · exact .map fun next dropped => closed.decref cloned dropped
        · exact closed.spWalkOn (closed.setFid cloned fun _ => ⟨rfl, rfl⟩)

theorem Closed.spOpen (holds : inv conn) : Leaves inv (spOpen srv conn req tc) := by
  refine closed.withFid holds fun f bound => ?_
  split_ifs
  · exact .done bound
  · exact .done bound
  · exact .done (closed.setFid (closed.called bound) fun _ => ⟨rfl, rfl⟩)

theorem Closed.spCreate (holds : inv conn) : Leaves inv (spCreate srv conn req tc pkt) := by
  refine closed.withFid holds fun f bound => ?_
  split_ifs
  · exact .done bound
  · exact .done bound
  · exact .done bound
  · refine .done ?_
    unfold Spconn.created
    split
    · exact closed.setFid (closed.called bound) fun _ => ⟨rfl, rfl⟩
    · exact closed.called bound

omit closed in
theorem Leaves.withReq {body : Spreq → Option (Spconn Tree User Aux × Outcome)} (goes : ∀ r, Leaves inv (body r)) :
    Leaves inv (withReq conn req body) := by
  intro next outcome ran
  obtain ⟨r, -, called⟩ := Option.bind_eq_some_iff.mp ran
  exact goes r next outcome called

theorem Closed.spRead (holds : inv conn) : Leaves inv (spRead srv conn req tc) := by
  refine closed.withFid holds fun f bound => ?_
  split_ifs
  · exact .done bound
  · exact .done (closed.called bound)
  · exact .done bound
  · exact .done bound
  · exact .done bound
  · exact Leaves.withReq fun r => .done (closed.called bound)

theorem Closed.spWrite (holds : inv conn) : Leaves inv (spWrite srv conn req tc pkt) := by
  refine closed.withFid holds fun f bound => ?_
  split_ifs
  · exact .done (closed.called bound)
  · exact .done bound
  · exact .done bound
  · exact .done bound
  · exact Leaves.withReq fun r => .done (closed.called bound)

theorem Closed.spClunk (holds : inv conn) : Leaves inv (spClunk srv conn req tc) := by
  refine closed.withFid holds fun f bound => ?_
  split_ifs
  · exact .done (closed.called bound)
  · exact .done bound
  · dsimp only
    split
    · rintro next outcome ⟨⟩
    · split
      · exact .done (closed.called bound)
      · exact .map fun next dropped => closed.decref (closed.called bound) dropped
  · dsimp only
    split
    · exact .map fun next dropped => closed.decref (closed.called bound) dropped
    · exact .done (closed.called bound)

theorem Closed.spRemove (holds : inv conn) : Leaves inv (spRemove srv conn req tc) := by
  refine closed.withFid holds fun f bound => ?_
  dsimp only
  split
  · exact .map fun next dropped => closed.decref (closed.called bound) dropped
  · exact .done (closed.called bound)

theorem Closed.spStat (holds : inv conn) : Leaves inv (spStat srv conn req tc) :=
  closed.withFid holds fun _ bound => .done (closed.called bound)

theorem Closed.spWstat (holds : inv conn) : Leaves inv (spWstat srv conn req tc pkt) := by
  refine closed.withFid holds fun f bound => ?_
  split
  · exact .done bound
  · exact .done (closed.called bound)

theorem Closed.spFcalls {type : Nat} {result : Option (Spconn Tree User Aux × Outcome)} (holds : inv conn)
    (handled : spFcalls srv conn req tc pkt type = some result) : Leaves inv result := by
  unfold Libspfs.spFcalls at handled
  split at handled <;> first | (obtain rfl := Option.some.inj handled) | cases handled
  · exact closed.spVersion holds
  · exact closed.spAuth holds
  · exact closed.spAttach holds
  · exact closed.spFlush holds
  · exact closed.spWalk holds
  · exact closed.spOpen holds
  · exact closed.spCreate holds
  · exact closed.spRead holds
  · exact closed.spWrite holds
  · exact closed.spClunk holds
  · exact closed.spRemove holds
  · exact closed.spStat holds
  · exact closed.spWstat holds

/-- A message leaves the property as it found it, and so does a callback that answers later. -/
theorem Closed.step {event : ConnEvent} (holds : inv conn) (stepped : conn.step srv event = some next) : inv next := by
  cases event with
  | message tc pkt =>
      obtain ⟨now, outcome, handled, answered⟩ := spSrvProcessFcall_cases stepped
      have accepted : inv (conn.accept tc) := closed.same holds rfl (Nat.le_succ _)
      exact closed.answered (closed.spFcalls accepted handled now outcome rfl) answered
  | answer ref rc =>
      simp only [Spconn.step] at stepped
      split at stepped
      · exact Option.some.inj stepped ▸ holds
      · split at stepped
        · exact Option.some.inj stepped ▸ holds
        · exact closed.respond holds stepped

theorem Closed.run {events : List ConnEvent} (holds : inv conn)
    (ran : run (Spconn.step srv) conn events = some next) : inv next :=
  run_invariant (Spconn.step srv) (fun _ _ _ kept _ stepped => closed.step kept stepped) holds
    (guarded_true (Spconn.step srv) conn events) ran

end Rules

/-- The fids of a connection have different numbers, and addresses that are in use. -/
structure Numbered (conn : Spconn Tree User Aux) : Prop where
  refs : (conn.fids.map Spfid.ref).Nodup
  numbers : (conn.fids.map Spfid.fid).Nodup
  fresh : ∀ f ∈ conn.fids, f.ref < conn.nextRef

theorem Numbered.closed : Closed srv Numbered where
  same numbered fids later := by
    refine ⟨fids ▸ numbered.refs, fids ▸ numbered.numbers, fun f member => ?_⟩
    exact Nat.lt_of_lt_of_le (numbered.fresh f (fids ▸ member)) later
  setFid numbered same := by
    refine ⟨?_, ?_, fun f member => ?_⟩
    · rw [Spconn.setFid, update_map _ fun f => (same f).1]
      exact numbered.refs
    · rw [Spconn.setFid, update_map _ fun f => (same f).2]
      exact numbered.numbers
    · obtain ⟨old, inside, rfl⟩ := mem_update.mp member
      have below := numbered.fresh old inside
      split
      · exact (same old).1 ▸ below
      · exact below
  created := by
    intro conn fid result next numbered created
    rw [spFidCreate] at created
    split at created
    · rename_i free
      obtain ⟨-, rfl⟩ := Prod.mk.inj created
      refine ⟨?_, ?_, fun f member => ?_⟩
      · rw [List.map_cons, List.nodup_cons]
        refine ⟨fun member => ?_, numbered.refs⟩
        obtain ⟨f, inside, same : f.ref = conn.nextRef⟩ := List.mem_map.mp member
        have below := numbered.fresh f inside
        omega
      · rw [List.map_cons, List.nodup_cons]
        exact ⟨find?_none_iff.mp free.2, numbered.numbers⟩
      · rcases List.mem_cons.mp member with rfl | inside
        · exact Nat.lt_succ_self _
        · exact Nat.lt_succ_of_lt (numbered.fresh f inside)
    · obtain ⟨-, rfl⟩ := Prod.mk.inj created
      exact numbered
  destroyed numbered := by
    rw [spFidDestroy]
    split
    · exact ⟨(List.eraseP_sublist.map _).nodup numbered.refs, (List.eraseP_sublist.map _).nodup numbered.numbers,
        fun f member => numbered.fresh f (List.mem_of_mem_eraseP member)⟩
    · exact numbered
  cleared _ gone _ := by
    refine ⟨?_, ?_, fun f member => ?_⟩
    · rw [gone]
      exact List.nodup_nil
    · rw [gone]
      exact List.nodup_nil
    · rw [gone] at member
      cases member

theorem numbered_run {tree : Tree} {events : List ConnEvent}
    (ran : run (Spconn.step srv) (spConnCreate srv tree) events = some conn) : Numbered conn := by
  have start : Numbered (spConnCreate srv tree) := by
    refine ⟨List.nodup_nil, List.nodup_nil, ?_⟩
    intro f member
    cases member
  exact Numbered.closed.run start ran

end Xcpu.Libspfs
