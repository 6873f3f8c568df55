import Xcpu.Libspfs.FidTable

/-!
The handlers of libspfs and the fid table. Each handler works for the newest request. When it
is done, the request holds the fid it is bound to, and a fid that is to go with the request
has no other reference left.
-/

namespace Xcpu.Libspfs

open Xcpu.Keyed

section Handlers

variable {Tree User Aux : Type} {srv : Spsrv Tree User Aux}

/-- The request that a message becomes, bound to a fid. -/
def Spconn.request (conn : Spconn Tree User Aux) (tc : Spfcall) (bound : Option Nat) : Spreq :=
  { ref := conn.nextRef, tag := tc.tag, tcall := tc, fid := bound }

/-- A connection while the handler of a message runs. -/
structure InHand (conn : Spconn Tree User Aux) (tc : Spfcall) (bound : Option Nat)
    (extra : Nat → Int) (now : Spconn Tree User Aux) : Prop where
  reqs : now.workreqs = conn.request tc bound :: conn.workreqs
  counted : Counted now.fids now.nextRef conn.workreqs extra
  keeps : Keeps conn.fids now.fids
  inside : ∀ ref, bound = some ref → ref ∈ now.fids.map Spfid.ref
  later : conn.nextRef < now.nextRef
  sent : now.sent = conn.sent

def owned (bound : Option Nat) : Nat → Int := fun ref => if bound = some ref then 1 else 0

variable {conn now next : Spconn Tree User Aux} {tc : Spfcall} {bound : Option Nat}
  {extra : Nat → Int}

theorem InHand.accept (inv : FidInv conn) : InHand conn tc none (owned none) (conn.accept tc) where
  reqs := rfl
  counted := by
    refine ⟨inv.counted.refs, inv.counted.numbers, ?_, inv.counted.bound, ?_⟩
    · intro f member
      exact Nat.lt_succ_of_lt (inv.counted.fresh f member)
    · intro f member
      simpa [owned] using inv.counted.counts f member
  keeps := .refl _
  inside := by simp
  later := Nat.lt_succ_self _
  sent := rfl

theorem InHand.congr {other : Nat → Int} (hand : InHand conn tc bound extra now)
    (same : ∀ ref ∈ now.fids.map Spfid.ref, extra ref = other ref) : InHand conn tc bound other now :=
  { hand with counted := hand.counted.congr same }

theorem InHand.setFid {ref : Nat} {change : Spfid User Aux → Spfid User Aux}
    (hand : InHand conn tc bound extra now) (same_ref : ∀ f, (change f).ref = f.ref)
    (same_fid : ∀ f, (change f).fid = f.fid) (same_count : ∀ f, (change f).refcount = f.refcount) :
    InHand conn tc bound extra (now.setFid ref change) where
  reqs := hand.reqs
  counted := hand.counted.setFid same_ref same_fid same_count
  keeps := hand.keeps.trans (keeps_update same_ref same_fid)
  inside ref bound := (keeps_update same_ref same_fid).refs (hand.inside ref bound)
  later := hand.later
  sent := hand.sent

theorem InHand.tree {tree : Tree} (hand : InHand conn tc bound extra now) :
    InHand conn tc bound extra { now with tree := tree } :=
  ⟨hand.reqs, hand.counted, hand.keeps, hand.inside, hand.later, hand.sent⟩

theorem InHand.called {Value : Type} {ref : Nat} {back : Back Tree Aux Value}
    (hand : InHand conn tc bound extra now) : InHand conn tc bound extra (now.called ref back) :=
  hand.tree.setFid (fun _ => rfl) (fun _ => rfl) fun _ => rfl

theorem spFidIncref_keeps (now : Spconn Tree User Aux) (ref : Nat) :
    Keeps now.fids (spFidIncref now ref).fids :=
  keeps_update (fun _ => rfl) fun _ => rfl

theorem InHand.incref (ref : Nat) (hand : InHand conn tc bound extra now) :
    InHand conn tc bound (bump extra ref 1) (spFidIncref now ref) where
  reqs := hand.reqs
  counted := hand.counted.update (fun _ => rfl) (fun _ => rfl) fun _ => rfl
  keeps := hand.keeps.trans (spFidIncref_keeps now ref)
  inside other bound := (spFidIncref_keeps now ref).refs (hand.inside other bound)
  later := hand.later
  sent := hand.sent

theorem InHand.bindFid {ref : Nat} (queue : Queue conn.workreqs conn.nextRef)
    (hand : InHand conn tc bound extra now) (member : ref ∈ now.fids.map Spfid.ref) :
    InHand conn tc (some ref) (bump extra ref 1) (now.bindFid conn.nextRef ref) := by
  have taken := hand.incref ref
  refine ⟨?_, taken.counted, taken.keeps, fun other same => ?_, taken.later, taken.sent⟩
  rotate_left
  · rw [← Option.some.inj same]
    exact (spFidIncref_keeps now ref).refs member
  have others : update Spreq.ref conn.workreqs conn.nextRef (fun r => { r with fid := some ref }) =
      conn.workreqs := by
    refine update_absent ?_
    intro member
    obtain ⟨r, waiting, same⟩ := List.mem_map.mp member
    have below := queue.recent r waiting
    omega
  have first : (spFidIncref now ref).workreqs = conn.request tc bound :: conn.workreqs := taken.reqs
  unfold Spconn.bindFid Spconn.setReq
  simp only [first]
  rw [update, List.map_cons, if_pos (show (conn.request tc bound).ref = conn.nextRef from rfl)]
  exact congrArg _ others

theorem InHand.create {fid ref : Nat} (hand : InHand conn tc bound extra now)
    (created : spFidCreate now fid = (some ref, next)) :
    InHand conn tc bound (fun other => if other = ref then -1 else extra other) next ∧
      conn.nextRef < ref ∧ ref ∈ next.fids.map Spfid.ref ∧ next.workreqs = now.workreqs := by
  unfold spFidCreate at created
  split at created
  · rename_i allowed
    simp only [Prod.mk.injEq, Option.some.injEq] at created
    obtain ⟨same, rfl⟩ := created
    subst ref
    refine ⟨⟨hand.reqs, hand.counted.create (spFidFind_none.mp allowed.2), ?_, ?_, ?_, hand.sent⟩,
      hand.later, List.mem_cons_self, rfl⟩
    rotate_left
    · intro other same
      exact List.mem_cons_of_mem _ (hand.inside other same)
    · exact Nat.lt_succ_of_lt hand.later
    · intro f member
      obtain ⟨g, inside, same⟩ := hand.keeps f member
      exact ⟨g, List.mem_cons_of_mem _ inside, same⟩
  · simp at created

theorem spFidCreate_none {fid : Nat} (failed : spFidCreate now fid = (none, next)) : next = now := by
  unfold spFidCreate at failed
  split at failed
  · simp at failed
  · exact ((Prod.mk.injEq _ _ _ _ ▸ failed).2).symm

theorem InHand.decref {ref : Nat} (hand : InHand conn tc bound extra now) (more : 1 ≤ extra ref)
    (dropped : spFidDecref srv now ref = some next) :
    InHand conn tc bound (bump extra ref (-1)) next where
  reqs := (spFidDecref_queue dropped).workreqs.trans hand.reqs
  counted := hand.counted.decref (by omega) dropped
  keeps := hand.keeps.trans (hand.counted.decref_keeps more dropped)
  inside ref bound := (hand.counted.decref_keeps more dropped).refs (hand.inside ref bound)
  later := (spFidDecref_queue dropped).nextRef ▸ hand.later
  sent := (spFidDecref_queue dropped).sent.trans hand.sent

theorem FidInv.holders_new (inv : FidInv conn) {ref : Nat} (new : conn.nextRef < ref) :
    holders conn.workreqs ref = 0 := by
  refine inv.counted.holders_unused ?_
  intro member
  obtain ⟨g, inside, same⟩ := List.mem_map.mp member
  have below := inv.counted.fresh g inside
  omega

theorem InHand.drop {ref : Nat} (inv : FidInv conn) (hand : InHand conn tc bound extra now)
    (last : extra ref = 0) (new : conn.nextRef < ref) (other : bound ≠ some ref)
    (dropped : spFidDecref srv now ref = some next) : InHand conn tc bound extra next := by
  obtain ⟨f, member, here, -⟩ := spFidDecref_cases hand.counted dropped
  subst ref
  have unheld := inv.holders_new new
  have gone := hand.counted.decref_last member (by omega) dropped
  refine ⟨(spFidDecref_queue dropped).workreqs.trans hand.reqs, ?_, ?_, ?_,
    (spFidDecref_queue dropped).nextRef ▸ hand.later, (spFidDecref_queue dropped).sent.trans hand.sent⟩
  · refine (hand.counted.decref (by omega) dropped).congr ?_
    intro other inside
    have different : other ≠ f.ref := fun same => gone (same ▸ inside)
    simp [bump, different]
  · intro g inside
    obtain ⟨h, stays, ref, fid⟩ := hand.keeps g inside
    have below := inv.counted.fresh g inside
    exact ⟨h, hand.counted.decref_others dropped h stays (by omega), ref, fid⟩
  · intro bound_ref same
    obtain ⟨g, stays, here⟩ := List.mem_map.mp (hand.inside bound_ref same)
    have apart : g.ref ≠ f.ref := fun equal => other (same.trans (congrArg some (here.symm.trans equal)))
    exact here ▸ List.mem_map_of_mem (hand.counted.decref_others dropped g stays apart)

/-- What a callback that is not given the request owes its caller: a reply or an error, and
not both when a reference depends on it. -/
structure Spsrv.Answers (srv : Spsrv Tree User Aux) : Prop where
  checkauth : ∀ tree f afid aname, (srv.checkauth tree f afid aname).value = none →
    (srv.checkauth tree f afid aname).error = true
  attach : ∀ tree f afid tc pkt, (srv.attach tree f afid tc pkt).value = none →
    (srv.attach tree f afid tc pkt).error = true
  clunk : ∀ tree f rc, (srv.clunk tree f).value = some rc → rc.type = .rclunk →
    (srv.clunk tree f).error = false
  remove : ∀ tree f rc, (srv.remove tree f).value = some rc → rc.type ≠ .rerror →
    (srv.remove tree f).error = false

/-- The reply that takes the fid of a request out of the table. -/
def Releases (tc : Spfcall) (rc : Rcall) : Prop :=
  (tc.type = .tclunk ∧ rc.type = .rclunk) ∨ (tc.type = .tremove ∧ rc.type = .rremove)

/-- What a handler leaves behind: the request holds its fid as any other does, or the fid it
made goes with it because it failed, or the fid it names goes with it because it succeeded. -/
inductive Handled (conn : Spconn Tree User Aux) (tc : Spfcall) (now : Spconn Tree User Aux)
    (outcome : Outcome) : Prop
  | held {bound : Option Nat} (hand : InHand conn tc bound (owned bound) now)
  | unmade {ref : Nat} (hand : InHand conn tc (some ref) (fun _ => 0) now)
      (new : conn.nextRef < ref) (failed : outcome.error = true)
  | released {f : Spfid User Aux} {rc : Rcall} (hand : InHand conn tc (some f.ref) (fun _ => 0) now)
      (member : f ∈ conn.fids) (number : f.fid = tc.fid) (unheld : holders conn.workreqs f.ref = 0)
      (answered : outcome = ⟨some rc, false⟩) (reply : Releases tc rc)

variable {outcome : Outcome}

theorem withFid_handled {fid : Nat}
    {body : Spconn Tree User Aux → Spfid User Aux → Option (Spconn Tree User Aux × Outcome)}
    (inv : FidInv conn)
    (ran : withFid (conn.accept tc) conn.nextRef fid body = some (now, outcome))
    (body_handled : ∀ f mid, spFidFind conn fid = some f → mid = (conn.accept tc).bindFid conn.nextRef f.ref →
      InHand conn tc (some f.ref) (owned (some f.ref)) mid → body mid f = some (now, outcome) →
      Handled conn tc now outcome) : Handled conn tc now outcome := by
  have accepted : InHand conn tc none (owned none) (conn.accept tc) := .accept inv
  unfold withFid at ran
  split at ran
  · simp only [Option.some.injEq, Prod.mk.injEq] at ran
    obtain ⟨rfl, -⟩ := ran
    exact .held accepted
  · rename_i f found
    refine body_handled f _ found rfl ?_ ran
    refine (accepted.bindFid inv.queue (List.mem_map_of_mem (spFidFind_mem found).1)).congr ?_
    intro ref _
    by_cases same : ref = f.ref
    · simp [bump, owned, same]
    · have different : ¬ f.ref = ref := fun equal => same equal.symm
      simp [bump, owned, same, different]

/-- A handler that returns where it is leaves its request holding the fid. -/
theorem InHand.done {mid : Spconn Tree User Aux} {result : Outcome}
    (hand : InHand conn tc bound (owned bound) mid) (ran : some (mid, result) = some (now, outcome)) :
    Handled conn tc now outcome := by
  simp only [Option.some.injEq, Prod.mk.injEq] at ran
  obtain ⟨rfl, -⟩ := ran
  exact .held hand

theorem spStat_handled (inv : FidInv conn)
    (ran : spStat srv (conn.accept tc) conn.nextRef tc = some (now, outcome)) :
    Handled conn tc now outcome := by
  refine withFid_handled inv ran ?_
  intro f mid _ _ hand called
  exact hand.called.done called

theorem spWstat_handled {pkt : Packet} (inv : FidInv conn)
    (ran : spWstat srv (conn.accept tc) conn.nextRef tc pkt = some (now, outcome)) :
    Handled conn tc now outcome := by
  refine withFid_handled inv ran ?_
  intro f mid _ _ hand called
  split at called
  · exact hand.done called
  · exact hand.called.done called

theorem InHand.omode {ref mode : Nat} (hand : InHand conn tc bound extra now) :
    InHand conn tc bound extra (now.setFid ref fun f => { f with omode := mode }) :=
  hand.setFid (fun _ => rfl) (fun _ => rfl) fun _ => rfl

theorem spOpen_handled (inv : FidInv conn)
    (ran : spOpen srv (conn.accept tc) conn.nextRef tc = some (now, outcome)) :
    Handled conn tc now outcome := by
  refine withFid_handled inv ran ?_
  intro f mid _ _ hand opened
  split at opened
  · exact hand.done opened
  · split at opened
    · exact hand.done opened
    · exact hand.called.omode.done opened

theorem InHand.created {ref mode : Nat} {rc : Option Rcall} (hand : InHand conn tc bound extra now) :
    InHand conn tc bound extra (now.created ref mode rc) := by
  unfold Spconn.created
  split
  · exact hand.setFid (fun _ => rfl) (fun _ => rfl) fun _ => rfl
  · exact hand

theorem spCreate_handled {pkt : Packet} (inv : FidInv conn)
    (ran : spCreate srv (conn.accept tc) conn.nextRef tc pkt = some (now, outcome)) :
    Handled conn tc now outcome := by
  refine withFid_handled inv ran ?_
  intro f mid _ _ hand made
  split at made
  · exact hand.done made
  · split at made
    · exact hand.done made
    · split at made
      · exact hand.done made
      · exact hand.called.created.done made

theorem withReq_called {req : Nat} {ref : Nat} {callback : Spreq → Back Tree Aux Rcall}
    {mid : Spconn Tree User Aux} (hand : InHand conn tc bound (owned bound) mid)
    (ran : (withReq mid req fun r => calling mid ref (callback r)) = some (now, outcome)) :
    Handled conn tc now outcome := by
  obtain ⟨r, -, called⟩ := Option.bind_eq_some_iff.mp ran
  exact hand.called.done called

theorem spRead_handled (inv : FidInv conn)
    (ran : spRead srv (conn.accept tc) conn.nextRef tc = some (now, outcome)) :
    Handled conn tc now outcome := by
  refine withFid_handled inv ran ?_
  intro f mid _ _ hand did
  split at did
  · exact hand.done did
  · split at did
    · split at did
      · exact hand.called.done did
      · exact hand.done did
    · split at did
      · exact hand.done did
      · split at did
        · exact hand.done did
        · exact withReq_called hand did

theorem spWrite_handled {pkt : Packet} (inv : FidInv conn)
    (ran : spWrite srv (conn.accept tc) conn.nextRef tc pkt = some (now, outcome)) :
    Handled conn tc now outcome := by
  refine withFid_handled inv ran ?_
  intro f mid _ _ hand did
  split at did
  · split at did
    · exact hand.called.done did
    · exact hand.done did
  · split at did
    · exact hand.done did
    · split at did
      · exact hand.done did
      · exact withReq_called hand did

theorem release_handled {f : Spfid User Aux} {mid dropped : Spconn Tree User Aux} {rc : Rcall}
    {error : Bool} (hand : InHand conn tc (some f.ref) (owned (some f.ref)) mid)
    (found : spFidFind conn tc.fid = some f) (unheld : holders conn.workreqs f.ref = 0)
    (drop : spFidDecref srv mid f.ref = some dropped) (same : dropped = now)
    (answered : outcome = ⟨some rc, error⟩) (clean : error = false) (reply : Releases tc rc) :
    Handled conn tc now outcome := by
  subst dropped error
  obtain ⟨member, number⟩ := spFidFind_mem found
  have left := hand.decref (by simp [owned]) drop
  refine .released (left.congr ?_) member number unheld answered reply
  intro ref _
  by_cases here : ref = f.ref
  · simp [bump, owned, here]
  · have different : ¬ f.ref = ref := fun equal => here equal.symm
    simp [bump, owned, here, different]

/-- Whether a Tclunk of the fid gets as far as giving up its reference. -/
def clunks (srv : Spsrv Tree User Aux) (conn : Spconn Tree User Aux) (f : Spfid User Aux) : Prop :=
  f.type &&& qtauth = 0 ∧
    if f.omode = Orclose then ∃ rc, (srv.remove conn.tree f).value = some rc ∧ rc.type ≠ .rerror
    else ∃ rc, (srv.clunk conn.tree f).value = some rc ∧ rc.type = .rclunk

def removes (srv : Spsrv Tree User Aux) (conn : Spconn Tree User Aux) (f : Spfid User Aux) : Prop :=
  ∃ rc, (srv.remove conn.tree f).value = some rc ∧ rc.type = .rremove

theorem bindFid_tree (conn : Spconn Tree User Aux) (tc : Spfcall) (ref : Nat) :
    ((conn.accept tc).bindFid conn.nextRef ref).tree = conn.tree := rfl

theorem spRemove_handled (answers : srv.Answers) (inv : FidInv conn) (kind : tc.type = .tremove)
    (unheld : ∀ f, spFidFind conn tc.fid = some f → removes srv conn f →
      holders conn.workreqs f.ref = 0)
    (ran : spRemove srv (conn.accept tc) conn.nextRef tc = some (now, outcome)) :
    Handled conn tc now outcome := by
  refine withFid_handled inv ran ?_
  intro f mid found here hand did
  have same_tree : mid.tree = conn.tree := here ▸ bindFid_tree conn tc f.ref
  rw [same_tree] at did
  dsimp only at did
  split at did
  · rename_i success
    obtain ⟨rc, given, type⟩ := Option.map_eq_some_iff.mp success
    obtain ⟨dropped, drop, same⟩ := Option.map_eq_some_iff.mp did
    obtain ⟨same, answered⟩ := Prod.mk.inj same
    refine release_handled hand.called found (unheld f found ⟨rc, given, type⟩) drop same ?_
      (answers.remove conn.tree f rc given (by simp [type])) (.inr ⟨kind, type⟩)
    rw [← answered, Back.outcome, given]
  · exact hand.called.done did

theorem spClunk_handled (answers : srv.Answers) (inv : FidInv conn) (kind : tc.type = .tclunk)
    (unheld : ∀ f, spFidFind conn tc.fid = some f → clunks srv conn f →
      holders conn.workreqs f.ref = 0)
    (ran : spClunk srv (conn.accept tc) conn.nextRef tc = some (now, outcome)) :
    Handled conn tc now outcome := by
  refine withFid_handled inv ran ?_
  intro f mid found here hand did
  have same_tree : mid.tree = conn.tree := here ▸ bindFid_tree conn tc f.ref
  rw [same_tree] at did
  split at did
  · split at did
    · exact hand.called.done did
    · exact hand.done did
  · rename_i plain
    have plain : f.type &&& qtauth = 0 := by simpa using plain
    split at did
    · rename_i rclose
      dsimp only at did
      split at did
      · contradiction
      · rename_i rc given
        split at did
        · exact hand.called.done did
        · rename_i success
          obtain ⟨dropped, drop, same⟩ := Option.map_eq_some_iff.mp did
          obtain ⟨same, answered⟩ := Prod.mk.inj same
          refine release_handled hand.called found (unheld f found ⟨plain, ?_⟩) drop same
            answered.symm (answers.remove conn.tree f rc given success) (.inl ⟨kind, rfl⟩)
          rw [if_pos rclose]
          exact ⟨rc, given, success⟩
    · rename_i other
      dsimp only at did
      split at did
      · rename_i success
        obtain ⟨rc, given, type⟩ := Option.map_eq_some_iff.mp success
        obtain ⟨dropped, drop, same⟩ := Option.map_eq_some_iff.mp did
        obtain ⟨same, answered⟩ := Prod.mk.inj same
        refine release_handled hand.called found (unheld f found ⟨plain, ?_⟩) drop same ?_
          (answers.clunk conn.tree f rc given type) (.inl ⟨kind, type⟩)
        · rw [if_neg other]
          exact ⟨rc, given, type⟩
        · rw [← answered, Back.outcome, given]
      · exact hand.called.done did

theorem spAuthUser_hand (srv : Spsrv Tree User Aux) (afid : Nat) (pkt : Packet)
    (hand : InHand conn tc bound extra now) :
    InHand conn tc bound extra (spAuthUser srv now afid tc pkt).1 := by
  unfold spAuthUser
  split
  · exact hand
  · rename_i user _
    have named : InHand conn tc bound extra
        (now.setFid afid fun f => { f with user := some user, type := qtauth }) :=
      hand.setFid (fun _ => rfl) (fun _ => rfl) fun _ => rfl
    dsimp only
    split
    · exact named
    · split
      · exact named.called
      · exact named

theorem spAuth_handled {pkt : Packet} (inv : FidInv conn) (unused : spFidFind conn tc.afid = none)
    (ran : spAuth srv (conn.accept tc) conn.nextRef tc pkt = some (now, outcome)) :
    Handled conn tc now outcome := by
  have accepted : InHand conn tc none (owned none) (conn.accept tc) := .accept inv
  have missing : spFidFind (conn.accept tc) tc.afid = none := unused
  unfold spAuth at ran
  rw [missing] at ran
  dsimp only at ran
  split at ran
  · rename_i mid failed
    have same := spFidCreate_none failed
    subst mid
    exact accepted.done ran
  · rename_i afid mid created
    obtain ⟨made, new, -, -⟩ := accepted.create created
    have counted : InHand conn tc none (owned none) (spFidIncref mid afid) := by
      refine (made.incref afid).congr ?_
      intro ref _
      by_cases here : ref = afid <;> simp [bump, owned, here]
    have tried := spAuthUser_hand srv afid pkt counted
    split at ran
    · obtain ⟨dropped, drop, same⟩ := Option.map_eq_some_iff.mp ran
      obtain ⟨same, -⟩ := Prod.mk.inj same
      subst dropped
      exact .held (tried.drop inv (by simp [owned]) new (by simp) drop)
    · exact tried.done ran

theorem spAttachUser_hand (answers : srv.Answers) (ref : Nat) (afid : Option Nat) (pkt : Packet)
    (hand : InHand conn tc bound extra now) :
    (InHand conn tc bound extra (spAttachUser srv now ref afid tc pkt).1 ∧
      (spAttachUser srv now ref afid tc pkt).2.error = true) ∨
    InHand conn tc bound (bump extra ref 1) (spAttachUser srv now ref afid tc pkt).1 := by
  unfold spAttachUser
  split
  · exact .inl ⟨hand, rfl⟩
  · rename_i user _
    have named : InHand conn tc bound extra (now.setFid ref fun f => { f with user := some user }) :=
      hand.setFid (fun _ => rfl) (fun _ => rfl) fun _ => rfl
    dsimp only
    split
    · exact .inl ⟨named, rfl⟩
    · rename_i f _
      split
      · rename_i refused
        exact .inl ⟨named.tree, answers.checkauth _ _ _ _ refused.2⟩
      · generalize tried : srv.attach _ f _ tc pkt = back
        split
        · exact .inr (named.called.incref ref)
        · rename_i nothing
          refine .inl ⟨named.called, ?_⟩
          rw [← tried]
          refine answers.attach _ _ _ _ _ ?_
          rw [tried]
          simpa using nothing

theorem owned_own (ref : Nat) : bump (fun _ => 0) ref 1 = owned (some ref) := by
  funext other
  by_cases here : other = ref
  · simp [bump, owned, here]
  · have different : ¬ ref = other := fun equal => here equal.symm
    simp [bump, owned, here, different]

theorem spAttach_handled {pkt : Packet} (answers : srv.Answers) (inv : FidInv conn)
    (ran : spAttach srv (conn.accept tc) conn.nextRef tc pkt = some (now, outcome)) :
    Handled conn tc now outcome := by
  have accepted : InHand conn tc none (owned none) (conn.accept tc) := .accept inv
  unfold spAttach at ran
  split at ran
  · exact accepted.done ran
  · split at ran
    · rename_i mid failed
      have same := spFidCreate_none failed
      subst mid
      exact accepted.done ran
    · rename_i ref mid created
      obtain ⟨made, new, member, -⟩ := accepted.create created
      have bound : InHand conn tc (some ref) (fun _ => 0) (mid.bindFid conn.nextRef ref) := by
        refine (made.bindFid inv.queue member).congr ?_
        intro other _
        by_cases here : other = ref <;> simp [bump, owned, here]
      dsimp only at ran
      split at ran
      · split at ran
        · simp only [Option.some.injEq, Prod.mk.injEq] at ran
          obtain ⟨rfl, rfl⟩ := ran
          exact .unmade bound new rfl
        · rcases spAttachUser_hand answers ref none pkt bound with
            ⟨hand, failed⟩ | hand
          · simp only [Option.some.injEq] at ran
            rw [ran] at hand failed
            exact .unmade hand new failed
          · rw [owned_own] at hand
            exact hand.done ran
      · rename_i a found
        have shared := bound.incref a.ref
        obtain ⟨dropped, drop, same⟩ := Option.map_eq_some_iff.mp ran
        obtain ⟨same, answered⟩ := Prod.mk.inj same
        subst dropped
        rcases spAttachUser_hand answers ref (some a.ref) pkt shared with
          ⟨hand, failed⟩ | hand
        · have back := hand.decref (by simp [bump]) drop
          rw [bump_bump] at back
          rw [answered] at failed
          exact .unmade (bump_zero (fun _ => 0) a.ref ▸ back) new failed
        · refine .held ((hand.decref ?_ drop).congr ?_)
          · simp only [bump]
            split_ifs <;> omega
          · intro other _
            rw [← owned_own]
            simp only [bump]
            split_ifs <;> omega

theorem InHand.type {ref type : Nat} (hand : InHand conn tc bound extra now) :
    InHand conn tc bound extra (now.setFid ref fun f => { f with type := type }) :=
  hand.setFid (fun _ => rfl) (fun _ => rfl) fun _ => rfl

theorem InHand.cloned {ref type : Nat} {user : Option User} (hand : InHand conn tc bound extra now) :
    InHand conn tc bound extra (now.setFid ref fun f => { f with user := user, type := type }) :=
  hand.setFid (fun _ => rfl) (fun _ => rfl) fun _ => rfl

theorem walkNames_hand (srv : Spsrv Tree User Aux) (ref : Nat) (pkt : Packet) (names : List Spstr)
    (hand : InHand conn tc bound extra now) :
    InHand conn tc bound extra (walkNames srv now ref pkt names).2.1 := by
  induction names generalizing now with
  | nil => exact hand
  | cons name names ih =>
      unfold walkNames
      split
      · exact hand
      · dsimp only
        split
        · exact hand.called
        · exact ih hand.called.type

theorem spWalkOn_inPlace {ref : Nat} {pkt : Packet} (hand : InHand conn tc bound extra now)
    (some_ : 0 ≤ extra ref) (ran : spWalkOn srv now ref false tc pkt = some (next, outcome)) :
    InHand conn tc bound extra next := by
  have walked := walkNames_hand srv ref pkt (tc.wnames.take tc.nwname) (hand.incref ref)
  unfold spWalkOn at ran
  dsimp only at ran
  have back {dropped : Spconn Tree User Aux}
      (drop : spFidDecref srv (walkNames srv (spFidIncref now ref) ref pkt
        (tc.wnames.take tc.nwname)).2.1 ref = some dropped) : InHand conn tc bound extra dropped := by
    have less := walked.decref (by simp only [bump, if_true]; omega) drop
    rw [bump_bump] at less
    exact bump_zero extra ref ▸ less
  split at ran
  · obtain ⟨dropped, drop, same⟩ := Option.map_eq_some_iff.mp ran
    exact (Prod.mk.inj same).1 ▸ back drop
  · obtain ⟨dropped, drop, same⟩ := Option.map_eq_some_iff.mp ran
    exact (Prod.mk.inj same).1 ▸ back drop

/-- A walk to a new fid leaves it the table's reference, or takes it away. -/
theorem spWalkOn_clone {ref : Nat} {pkt : Packet} (inv : FidInv conn) (new : conn.nextRef < ref)
    (other : bound ≠ some ref)
    (hand : InHand conn tc bound extra now) (unref : extra ref = -1)
    (ran : spWalkOn srv now ref true tc pkt = some (next, outcome)) :
    InHand conn tc bound (bump extra ref 1) next := by
  have walked := walkNames_hand srv ref pkt (tc.wnames.take tc.nwname) (hand.incref ref)
  unfold spWalkOn at ran
  dsimp only at ran
  split at ran
  · obtain ⟨dropped, drop, same⟩ := Option.map_eq_some_iff.mp ran
    exact (Prod.mk.inj same).1 ▸ walked.drop inv (by simp only [bump, if_true]; omega) new other drop
  · obtain ⟨dropped, drop, same⟩ := Option.map_eq_some_iff.mp ran
    have less := (walked.incref ref).decref (by simp only [bump, if_true]; omega) drop
    rw [bump_bump] at less
    exact (Prod.mk.inj same).1 ▸ bump_zero (bump extra ref 1) ref ▸ less

theorem bindFid_numbers (conn : Spconn Tree User Aux) (tc : Spfcall) (ref : Nat) :
    ((conn.accept tc).bindFid conn.nextRef ref).fids.map Spfid.fid = conn.fids.map Spfid.fid :=
  update_map Spfid.fid fun _ => rfl

theorem spFidCreate_some {fid ref : Nat} (created : spFidCreate now fid = (some ref, next)) :
    ref = now.nextRef ∧ next.tree = now.tree := by
  unfold spFidCreate at created
  split at created
  · simp only [Prod.mk.injEq, Option.some.injEq] at created
    obtain ⟨rfl, rfl⟩ := created
    exact ⟨rfl, rfl⟩
  · simp at created

theorem spWalk_handled {pkt : Packet} (inv : FidInv conn)
    (free : ∀ f, spFidFind conn tc.fid = some f → f.omode = omodeNone → tc.nwname ≤ maxwelem →
      tc.fid ≠ tc.newfid → spFidFind conn tc.newfid = none ∧
        (srv.clone conn.tree f { ref := conn.nextRef + 1, fid := tc.newfid }).value.isSome)
    (ran : spWalk srv (conn.accept tc) conn.nextRef tc pkt = some (now, outcome)) :
    Handled conn tc now outcome := by
  refine withFid_handled inv ran ?_
  intro f mid found here hand walked
  split at walked
  · exact hand.done walked
  · rename_i closed
    split at walked
    · exact hand.done walked
    · rename_i few
      split at walked
      · exact .held (spWalkOn_inPlace hand (by simp [owned]) walked)
      · rename_i other
        obtain ⟨unused, cloned⟩ := free f found (by simpa using closed) (by omega) other
        split at walked
        · rename_i used taken
          obtain ⟨inside, number⟩ := spFidFind_mem taken
          have listed := List.mem_map_of_mem (f := Spfid.fid) inside
          rw [here, bindFid_numbers, number] at listed
          exact absurd listed (spFidFind_none.mp unused)
        · split at walked
          · rename_i failed
            have same := spFidCreate_none failed
            subst same
            exact hand.done walked
          · rename_i newfid made created
            obtain ⟨fresh, new, -, -⟩ := hand.create created
            obtain ⟨address, same_tree⟩ := spFidCreate_some created
            have address : newfid = conn.nextRef + 1 := address.trans (here ▸ rfl)
            have same_tree : made.tree = conn.tree := same_tree.trans (here ▸ bindFid_tree conn tc f.ref)
            dsimp only at walked
            rw [same_tree, address] at walked
            split at walked
            · rename_i failed
              simp [failed] at cloned
            · rw [← address] at walked
              obtain ⟨member, -⟩ := spFidFind_mem found
              have old := inv.counted.fresh f member
              have apart : ¬ f.ref = newfid := by omega
              refine .held ((spWalkOn_clone inv new (by simpa using apart) fresh.called.cloned (by simp)
                walked).congr ?_)
              intro other _
              by_cases same : other = newfid
              · simp [bump, owned, same, apart]
              · simp [bump, same]

end Handlers

end Xcpu.Libspfs
