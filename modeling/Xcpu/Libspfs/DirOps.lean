import Xcpu.Libspfs.Closed

/-!
The operations that are for directories only. The checks that the handlers make on the type of a
fid never fail a request; what the tree gets to see is told from a server that notes its calls.
-/

namespace Xcpu.Libspfs

open Xcpu.Keyed Xcpu.Transition

/-- `!value&bit` -/
def notMasked (value bit : Nat) : Nat := (if value = 0 then 1 else 0) &&& bit

/-- The check of `sp_wstat`. -/
def dirChange (type mode : Nat) : Prop :=
  (type &&& qtdir ≠ 0 ∧ notMasked mode Dmdir ≠ 0) ∨ (notMasked type qtdir ≠ 0 ∧ mode &&& Dmdir ≠ 0)

inductive Op where
  | walk
  | create
  | wstat
  deriving DecidableEq

structure Call (Tree User Aux : Type) where
  op : Op
  tree : Tree
  fid : Spfid User Aux

/-- A tree with the calls that were made to it. -/
structure Logged (Tree User Aux : Type) where
  tree : Tree
  calls : List (Call Tree User Aux)

variable {Tree User Aux : Type}

def Back.inLog {Value : Type} (back : Back Tree Aux Value) (calls : List (Call Tree User Aux)) :
    Back (Logged Tree User Aux) Aux Value :=
  ⟨⟨back.tree, calls⟩, back.aux, back.value, back.error⟩

def Spsrv.logging (srv : Spsrv Tree User Aux) : Spsrv (Logged Tree User Aux) User Aux where
  msize := srv.msize
  dotu := srv.dotu
  finduser log := srv.finduser log.tree
  auth := srv.auth
  startauth log f aname := (srv.startauth log.tree f aname).inLog log.calls
  checkauth log f afid aname := (srv.checkauth log.tree f afid aname).inLog log.calls
  authread log f tc := (srv.authread log.tree f tc).inLog log.calls
  authwrite log f tc pkt := (srv.authwrite log.tree f tc pkt).inLog log.calls
  authclunk log f := (srv.authclunk log.tree f).inLog log.calls
  attach log f afid tc pkt := (srv.attach log.tree f afid tc pkt).inLog log.calls
  flush log req := (⟨(srv.flush log.tree req).1, log.calls⟩, (srv.flush log.tree req).2)
  clone log f newfid := (srv.clone log.tree f newfid).inLog log.calls
  walk log f name := (srv.walk log.tree f name).inLog (log.calls ++ [⟨.walk, log.tree, f⟩])
  «open» log f mode := (srv.open log.tree f mode).inLog log.calls
  create log f tc pkt := (srv.create log.tree f tc pkt).inLog (log.calls ++ [⟨.create, log.tree, f⟩])
  read log f tc req := (srv.read log.tree f tc req).inLog log.calls
  write log f tc pkt req := (srv.write log.tree f tc pkt req).inLog log.calls
  clunk log f := (srv.clunk log.tree f).inLog log.calls
  remove log f := (srv.remove log.tree f).inLog log.calls
  stat log f := (srv.stat log.tree f).inLog log.calls
  wstat log f stat pkt := (srv.wstat log.tree f stat pkt).inLog (log.calls ++ [⟨.wstat, log.tree, f⟩])
  fiddestroy log f := ⟨srv.fiddestroy log.tree f, log.calls⟩

section Claim

variable (qidType : Tree → Spfid User Aux → Nat) (srv : Spsrv Tree User Aux)
  (conn : Spconn (Logged Tree User Aux) User Aux) (tc : Spfcall) (pkt : Packet)

/-- The file of the fid is a directory, by the type of its qid. -/
def Directory (tree : Tree) (f : Spfid User Aux) : Prop := qidType tree f &&& qtdir ≠ 0

/-- A mode of all ones leaves the file as it is. -/
def Converts (tree : Tree) (f : Spfid User Aux) (mode : Nat) : Prop :=
  mode ≠ 2 ^ 32 - 1 ∧ (Directory qidType tree f ↔ mode &&& Dmdir = 0)

/-- The calls made since. -/
def newCalls (next : Spconn (Logged Tree User Aux) User Aux) : List (Call Tree User Aux) :=
  next.tree.calls.drop conn.tree.calls.length

structure DirSafe (next : Spconn (Logged Tree User Aux) User Aux) : Prop where
  directory : ∀ c ∈ newCalls conn next, c.op ≠ .wstat → Directory qidType c.tree c.fid
  converting : tc.type = .twstat → ∀ f, spFidFind conn tc.fid = some f →
    Converts qidType conn.tree.tree f tc.stat.mode →
      (∀ c ∈ newCalls conn next, c.op ≠ .wstat) ∧ (conn.nextRef, FcallType.rerror) ∈ next.sent

/-- Each of the names is looked up in a directory. -/
def DirPath : Tree → Spfid User Aux → List (List UInt8) → Prop
  | _, _, [] => True
  | tree, f, name :: names => Directory qidType tree f ∧
      ∀ qid, (srv.walk tree f name).value = some qid →
        DirPath (srv.walk tree f name).tree { f with aux := (srv.walk tree f name).aux, type := qid.type } names

def pathNames : List (List UInt8) := (tc.wnames.take tc.nwname).map (·.bytes pkt)

/-- The clone of a fid when the walk begins. -/
def cloneFid (f : Spfid User Aux) (aux : Option Aux) : Spfid User Aux :=
  { ref := conn.nextRef + 1, fid := tc.newfid, refcount := 1, type := f.type, user := f.user, aux }

/-- A walk in place, and one with a new fid, which begins where the clone callback left it. -/
def WalkFit (f : Spfid User Aux) : Prop :=
  if tc.fid = tc.newfid then
    DirPath qidType srv conn.tree.tree { f with refcount := f.refcount + 2 } (pathNames tc pkt)
  else
    let back := srv.clone conn.tree.tree f { ref := conn.nextRef + 1, fid := tc.newfid }
    spFidFind conn tc.newfid = none → conn.pool → back.value ≠ none →
      DirPath qidType srv back.tree (cloneFid conn tc f back.aux) (pathNames tc pkt)

/-- Walks through directories, creates in directories, and no wstat that converts a file, unless
the request is refused for another reason. -/
def DirFit : Prop :=
  ∀ f, spFidFind conn tc.fid = some f →
    match tc.type with
    | .twalk => f.omode = omodeNone → tc.nwname ≤ maxwelem → WalkFit qidType srv conn tc pkt f
    | .tcreate => f.omode = omodeNone → ¬ (tc.perm &&& Dmdir ≠ 0 ∧ tc.mode ≠ Oread) →
        ¬ (tc.perm &&& dmspecial ≠ 0 ∧ ¬ conn.dotu) → Directory qidType conn.tree.tree f
    | .twstat => Converts qidType conn.tree.tree f tc.stat.mode →
        tc.stat.type ≠ 2 ^ 16 - 1 ∨ tc.stat.dev ≠ 2 ^ 32 - 1 ∨ tc.stat.qid.version ≠ 2 ^ 32 - 1 ∨
          tc.stat.qid.path ≠ 2 ^ 64 - 1
    | _ => True

end Claim

theorem one_and_bit (bit : Nat) (even : bit % 2 = 0) (value : Nat) : notMasked value bit = 0 := by
  rw [notMasked]
  split
  · rw [Nat.and_comm, Nat.and_one_is_mod, even]
  · exact Nat.zero_and bit

theorem dirChange_never (type mode : Nat) : ¬ dirChange type mode := by
  rintro (⟨-, refused⟩ | ⟨refused, -⟩)
  · exact refused (one_and_bit Dmdir rfl mode)
  · exact refused (one_and_bit qtdir rfl type)

section Calls

variable {srv : Spsrv Tree User Aux} {conn now next : Spconn (Logged Tree User Aux) User Aux}

theorem newCalls_eq {calls : List (Call Tree User Aux)} (more : next.tree.calls = conn.tree.calls ++ calls) :
    newCalls conn next = calls := by
  rw [newCalls, more, List.drop_left]

theorem spFidDecref_calls {ref : Nat} (dropped : spFidDecref srv.logging now ref = some next) :
    next.tree.calls = now.tree.calls := by
  rw [spFidDecref] at dropped
  split at dropped
  · cases dropped
  · split at dropped
    · obtain rfl := Option.some.inj dropped
      rw [spFidDestroy]
      split
      · rfl
      · rfl
    · exact Option.some.inj dropped ▸ rfl

theorem spRespond_calls {ref : Nat} {rc : Option Rcall} (responded : spRespond srv.logging now ref rc = some next) :
    next.tree.calls = now.tree.calls := by
  obtain ⟨req, chain, noted, dropped, -, -, note, drop, rfl⟩ := spRespond_cases responded
  have marked : noted.tree.calls = now.tree.calls := by
    rcases noteDiroffset_cases note with rfl | ⟨here, offset, rfl⟩
    · rfl
    · rfl
  cases held : req.fid with
  | none =>
      rw [held] at drop
      exact Option.some.inj drop ▸ marked
  | some fid =>
      rw [held] at drop
      exact (spFidDecref_calls drop).trans marked

theorem answerOutcome_calls {ref : Nat} {outcome : Outcome}
    (answered : answerOutcome srv.logging now ref outcome = some next) : next.tree.calls = now.tree.calls := by
  rcases answerOutcome_cases answered with ⟨-, -, rfl⟩ | ⟨rc, responded, -⟩
  · rfl
  · exact spRespond_calls responded

theorem fidAt_setFid {ref : Nat} {f : Spfid User Aux} (change : Spfid User Aux → Spfid User Aux)
    (there : now.fidAt ref = some f) (same : ∀ f, (change f).ref = f.ref) :
    (now.setFid ref change).fidAt ref = some (change f) := by
  have own := (find?_key there).2
  rw [Spconn.fidAt] at there ⊢
  rw [Spconn.setFid, find?_update same, there, Option.map_some, if_pos own]

theorem walkNames_calls {qidType : Tree → Spfid User Aux → Nat} {ref : Nat} {f : Spfid User Aux} {pkt : Packet}
    {names : List Spstr} (there : now.fidAt ref = some f) :
    ∃ calls, (walkNames srv.logging now ref pkt names).2.1.tree.calls = now.tree.calls ++ calls ∧
      ((∀ c ∈ calls, c.op ≠ .wstat → Directory qidType c.tree c.fid) ↔
        DirPath qidType srv now.tree.tree f (names.map (·.bytes pkt))) := by
  induction names generalizing now f with
  | nil => exact ⟨[], (List.append_nil _).symm, by simp [DirPath]⟩
  | cons name names ih =>
      have walk : srv.logging.walk now.tree f (name.bytes pkt) =
          (srv.walk now.tree.tree f (name.bytes pkt)).inLog (now.tree.calls ++ [⟨.walk, now.tree.tree, f⟩]) := rfl
      rw [walkNames, there]
      dsimp only
      rw [walk, List.map_cons, DirPath]
      generalize srv.walk now.tree.tree f (name.bytes pkt) = back
      have called : ({ now with tree := (back.inLog (now.tree.calls ++ [⟨.walk, now.tree.tree, f⟩])).tree } :
          Spconn (Logged Tree User Aux) User Aux).fidAt ref = some f := there
      cases walked : back.value with
      | none =>
          rw [show (back.inLog (now.tree.calls ++ [⟨.walk, now.tree.tree, f⟩])).value = none from walked]
          refine ⟨[⟨.walk, now.tree.tree, f⟩], rfl, ?_⟩
          simp
      | some qid =>
          rw [show (back.inLog (now.tree.calls ++ [⟨.walk, now.tree.tree, f⟩])).value = some qid from walked]
          have left := fidAt_setFid (fun f => { f with aux := back.aux }) called fun _ => rfl
          have typed := fidAt_setFid (fun f => { f with type := qid.type }) left fun _ => rfl
          obtain ⟨calls, more, safe⟩ := ih typed
          refine ⟨⟨.walk, now.tree.tree, f⟩ :: calls, ?_, ?_⟩
          · refine more.trans ?_
            exact List.append_assoc ..
          · rw [List.forall_mem_cons]
            simp only [ne_eq, reduceCtorEq, not_false_eq_true, true_implies, Option.some.injEq, forall_eq']
            exact and_congr Iff.rfl safe

variable {qidType : Tree → Spfid User Aux → Nat} {tc : Spfcall} {pkt : Packet} {req : Nat} {outcome : Outcome}

theorem spWalkOn_calls {newfid : Nat} {cloned : Bool} {f : Spfid User Aux} (there : now.fidAt newfid = some f)
    (ran : spWalkOn srv.logging now newfid cloned tc pkt = some (next, outcome)) :
    ∃ calls, next.tree.calls = now.tree.calls ++ calls ∧
      ((∀ c ∈ calls, c.op ≠ .wstat → Directory qidType c.tree c.fid) ↔
        DirPath qidType srv now.tree.tree { f with refcount := f.refcount + 1 } (pathNames tc pkt)) := by
  have held := fidAt_setFid (fun f => { f with refcount := f.refcount + 1 }) there fun _ => rfl
  obtain ⟨calls, more, safe⟩ := @walkNames_calls _ _ _ srv _ qidType newfid _ pkt (tc.wnames.take tc.nwname) held
  refine ⟨calls, ?_, safe⟩
  rw [spWalkOn, spFidIncref] at ran
  generalize walkNames srv.logging (now.setFid newfid fun f => { f with refcount := f.refcount + 1 }) newfid pkt
    (tc.wnames.take tc.nwname) = result at ran more
  obtain ⟨walked, last, error⟩ := result
  dsimp only at ran more
  split at ran
  · obtain ⟨mid, dropped, here⟩ := Option.map_eq_some_iff.mp ran
    obtain ⟨rfl, -⟩ := Prod.mk.inj here
    exact (spFidDecref_calls dropped).trans more
  · obtain ⟨mid, dropped, here⟩ := Option.map_eq_some_iff.mp ran
    obtain ⟨rfl, -⟩ := Prod.mk.inj here
    refine (spFidDecref_calls dropped).trans ?_
    cases cloned with
    | true => exact more
    | false => exact more

omit conn in
theorem bindFid_unused {fid ref : Nat} : spFidFind (now.bindFid req ref) fid = none ↔ spFidFind now fid = none := by
  have numbers : (now.bindFid req ref).fids.map Spfid.fid = now.fids.map Spfid.fid := update_map _ fun _ => rfl
  rw [spFidFind, spFidFind, find?_none_iff, find?_none_iff, numbers]

theorem spFidCreate_made {fid ref : Nat} (made : spFidCreate now fid = (some ref, next)) :
    spFidFind now fid = none ∧ now.pool = true ∧ ref = now.nextRef ∧ next.tree = now.tree ∧
      next.fidAt ref = some { ref, fid } := by
  rw [spFidCreate] at made
  split at made
  · rename_i free
    obtain ⟨same, rfl⟩ := Prod.mk.inj made
    obtain rfl := Option.some.inj same
    refine ⟨free.2, free.1, rfl, rfl, ?_⟩
    rw [Spconn.fidAt, List.find?_cons_of_pos (by simp)]
  · cases made

theorem spFidCreate_unmade {fid : Nat} (unmade : spFidCreate now fid = (none, next)) :
    ¬ (now.pool = true ∧ spFidFind now fid = none) ∧ next = now := by
  rw [spFidCreate] at unmade
  split at unmade
  · cases unmade
  · rename_i refused
    exact ⟨refused, (Prod.mk.inj unmade).2.symm⟩

theorem spWalk_calls (numbered : Numbered conn)
    (ran : spWalk srv.logging (conn.accept tc) conn.nextRef tc pkt = some (now, outcome)) :
    ∃ calls, now.tree.calls = conn.tree.calls ++ calls ∧
      ((∀ c ∈ calls, c.op ≠ .wstat → Directory qidType c.tree c.fid) ↔
        ∀ f, spFidFind conn tc.fid = some f → f.omode = omodeNone → tc.nwname ≤ maxwelem →
          WalkFit qidType srv conn tc pkt f) := by
  rw [spWalk, withFid] at ran
  have same : spFidFind (conn.accept tc) tc.fid = spFidFind conn tc.fid := rfl
  rw [same] at ran
  cases known : spFidFind conn tc.fid with
  | none =>
      rw [known] at ran
      obtain ⟨rfl, -⟩ := Prod.mk.inj (Option.some.inj ran)
      exact ⟨[], (List.append_nil _).symm, by simp⟩
  | some f =>
      rw [known] at ran
      obtain ⟨member, number⟩ := find?_key known
      have accepted : Numbered (conn.accept tc) := (@Numbered.closed _ _ _ srv.logging).same numbered rfl (Nat.le_succ _)
      have bound : Numbered ((conn.accept tc).bindFid conn.nextRef f.ref) := (@Numbered.closed _ _ _ srv.logging).bindFid accepted
      have own : (conn.accept tc).fidAt f.ref = some f := find?_of_mem numbered.refs member rfl
      have there : ((conn.accept tc).bindFid conn.nextRef f.ref).fidAt f.ref = some { f with refcount := f.refcount + 1 } :=
        fidAt_setFid (fun f => { f with refcount := f.refcount + 1 }) own fun _ => rfl
      simp only [Option.some.injEq, forall_eq']
      have silent (reason : f.omode = omodeNone → tc.nwname ≤ maxwelem → WalkFit qidType srv conn tc pkt f)
          (quiet : now.tree.calls = conn.tree.calls) : ∃ calls, now.tree.calls = conn.tree.calls ++ calls ∧
            ((∀ c ∈ calls, c.op ≠ .wstat → Directory qidType c.tree c.fid) ↔
              (f.omode = omodeNone → tc.nwname ≤ maxwelem → WalkFit qidType srv conn tc pkt f)) :=
        ⟨[], quiet.trans (List.append_nil _).symm, iff_of_true (by simp) reason⟩
      dsimp only at ran
      split_ifs at ran with opened many inPlace
      · obtain ⟨rfl, -⟩ := Prod.mk.inj (Option.some.inj ran)
        exact silent (fun shut => (opened shut).elim) rfl
      · obtain ⟨rfl, -⟩ := Prod.mk.inj (Option.some.inj ran)
        exact silent (fun _ few => absurd few (Nat.not_le.mpr many)) rfl
      · obtain ⟨calls, more, safe⟩ := @spWalkOn_calls _ _ _ srv _ _ qidType tc pkt outcome _ _ _ there ran
        refine ⟨calls, more, safe.trans ?_⟩
        have two : f.refcount + 1 + 1 = f.refcount + 2 := by omega
        simp only [not_not.mp opened, Nat.not_lt.mp many, WalkFit, if_pos inPlace, true_implies, two]
        exact Iff.rfl
      · have other : tc.fid ≠ tc.newfid := inPlace
        split at ran
        · rename_i used found
          obtain ⟨mid, dropped, here⟩ := Option.map_eq_some_iff.mp ran
          obtain ⟨rfl, -⟩ := Prod.mk.inj here
          refine silent (fun _ _ => ?_) ((spFidDecref_calls dropped).trans rfl)
          rw [WalkFit, if_neg inPlace]
          intro back free
          have unused : spFidFind (conn.accept tc) tc.newfid = none := free
          rw [bindFid_unused.mpr unused] at found
          cases found
        · split at ran
          · rename_i made
            obtain ⟨refused, rfl⟩ := spFidCreate_unmade made
            obtain ⟨rfl, -⟩ := Prod.mk.inj (Option.some.inj ran)
            refine silent (fun _ _ => ?_) rfl
            rw [WalkFit, if_neg inPlace]
            intro back free pool
            exact (refused ⟨pool, bindFid_unused.mpr free⟩).elim
          · rename_i newfid mid made
            obtain ⟨free, pool, rfl, tree, there⟩ := spFidCreate_made made
            have before : spFidFind (conn.accept tc) tc.newfid = none := bindFid_unused.mp free
            have unused : spFidFind conn tc.newfid = none := before
            have full : conn.pool = true := pool
            have root : mid.tree = conn.tree := tree
            rw [root] at ran
            have clone : srv.logging.clone conn.tree f { ref := ((conn.accept tc).bindFid conn.nextRef f.ref).nextRef, fid := tc.newfid } =
                (srv.clone conn.tree.tree f { ref := conn.nextRef + 1, fid := tc.newfid }).inLog conn.tree.calls := rfl
            rw [clone] at ran
            simp only [not_not.mp opened, Nat.not_lt.mp many, WalkFit, if_neg inPlace, true_implies, unused, full]
            generalize srv.clone conn.tree.tree f { ref := conn.nextRef + 1, fid := tc.newfid } = back at ran ⊢
            split at ran
            · rename_i failed
              obtain ⟨last, dropped, here⟩ := Option.map_eq_some_iff.mp ran
              obtain ⟨rfl, -⟩ := Prod.mk.inj here
              refine ⟨[], ((spFidDecref_calls dropped).trans rfl).trans (List.append_nil _).symm, iff_of_true (by simp) ?_⟩
              intro cloned
              exact (cloned failed).elim
            · rename_i cloned
              have copied := @fidAt_setFid _ _ _ { mid with tree := (back.inLog conn.tree.calls).tree } _ _
                (fun g => { g with aux := back.aux }) there fun _ => rfl
              have named := fidAt_setFid (fun g => { g with user := f.user, type := f.type }) copied fun _ => rfl
              obtain ⟨calls, more, safe⟩ := @spWalkOn_calls _ _ _ srv _ _ qidType tc pkt outcome _ _ _ named ran
              refine ⟨calls, more, safe.trans ?_⟩
              exact ⟨fun path _ => path, fun path => path cloned⟩

theorem spCreate_calls (ran : spCreate srv.logging (conn.accept tc) req tc pkt = some (now, outcome)) :
    ∃ calls, now.tree.calls = conn.tree.calls ++ calls ∧
      ((∀ c ∈ calls, c.op ≠ .wstat → Directory qidType c.tree c.fid) ↔
        ∀ f, spFidFind conn tc.fid = some f → f.omode = omodeNone → ¬ (tc.perm &&& Dmdir ≠ 0 ∧ tc.mode ≠ Oread) →
          ¬ (tc.perm &&& dmspecial ≠ 0 ∧ ¬ conn.dotu) → Directory qidType conn.tree.tree f) := by
  rw [spCreate, withFid] at ran
  have same : spFidFind (conn.accept tc) tc.fid = spFidFind conn tc.fid := rfl
  rw [same] at ran
  cases known : spFidFind conn tc.fid with
  | none =>
      rw [known] at ran
      obtain ⟨rfl, -⟩ := Prod.mk.inj (Option.some.inj ran)
      exact ⟨[], (List.append_nil _).symm, by simp⟩
  | some f =>
      rw [known] at ran
      simp only [Option.some.injEq, forall_eq']
      dsimp only at ran
      split_ifs at ran with opened directory special
      · obtain ⟨rfl, -⟩ := Prod.mk.inj (Option.some.inj ran)
        exact ⟨[], (List.append_nil _).symm, iff_of_true (by simp) fun shut => (opened shut).elim⟩
      · obtain ⟨rfl, -⟩ := Prod.mk.inj (Option.some.inj ran)
        exact ⟨[], (List.append_nil _).symm, iff_of_true (by simp) fun _ fits => (fits directory).elim⟩
      · obtain ⟨rfl, -⟩ := Prod.mk.inj (Option.some.inj ran)
        exact ⟨[], (List.append_nil _).symm, iff_of_true (by simp) fun _ _ fits => (fits special).elim⟩
      · obtain ⟨rfl, -⟩ := Prod.mk.inj (Option.some.inj ran)
        refine ⟨[⟨.create, conn.tree.tree, f⟩], ?_, ?_⟩
        · unfold Spconn.created
          split
          · rfl
          · rfl
        · have plain : ¬ (tc.perm &&& dmspecial ≠ 0 ∧ ¬ conn.dotu) := special
          simp only [List.mem_singleton, forall_eq, ne_eq, reduceCtorEq, not_false_eq_true, true_implies]
          exact ⟨fun dir _ _ _ => dir, fun dir => dir (not_not.mp opened) directory plain⟩

theorem answerOutcome_failed {ref : Nat} (answered : answerOutcome srv.logging now ref .failed = some next) :
    (ref, FcallType.rerror) ∈ next.sent := by
  rcases answerOutcome_cases answered with ⟨failed, -⟩ | ⟨rc, responded, ⟨-, rfl⟩ | ⟨clean, -⟩⟩
  · cases failed
  · obtain ⟨req, chain, noted, dropped, -, -, -, -, rfl⟩ := spRespond_cases responded
    exact List.mem_append_right _ (List.mem_append_left _ (List.mem_singleton.mpr rfl))
  · cases clean

theorem spWstat_safe_iff (kind : tc.type = .twstat)
    (ran : spWstat srv.logging (conn.accept tc) conn.nextRef tc pkt = some (now, outcome))
    (answered : answerOutcome srv.logging now conn.nextRef outcome = some next) :
    DirSafe qidType conn tc next ↔ DirFit qidType srv conn tc pkt := by
  have kept := answerOutcome_calls answered
  rw [spWstat, withFid] at ran
  have same : spFidFind (conn.accept tc) tc.fid = spFidFind conn tc.fid := rfl
  rw [same] at ran
  simp only [DirFit, kind]
  cases known : spFidFind conn tc.fid with
  | none =>
      rw [known] at ran
      obtain ⟨rfl, -⟩ := Prod.mk.inj (Option.some.inj ran)
      have silent : newCalls conn next = [] := newCalls_eq (kept.trans (List.append_nil _).symm)
      refine iff_of_true ⟨fun c member => ?_, fun _ f found => ?_⟩ fun f found => ?_
      · rw [silent] at member
        cases member
      · rw [known] at found
        cases found
      · cases found
  | some f =>
      rw [known] at ran
      simp only [Option.some.injEq, forall_eq']
      dsimp only at ran
      split at ran
      · rename_i other
        obtain ⟨rfl, rfl⟩ := Prod.mk.inj (Option.some.inj ran)
        have silent : newCalls conn next = [] := newCalls_eq (kept.trans (List.append_nil _).symm)
        refine iff_of_true ⟨fun c member => ?_, fun _ f found converts => ⟨fun c member => ?_, answerOutcome_failed answered⟩⟩
          fun _ => other
        · rw [silent] at member
          cases member
        · rw [silent] at member
          cases member
      · rename_i plain
        obtain ⟨rfl, -⟩ := Prod.mk.inj (Option.some.inj ran)
        have called : newCalls conn next = [⟨.wstat, conn.tree.tree, f⟩] := newCalls_eq kept
        constructor
        · intro safe converts
          exact ((safe.converting kind f known converts).1 _ (called ▸ List.mem_singleton_self _) rfl).elim
        · intro fit
          refine ⟨fun c member checked => ?_, fun _ g found converts => ?_⟩
          · rw [called] at member
            exact (checked (congrArg Call.op (List.mem_singleton.mp member))).elim
          · obtain rfl := Option.some.inj (known.symm.trans found)
            exact (plain (fit converts)).elim

theorem DirSafe.of_calls {calls : List (Call Tree User Aux)} (other : tc.type ≠ .twstat)
    (more : next.tree.calls = conn.tree.calls ++ calls) :
    DirSafe qidType conn tc next ↔ ∀ c ∈ calls, c.op ≠ .wstat → Directory qidType c.tree c.fid := by
  have same := newCalls_eq more
  constructor
  · intro safe
    exact same ▸ safe.directory
  · intro safe
    exact ⟨same ▸ safe, fun kind => (other kind).elim⟩

end Calls

/-- In every reachable state the operations for directories reach directories only, and no wstat turns
a file into a directory or back, exactly when the request keeps to that: the checks refuse nothing. -/
theorem dirOps_safe_iff {srv : Spsrv Tree User Aux} {conn next : Spconn (Logged Tree User Aux) User Aux}
    {tc : Spfcall} {pkt : Packet} (qidType : Tree → Spfid User Aux → Nat) (tree : Tree) (events : List ConnEvent)
    (kind : tc.type = .twalk ∨ tc.type = .tcreate ∨ tc.type = .twstat)
    (ran : run (Spconn.step srv.logging) (spConnCreate srv.logging ⟨tree, []⟩) events = some conn)
    (stepped : spSrvProcessFcall srv.logging conn tc pkt = some next) :
    (DirSafe qidType conn tc next ↔ DirFit qidType srv conn tc pkt) ∧
      ∀ type mode, notMasked type qtdir = 0 ∧ ¬ dirChange type mode := by
  refine ⟨?_, fun type mode => ⟨one_and_bit qtdir rfl type, dirChange_never type mode⟩⟩
  have numbered := numbered_run ran
  obtain ⟨now, outcome, handled, answered⟩ := spSrvProcessFcall_cases stepped
  rcases kind with kind | kind | kind
  · have did : spWalk srv.logging (conn.accept tc) conn.nextRef tc pkt = some (now, outcome) := by
      rw [kind] at handled
      exact Option.some.inj handled
    obtain ⟨calls, more, safe⟩ := spWalk_calls numbered did
    have other : tc.type ≠ .twstat := by simp [kind]
    rw [DirSafe.of_calls other ((answerOutcome_calls answered).trans more), safe]
    simp only [DirFit, kind]
  · have did : spCreate srv.logging (conn.accept tc) conn.nextRef tc pkt = some (now, outcome) := by
      rw [kind] at handled
      exact Option.some.inj handled
    obtain ⟨calls, more, safe⟩ := spCreate_calls did
    have other : tc.type ≠ .twstat := by simp [kind]
    rw [DirSafe.of_calls other ((answerOutcome_calls answered).trans more), safe]
    simp only [DirFit, kind]
  · have did : spWstat srv.logging (conn.accept tc) conn.nextRef tc pkt = some (now, outcome) := by
      rw [kind] at handled
      exact Option.some.inj handled
    exact spWstat_safe_iff kind did answered

/-- Walks from a root to a file that is not a directory. -/
def toFile : List ConnEvent :=
  [version, attach 0, .message { type := .twalk, fid := 0, newfid := 1, nwname := 1, wnames := [⟨1, some 0⟩] } [120]]

def walkOn : Spfcall := { type := .twalk, fid := 1, newfid := 2, nwname := 1, wnames := [⟨1, some 0⟩] }

/-- A Twstat that asks for nothing but the mode of a directory. -/
def toDirectory : Spfcall :=
  { type := .twstat, fid := 1,
    stat := { type := 2 ^ 16 - 1, dev := 2 ^ 32 - 1, mode := Dmdir, qid := ⟨0, 2 ^ 32 - 1, 2 ^ 64 - 1⟩ } }

theorem dirOps_safe_iff_walk :
    ∃ conn, run (Spconn.step oneFile.logging) (spConnCreate oneFile.logging ⟨(), []⟩) toFile = some conn ∧
      ∃ next, spSrvProcessFcall oneFile.logging conn walkOn [120] = some next ∧
        (DirSafe (fun _ f => f.type) conn walkOn next ↔ DirFit (fun _ f => f.type) oneFile conn walkOn [120]) :=
  ⟨_, rfl, _, rfl, (dirOps_safe_iff (fun _ f => f.type) () toFile (.inl rfl) rfl rfl).1⟩

/-- A name is looked up in the file, and it is to become a directory. -/
theorem fileWalked_notDirectory :
    ∃ conn, run (Spconn.step oneFile.logging) (spConnCreate oneFile.logging ⟨(), []⟩) toFile = some conn ∧
      (∃ next, spSrvProcessFcall oneFile.logging conn walkOn [120] = some next ∧
        ¬ DirSafe (fun _ f => f.type) conn walkOn next) ∧
      ∃ next, spSrvProcessFcall oneFile.logging conn toDirectory [] = some next ∧
        ¬ DirSafe (fun _ f => f.type) conn toDirectory next := by
  refine ⟨_, rfl, ⟨_, rfl, fun safe => ?_⟩, ⟨_, rfl, fun safe => ?_⟩⟩
  · exact safe.directory _ (List.mem_cons_self ..) (fun same => nomatch same) rfl
  · refine (safe.converting rfl _ rfl ⟨by decide, ?_⟩).1 _ (List.mem_cons_self ..) rfl
    exact iff_of_false (fun directory => directory rfl) (by decide)

end Xcpu.Libspfs
