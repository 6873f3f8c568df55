import Xcpu.Libspfs.Closed

/-!
A property of the file tree and of what each fid stands for. Where the callbacks keep it, it holds
along whole runs, with the callbacks of walk, create and wstat only as far as the messages are
allowed.
-/

namespace Xcpu.Libspfs

open Xcpu.Keyed Xcpu.Transition

variable {Tree User Aux Value : Type}

structure Held (good : Tree → Prop) (kept : Aux → Prop) (conn : Spconn Tree User Aux) : Prop where
  tree : good conn.tree
  fids : ∀ f ∈ conn.fids, ∀ aux, f.aux = some aux → kept aux

structure Back.Held (good : Tree → Prop) (kept : Aux → Prop) (back : Back Tree Aux Value) : Prop where
  tree : good back.tree
  aux : ∀ aux, back.aux = some aux → kept aux

def Keeping (good : Tree → Prop) (kept : Aux → Prop)
    (callback : Tree → Spfid User Aux → Back Tree Aux Value) : Prop :=
  ∀ tree f, good tree → (∀ aux, f.aux = some aux → kept aux) → (callback tree f).Held good kept

/-- The callbacks that keep the property whatever the message is. -/
structure Spsrv.Keeps (srv : Spsrv Tree User Aux) (good : Tree → Prop) (kept : Aux → Prop) : Prop where
  startauth : ∀ aname, Keeping good kept (srv.startauth · · aname)
  checkauth : ∀ tree f afid aname, good tree → good (srv.checkauth tree f afid aname).tree
  authread : ∀ tc, Keeping good kept (srv.authread · · tc)
  authwrite : ∀ tc pkt, Keeping good kept (srv.authwrite · · tc pkt)
  authclunk : Keeping good kept srv.authclunk
  attach : ∀ afid tc pkt, Keeping good kept (srv.attach · · afid tc pkt)
  flush : ∀ tree req, good tree → good (srv.flush tree req).1
  clone : ∀ newfid, Keeping good kept (srv.clone · · newfid)
  «open» : ∀ mode, Keeping good kept (srv.open · · mode)
  read : ∀ tc req, Keeping good kept (srv.read · · tc req)
  write : ∀ tc pkt req, Keeping good kept (srv.write · · tc pkt req)
  clunk : Keeping good kept srv.clunk
  remove : Keeping good kept srv.remove
  stat : Keeping good kept srv.stat
  fiddestroy : ∀ tree f, good tree → good (srv.fiddestroy tree f)

section Rules

variable (srv : Spsrv Tree User Aux) (good : Tree → Prop) (kept : Aux → Prop)

/-- Each step of a walk keeps the property, as far as it goes. -/
def WalkAllowed : Tree → Option Aux → List (List UInt8) → Prop
  | _, _, [] => True
  | tree, aux, name :: names => ∀ f : Spfid User Aux, f.aux = aux →
      (srv.walk tree f name).Held good kept ∧
      ((srv.walk tree f name).value.isSome →
        WalkAllowed (srv.walk tree f name).tree (srv.walk tree f name).aux names)

/-- A walk on another fid begins where the clone leaves that one. -/
def SpWalkAllowed (conn : Spconn Tree User Aux) (f : Spfid User Aux) (tc : Spfcall) (pkt : Packet) : Prop :=
  let names := (tc.wnames.take tc.nwname).map (·.bytes pkt)
  if tc.fid = tc.newfid then WalkAllowed srv good kept conn.tree f.aux names
  else ∀ newfid,
    WalkAllowed srv good kept (srv.clone conn.tree f newfid).tree (srv.clone conn.tree f newfid).aux names

/-- The places of Twalk, Tcreate and Twstat in the table, where Rwalk, Rcreate and Rwstat come too. -/
def HandlerAllowed (conn : Spconn Tree User Aux) (tc : Spfcall) (pkt : Packet) (f : Spfid User Aux) : Nat → Prop
  | 5 => SpWalkAllowed srv good kept conn f tc pkt
  | 7 => (srv.create conn.tree f tc pkt).Held good kept
  | 13 => (srv.wstat conn.tree f tc.stat pkt).Held good kept
  | _ => True

def Spconn.Allowed (conn : Spconn Tree User Aux) : ConnEvent → Prop
  | .message tc pkt => ∀ f, spFidFind conn tc.fid = some f →
      HandlerAllowed srv good kept conn tc pkt f ((tc.type.number - 100) / 2)
  | .answer _ _ => True

variable {srv good kept} {conn now next : Spconn Tree User Aux} {req ref : Nat} {tc : Spfcall} {pkt : Packet}

theorem Held.congr (held : Held good kept conn) (tree : next.tree = conn.tree) (fids : next.fids = conn.fids) :
    Held good kept next := by
  refine ⟨tree ▸ held.tree, ?_⟩
  rw [fids]
  exact held.fids

theorem Held.setFid (held : Held good kept conn) {change : Spfid User Aux → Spfid User Aux}
    (same : ∀ f, (change f).aux = f.aux) : Held good kept (conn.setFid ref change) := by
  refine ⟨held.tree, fun f member aux stands => ?_⟩
  obtain ⟨old, inside, rfl⟩ := mem_update.mp member
  split at stands
  · rw [same] at stands
    exact held.fids old inside aux stands
  · exact held.fids old inside aux stands

theorem Held.called (held : Held good kept conn) (ref : Nat) {back : Back Tree Aux Value}
    (did : back.Held good kept) : Held good kept (conn.called ref back) := by
  refine ⟨did.tree, fun f member aux stands => ?_⟩
  obtain ⟨old, inside, rfl⟩ := mem_update.mp member
  split at stands
  · exact did.aux aux stands
  · exact held.fids old inside aux stands

theorem Held.incref (held : Held good kept conn) (ref : Nat) : Held good kept (spFidIncref conn ref) :=
  held.setFid fun _ => rfl

theorem Held.bindFid (held : Held good kept conn) : Held good kept (conn.bindFid req ref) :=
  (held.incref ref).congr rfl rfl

theorem Held.created {fid : Nat} {result : Option Nat} (held : Held good kept conn)
    (made : spFidCreate conn fid = (result, next)) : Held good kept next := by
  rw [spFidCreate] at made
  split at made
  · obtain ⟨-, rfl⟩ := Prod.mk.inj made
    refine ⟨held.tree, fun f member aux stands => ?_⟩
    rcases List.mem_cons.mp member with rfl | before
    · contradiction
    · exact held.fids f before aux stands
  · obtain ⟨-, rfl⟩ := Prod.mk.inj made
    exact held

theorem Held.fidAt {f : Spfid User Aux} (held : Held good kept conn) (found : conn.fidAt ref = some f) :
    ∀ aux, f.aux = some aux → kept aux := held.fids f (List.mem_of_find?_eq_some found)

theorem exists_of_fidAt_setFid {change : Spfid User Aux → Spfid User Aux} {f : Spfid User Aux}
    (found : (conn.setFid ref change).fidAt ref = some f) (same : ∀ f, (change f).ref = f.ref) :
    ∃ old, conn.fidAt ref = some old ∧ f = change old := by
  rw [Spconn.fidAt, Spconn.setFid, find?_update same] at found
  obtain ⟨old, before, rfl⟩ := Option.map_eq_some_iff.mp found
  exact ⟨old, before, if_pos (find?_key before).2⟩

variable (keeps : srv.Keeps good kept)

include keeps

theorem Held.decref (held : Held good kept conn) (dropped : spFidDecref srv conn ref = some next) :
    Held good kept next := by
  rw [spFidDecref] at dropped
  split at dropped
  · contradiction
  · split at dropped
    · obtain rfl := Option.some.inj dropped
      rw [spFidDestroy]
      split
      · exact ⟨keeps.fiddestroy _ _ held.tree, fun f member => held.fids f (List.mem_of_mem_eraseP member)⟩
      · exact held
    · obtain rfl := Option.some.inj dropped
      exact held.setFid fun _ => rfl

theorem Held.respond {rc : Option Rcall} (held : Held good kept conn)
    (responded : spRespond srv conn ref rc = some next) : Held good kept next := by
  obtain ⟨r, chain, noted, dropped, -, -, note, drop, rfl⟩ := spRespond_cases responded
  have before : Held good kept { conn with workreqs := conn.workreqs.filter (·.ref ∉ ref :: chain) } :=
    held.congr rfl rfl
  have marked : Held good kept noted := by
    rcases noteDiroffset_cases note with rfl | ⟨here, offset, rfl⟩
    · exact before
    · exact before.setFid fun _ => rfl
  have gone : Held good kept dropped := by
    cases bound : r.fid with
    | none =>
        rw [bound] at drop
        exact Option.some.inj drop ▸ marked
    | some fid =>
        rw [bound] at drop
        exact marked.decref keeps drop
  exact gone.congr rfl rfl

theorem Held.answered {outcome : Outcome} (held : Held good kept conn)
    (answered : answerOutcome srv conn ref outcome = some next) : Held good kept next := by
  rcases answerOutcome_cases answered with ⟨-, -, rfl⟩ | ⟨rc, responded, -⟩
  · exact held
  · exact held.respond keeps responded

theorem Held.xflush {creq : Spreq} {flushed : Bool} (held : Held good kept conn)
    (ran : xflush srv conn creq = some (flushed, next)) : Held good kept next := by
  rw [Libspfs.xflush] at ran
  split at ran
  · obtain ⟨-, rfl⟩ := Prod.mk.inj (Option.some.inj ran)
    exact held
  · have given : Held good kept { conn with tree := (srv.flush conn.tree creq).1 } :=
      ⟨keeps.flush _ _ held.tree, held.fids⟩
    dsimp only at ran
    split at ran
    · obtain ⟨answered, responded, same⟩ := Option.map_eq_some_iff.mp ran
      obtain ⟨-, rfl⟩ := Prod.mk.inj same
      exact given.respond keeps responded
    · obtain ⟨-, rfl⟩ := Prod.mk.inj (Option.some.inj ran)
      exact given

theorem Held.flushWorkreqs {steps : Nat} (held : Held good kept conn)
    (ran : flushWorkreqs srv conn steps = some next) : Held good kept next := by
  induction steps generalizing conn with
  | zero => contradiction
  | succ steps ih =>
      rw [Libspfs.flushWorkreqs] at ran
      split at ran
      · exact Option.some.inj ran ▸ held
      · obtain ⟨⟨flushed, mid⟩, first, later⟩ := Option.bind_eq_some_iff.mp ran
        have given := held.xflush keeps first
        cases flushed with
        | true => exact ih given later
        | false => contradiction

theorem Held.spConnReset {msize : Nat} {dotu : Bool} (held : Held good kept conn)
    (ran : spConnReset srv conn msize dotu = some next) : Held good kept next := by
  obtain ⟨mid, flushed, rfl⟩ := Option.map_eq_some_iff.mp ran
  have destroyed (fids : List (Spfid User Aux)) (tree : Tree) (holds : good tree) :
      good (fids.foldl srv.fiddestroy tree) := by
    induction fids generalizing tree with
    | nil => exact holds
    | cons f rest ih => exact ih _ (keeps.fiddestroy tree f holds)
  exact ⟨destroyed _ _ (held.flushWorkreqs keeps flushed).tree, fun _ member => absurd member List.not_mem_nil⟩

theorem spVersion_held (held : Held good kept conn) : Leaves (Held good kept) (spVersion srv conn req tc pkt) := by
  rw [spVersion]
  split
  · exact .done held
  · rw [spDefaultVersion]
    split
    · rintro next outcome ⟨⟩
    · split
      · rintro next outcome ⟨⟩
      · exact .map fun next ran => held.spConnReset keeps ran

theorem spAuthUser_held {afid : Nat} (held : Held good kept conn) :
    Held good kept (spAuthUser srv conn afid tc pkt).1 := by
  rw [spAuthUser]
  split
  · exact held
  · rename_i user found
    have known : Held good kept (conn.setFid afid fun f => { f with user := some user, type := qtauth }) :=
      held.setFid fun _ => rfl
    dsimp only
    split
    · exact known
    · rename_i f there
      split
      · exact known.called afid (keeps.startauth _ _ _ known.tree (known.fidAt there))
      · exact known

theorem spAuth_held (held : Held good kept conn) : Leaves (Held good kept) (spAuth srv conn req tc pkt) := by
  rw [spAuth]
  split
  · exact .map fun next dropped => held.decref keeps dropped
  · split
    · rename_i made
      exact .done (held.created made)
    · rename_i afid mid made
      have user : Held good kept (spAuthUser srv (spFidIncref mid afid) afid tc pkt).1 :=
        spAuthUser_held keeps ((held.created made).incref afid)
      generalize spAuthUser srv (spFidIncref mid afid) afid tc pkt = result at user ⊢
      obtain ⟨last, outcome⟩ := result
      dsimp only
      split
      · exact .map fun next dropped => user.decref keeps dropped
      · exact .done user

omit keeps in
theorem Held.attached (held : Held good kept conn) {back : Back Tree Aux Rcall} (did : back.Held good kept) :
    Held good kept (if back.value.isSome then spFidIncref (conn.called ref back) ref else conn.called ref back) := by
  split
  · exact (held.called ref did).incref ref
  · exact held.called ref did

theorem spAttachUser_held (held : Held good kept conn) (ref : Nat) (afid : Option Nat) (tc : Spfcall) (pkt : Packet) :
    Held good kept (spAttachUser srv conn ref afid tc pkt).1 := by
  rw [spAttachUser]
  split
  · exact held
  · rename_i user found
    have known : Held good kept (conn.setFid ref fun f => { f with user := some user }) := held.setFid fun _ => rfl
    dsimp only
    split
    · exact known
    · rename_i f there
      have checked := keeps.checkauth _ f (afid.bind (conn.setFid ref fun f => { f with user := some user }).fidAt)
        (tc.aname.bytes pkt) known.tree
      split
      · exact ⟨checked, known.fids⟩
      · refine known.attached (keeps.attach _ tc pkt _ f ?_ (known.fidAt there))
        split
        · exact checked
        · exact known.tree

theorem spAttach_held (held : Held good kept conn) : Leaves (Held good kept) (spAttach srv conn req tc pkt) := by
  rw [spAttach]
  split
  · exact .done held
  · split
    · rename_i made
      exact .done (held.created made)
    · rename_i ref mid made
      have bound : Held good kept (mid.bindFid req ref) := (held.created made).bindFid
      dsimp only
      split
      · split
        · exact .done bound
        · intro next outcome same
          have attached := spAttachUser_held keeps bound ref none tc pkt
          rw [Option.some.inj same] at attached
          exact attached
      · rename_i a known
        have attached := spAttachUser_held keeps (bound.incref a.ref) ref (some a.ref) tc pkt
        exact .map fun next dropped => attached.decref keeps dropped

theorem spFlush_held (held : Held good kept conn) : Leaves (Held good kept) (spFlush srv conn req tc) := by
  rw [spFlush]
  split
  · exact .done held
  · rintro next outcome ran
    obtain ⟨⟨flushed, mid⟩, first, later⟩ := Option.bind_eq_some_iff.mp ran
    have given : Held good kept mid := by
      split at first
      · exact held.xflush keeps first
      · obtain ⟨-, rfl⟩ := Prod.mk.inj (Option.some.inj first)
        exact held
    cases flushed with
    | true =>
        obtain ⟨rfl, -⟩ := Prod.mk.inj (Option.some.inj later)
        exact given
    | false =>
        obtain ⟨rfl, -⟩ := Prod.mk.inj (Option.some.inj later)
        exact given.congr rfl rfl

omit keeps in
theorem walkNames_held {names : List Spstr} (held : Held good kept conn)
    (allowed : ∀ f, conn.fidAt ref = some f →
      WalkAllowed srv good kept conn.tree f.aux (names.map (·.bytes pkt))) :
    Held good kept (walkNames srv conn ref pkt names).2.1 := by
  induction names generalizing conn with
  | nil => exact held
  | cons name names ih =>
      rw [walkNames]
      split
      · exact held
      · rename_i f there
        obtain ⟨step, onward⟩ := allowed f there f rfl
        have walked : Held good kept (conn.called ref (srv.walk conn.tree f (name.bytes pkt))) := held.called ref step
        dsimp only
        split
        · exact walked
        · rename_i qid found
          refine ih (walked.setFid fun _ => rfl) ?_
          intro g moved
          obtain ⟨mid, before, rfl⟩ := exists_of_fidAt_setFid moved fun _ => rfl
          obtain ⟨old, -, rfl⟩ := exists_of_fidAt_setFid before fun _ => rfl
          exact onward (by rw [found]; rfl)

theorem spWalkOn_held {newfid : Nat} {cloned : Bool} (held : Held good kept conn)
    (allowed : ∀ f, conn.fidAt newfid = some f →
      WalkAllowed srv good kept conn.tree f.aux ((tc.wnames.take tc.nwname).map (·.bytes pkt))) :
    Leaves (Held good kept) (spWalkOn srv conn newfid cloned tc pkt) := by
  rw [spWalkOn]
  have walked : Held good kept
      (walkNames srv (spFidIncref conn newfid) newfid pkt (tc.wnames.take tc.nwname)).2.1 := by
    refine walkNames_held (held.incref newfid) ?_
    intro f there
    obtain ⟨old, before, rfl⟩ := exists_of_fidAt_setFid there fun _ => rfl
    exact allowed old before
  generalize walkNames srv (spFidIncref conn newfid) newfid pkt (tc.wnames.take tc.nwname) = result at walked ⊢
  obtain ⟨count, last, error⟩ := result
  dsimp only at walked ⊢
  split
  · exact .map fun next dropped => walked.decref keeps dropped
  · refine .map fun next dropped => ?_
    cases cloned with
    | true => exact (walked.incref newfid).decref keeps dropped
    | false => exact walked.decref keeps dropped

omit keeps in
theorem withFid_held {fid : Nat} (held : Held good kept conn)
    {body : Spconn Tree User Aux → Spfid User Aux → Option (Spconn Tree User Aux × Outcome)}
    (goes : ∀ f, spFidFind conn fid = some f → Held good kept (conn.bindFid req f.ref) →
      (∀ aux, f.aux = some aux → kept aux) → Leaves (Held good kept) (body (conn.bindFid req f.ref) f)) :
    Leaves (Held good kept) (withFid conn req fid body) := by
  rw [withFid]
  cases found : spFidFind conn fid with
  | none => exact .done held
  | some f => exact goes f found held.bindFid (held.fids f (List.mem_of_find?_eq_some found))

theorem spWalk_held (held : Held good kept conn) (distinct : (conn.fids.map Spfid.ref).Nodup)
    (allowed : ∀ f, spFidFind conn tc.fid = some f → SpWalkAllowed srv good kept conn f tc pkt) :
    Leaves (Held good kept) (spWalk srv conn req tc pkt) := by
  refine withFid_held held fun f found bound stands => ?_
  have allowed := allowed f found
  rw [SpWalkAllowed] at allowed
  split
  · exact .done bound
  · split
    · exact .done bound
    · split
      · rename_i inPlace
        rw [if_pos inPlace] at allowed
        refine spWalkOn_held keeps bound ?_
        intro g there
        obtain ⟨old, before, rfl⟩ := exists_of_fidAt_setFid there fun _ => rfl
        obtain ⟨member, same⟩ : old ∈ conn.fids ∧ old.ref = f.ref := find?_key before
        obtain rfl := List.inj_on_of_nodup_map distinct member (List.mem_of_find?_eq_some found) same
        exact allowed
      · rename_i other
        rw [if_neg other] at allowed
        split
        · exact .map fun next dropped => bound.decref keeps dropped
        · split
          · rename_i made
            exact .done (bound.created made)
          · rename_i newfid mid made
            obtain ⟨rfl, rfl⟩ : newfid = (conn.bindFid req f.ref).nextRef ∧ mid = { conn.bindFid req f.ref with
                fids := { ref := newfid, fid := tc.newfid } :: (conn.bindFid req f.ref).fids
                nextRef := (conn.bindFid req f.ref).nextRef + 1 } := by
              rw [spFidCreate] at made
              split at made
              · obtain ⟨one, two⟩ := Prod.mk.inj made
                obtain rfl := Option.some.inj one
                exact ⟨rfl, two.symm⟩
              · simp at made
            have cloned := (bound.created made).called (conn.bindFid req f.ref).nextRef
              (keeps.clone { ref := (conn.bindFid req f.ref).nextRef, fid := tc.newfid } _ f bound.tree stands)
            dsimp only
            split
            · exact .map fun next dropped => cloned.decref keeps dropped
            · refine spWalkOn_held keeps (cloned.setFid fun _ => rfl) ?_
              intro g there
              obtain ⟨old, before, rfl⟩ := exists_of_fidAt_setFid there fun _ => rfl
              obtain ⟨first, -, rfl⟩ := exists_of_fidAt_setFid before fun _ => rfl
              exact allowed _

theorem spOpen_held (held : Held good kept conn) : Leaves (Held good kept) (spOpen srv conn req tc) := by
  refine withFid_held held fun f _ bound stands => ?_
  split_ifs
  · exact .done bound
  · exact .done bound
  · exact .done ((bound.called f.ref (keeps.open tc.mode _ f bound.tree stands)).setFid fun _ => rfl)

omit keeps in
theorem spCreate_held (held : Held good kept conn)
    (allowed : ∀ f, spFidFind conn tc.fid = some f → (srv.create conn.tree f tc pkt).Held good kept) :
    Leaves (Held good kept) (spCreate srv conn req tc pkt) := by
  refine withFid_held held fun f found bound _ => ?_
  have did := bound.called f.ref (allowed f found)
  split_ifs
  · exact .done bound
  · exact .done bound
  · exact .done bound
  · refine .done ?_
    unfold Spconn.created
    split
    · exact did.setFid fun _ => rfl
    · exact did

theorem spRead_held (held : Held good kept conn) : Leaves (Held good kept) (spRead srv conn req tc) := by
  refine withFid_held held fun f _ bound stands => ?_
  split_ifs
  · exact .done bound
  · exact .done (bound.called f.ref (keeps.authread tc _ f bound.tree stands))
  · exact .done bound
  · exact .done bound
  · exact .done bound
  · exact Leaves.withReq fun r => .done (bound.called f.ref (keeps.read tc r _ f bound.tree stands))

theorem spWrite_held (held : Held good kept conn) : Leaves (Held good kept) (spWrite srv conn req tc pkt) := by
  refine withFid_held held fun f _ bound stands => ?_
  split_ifs
  · exact .done (bound.called f.ref (keeps.authwrite tc pkt _ f bound.tree stands))
  · exact .done bound
  · exact .done bound
  · exact .done bound
  · exact Leaves.withReq fun r => .done (bound.called f.ref (keeps.write tc pkt r _ f bound.tree stands))

theorem spClunk_held (held : Held good kept conn) : Leaves (Held good kept) (spClunk srv conn req tc) := by
  refine withFid_held held fun f _ bound stands => ?_
  have removed := bound.called f.ref (keeps.remove _ f bound.tree stands)
  have clunked := bound.called f.ref (keeps.clunk _ f bound.tree stands)
  split_ifs
  · exact .done (bound.called f.ref (keeps.authclunk _ f bound.tree stands))
  · exact .done bound
  · dsimp only
    split
    · rintro next outcome ⟨⟩
    · split
      · exact .done removed
      · exact .map fun next dropped => removed.decref keeps dropped
  · dsimp only
    split
    · exact .map fun next dropped => clunked.decref keeps dropped
    · exact .done clunked

theorem spRemove_held (held : Held good kept conn) : Leaves (Held good kept) (spRemove srv conn req tc) := by
  refine withFid_held held fun f _ bound stands => ?_
  have removed := bound.called f.ref (keeps.remove _ f bound.tree stands)
  dsimp only
  split
  · exact .map fun next dropped => removed.decref keeps dropped
  · exact .done removed

theorem spStat_held (held : Held good kept conn) : Leaves (Held good kept) (spStat srv conn req tc) :=
  withFid_held held fun f _ bound stands => .done (bound.called f.ref (keeps.stat _ f bound.tree stands))

omit keeps in
theorem spWstat_held (held : Held good kept conn)
    (allowed : ∀ f, spFidFind conn tc.fid = some f → (srv.wstat conn.tree f tc.stat pkt).Held good kept) :
    Leaves (Held good kept) (spWstat srv conn req tc pkt) := by
  refine withFid_held held fun f found bound _ => ?_
  split
  · exact .done bound
  · exact .done (bound.called f.ref (allowed f found))

theorem spFcalls_held {type : Nat} {result : Option (Spconn Tree User Aux × Outcome)} (held : Held good kept conn)
    (distinct : (conn.fids.map Spfid.ref).Nodup)
    (allowed : ∀ f, spFidFind conn tc.fid = some f → HandlerAllowed srv good kept conn tc pkt f type)
    (handled : spFcalls srv conn req tc pkt type = some result) : Leaves (Held good kept) result := by
  unfold spFcalls at handled
  split at handled <;> first | (obtain rfl := Option.some.inj handled) | cases handled
  · exact spVersion_held keeps held
  · exact spAuth_held keeps held
  · exact spAttach_held keeps held
  · exact spFlush_held keeps held
  · exact spWalk_held keeps held distinct allowed
  · exact spOpen_held keeps held
  · exact spCreate_held held allowed
  · exact spRead_held keeps held
  · exact spWrite_held keeps held
  · exact spClunk_held keeps held
  · exact spRemove_held keeps held
  · exact spStat_held keeps held
  · exact spWstat_held held allowed

theorem Held.step {event : ConnEvent} (held : Held good kept conn) (numbered : Numbered conn)
    (allowed : conn.Allowed srv good kept event) (stepped : conn.step srv event = some next) :
    Held good kept next := by
  cases event with
  | message tc pkt =>
      obtain ⟨now, outcome, handled, answered⟩ := spSrvProcessFcall_cases stepped
      have accepted : Held good kept (conn.accept tc) := held.congr rfl rfl
      exact (spFcalls_held keeps accepted numbered.refs allowed handled now outcome rfl).answered keeps answered
  | answer ref rc =>
      simp only [Spconn.step] at stepped
      split at stepped
      · exact Option.some.inj stepped ▸ held
      · split at stepped
        · exact Option.some.inj stepped ▸ held
        · exact held.respond keeps stepped

end Rules

end Xcpu.Libspfs
