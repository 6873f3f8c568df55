import Xcpu.Libspfs.FileLog
import Xcpu.Libspfs.Respond

/-!
Who may read and write the files of a tree: the tree keeps a log of the operations that were
invoked, each with the permissions that the user of its fid had on the file when the fid was
opened or created.
-/

namespace Xcpu.Libspfs.File

open Xcpu.Keyed Xcpu.Transition

/-- Each of the permissions is among those granted. -/
def allows (granted perm : Nat) : Prop := granted &&& perm = perm

/-- The operation was invoked for a user that had the permission for it. -/
def Invocation.Permitted (i : Invocation) : Prop := allows i.granted (if i.write then 2 else 4)

section Server

variable {State User Group : Type} {conn now next : Spconn (Files State User Group) User Spfilefid}
  {exact : Prop}

/-- An open fid that reads, or writes, was opened by a user that may. -/
structure Fit (f : Spfid User Spfilefid) : Prop where
  reads : f.omode ≠ omodeNone → f.omode &&& 3 ≠ Owrite → f.omode &&& 3 ≠ Oexec →
    ∀ aux, f.aux = some aux → allows aux.granted 4
  writes : f.omode ≠ omodeNone → f.omode &&& 3 ≠ Oread → f.omode &&& 3 ≠ Oexec →
    ∀ aux, f.aux = some aux → allows aux.granted 2

structure Safe (exact : Prop) (conn : Spconn (Files State User Group) User Spfilefid) : Prop where
  refs : (conn.fids.map Spfid.ref).Nodup
  numbers : (conn.fids.map Spfid.fid).Nodup
  fresh : ∀ f ∈ conn.fids, f.ref < conn.nextRef
  fits : exact → ∀ f ∈ conn.fids, Fit f
  logged : exact → ∀ i ∈ conn.tree.invoked, i.Permitted

theorem Fit.shut {f : Spfid User Spfilefid} (shut : f.omode = omodeNone) : Fit f :=
  ⟨fun opened => (opened shut).elim, fun opened => (opened shut).elim⟩

theorem Fit.same {f g : Spfid User Spfilefid} (fit : Fit f) (omode : g.omode = f.omode)
    (granted : g.aux.map Spfilefid.granted = f.aux.map Spfilefid.granted) : Fit g := by
  have back (aux : Spfilefid) (held : g.aux = some aux) : ∃ old, f.aux = some old ∧ old.granted = aux.granted := by
    rw [held, Option.map_some, eq_comm, Option.map_eq_some_iff] at granted
    exact granted
  constructor
  · intro opened reads exec aux held
    obtain ⟨old, before, same⟩ := back aux held
    rw [omode] at opened reads exec
    exact same ▸ fit.reads opened reads exec old before
  · intro opened writes exec aux held
    obtain ⟨old, before, same⟩ := back aux held
    rw [omode] at opened writes exec
    exact same ▸ fit.writes opened writes exec old before

theorem Safe.congr (safe : Safe exact conn) (fids : next.fids = conn.fids) (later : conn.nextRef ≤ next.nextRef)
    (invoked : next.tree.invoked = conn.tree.invoked) : Safe exact next where
  refs := fids ▸ safe.refs
  numbers := fids ▸ safe.numbers
  fresh f member := Nat.lt_of_lt_of_le (safe.fresh f (fids ▸ member)) later
  fits exactly f member := safe.fits exactly f (fids ▸ member)
  logged exactly i logged := safe.logged exactly i (invoked ▸ logged)

theorem Safe.setFid (safe : Safe exact conn) {ref : Nat} {change : Spfid User Spfilefid → Spfid User Spfilefid}
    (same_ref : ∀ f, (change f).ref = f.ref) (same_fid : ∀ f, (change f).fid = f.fid)
    (fit : exact → ∀ f ∈ conn.fids, f.ref = ref → Fit f → Fit (change f)) :
    Safe exact (conn.setFid ref change) where
  refs := by
    rw [Spconn.setFid, update_map _ same_ref]
    exact safe.refs
  numbers := by
    rw [Spconn.setFid, update_map _ same_fid]
    exact safe.numbers
  fresh := by
    intro f member
    obtain ⟨old, inside, rfl⟩ := mem_update.mp member
    have below := safe.fresh old inside
    split
    · rw [same_ref]
      exact below
    · exact below
  fits := by
    intro exactly f member
    obtain ⟨old, inside, rfl⟩ := mem_update.mp member
    split
    · rename_i here
      exact fit exactly old inside here (safe.fits exactly old inside)
    · exact safe.fits exactly old inside
  logged := safe.logged

theorem Safe.relabel (safe : Safe exact conn) {ref : Nat} {change : Spfid User Spfilefid → Spfid User Spfilefid}
    (same : ∀ f, (change f).ref = f.ref ∧ (change f).fid = f.fid ∧ (change f).omode = f.omode ∧
      (change f).aux = f.aux) : Safe exact (conn.setFid ref change) :=
  safe.setFid (fun f => (same f).1) (fun f => (same f).2.1) fun _ f _ _ fit =>
    fit.same (same f).2.2.1 (congrArg _ (same f).2.2.2)

theorem Safe.erased (safe : Safe exact conn) {fid : Nat} {tree : Files State User Group}
    (invoked : tree.invoked = conn.tree.invoked) :
    Safe exact { conn with fids := conn.fids.eraseP (·.fid == fid), tree } where
  refs := (List.eraseP_sublist.map _).nodup safe.refs
  numbers := (List.eraseP_sublist.map _).nodup safe.numbers
  fresh f member := safe.fresh f (List.mem_of_mem_eraseP member)
  fits exactly f member := safe.fits exactly f (List.mem_of_mem_eraseP member)
  logged exactly i logged := safe.logged exactly i (invoked ▸ logged)

theorem Safe.created (safe : Safe exact conn) {fid : Nat} {ref : Option Nat}
    (created : spFidCreate conn fid = (ref, next)) : Safe exact next := by
  rw [spFidCreate] at created
  split at created
  · rename_i free
    obtain ⟨-, rfl⟩ := Prod.mk.inj created
    refine ⟨?_, ?_, ?_, ?_, safe.logged⟩
    · rw [List.map_cons, List.nodup_cons]
      refine ⟨?_, safe.refs⟩
      intro member
      obtain ⟨f, inside, same : f.ref = conn.nextRef⟩ := List.mem_map.mp member
      have below := safe.fresh f inside
      omega
    · rw [List.map_cons, List.nodup_cons]
      exact ⟨find?_none_iff.mp free.2, safe.numbers⟩
    · intro f member
      rcases List.mem_cons.mp member with rfl | inside
      · exact Nat.lt_succ_self _
      · exact Nat.lt_succ_of_lt (safe.fresh f inside)
    · intro exactly f member
      rcases List.mem_cons.mp member with rfl | inside
      · exact .shut rfl
      · exact safe.fits exactly f inside
  · obtain ⟨-, rfl⟩ := Prod.mk.inj created
    exact safe

theorem Safe.incref (safe : Safe exact conn) (ref : Nat) : Safe exact (spFidIncref conn ref) :=
  safe.relabel fun _ => ⟨rfl, rfl, rfl, rfl⟩

theorem Safe.bindFid (safe : Safe exact conn) (req ref : Nat) : Safe exact (conn.bindFid req ref) :=
  (safe.incref ref).congr rfl (Nat.le_refl _) rfl

/-- The fid at this address has this mode and aux. -/
def At (conn : Spconn (Files State User Group) User Spfilefid) (f : Spfid User Spfilefid) : Prop :=
  ∀ g ∈ conn.fids, g.ref = f.ref → g.omode = f.omode ∧ g.aux = f.aux

theorem Safe.at_found (safe : Safe exact conn) {f : Spfid User Spfilefid} (member : f ∈ conn.fids) : At conn f := by
  intro g inside same
  rw [List.inj_on_of_nodup_map safe.refs inside member same]
  exact ⟨rfl, rfl⟩

theorem At.setFid {f : Spfid User Spfilefid} (there : At conn f) {ref : Nat}
    {change : Spfid User Spfilefid → Spfid User Spfilefid} (same_ref : ∀ g, (change g).ref = g.ref)
    (same : ∀ g, (change g).omode = g.omode ∧ (change g).aux = g.aux) : At (conn.setFid ref change) f := by
  intro g member here
  obtain ⟨old, inside, rfl⟩ := mem_update.mp member
  split at here
  · rename_i moved
    rw [if_pos moved]
    obtain ⟨omode, aux⟩ := same old
    obtain ⟨omode', aux'⟩ := there old inside ((same_ref old).symm.trans here)
    exact ⟨omode.trans omode', aux.trans aux'⟩
  · rename_i still
    rw [if_neg still]
    exact there old inside here

theorem At.bindFid {f : Spfid User Spfilefid} (there : At conn f) (req ref : Nat) : At (conn.bindFid req ref) f :=
  there.setFid (fun _ => rfl) fun _ => ⟨rfl, rfl⟩

def Shut (conn : Spconn (Files State User Group) User Spfilefid) (ref : Nat) : Prop :=
  ∀ g ∈ conn.fids, g.ref = ref → g.omode = omodeNone

theorem At.shut {f : Spfid User Spfilefid} (there : At conn f) (shut : f.omode = omodeNone) : Shut conn f.ref :=
  fun g member same => (there g member same).1.trans shut

theorem Shut.setFid {ref other : Nat} (shut : Shut conn ref) {change : Spfid User Spfilefid → Spfid User Spfilefid}
    (same_ref : ∀ g, (change g).ref = g.ref) (same : ∀ g, (change g).omode = g.omode) :
    Shut (conn.setFid other change) ref := by
  intro g member here
  obtain ⟨old, inside, rfl⟩ := mem_update.mp member
  split at here
  · rename_i moved
    rw [if_pos moved, same]
    exact shut old inside ((same_ref old).symm.trans here)
  · rename_i still
    rw [if_neg still]
    exact shut old inside here

theorem Shut.called {ref other : Nat} {Value : Type} {back : Back (Files State User Group) Spfilefid Value}
    (shut : Shut conn ref) : Shut (conn.called other back) ref :=
  Shut.setFid shut (fun _ => rfl) fun _ => rfl

theorem called_aux {Value : Type} {ref : Nat} {back : Back (Files State User Group) Spfilefid Value}
    {f : Spfid User Spfilefid} (member : f ∈ (conn.called ref back).fids) (here : f.ref = ref) :
    f.aux = back.aux := by
  obtain ⟨old, inside, rfl⟩ := mem_update.mp member
  split
  · rfl
  · rename_i still
    rw [if_neg still] at here
    exact (still here).elim

theorem Safe.called {Value : Type} {f : Spfid User Spfilefid} {back : Back (Files State User Group) Spfilefid Value}
    {fid : Nat} {write : Option Bool} (safe : Safe exact conn) (there : At conn f)
    (logs : Logs conn.tree f.aux fid write back)
    (permitted : exact → ∀ kind, write = some kind → ∀ aux, f.aux = some aux →
      allows aux.granted (if kind then 2 else 4)) : Safe exact (conn.called f.ref back) := by
  have logged : Safe exact { conn with tree := back.tree } := by
    refine ⟨safe.refs, safe.numbers, safe.fresh, safe.fits, ?_⟩
    intro exactly i member
    obtain same | ⟨aux, file, kind, held, kinds, more⟩ := logs.invoked
    · exact safe.logged exactly i (same ▸ member)
    · dsimp only at member
      rw [more] at member
      rcases List.mem_append.mp member with before | new
      · exact safe.logged exactly i before
      · obtain rfl := List.mem_singleton.mp new
        exact permitted exactly kind kinds aux held
  refine logged.setFid (fun _ => rfl) (fun _ => rfl) fun _ g member here fit => fit.same rfl ?_
  rw [(there g member here).2]
  exact logs.granted

theorem Safe.called_shut {Value : Type} {ref : Nat} {back : Back (Files State User Group) Spfilefid Value}
    (safe : Safe exact conn) (shut : Shut conn ref) (invoked : back.tree.invoked = conn.tree.invoked) :
    Safe exact (conn.called ref back) := by
  have logged : Safe exact { conn with tree := back.tree } := safe.congr rfl (Nat.le_refl _) invoked
  exact logged.setFid (fun _ => rfl) (fun _ => rfl) fun _ g member here _ => .shut (shut g member here)

end Server

/-- Messages that open and use files with all the permissions they take: an open that gets to the
file is by a user that has each permission of the mode on a file that is there, a create makes a
file on which its user has each of them, and no fid that was opened for execution is read or
written. -/
def Allowed {State User Group : Type} [DecidableEq User] (ops : Fileops State User Group)
    (conn : Spconn (Files State User Group) User Spfilefid) : ConnEvent → Prop
  | .answer _ _ => True
  | .message tc pkt =>
      match (tc.type.number - 100) / 2 with
      | 6 => ∀ f, spFidFind conn tc.fid = some f → f.omode = omodeNone →
          ¬ (f.type &&& qtdir ≠ 0 ∧ tc.mode ≠ Oread) →
          ∃ aux file, f.aux = some aux ∧ conn.tree.file aux.file = some file ∧ file.live ∧
            allows (granted ops file f.user) (mode2perm tc.mode)
      | 7 => ∀ f aux dir fmode, spFidFind conn tc.fid = some f → f.omode = omodeNone → f.aux = some aux →
          conn.tree.file aux.file = some dir →
          creates ops conn.tree dir f.user (tc.name.bytes pkt) tc.perm tc.mode →
          makes ops conn.tree dir (tc.name.bytes pkt) tc.perm fmode →
            allows (granted ops { dir with mode := fmode, uid := f.user } f.user) (mode2perm tc.mode)
      | 8 | 9 => ∀ f, spFidFind conn tc.fid = some f → f.omode = omodeNone ∨ f.omode &&& 3 ≠ Oexec
      | _ => True

theorem allows_trans {granted perm part : Nat} (all : allows granted perm) (within : perm &&& part = part) :
    allows granted part := by
  rw [allows, ← within, ← Nat.and_assoc, all]

theorem mode2perm_allows {granted mode : Nat} (all : allows granted (mode2perm mode)) :
    (mode &&& 3 ≠ Owrite → mode &&& 3 ≠ Oexec → allows granted 4) ∧
      (mode &&& 3 ≠ Oread → mode &&& 3 ≠ Oexec → allows granted 2) := by
  have below : mode &&& 3 ≤ 3 := Nat.and_le_right
  have kinds : mode &&& 3 = Oread ∨ mode &&& 3 = Owrite ∨ mode &&& 3 = Ordwr ∨ mode &&& 3 = Oexec := by
    simp only [Oread, Owrite, Ordwr, Oexec]
    omega
  have part (base perm trunc : Nat) (within : base &&& perm = perm) : (base ||| trunc) &&& perm = perm := by
    rw [Nat.and_or_distrib_right, within]
    apply Nat.eq_of_testBit_eq
    intro i
    rw [Nat.testBit_or, Nat.testBit_and]
    cases perm.testBit i <;> simp
  constructor
  · intro reads exec
    apply allows_trans all
    rw [mode2perm]
    apply part
    rcases kinds with kind | kind | kind | kind
    · rw [if_pos kind]
      rfl
    · exact (reads kind).elim
    · rw [kind]
      rfl
    · exact (exec kind).elim
  · intro writes exec
    apply allows_trans all
    rw [mode2perm]
    apply part
    rcases kinds with kind | kind | kind | kind
    · exact (writes kind).elim
    · rw [kind]
      rfl
    · rw [kind]
      rfl
    · exact (exec kind).elim

section Handlers

variable {State User Group : Type} [DecidableEq User] {ops : Fileops State User Group} {msize : Nat}
  {finduser : State → Spfcall → Packet → Option User} {flush : State → Spreq → State × Bool}
  {srv : Spsrv (Files State User Group) User Spfilefid} {conn now next : Spconn (Files State User Group) User Spfilefid}
  {exact : Prop} {req : Nat} {tc : Spfcall} {pkt : Packet}
  (is : srv = spfileInitSrv ops msize finduser flush)

/-- A handler leaves a safe connection. -/
def Leaves (exact : Prop) (result : Option (Spconn (Files State User Group) User Spfilefid × Outcome)) : Prop :=
  ∀ next outcome, result = some (next, outcome) → Safe exact next

omit [DecidableEq User] in
theorem Leaves.done {outcome : Outcome} (safe : Safe exact now) : Leaves exact (some (now, outcome)) := by
  rintro next outcome ⟨⟩
  exact safe

omit [DecidableEq User] in
theorem Leaves.map {result : Option (Spconn (Files State User Group) User Spfilefid)} {outcome : Outcome}
    (safe : ∀ next, result = some next → Safe exact next) : Leaves exact (result.map (·, outcome)) := by
  intro next other same
  obtain ⟨conn, ran, here⟩ := Option.map_eq_some_iff.mp same
  obtain ⟨rfl, -⟩ := Prod.mk.inj here
  exact safe conn ran

omit [DecidableEq User] in
theorem withFid_leaves {fid : Nat} (safe : Safe exact conn)
    {body : Spconn (Files State User Group) User Spfilefid → Spfid User Spfilefid →
      Option (Spconn (Files State User Group) User Spfilefid × Outcome)}
    (goes : ∀ f, spFidFind conn fid = some f → f ∈ conn.fids → Safe exact (conn.bindFid req f.ref) →
      At (conn.bindFid req f.ref) f → Leaves exact (body (conn.bindFid req f.ref) f)) :
    Leaves exact (withFid conn req fid body) := by
  rw [withFid]
  cases found : spFidFind conn fid with
  | none => exact .done safe
  | some f =>
      have member := (find?_key found).1
      exact goes f found member (safe.bindFid req f.ref) ((safe.at_found member).bindFid req f.ref)

include is

theorem Safe.decref {ref : Nat} (safe : Safe exact conn) (dropped : spFidDecref srv conn ref = some next) :
    Safe exact next := by
  rw [spFidDecref] at dropped
  split at dropped
  · cases dropped
  · split at dropped
    · obtain rfl := Option.some.inj dropped
      rw [spFidDestroy]
      split
      · exact safe.erased (by rw [is]; exact spfileFiddestroy_invoked ops conn.tree _)
      · exact safe
    · obtain rfl := Option.some.inj dropped
      exact safe.relabel fun _ => ⟨rfl, rfl, rfl, rfl⟩

theorem Safe.respond {ref : Nat} {rc : Option Rcall} (safe : Safe exact conn)
    (responded : spRespond srv conn ref rc = some next) : Safe exact next := by
  obtain ⟨r, chain, noted, dropped, -, -, note, drop, rfl⟩ := spRespond_cases responded
  have before : Safe exact { conn with workreqs := conn.workreqs.filter (·.ref ∉ ref :: chain) } :=
    safe.congr rfl (Nat.le_refl _) rfl
  have marked : Safe exact noted := by
    rcases noteDiroffset_cases note with rfl | ⟨at_, offset, rfl⟩
    · exact before
    · exact before.relabel fun _ => ⟨rfl, rfl, rfl, rfl⟩
  have gone : Safe exact dropped := by
    cases bound : r.fid with
    | none =>
        rw [bound] at drop
        exact Option.some.inj drop ▸ marked
    | some fid =>
        rw [bound] at drop
        exact marked.decref is drop
  exact gone.congr rfl (Nat.le_refl _) rfl

theorem Safe.answered {ref : Nat} {outcome : Outcome} (safe : Safe exact conn)
    (answered : answerOutcome srv conn ref outcome = some next) : Safe exact next := by
  rcases answerOutcome_cases answered with ⟨-, -, rfl⟩ | ⟨rc, responded, -⟩
  · exact safe
  · exact safe.respond is responded

theorem xflush_safe {creq : Spreq} {flushed : Bool} (safe : Safe exact conn)
    (ran : xflush srv conn creq = some (flushed, next)) : Safe exact next := by
  subst is
  rw [xflush] at ran
  split at ran
  · obtain ⟨-, rfl⟩ := Prod.mk.inj (Option.some.inj ran)
    exact safe
  · have given : Safe exact { conn with tree := (spfileInitSrv ops msize finduser flush).flush conn.tree creq |>.1 } :=
      safe.congr rfl (Nat.le_refl _) rfl
    dsimp only at ran
    split at ran
    · obtain ⟨answered, responded, same⟩ := Option.map_eq_some_iff.mp ran
      obtain ⟨-, rfl⟩ := Prod.mk.inj same
      exact given.respond rfl responded
    · obtain ⟨-, rfl⟩ := Prod.mk.inj (Option.some.inj ran)
      exact given

theorem flushWorkreqs_safe {steps : Nat} (safe : Safe exact conn)
    (ran : flushWorkreqs srv conn steps = some next) : Safe exact next := by
  induction steps generalizing conn with
  | zero => cases ran
  | succ steps ih =>
      rw [flushWorkreqs] at ran
      split at ran
      · exact Option.some.inj ran ▸ safe
      · obtain ⟨⟨flushed, mid⟩, first, later⟩ := Option.bind_eq_some_iff.mp ran
        have kept := xflush_safe is safe first
        cases flushed with
        | true => exact ih kept later
        | false => cases later

theorem spConnReset_safe {msize' : Nat} {dotu : Bool} (safe : Safe exact conn)
    (ran : spConnReset srv conn msize' dotu = some next) : Safe exact next := by
  obtain ⟨mid, flushed, rfl⟩ := Option.map_eq_some_iff.mp ran
  have kept := flushWorkreqs_safe is safe flushed
  have invoked (fids : List (Spfid User Spfilefid)) (tree : Files State User Group) :
      (fids.foldl srv.fiddestroy tree).invoked = tree.invoked := by
    induction fids generalizing tree with
    | nil => rfl
    | cons f rest ih =>
        rw [List.foldl_cons, ih, is]
        exact spfileFiddestroy_invoked ops tree f.aux
  refine ⟨List.nodup_nil, List.nodup_nil, ?_, ?_, ?_⟩
  · intro f member
    cases member
  · intro _ f member
    cases member
  · intro exactly i member
    dsimp only at member
    rw [invoked] at member
    exact kept.logged exactly i member

theorem spVersion_leaves (safe : Safe exact conn) : Leaves exact (spVersion srv conn req tc pkt) := by
  rw [spVersion]
  split
  · exact .done safe
  · rw [spDefaultVersion]
    split
    · rintro next outcome ⟨⟩
    · split
      · rintro next outcome ⟨⟩
      · exact .map fun next ran => spConnReset_safe is safe ran

theorem spAuth_leaves (safe : Safe exact conn) : Leaves exact (spAuth srv conn req tc pkt) := by
  rw [spAuth]
  split
  · exact .map fun next dropped => safe.decref is dropped
  · split
    · rename_i made
      exact .done (safe.created made)
    · rename_i afid mid made
      have kept := (safe.created made).incref afid
      have user : Safe exact (spAuthUser srv (spFidIncref mid afid) afid tc pkt).1 := by
        rw [spAuthUser]
        split
        · exact kept
        · rename_i user found
          have typed : Safe exact ((spFidIncref mid afid).setFid afid fun f =>
              { f with user := some user, type := qtauth }) := kept.relabel fun _ => ⟨rfl, rfl, rfl, rfl⟩
          dsimp only
          split
          · exact typed
          · rw [is]
            exact typed
      generalize spAuthUser srv (spFidIncref mid afid) afid tc pkt = result at user ⊢
      obtain ⟨last, outcome⟩ := result
      dsimp only
      split
      · exact .map fun next dropped => user.decref is dropped
      · exact .done user

omit [DecidableEq User] is in
theorem Safe.new_shut (safe : Safe exact conn) {fid ref : Nat} (created : spFidCreate conn fid = (some ref, next)) :
    Shut next ref := by
  rw [spFidCreate] at created
  split at created
  · obtain ⟨same, rfl⟩ := Prod.mk.inj created
    obtain rfl := Option.some.inj same
    intro g member here
    rcases List.mem_cons.mp member with rfl | inside
    · rfl
    · have below := safe.fresh g inside
      omega
  · cases created

theorem spAttachUser_safe {ref : Nat} {afid : Option Nat} (safe : Safe exact conn) (shut : Shut conn ref) :
    Safe exact (spAttachUser srv conn ref afid tc pkt).1 := by
  subst is
  rw [spAttachUser]
  split
  · exact safe
  · rename_i user found
    have known : Safe exact (conn.setFid ref fun f => { f with user := some user }) :=
      safe.relabel fun _ => ⟨rfl, rfl, rfl, rfl⟩
    dsimp only
    split
    · exact known
    · rename_i f there
      have attached := known.called_shut (shut.setFid (fun _ => rfl) fun _ => rfl)
        (spfileAttach_invoked ops conn.tree f.user)
      simp only [spfileInitSrv, Bool.false_eq_true, false_and, if_false]
      split
      · exact attached.incref ref
      · exact attached

theorem spAttach_leaves (safe : Safe exact conn) : Leaves exact (spAttach srv conn req tc pkt) := by
  rw [spAttach]
  split
  · exact .done safe
  · split
    · rename_i made
      exact .done (safe.created made)
    · rename_i ref mid made
      have bound := (safe.created made).bindFid req ref
      have shut : Shut (mid.bindFid req ref) ref := (safe.new_shut made).setFid (fun _ => rfl) fun _ => rfl
      dsimp only
      split
      · split
        · exact .done bound
        · intro next outcome same
          have kept : Safe exact (spAttachUser srv (mid.bindFid req ref) ref none tc pkt).1 :=
            spAttachUser_safe is bound shut
          rw [Option.some.inj same] at kept
          exact kept
      · rename_i a known
        have kept : Safe exact (spAttachUser srv (spFidIncref (mid.bindFid req ref) a.ref) ref (some a.ref) tc pkt).1 :=
          spAttachUser_safe is (bound.incref a.ref) (shut.setFid (fun _ => rfl) fun _ => rfl)
        exact .map fun next dropped => kept.decref is dropped

theorem spFlush_leaves (safe : Safe exact conn) : Leaves exact (spFlush srv conn req tc) := by
  rw [spFlush]
  split
  · exact .done safe
  · rename_i creq found
    rintro next outcome ran
    obtain ⟨⟨flushed, mid⟩, first, later⟩ := Option.bind_eq_some_iff.mp ran
    have kept : Safe exact mid := by
      split at first
      · exact xflush_safe is safe first
      · obtain ⟨-, rfl⟩ := Prod.mk.inj (Option.some.inj first)
        exact safe
    cases flushed with
    | true =>
        obtain ⟨rfl, -⟩ := Prod.mk.inj (Option.some.inj later)
        exact kept
    | false =>
        obtain ⟨rfl, -⟩ := Prod.mk.inj (Option.some.inj later)
        exact kept.congr rfl (Nat.le_refl _) rfl

theorem walkNames_safe {ref : Nat} {names : List Spstr} (safe : Safe exact conn) (shut : Shut conn ref) :
    Safe exact (walkNames srv conn ref pkt names).2.1 := by
  induction names generalizing conn with
  | nil => exact safe
  | cons name names ih =>
      rw [walkNames]
      split
      · exact safe
      · rename_i f there
        have walked : Safe exact (conn.called ref (srv.walk conn.tree f (name.bytes pkt))) := by
          refine safe.called_shut shut ?_
          rw [is]
          exact (spfileWalk_logs ops conn.tree f.user f.aux f.fid (name.bytes pkt)).silent
        have closed : Shut (conn.called ref (srv.walk conn.tree f (name.bytes pkt))) ref := shut.called
        dsimp only
        split
        · exact walked
        · rename_i qid found
          exact ih (walked.relabel fun _ => ⟨rfl, rfl, rfl, rfl⟩) (closed.setFid (fun _ => rfl) fun _ => rfl)

theorem spWalkOn_leaves {newfid : Nat} {cloned : Bool} (safe : Safe exact conn) (shut : Shut conn newfid) :
    Leaves exact (spWalkOn srv conn newfid cloned tc pkt) := by
  rw [spWalkOn]
  have walked : Safe exact
      (walkNames srv (spFidIncref conn newfid) newfid pkt (tc.wnames.take tc.nwname)).2.1 :=
    walkNames_safe is (safe.incref newfid) (shut.setFid (fun _ => rfl) fun _ => rfl)
  generalize walkNames srv (spFidIncref conn newfid) newfid pkt (tc.wnames.take tc.nwname) = result at walked ⊢
  obtain ⟨count, last, error⟩ := result
  dsimp only at walked ⊢
  split
  · exact .map fun next dropped => walked.decref is dropped
  · refine .map fun next dropped => ?_
    cases cloned with
    | true => exact (walked.incref newfid).decref is dropped
    | false => exact walked.decref is dropped

theorem spWalk_leaves (safe : Safe exact conn) : Leaves exact (spWalk srv conn req tc pkt) := by
  refine withFid_leaves safe fun f found member bound there => ?_
  split_ifs with opened many same
  · exact .done bound
  · exact .done bound
  · exact spWalkOn_leaves is bound (there.shut (by simpa using opened))
  · split
    · exact .map fun next dropped => bound.decref is dropped
    · split
      · rename_i made
        exact .done (bound.created made)
      · rename_i newfid mid made
        have kept := bound.created made
        have shut := bound.new_shut made
        have cloned : Safe exact (mid.called newfid (srv.clone mid.tree f { ref := newfid, fid := tc.newfid })) := by
          refine kept.called_shut shut ?_
          rw [is]
          exact spfileClone_invoked mid.tree f.aux
        have closed : Shut (mid.called newfid (srv.clone mid.tree f { ref := newfid, fid := tc.newfid })) newfid :=
          shut.called
        dsimp only
        split
        · exact .map fun next dropped => cloned.decref is dropped
        · exact spWalkOn_leaves is (cloned.relabel fun _ => ⟨rfl, rfl, rfl, rfl⟩)
            (closed.setFid (fun _ => rfl) fun _ => rfl)

omit [DecidableEq User] is in
theorem calling_leaves {f : Spfid User Spfilefid} {back : Back (Files State User Group) Spfilefid Rcall}
    {fid : Nat} {write : Option Bool} (safe : Safe exact conn) (there : At conn f)
    (logs : Logs conn.tree f.aux fid write back)
    (permitted : exact → ∀ kind, write = some kind → ∀ aux, f.aux = some aux →
      allows aux.granted (if kind then 2 else 4)) : Leaves exact (calling conn f.ref back) :=
  .done (safe.called there logs permitted)

omit is [DecidableEq User] in
theorem silent_permitted {aux : Option Spfilefid} :
    exact → ∀ kind, (none : Option Bool) = some kind → ∀ f, aux = some f →
      allows f.granted (if kind then 2 else 4) := by
  rintro _ kind ⟨⟩

theorem spStat_leaves (safe : Safe exact conn) : Leaves exact (spStat srv conn req tc) := by
  refine withFid_leaves safe fun f found member bound there => ?_
  rw [is]
  exact calling_leaves bound there (spfileStat_logs _ f.aux f.fid) silent_permitted

theorem spWstat_leaves (safe : Safe exact conn) : Leaves exact (spWstat srv conn req tc pkt) := by
  refine withFid_leaves safe fun f found member bound there => ?_
  split
  · exact .done bound
  · rw [is]
    exact calling_leaves bound there (spfileWstat_logs ops _ f.user f.aux f.fid tc.stat) silent_permitted

theorem spRemove_leaves (safe : Safe exact conn) : Leaves exact (spRemove srv conn req tc) := by
  refine withFid_leaves safe fun f found member bound there => ?_
  have removed : Safe exact ((conn.bindFid req f.ref).called f.ref (srv.remove (conn.bindFid req f.ref).tree f)) := by
    rw [is]
    exact bound.called there (spfileRemove_logs ops _ f.user f.aux f.fid) silent_permitted
  dsimp only
  split
  · exact .map fun next dropped => removed.decref is dropped
  · exact .done removed

theorem spClunk_leaves (safe : Safe exact conn) : Leaves exact (spClunk srv conn req tc) := by
  refine withFid_leaves safe fun f found member bound there => ?_
  have removed : Safe exact ((conn.bindFid req f.ref).called f.ref (srv.remove (conn.bindFid req f.ref).tree f)) := by
    rw [is]
    exact bound.called there (spfileRemove_logs ops _ f.user f.aux f.fid) silent_permitted
  have clunked : Safe exact ((conn.bindFid req f.ref).called f.ref (srv.clunk (conn.bindFid req f.ref).tree f)) := by
    rw [is]
    have silent : Logs conn.tree f.aux f.fid none (⟨conn.tree, f.aux, some { type := .rclunk }, false⟩ :
        Back (Files State User Group) Spfilefid Rcall) := ⟨rfl, .inl rfl⟩
    exact bound.called there silent silent_permitted
  split
  · rw [if_neg (by rw [is]; simp [spfileInitSrv])]
    exact .done bound
  · split
    · dsimp only
      split
      · rintro next outcome ⟨⟩
      · split
        · exact .done removed
        · exact .map fun next dropped => removed.decref is dropped
    · dsimp only
      split
      · exact .map fun next dropped => clunked.decref is dropped
      · exact .done clunked

theorem spRead_leaves (safe : Safe exact conn)
    (allowed : exact → ∀ f, spFidFind conn tc.fid = some f → f.omode = omodeNone ∨ f.omode &&& 3 ≠ Oexec) :
    Leaves exact (spRead srv conn req tc) := by
  refine withFid_leaves safe fun f found member bound there => ?_
  split_ifs with large auth asks shut offset
  · exact .done bound
  · rw [is] at asks
    cases asks
  · exact .done bound
  · exact .done bound
  · exact .done bound
  · intro next outcome ran
    obtain ⟨r, waiting, called⟩ := Option.bind_eq_some_iff.mp ran
    rw [is] at called
    refine calling_leaves bound there (spfileRead_logs ops _ f.aux f.fid tc.offset tc.count) ?_ next outcome called
    rintro exactly kind ⟨⟩ aux held
    obtain ⟨opened, reads⟩ := not_or.mp shut
    exact (safe.fits exactly f member).reads opened reads ((allowed exactly f found).resolve_left opened) aux held

theorem spWrite_leaves (safe : Safe exact conn)
    (allowed : exact → ∀ f, spFidFind conn tc.fid = some f → f.omode = omodeNone ∨ f.omode &&& 3 ≠ Oexec) :
    Leaves exact (spWrite srv conn req tc pkt) := by
  refine withFid_leaves safe fun f found member bound there => ?_
  split_ifs with auth asks shut large
  · rw [is] at asks
    cases asks
  · exact .done bound
  · exact .done bound
  · exact .done bound
  · intro next outcome ran
    obtain ⟨r, waiting, called⟩ := Option.bind_eq_some_iff.mp ran
    rw [is] at called
    refine calling_leaves bound there (spfileWrite_logs ops _ f.aux f.fid tc.offset tc.count) ?_ next outcome called
    rintro exactly kind ⟨⟩ aux held
    obtain ⟨opened, others⟩ := not_or.mp shut
    exact (safe.fits exactly f member).writes opened (not_or.mp others).2
      ((allowed exactly f found).resolve_left opened) aux held

omit [DecidableEq User] is in
theorem Safe.opened {Value : Type} {ref mode : Nat} {back : Back (Files State User Group) Spfilefid Value}
    {change : Spfid User Spfilefid → Spfid User Spfilefid} (called : Safe exact (conn.called ref back))
    (same : ∀ f, (change f).ref = f.ref ∧ (change f).fid = f.fid ∧ (change f).omode = mode ∧
      (change f).aux = f.aux)
    (grants : exact → ∀ new, back.aux = some new → allows new.granted (mode2perm mode)) :
    Safe exact ((conn.called ref back).setFid ref change) := by
  refine called.setFid (fun f => (same f).1) (fun f => (same f).2.1) fun exactly g member here _ => ?_
  have aux (new : Spfilefid) (held : (change g).aux = some new) : allows new.granted (mode2perm mode) :=
    grants exactly new (by rw [← called_aux member here, ← (same g).2.2.2, held])
  constructor
  · intro _ reads exec new held
    rw [(same g).2.2.1] at reads exec
    exact (mode2perm_allows (aux new held)).1 reads exec
  · intro _ writes exec new held
    rw [(same g).2.2.1] at writes exec
    exact (mode2perm_allows (aux new held)).2 writes exec

theorem spOpen_leaves (safe : Safe exact conn)
    (allowed : exact → ∀ f, spFidFind conn tc.fid = some f → f.omode = omodeNone →
      ¬ (f.type &&& qtdir ≠ 0 ∧ tc.mode ≠ Oread) → ∃ aux file, f.aux = some aux ∧
        conn.tree.file aux.file = some file ∧ file.live ∧ allows (granted ops file f.user) (mode2perm tc.mode)) :
    Leaves exact (spOpen srv conn req tc) := by
  refine withFid_leaves safe fun f found member bound there => ?_
  split_ifs with opened directory
  · exact .done bound
  · exact .done bound
  · have shut : f.omode = omodeNone := by simpa using opened
    rw [is]
    refine .done (Safe.opened (bound.called_shut (there.shut shut) (spfileOpen_invoked ops _ f.user f.aux tc.mode))
      (fun _ => ⟨rfl, rfl, rfl, rfl⟩) ?_)
    intro exactly new held
    obtain ⟨aux, file, same, inside, live, all⟩ := allowed exactly f found shut directory
    simp only [spfileInitSrv, same] at held
    rw [(spfileOpen_grants ops conn.tree f.user tc.mode inside live).2 new held]
    exact all

theorem spCreate_leaves (safe : Safe exact conn)
    (allowed : exact → ∀ f aux dir fmode, spFidFind conn tc.fid = some f → f.omode = omodeNone →
      f.aux = some aux → conn.tree.file aux.file = some dir → creates ops conn.tree dir f.user (tc.name.bytes pkt) tc.perm tc.mode →
      makes ops conn.tree dir (tc.name.bytes pkt) tc.perm fmode →
        allows (granted ops { dir with mode := fmode, uid := f.user } f.user) (mode2perm tc.mode)) :
    Leaves exact (spCreate srv conn req tc pkt) := by
  refine withFid_leaves safe fun f found member bound there => ?_
  split_ifs with opened directory special
  · exact .done bound
  · exact .done bound
  · exact .done bound
  · have shut : f.omode = omodeNone := by simpa using opened
    rw [is]
    obtain ⟨invoked, grants⟩ := spfileCreate_grants ops conn.tree f.user f.aux (tc.name.bytes pkt) tc.perm tc.mode
    have called := bound.called_shut (there.shut shut) invoked
    refine .done ?_
    unfold Spconn.created
    split
    · rename_i qidType count answer
      refine called.opened (fun _ => ⟨rfl, rfl, rfl, rfl⟩) ?_
      intro exactly new held
      obtain ⟨aux, dir, fmode, same, inside, goes, made, granted⟩ := grants (by
        intro refused
        have clash : none = some _ := refused.symm.trans answer
        cases clash)
      rw [granted new held]
      exact allowed exactly f aux dir fmode found shut same inside goes made
    · exact called

theorem spFcalls_leaves (safe : Safe exact conn) (allowed : exact → Allowed ops conn (.message tc pkt))
    {handled : Option (Spconn (Files State User Group) User Spfilefid × Outcome)}
    (found : spFcalls srv (conn.accept tc) conn.nextRef tc pkt ((tc.type.number - 100) / 2) = some handled) :
    Leaves exact handled := by
  have accepted : Safe exact (conn.accept tc) := safe.congr rfl (Nat.le_succ _) rfl
  simp only [Allowed] at allowed
  generalize (tc.type.number - 100) / 2 = number at allowed found
  unfold spFcalls at found
  split at found
  · exact Option.some.inj found ▸ spVersion_leaves is accepted
  · exact Option.some.inj found ▸ spAuth_leaves is accepted
  · exact Option.some.inj found ▸ spAttach_leaves is accepted
  · exact Option.some.inj found ▸ spFlush_leaves is accepted
  · exact Option.some.inj found ▸ spWalk_leaves is accepted
  · exact Option.some.inj found ▸ spOpen_leaves is accepted allowed
  · exact Option.some.inj found ▸ spCreate_leaves is accepted allowed
  · exact Option.some.inj found ▸ spRead_leaves is accepted allowed
  · exact Option.some.inj found ▸ spWrite_leaves is accepted allowed
  · exact Option.some.inj found ▸ spClunk_leaves is accepted
  · exact Option.some.inj found ▸ spRemove_leaves is accepted
  · exact Option.some.inj found ▸ spStat_leaves is accepted
  · exact Option.some.inj found ▸ spWstat_leaves is accepted
  · cases found

theorem Safe.step {event : ConnEvent} (safe : Safe exact conn) (allowed : exact → Allowed ops conn event)
    (stepped : conn.step srv event = some next) : Safe exact next := by
  cases event with
  | message tc pkt =>
      obtain ⟨now, outcome, found, answered⟩ := spSrvProcessFcall_cases stepped
      exact (spFcalls_leaves is safe allowed found now outcome rfl).answered is answered
  | answer ref rc =>
      rw [Spconn.step] at stepped
      split at stepped
      · exact Option.some.inj stepped ▸ safe
      · split at stepped
        · exact Option.some.inj stepped ▸ safe
        · exact safe.respond is stepped

end Handlers

section Runs

variable {State User Group : Type} [DecidableEq User]

omit [DecidableEq User] in
theorem safe_start (exact : Prop) (srv : Spsrv (Files State User Group) User Spfilefid) {tree : Files State User Group}
    (start : exact → tree.invoked = []) : Safe exact (spConnCreate srv tree) where
  refs := List.nodup_nil
  numbers := List.nodup_nil
  fresh := by
    intro f member
    cases member
  fits := by
    intro _ f member
    cases member
  logged := by
    intro exactly i member
    rw [spConnCreate, start exactly] at member
    cases member

/-- In a run of allowed messages no file is read or written for a user that had no permission for
it when its fid was opened or created. -/
theorem invoked_permitted (ops : Fileops State User Group) (msize : Nat)
    (finduser : State → Spfcall → Packet → Option User) (flush : State → Spreq → State × Bool)
    {tree : Files State User Group} (start : tree.invoked = []) {events : List ConnEvent}
    (guarded : Guarded (Spconn.step (spfileInitSrv ops msize finduser flush)) (Allowed ops)
      (spConnCreate (spfileInitSrv ops msize finduser flush) tree) events)
    {final : Spconn (Files State User Group) User Spfilefid}
    (ran : run (Spconn.step (spfileInitSrv ops msize finduser flush))
      (spConnCreate (spfileInitSrv ops msize finduser flush) tree) events = some final) :
    ∀ i ∈ final.tree.invoked, i.Permitted := by
  have safe : Safe True final := run_invariant _
    (fun conn event next safe allowed stepped => safe.step rfl (fun _ => allowed) stepped)
    (safe_start True _ fun _ => start) guarded ran
  exact safe.logged trivial

/-- Files that are read and written. -/
def readWrite : Fileops Unit Unit Unit where
  ismember _ _ := false
  lists _ := false
  statsize _ := 0
  create _ := none
  remove _ := none
  wstat _ := none
  read _ := some fun _ _ _ count => ⟨(), some count, false⟩
  write _ := some fun _ _ _ count => ⟨(), some count, false⟩
  openfid _ := none
  closefid _ := none

def readWriteSrv : Spsrv (Files Unit Unit Unit) Unit Spfilefid :=
  spfileInitSrv readWrite 8192 (fun _ _ _ => some ()) fun _ _ => ((), true)

/-- A tree that is one file, which others may read. -/
def readable : Files Unit Unit Unit where
  files := [{ ref := 0, name := [47], parent := some 0, mode := 4, uid := none, gid := none, refcount := 1 }]
  root := 0
  next := 1
  state := ()

def openfid (fid mode : Nat) : ConnEvent := .message { type := .topen, fid, mode } []

def read (fid count : Nat) : ConnEvent := .message { type := .tread, fid, count } []

def write (fid count : Nat) : ConnEvent := .message { type := .twrite, fid, count } []

theorem invoked_permitted_read :
    ∃ final, run (Spconn.step readWriteSrv) (spConnCreate readWriteSrv readable)
      [version, attach 1, openfid 1 Oread, read 1 8] = some final ∧ ∀ i ∈ final.tree.invoked, i.Permitted := by
  refine exists_final _ (by decide) fun final ran =>
    invoked_permitted readWrite 8192 (fun _ _ _ => some ()) (fun _ _ => ((), true)) rfl ?_ ran
  refine guarded_cons _ rfl trivial (guarded_cons _ rfl trivial (guarded_cons _ rfl ?_ (guarded_cons _ rfl ?_ trivial)))
  · rintro f ⟨⟩ - -
    exact ⟨_, _, rfl, rfl, rfl, rfl⟩
  · rintro f ⟨⟩
    exact .inr (by decide)

/-- An open for writing that was refused, and a write. -/
theorem refused_open_writes :
    ∃ final, run (Spconn.step readWriteSrv) (spConnCreate readWriteSrv readable)
      [version, attach 1, openfid 1 Owrite, write 1 8] = some final ∧
        ¬ ∀ i ∈ final.tree.invoked, i.Permitted := by
  refine ⟨_, rfl, ?_⟩
  intro permitted
  have wrong : (4 : Nat) &&& 2 = 2 := permitted ⟨1, 0, true, 4⟩ (by decide)
  exact absurd wrong (by decide)

end Runs

end Xcpu.Libspfs.File
