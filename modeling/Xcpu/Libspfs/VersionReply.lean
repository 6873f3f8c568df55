import Xcpu.Libspfs.Workreqs

/-!
Tversion. `sp_default_version` is written here with its variable `rc`, so that the Rversion it
creates and the paths that never assign it can be seen; the handler used everywhere else is its
image. A connection in any state answers a Tversion once exactly when the message is refused by
`sp_version` itself, or is accepted and every outstanding request can be given up.
-/

namespace Xcpu.Libspfs

open Xcpu.Keyed Xcpu.Transition

variable {Tree User Aux : Type} {srv : Spsrv Tree User Aux} {conn now next : Spconn Tree User Aux}

/-- The variable `rc` of `sp_default_version`, and the arguments of `sp_create_rversion`. -/
inductive VersionRc where
  | unassigned
  | created (msize : Nat) (version : List UInt8)

def ver9p : List UInt8 := [57, 80, 50, 48, 48, 48]

def ver9pu : List UInt8 := [57, 80, 50, 48, 48, 48, 46, 117]

/-- The versions a server speaks. -/
def Implements (srv : Spsrv Tree User Aux) (version : List UInt8) : Prop :=
  version = ver9p ∨ (version = ver9pu ∧ srv.dotu = true)

/-- `sp_default_version`: the connection, `rc`, and whether an error is set. -/
def spDefaultVersionRc (srv : Spsrv Tree User Aux) (conn : Spconn Tree User Aux) (msize : Nat)
    (version : List UInt8) : Option (Spconn Tree User Aux × VersionRc × Bool) :=
  let msize := min msize srv.msize
  let ver := (spVersionDotu srv.dotu version).map fun dotu => (if dotu then ver9pu else ver9p, dotu)
  if msize < iohdrsz then some (conn, .unassigned, true)
  else match ver with
    | some (ver, dotu) => (spConnReset srv conn msize dotu).map fun conn => (conn, .created msize ver, false)
    | none => some (conn, .unassigned, true)

/-- `sp_version`; it returns NULL itself when the client asks for too little. -/
def spVersionRc (srv : Spsrv Tree User Aux) (conn : Spconn Tree User Aux) (tc : Spfcall) (pkt : Packet) :
    Option (Spconn Tree User Aux × Option VersionRc × Bool) :=
  if tc.msize < iohdrsz + 1 then some (conn, none, true)
  else (spDefaultVersionRc srv conn tc.msize (tc.version.bytes pkt)).map fun (conn, rc, error) =>
    (conn, some rc, error)

/-- The caller tests and frees what it was given, so an unassigned `rc` is no outcome at all. -/
def versionOutcome : Option VersionRc → Bool → Option Outcome
  | none, error => some ⟨none, error⟩
  | some .unassigned, _ => none
  | some (.created _ _), error => some ⟨some { type := .rversion }, error⟩

theorem spVersion_rc (srv : Spsrv Tree User Aux) (conn : Spconn Tree User Aux) (req : Nat) (tc : Spfcall)
    (pkt : Packet) :
    spVersion srv conn req tc pkt = (spVersionRc srv conn tc pkt).bind fun (conn, rc, error) =>
      (versionOutcome rc error).map fun outcome => (conn, outcome) := by
  unfold spVersion spVersionRc
  by_cases small : tc.msize < iohdrsz + 1
  · simp [small, versionOutcome, Outcome.failed]
  · simp only [small, if_false, spDefaultVersion, spDefaultVersionRc]
    cases spVersionDotu srv.dotu (tc.version.bytes pkt) with
    | none =>
        by_cases less : min tc.msize srv.msize < iohdrsz <;> simp [less, versionOutcome]
    | some dotu =>
        by_cases less : min tc.msize srv.msize < iohdrsz
        · simp [less, versionOutcome]
        · simp only [less, if_false, Option.map_some]
          cases spConnReset srv conn (min tc.msize srv.msize) dotu with
          | none => rfl
          | some reset => rfl

/-- The requests of a connection, whatever its clients did: the newest comes first, and a flush
that waits behind a request with a fid is newer than it. -/
structure WorkInv (conn : Spconn Tree User Aux) : Prop where
  order : (conn.workreqs.map Spreq.ref).Pairwise (· > ·)
  recent : ∀ r ∈ conn.workreqs, r.ref < conn.nextRef
  links : ∀ r ∈ conn.workreqs, ∀ ref, r.flushreq = some ref → ref < conn.nextRef
  newer : ∀ r ∈ conn.workreqs, r.fid ≠ none → ∀ ref, r.flushreq = some ref → r.ref < ref
  past : ∀ reply ∈ conn.sent, reply.1 < conn.nextRef

theorem WorkInv.distinct (inv : WorkInv conn) : (conn.workreqs.map Spreq.ref).Nodup :=
  inv.order.imp fun below => Nat.ne_of_gt below

theorem WorkInv.of_same (inv : WorkInv conn) (work : next.workreqs = conn.workreqs)
    (later : conn.nextRef ≤ next.nextRef) (sent : next.sent = conn.sent) : WorkInv next where
  order := work ▸ inv.order
  recent r member := Nat.lt_of_lt_of_le (inv.recent r (work ▸ member)) later
  links r member ref linked := Nat.lt_of_lt_of_le (inv.links r (work ▸ member) ref linked) later
  newer r member := inv.newer r (work ▸ member)
  past reply queued := Nat.lt_of_lt_of_le (inv.past reply (sent ▸ queued)) later

theorem WorkInv.push {tc : Spfcall} {bound : Option Nat} (inv : WorkInv conn)
    (work : next.workreqs =
      { ref := conn.nextRef, tag := tc.tag, tcall := tc, fid := bound } :: conn.workreqs)
    (later : conn.nextRef < next.nextRef) (sent : next.sent = conn.sent) : WorkInv next where
  order := by
    rw [work, List.map_cons]
    refine List.pairwise_cons.mpr ⟨?_, inv.order⟩
    intro ref member
    obtain ⟨r, waiting, same⟩ := List.mem_map.mp member
    exact same ▸ inv.recent r waiting
  recent r member := by
    rcases List.mem_cons.mp (work ▸ member) with newest | waiting
    · exact newest ▸ later
    · exact Nat.lt_trans (inv.recent r waiting) later
  links r member ref linked := by
    rcases List.mem_cons.mp (work ▸ member) with newest | waiting
    · simp [newest] at linked
    · exact Nat.lt_trans (inv.links r waiting ref linked) later
  newer r member held ref linked := by
    rcases List.mem_cons.mp (work ▸ member) with newest | waiting
    · simp [newest] at linked
    · exact inv.newer r waiting held ref linked
  past reply queued := Nat.lt_trans (inv.past reply (sent ▸ queued)) later

theorem spRespond_queue {ref : Nat} {rc : Option Rcall} (responded : spRespond srv conn ref rc = some next) :
    ∃ chain, next.workreqs = conn.workreqs.filter (·.ref ∉ ref :: chain) ∧
      next.nextRef = conn.nextRef ∧ next.sent = conn.sent ++ replies ref rc chain ∧
      (∃ r ∈ conn.workreqs, r.ref = ref) ∧
      ∀ other ∈ chain, ∃ r ∈ conn.workreqs, r.flushreq = some other := by
  obtain ⟨req, chain, noted, dropped, found, chained, note, drop, same⟩ := spRespond_cases responded
  obtain ⟨member, here⟩ := find?_key found
  have queue := (noteDiroffset_queue note).trans (spFidDecref?_queue drop)
  refine ⟨chain, ?_, ?_, by rw [same], ⟨req, member, here⟩, ?_⟩
  · rw [same]
    exact queue.workreqs
  · rw [same]
    exact queue.nextRef
  · intro other listed
    rcases flushChain_linked chained other listed with direct | linked
    · exact ⟨req, member, direct⟩
    · exact linked

theorem WorkInv.respond {ref : Nat} {rc : Option Rcall} (inv : WorkInv conn)
    (responded : spRespond srv conn ref rc = some next) : WorkInv next := by
  obtain ⟨chain, work, later, sent, ⟨req, member, here⟩, linked⟩ := spRespond_queue responded
  have kept : ∀ r ∈ next.workreqs, r ∈ conn.workreqs := fun r waiting =>
    List.mem_of_mem_filter (work ▸ waiting)
  refine ⟨?_, ?_, ?_, fun r waiting => inv.newer r (kept r waiting), ?_⟩
  · rw [work]
    exact inv.order.sublist (List.filter_sublist.map Spreq.ref)
  · rw [later]
    exact fun r waiting => inv.recent r (kept r waiting)
  · rw [later]
    exact fun r waiting => inv.links r (kept r waiting)
  · rw [later, sent]
    intro reply queued
    rcases List.mem_append.mp queued with before | added
    · exact inv.past reply before
    · rcases replies_mem added with own | flushed
      · rw [own, ← here]
        exact inv.recent req member
      · obtain ⟨r, waiting, points⟩ := linked reply.1 flushed
        exact inv.links r waiting reply.1 points

theorem WorkInv.tree {tree : Tree} (inv : WorkInv conn) : WorkInv { conn with tree := tree } :=
  inv.of_same rfl (Nat.le_refl _) rfl

theorem WorkInv.xflush {creq : Spreq} {flushed : Bool} (inv : WorkInv conn)
    (ran : xflush srv conn creq = some (flushed, next)) : WorkInv next := by
  rcases xflush_cases ran with ⟨-, tree, same⟩ | ⟨-, -, tree, responded⟩
  · exact same ▸ inv.tree
  · exact inv.tree.respond responded

theorem WorkInv.flushWorkreqs {steps : Nat} (inv : WorkInv conn)
    (ran : flushWorkreqs srv conn steps = some next) : WorkInv next := by
  induction steps generalizing conn with
  | zero => simp [Libspfs.flushWorkreqs] at ran
  | succ steps ih =>
      unfold Libspfs.flushWorkreqs at ran
      split at ran
      · exact Option.some.inj ran ▸ inv
      · obtain ⟨⟨flushed, mid⟩, did, ran⟩ := Option.bind_eq_some_iff.mp ran
        dsimp only at ran
        split at ran
        · exact ih (inv.xflush did) ran
        · contradiction

theorem WorkInv.reset {msize : Nat} {dotu : Bool} (inv : WorkInv conn)
    (ran : spConnReset srv conn msize dotu = some next) : WorkInv next := by
  obtain ⟨mid, flushed, same⟩ := Option.map_eq_some_iff.mp ran
  exact (inv.flushWorkreqs flushed).of_same (same ▸ rfl) (Nat.le_of_eq (by rw [← same]))
    (same ▸ rfl)

theorem WorkInv.answer {ref : Nat} {outcome : Outcome} (inv : WorkInv now)
    (answered : answerOutcome srv now ref outcome = some next) : WorkInv next := by
  rcases answerOutcome_cases answered with ⟨-, -, same⟩ | ⟨rc, responded, -⟩
  · exact same ▸ inv
  · exact inv.respond responded

theorem WorkInv.link {ref : Nat} {target : Option Nat} (inv : WorkInv conn)
    (below : ∀ other, target = some other → other < conn.nextRef)
    (after : ∀ r ∈ conn.workreqs, r.ref = ref → r.fid ≠ none →
      ∀ other, target = some other → ref < other) :
    WorkInv (conn.setReq ref fun r => { r with flushreq := target }) := by
  have split : ∀ r ∈ update Spreq.ref conn.workreqs ref (fun r => { r with flushreq := target }),
      ∃ q ∈ conn.workreqs, r = if q.ref = ref then { q with flushreq := target } else q :=
    fun r member => mem_update.mp member
  refine ⟨?_, ?_, ?_, ?_, inv.past⟩
  · have same : (update Spreq.ref conn.workreqs ref fun r => { r with flushreq := target }).map Spreq.ref =
        conn.workreqs.map Spreq.ref := update_map Spreq.ref fun _ => rfl
    exact same ▸ inv.order
  · intro r member
    obtain ⟨q, waiting, same⟩ := split r member
    have recent := inv.recent q waiting
    split_ifs at same <;> exact same ▸ recent
  · intro r member other linked
    obtain ⟨q, waiting, same⟩ := split r member
    split_ifs at same
    · exact below other (by simpa [same] using linked)
    · exact inv.links q waiting other (same ▸ linked)
  · intro r member held other linked
    obtain ⟨q, waiting, same⟩ := split r member
    split_ifs at same with here
    · rw [same] at held linked
      rw [same]
      exact here ▸ after q waiting here held other linked
    · rw [same] at held linked
      rw [same]
      exact inv.newer q waiting held other linked

/-- Requests come and go, but none changes the message it is for. -/
def SameCalls (conn next : Spconn Tree User Aux) : Prop :=
  ∀ r ∈ next.workreqs, ∃ q ∈ conn.workreqs, q.ref = r.ref ∧ q.tcall = r.tcall

theorem SameCalls.refl (conn : Spconn Tree User Aux) : SameCalls conn conn :=
  fun r member => ⟨r, member, rfl, rfl⟩

theorem SameCalls.trans (one : SameCalls conn now) (two : SameCalls now next) : SameCalls conn next := by
  intro r member
  obtain ⟨q, waiting, ref, call⟩ := two r member
  obtain ⟨p, before, ref', call'⟩ := one q waiting
  exact ⟨p, before, ref'.trans ref, call'.trans call⟩

theorem SameCalls.link {ref : Nat} {target : Option Nat} (same : SameCalls conn now) :
    SameCalls conn (now.setReq ref fun r => { r with flushreq := target }) := by
  refine same.trans fun r member => ?_
  obtain ⟨q, waiting, same⟩ := mem_update.mp member
  refine ⟨q, waiting, ?_⟩
  split_ifs at same <;> simp [same]

theorem SameWork.sameCalls {req : Nat} (same : SameWork req conn next) : SameCalls conn next := by
  intro r member
  have listed : r.apartFrom req ∈ conn.workreqs.map (Spreq.apartFrom req) :=
    same.work ▸ List.mem_map_of_mem member
  obtain ⟨q, waiting, equal⟩ := List.mem_map.mp listed
  have ref : ∀ s : Spreq, (s.apartFrom req).ref = s.ref := by
    intro s
    unfold Spreq.apartFrom
    split <;> rfl
  have call : ∀ s : Spreq, (s.apartFrom req).tcall = s.tcall := by
    intro s
    unfold Spreq.apartFrom
    split <;> rfl
  exact ⟨q, waiting, by rw [← ref q, equal, ref], by rw [← call q, equal, call]⟩

theorem spRespond_sameCalls {ref : Nat} {rc : Option Rcall}
    (responded : spRespond srv conn ref rc = some next) : SameCalls conn next := by
  obtain ⟨chain, work, -⟩ := spRespond_queue responded
  exact fun r member => ⟨r, List.mem_of_mem_filter (work ▸ member), rfl, rfl⟩

theorem xflush_sameCalls {creq : Spreq} {flushed : Bool}
    (ran : xflush srv conn creq = some (flushed, next)) : SameCalls conn next := by
  rcases xflush_cases ran with ⟨-, tree, same⟩ | ⟨-, -, tree, responded⟩
  · exact same ▸ SameCalls.refl conn
  · have kept : SameCalls { conn with tree := tree } next := spRespond_sameCalls responded
    exact kept

theorem flushWorkreqs_sameCalls {steps : Nat} (ran : flushWorkreqs srv conn steps = some next) :
    SameCalls conn next := by
  induction steps generalizing conn with
  | zero => simp [flushWorkreqs] at ran
  | succ steps ih =>
      unfold flushWorkreqs at ran
      split at ran
      · exact Option.some.inj ran ▸ SameCalls.refl conn
      · obtain ⟨⟨flushed, mid⟩, did, ran⟩ := Option.bind_eq_some_iff.mp ran
        dsimp only at ran
        split at ran
        · exact (xflush_sameCalls did).trans (ih ran)
        · contradiction

theorem spConnReset_sameCalls {msize : Nat} {dotu : Bool}
    (ran : spConnReset srv conn msize dotu = some next) : SameCalls conn next := by
  obtain ⟨mid, flushed, same⟩ := Option.map_eq_some_iff.mp ran
  have kept := flushWorkreqs_sameCalls flushed
  subst next
  exact kept

theorem answerOutcome_sameCalls {ref : Nat} {outcome : Outcome}
    (answered : answerOutcome srv now ref outcome = some next) : SameCalls now next := by
  rcases answerOutcome_cases answered with ⟨-, -, same⟩ | ⟨rc, responded, -⟩
  · exact same ▸ SameCalls.refl now
  · exact spRespond_sameCalls responded

variable {tc : Spfcall} {pkt : Packet} {outcome : Outcome}

theorem WorkInv.accept (inv : WorkInv conn) : WorkInv (conn.accept tc) :=
  inv.push rfl (Nat.lt_succ_self _) rfl

theorem spFlush_workInv (inv : WorkInv conn)
    (ran : spFlush srv (conn.accept tc) conn.nextRef tc = some (now, outcome)) :
    WorkInv now ∧ SameCalls (conn.accept tc) now := by
  unfold spFlush at ran
  split at ran
  · obtain ⟨same, -⟩ := Prod.mk.inj (Option.some.inj ran)
    exact same ▸ ⟨inv.accept, SameCalls.refl _⟩
  · rename_i creq found
    obtain ⟨⟨flushed, mid⟩, did, ran⟩ := Option.bind_eq_some_iff.mp ran
    have tried : WorkInv mid ∧ SameCalls (conn.accept tc) mid ∧
        (flushed = false → mid.workreqs = (conn.accept tc).workreqs ∧ mid.nextRef = conn.nextRef + 1) := by
      split_ifs at did
      · refine ⟨inv.accept.xflush did, xflush_sameCalls did, ?_⟩
        intro refused
        rcases xflush_cases did with ⟨-, tree, same⟩ | ⟨gave, -⟩
        · exact same ▸ ⟨rfl, rfl⟩
        · rw [refused] at gave
          contradiction
      · obtain ⟨-, same⟩ := Prod.mk.inj (Option.some.inj did)
        exact same ▸ ⟨inv.accept, SameCalls.refl _, fun _ => ⟨rfl, rfl⟩⟩
    obtain ⟨midInv, midCalls, refused⟩ := tried
    dsimp only at ran
    split_ifs at ran with gave
    · obtain ⟨same, -⟩ := Prod.mk.inj (Option.some.inj ran)
      exact same ▸ ⟨midInv, midCalls⟩
    · obtain ⟨same, -⟩ := Prod.mk.inj (Option.some.inj ran)
      obtain ⟨work, later⟩ := refused (by simpa using gave)
      have listed : creq ∈ (conn.accept tc).workreqs := List.mem_of_find?_eq_some found
      have newest : ∀ r ∈ mid.workreqs, r.ref = conn.nextRef → r.fid = none := by
        intro r member here
        rcases List.mem_cons.mp (work ▸ member) with first | waiting
        · rw [first]
        · exact absurd here (Nat.ne_of_lt (inv.recent r waiting))
      have below : ∀ other, creq.flushreq = some other → other < mid.nextRef := by
        intro other linked
        rw [later]
        exact inv.accept.links creq listed other linked
      have first := midInv.link below
        fun r member here held => absurd (newest r member here) held
      subst same
      refine ⟨first.link ?_ ?_, midCalls.link.link⟩
      · intro other target
        cases target
        exact later ▸ Nat.lt_succ_self _
      · intro r member here held other target
        cases target
        obtain ⟨q, waiting, same⟩ := mem_update.mp member
        have fid : q.fid = r.fid := by split_ifs at same <;> simp [same]
        have ref : q.ref = r.ref := by split_ifs at same <;> simp [same]
        have recent := midInv.recent q waiting
        have older : q.ref ≠ conn.nextRef := fun equal => held (fid ▸ newest q waiting equal)
        omega

theorem spVersion_workInv {req : Nat} (inv : WorkInv now)
    (ran : spVersion srv now req tc pkt = some (next, outcome)) :
    WorkInv next ∧ SameCalls now next ∧ (outcome.error = true ∨ outcome.rc ≠ none) := by
  unfold spVersion at ran
  split at ran
  · obtain ⟨same, failed⟩ := Prod.mk.inj (Option.some.inj ran)
    exact same ▸ ⟨inv, SameCalls.refl _, .inl (failed ▸ rfl)⟩
  · unfold spDefaultVersion at ran
    split at ran
    · contradiction
    · split at ran
      · contradiction
      · obtain ⟨mid, reset, equal⟩ := Option.map_eq_some_iff.mp ran
        obtain ⟨same, replied⟩ := Prod.mk.inj equal
        exact same ▸ ⟨inv.reset reset, spConnReset_sameCalls reset, .inr (replied ▸ by simp [Outcome.replied])⟩

theorem answerOutcome_gone {ref : Nat} (answers : outcome.error = true ∨ outcome.rc ≠ none)
    (answered : answerOutcome srv now ref outcome = some next) : ∀ r ∈ next.workreqs, r.ref ≠ ref := by
  rcases answerOutcome_cases answered with ⟨clean, silent, -⟩ | ⟨rc, responded, -⟩
  · rcases answers with failed | replied
    · simp [clean] at failed
    · exact absurd silent replied
  · obtain ⟨chain, work, -⟩ := spRespond_queue responded
    intro r member here
    have kept := List.of_mem_filter (work ▸ member)
    simp [here] at kept

/-- No Tversion waits: it is answered when it is handled. -/
def NoVersion (conn : Spconn Tree User Aux) : Prop := ∀ r ∈ conn.workreqs, r.tcall.type ≠ .tversion

theorem noVersion_message (unversioned : NoVersion conn) (calls : SameCalls (conn.accept tc) next)
    (gone : tc.type = .tversion → ∀ r ∈ next.workreqs, r.ref ≠ conn.nextRef) : NoVersion next := by
  intro r member version
  obtain ⟨q, waiting, ref, call⟩ := calls r member
  rcases List.mem_cons.mp waiting with newest | before
  · subst q
    exact gone (by rw [← version, ← call]) r member ref.symm
  · exact unversioned q before (call ▸ version)

theorem spSrvProcessFcall_workInv (inv : WorkInv conn) (unversioned : NoVersion conn)
    (ran : spSrvProcessFcall srv conn tc pkt = some next) : WorkInv next ∧ NoVersion next := by
  obtain ⟨now, outcome, handled, answered⟩ := spSrvProcessFcall_cases ran
  by_cases version : (tc.type.number - 100) / 2 = 0
  · rw [version] at handled
    obtain ⟨inv', calls, answers⟩ := spVersion_workInv inv.accept (Option.some.inj handled)
    exact ⟨inv'.answer answered, noVersion_message unversioned (calls.trans (answerOutcome_sameCalls answered))
      fun _ => answerOutcome_gone answers answered⟩
  · have other : tc.type ≠ .tversion := by
      intro same
      simp [same, FcallType.number] at version
    by_cases flush : (tc.type.number - 100) / 2 = 4
    · rw [flush] at handled
      obtain ⟨inv', calls⟩ := spFlush_workInv inv (Option.some.inj handled)
      exact ⟨inv'.answer answered, noVersion_message unversioned (calls.trans (answerOutcome_sameCalls answered))
        fun same => absurd same other⟩
    · have same := spFcalls_sameWork version flush handled
      obtain ⟨bound, work⟩ := same.newest inv.recent
      have inv' : WorkInv now := inv.push work same.later same.sent
      exact ⟨inv'.answer answered,
        noVersion_message unversioned (same.sameCalls.trans (answerOutcome_sameCalls answered))
          fun same => absurd same other⟩

theorem step_workInv {event : ConnEvent} (inv : WorkInv conn) (unversioned : NoVersion conn)
    (stepped : Spconn.step srv conn event = some next) : WorkInv next ∧ NoVersion next := by
  cases event with
  | message tc pkt => exact spSrvProcessFcall_workInv inv unversioned stepped
  | answer ref rc =>
      simp only [Spconn.step] at stepped
      split at stepped
      · exact Option.some.inj stepped ▸ ⟨inv, unversioned⟩
      · split at stepped
        · exact Option.some.inj stepped ▸ ⟨inv, unversioned⟩
        · refine ⟨inv.respond stepped, fun r member => ?_⟩
          obtain ⟨q, waiting, -, call⟩ := spRespond_sameCalls stepped r member
          exact call ▸ unversioned q waiting

theorem reachable_workInv {tree : Tree} {events : List ConnEvent}
    (ran : run (Spconn.step srv) (spConnCreate srv tree) events = some conn) :
    WorkInv conn ∧ NoVersion conn := by
  have fresh : WorkInv (spConnCreate srv tree) ∧ NoVersion (spConnCreate srv tree) :=
    ⟨⟨List.Pairwise.nil, by simp [spConnCreate], by simp [spConnCreate], by simp [spConnCreate],
      by simp [spConnCreate]⟩, by simp [NoVersion, spConnCreate]⟩
  have kept : ∀ (state : Spconn Tree User Aux) (event : ConnEvent) (next : Spconn Tree User Aux),
      WorkInv state ∧ NoVersion state → True → Spconn.step srv state event = some next →
      WorkInv next ∧ NoVersion next := fun _ _ _ inv _ stepped => step_workInv inv.1 inv.2 stepped
  exact run_invariant _ kept fresh (guarded_true _ _ _) ran

/-- Every outstanding request, the newest first, can be given up: no flush waits behind it, its
file lets it go, and its fid is still there to lose a reference. -/
def Releasable (srv : Spsrv Tree User Aux) : Spconn Tree User Aux → List Spreq → Prop
  | _, [] => True
  | conn, req :: rest => req.flushreq = none ∧ ∃ ref next, req.fid = some ref ∧
      (srv.flush conn.tree req).2 = true ∧
      spFidDecref srv { conn with tree := (srv.flush conn.tree req).1 } ref = some next ∧
      Releasable srv next rest

theorem spFidDecref_requests (srv : Spsrv Tree User Aux) (conn : Spconn Tree User Aux) (ref later : Nat)
    (reqs : List Spreq) :
    spFidDecref srv { conn with workreqs := reqs, nextRef := later } ref =
      (spFidDecref srv conn ref).map fun next => { next with workreqs := reqs, nextRef := later } := by
  unfold spFidDecref spFidDestroy
  simp only [Spconn.fidAt]
  cases conn.fids.find? (·.ref == ref) with
  | none => rfl
  | some f =>
      by_cases last : f.refcount - 1 = 0
      · simp only [last, if_true, Option.map_some]
        cases conn.fids.find? (·.fid == f.fid) with
        | none => rfl
        | some found => rfl
      · simp only [last, if_false]
        rfl

theorem Releasable.requests (srv : Spsrv Tree User Aux) (conn : Spconn Tree User Aux) (later : Nat)
    (held reqs : List Spreq) :
    Releasable srv { conn with workreqs := held, nextRef := later } reqs ↔ Releasable srv conn reqs := by
  induction reqs generalizing conn with
  | nil => exact Iff.rfl
  | cons req rest ih =>
      simp only [Releasable]
      refine and_congr_right fun _ => exists_congr fun ref => ?_
      constructor
      · rintro ⟨next, bound, gives, dropped, others⟩
        have moved := spFidDecref_requests srv { conn with tree := (srv.flush conn.tree req).1 } ref later held
        obtain ⟨mid, drop, same⟩ := Option.map_eq_some_iff.mp (moved.symm.trans dropped)
        subst next
        exact ⟨mid, bound, gives, drop, (ih mid).mp others⟩
      · rintro ⟨next, bound, gives, dropped, others⟩
        have moved := spFidDecref_requests srv { conn with tree := (srv.flush conn.tree req).1 } ref later held
        refine ⟨{ next with workreqs := held, nextRef := later }, bound, gives, ?_,
          (ih next).mpr others⟩
        exact moved.trans (by rw [dropped]; rfl)

theorem spRespond_unlinked (srv : Spsrv Tree User Aux) {ref : Nat} {req : Spreq} (found : conn.reqAt ref = some req)
    (unlinked : req.flushreq = none) :
    spRespond srv conn ref none =
      spFidDecref? srv { conn with workreqs := conn.workreqs.filter (·.ref ∉ [ref]) } req.fid := by
  have chained : flushChain conn.workreqs conn.workreqs.length none = some [] := by
    cases conn.workreqs.length <;> rfl
  simp [spRespond, found, unlinked, chained, noteDiroffset, spConnRespond]

theorem spRespond_linked {ref head : Nat} {req : Spreq} {rc : Option Rcall} (found : conn.reqAt ref = some req)
    (linked : req.flushreq = some head) (gone : head ∉ conn.workreqs.map Spreq.ref) :
    spRespond srv conn ref rc = none := by
  have missing : conn.workreqs.find? (·.ref == head) = none := find?_none_iff.mpr gone
  have chained : flushChain conn.workreqs conn.workreqs.length (some head) = none := by
    cases conn.workreqs.length with
    | zero => rfl
    | succ steps => simp [flushChain, missing]
  simp [spRespond, found, linked, chained]

section Reset

variable {first req : Spreq} {reqs : List Spreq}

theorem filter_second (order : ((first :: req :: reqs).map Spreq.ref).Pairwise (· > ·)) :
    (first :: req :: reqs).filter (·.ref ∉ [req.ref]) = first :: reqs := by
  simp only [List.map_cons, List.pairwise_cons] at order
  obtain ⟨above, below, -⟩ := order
  have before : first.ref > req.ref := above req.ref List.mem_cons_self
  have others : reqs.filter (·.ref ∉ [req.ref]) = reqs := by
    rw [List.filter_eq_self]
    intro r member
    have less := below r.ref (List.mem_map_of_mem member)
    simp only [List.mem_singleton, decide_eq_true_eq]
    omega
  rw [List.filter_cons_of_pos (by simp only [List.mem_singleton, decide_eq_true_eq]; omega),
    List.filter_cons_of_neg (by simp), others]

theorem reqAt_second (inv : WorkInv conn) (work : conn.workreqs = first :: req :: reqs) :
    conn.reqAt req.ref = some req := by
  refine find?_of_mem inv.distinct ?_ rfl
  rw [work]
  exact List.mem_cons_of_mem _ List.mem_cons_self

/-- What the loop does with the request it finds first, where no flush waits behind it. -/
theorem xflush_unlinked (inv : WorkInv conn) (work : conn.workreqs = first :: req :: reqs)
    (unlinked : req.flushreq = none) {ref : Nat} (bound : req.fid = some ref)
    (gives : (srv.flush conn.tree req).2 = true) :
    xflush srv conn req =
      (spFidDecref srv { conn with tree := (srv.flush conn.tree req).1 } ref).map fun mid =>
        (true, { mid with workreqs := first :: reqs, nextRef := conn.nextRef }) := by
  have order := inv.order
  rw [work] at order
  have kept : conn.workreqs.filter (·.ref ∉ [req.ref]) = first :: reqs := by
    rw [work]
    exact filter_second order
  have found : ({ conn with tree := (srv.flush conn.tree req).1 } : Spconn Tree User Aux).reqAt req.ref =
      some req := reqAt_second inv.tree work
  have freed := spRespond_unlinked srv found unlinked
  rw [bound, spFidDecref?, spFidDecref_requests srv { conn with tree := (srv.flush conn.tree req).1 } ref
    conn.nextRef] at freed
  simp only [kept] at freed
  simp only [xflush, bound, gives, if_true]
  rw [freed, Option.map_map]
  rfl

theorem xflush_linked (inv : WorkInv conn) (work : conn.workreqs = first :: req :: reqs)
    (links : ∀ ref, req.flushreq = some ref → ref < first.ref) (linked : req.flushreq ≠ none)
    (next : Spconn Tree User Aux) : xflush srv conn req ≠ some (true, next) := by
  have order := inv.order
  rw [work] at order
  simp only [List.map_cons, List.pairwise_cons] at order
  obtain ⟨head, points⟩ := Option.ne_none_iff_exists'.mp linked
  intro ran
  rcases xflush_cases ran with ⟨refused, -⟩ | ⟨-, bound, tree, responded⟩
  · contradiction
  · have newer : req.ref < head := by
      refine inv.newer req ?_ bound head points
      rw [work]
      exact List.mem_cons_of_mem _ List.mem_cons_self
    have gone : head ∉ conn.workreqs.map Spreq.ref := by
      rw [work]
      intro listed
      rcases List.mem_cons.mp listed with newest | listed
      · exact Nat.ne_of_lt (links head points) newest
      · rcases List.mem_cons.mp listed with itself | older
        · omega
        · have less := order.2.1 head older
          omega
    have found : ({ conn with tree := tree } : Spconn Tree User Aux).reqAt req.ref = some req :=
      reqAt_second inv.tree work
    rw [spRespond_linked found points gone] at responded
    contradiction

theorem xflush_found (srv : Spsrv Tree User Aux) (inv : WorkInv conn) (work : conn.workreqs = first :: req :: reqs)
    (links : ∀ ref, req.flushreq = some ref → ref < first.ref) (next : Spconn Tree User Aux) :
    xflush srv conn req = some (true, next) ↔
      req.flushreq = none ∧ ∃ ref mid, req.fid = some ref ∧ (srv.flush conn.tree req).2 = true ∧
        spFidDecref srv { conn with tree := (srv.flush conn.tree req).1 } ref = some mid ∧
        next = { mid with workreqs := first :: reqs, nextRef := conn.nextRef } := by
  by_cases unlinked : req.flushreq = none
  · cases bound : req.fid with
    | none => simp [xflush, bound]
    | some ref =>
        by_cases gives : (srv.flush conn.tree req).2 = true
        · rw [xflush_unlinked inv work unlinked bound gives]
          constructor
          · intro ran
            obtain ⟨mid, drop, same⟩ := Option.map_eq_some_iff.mp ran
            exact ⟨unlinked, ref, mid, rfl, gives, drop, (Prod.mk.inj same).2.symm⟩
          · rintro ⟨-, other, mid, same, -, drop, after⟩
            cases same
            rw [drop, after]
            rfl
        · simp [xflush, bound, gives]
  · constructor
    · exact fun ran => absurd ran (xflush_linked inv work links unlinked next)
    · exact fun free => absurd free.1 unlinked

/-- The loop over the outstanding requests ends when all of them can be given up, and only then. -/
theorem flushWorkreqs_iff {steps : Nat} (inv : WorkInv conn) (work : conn.workreqs = first :: reqs)
    (version : first.tcall.type = .tversion) (others : ∀ r ∈ reqs, r.tcall.type ≠ .tversion)
    (links : ∀ r ∈ reqs, ∀ ref, r.flushreq = some ref → ref < first.ref) (enough : reqs.length < steps) :
    (∃ next, flushWorkreqs srv conn steps = some next) ↔ Releasable srv conn reqs := by
  induction reqs generalizing conn steps with
  | nil =>
      cases steps with
      | zero => simp at enough
      | succ steps => simp [flushWorkreqs, work, version, Releasable]
  | cons req rest ih =>
      cases steps with
      | zero => simp at enough
      | succ steps =>
          have kind := others req List.mem_cons_self
          have found : conn.workreqs.find? (·.tcall.type ≠ .tversion) = some req := by
            simp [work, version, kind]
          have onward : ∀ mid, WorkInv { mid with workreqs := first :: rest, nextRef := conn.nextRef } →
              ((∃ final, flushWorkreqs srv { mid with workreqs := first :: rest, nextRef := conn.nextRef }
                  steps = some final) ↔ Releasable srv mid rest) := by
            intro mid inv'
            rw [← Releasable.requests srv mid conn.nextRef (first :: rest)]
            refine ih inv' rfl (fun r member => others r (List.mem_cons_of_mem _ member))
              (fun r member => links r (List.mem_cons_of_mem _ member)) ?_
            simp only [List.length_cons] at enough
            omega
          have here := xflush_found srv inv work (links req List.mem_cons_self)
          simp only [flushWorkreqs, found]
          constructor
          · rintro ⟨final, ran⟩
            obtain ⟨⟨flushed, next⟩, did, ran⟩ := Option.bind_eq_some_iff.mp ran
            dsimp only at ran
            split_ifs at ran with gave
            rw [gave] at did
            obtain ⟨unlinked, ref, mid, bound, gives, drop, same⟩ := (here next).mp did
            have kept := inv.xflush did
            subst next
            exact ⟨unlinked, ref, mid, bound, gives, drop, (onward mid kept).mp ⟨final, ran⟩⟩
          · rintro ⟨unlinked, ref, mid, bound, gives, drop, released⟩
            have did := (here _).mpr ⟨unlinked, ref, mid, bound, gives, drop, rfl⟩
            obtain ⟨final, ran⟩ := (onward mid (inv.xflush did)).mpr released
            exact ⟨final, by rw [did]; exact ran⟩

theorem flushWorkreqs_after {steps : Nat} (inv : WorkInv conn) (work : conn.workreqs = first :: reqs)
    (version : first.tcall.type = .tversion) (others : ∀ r ∈ reqs, r.tcall.type ≠ .tversion)
    (links : ∀ r ∈ reqs, ∀ ref, r.flushreq = some ref → ref < first.ref)
    (ran : flushWorkreqs srv conn steps = some next) :
    next.workreqs = [first] ∧ next.sent = conn.sent := by
  induction reqs generalizing conn steps with
  | nil =>
      cases steps with
      | zero => simp [flushWorkreqs] at ran
      | succ steps =>
          simp only [flushWorkreqs, work, List.find?_cons, version, ne_eq, not_true_eq_false, decide_false,
            List.find?_nil, Option.some.injEq] at ran
          exact ran ▸ ⟨work, rfl⟩
  | cons req rest ih =>
      cases steps with
      | zero => simp [flushWorkreqs] at ran
      | succ steps =>
          have kind := others req List.mem_cons_self
          have found : conn.workreqs.find? (·.tcall.type ≠ .tversion) = some req := by
            simp [work, version, kind]
          simp only [flushWorkreqs, found] at ran
          obtain ⟨⟨flushed, mid⟩, did, ran⟩ := Option.bind_eq_some_iff.mp ran
          dsimp only at ran
          split_ifs at ran with gave
          rw [gave] at did
          obtain ⟨-, ref, dropped, -, -, drop, same⟩ :=
            (xflush_found srv inv work (links req List.mem_cons_self) mid).mp did
          have kept := inv.xflush did
          obtain ⟨alone, sent⟩ := ih kept (by rw [same]) (fun r member => others r (List.mem_cons_of_mem _ member))
            (fun r member => links r (List.mem_cons_of_mem _ member)) ran
          refine ⟨alone, sent.trans ?_⟩
          rw [same]
          exact (spFidDecref_queue drop).sent

end Reset

/-- The reply is the only one for the message that was taken in. -/
def AnsweredOnce (conn next : Spconn Tree User Aux) (type : FcallType) : Prop :=
  next.sent.filter (·.1 == conn.nextRef) = [(conn.nextRef, type)]

/-- A Tversion is answered as it should be. The value of `rc` is assigned on every path that is taken. -/
def VersionAnswered (srv : Spsrv Tree User Aux) (conn : Spconn Tree User Aux) (tc : Spfcall)
    (pkt : Packet) : Prop :=
  ∃ now rc error next, spVersionRc srv (conn.accept tc) tc pkt = some (now, rc, error) ∧
    Spconn.step srv conn (.message tc pkt) = some next ∧
    ((∃ msize version, rc = some (.created msize version) ∧ AnsweredOnce conn next .rversion ∧
        msize ≤ tc.msize ∧ msize ≤ srv.msize ∧ Implements srv version ∧ next.msize = msize ∧
        (next.dotu = true ↔ version = ver9pu) ∧ next.fids = [] ∧ next.workreqs = []) ∨
      (rc = none ∧ AnsweredOnce conn next .rerror ∧ next.msize = conn.msize ∧ next.dotu = conn.dotu ∧
        next.fids = conn.fids ∧ next.workreqs = conn.workreqs))

/-- The client asks for no more than a header, or for a version and a size the server has while
every outstanding request can be given up. -/
def VersionSettled (srv : Spsrv Tree User Aux) (conn : Spconn Tree User Aux) (tc : Spfcall)
    (pkt : Packet) : Prop :=
  tc.msize ≤ iohdrsz ∨
    (spVersionDotu srv.dotu (tc.version.bytes pkt) ≠ none ∧ iohdrsz ≤ srv.msize ∧
      Releasable srv conn conn.workreqs)

theorem answeredOnce_append {type : FcallType} (inv : WorkInv conn)
    (sent : next.sent = conn.sent ++ [(conn.nextRef, type)]) : AnsweredOnce conn next type := by
  have before : conn.sent.filter (·.1 == conn.nextRef) = [] := by
    refine List.filter_eq_nil_iff.mpr fun reply queued => ?_
    have past := inv.past reply queued
    simp only [beq_iff_eq]
    omega
  rw [AnsweredOnce, sent, List.filter_append, before]
  simp

theorem spRespond_first (srv : Spsrv Tree User Aux) {first : Spreq} {reqs : List Spreq} (inv : WorkInv now)
    (work : now.workreqs = first :: reqs) (unbound : first.fid = none) (unlinked : first.flushreq = none)
    (type : FcallType) (other : type ≠ .rread) :
    spRespond srv now first.ref (some { type }) =
      some { now with workreqs := reqs, sent := now.sent ++ [(first.ref, type)] } := by
  have found : now.reqAt first.ref = some first :=
    find?_of_mem inv.distinct (work ▸ List.mem_cons_self) rfl
  have chained : flushChain now.workreqs now.workreqs.length none = some [] := by
    cases now.workreqs.length <;> rfl
  have order := inv.order
  rw [work, List.map_cons, List.pairwise_cons] at order
  have rest : now.workreqs.filter (·.ref ∉ [first.ref]) = reqs := by
    rw [work, List.filter_cons_of_neg (by simp), List.filter_eq_self]
    intro r member
    have less := order.1 r.ref (List.mem_map_of_mem member)
    simp only [List.mem_singleton, decide_eq_true_eq]
    omega
  have noted : ∀ mid : Spconn Tree User Aux, noteDiroffset mid first (some { type }) = some mid := by
    intro mid
    cases type with
    | rread => exact absurd rfl other
    | _ => rfl
  simp only [spRespond, found, unlinked, chained, Option.bind_some, rest, noted, unbound, spFidDecref?,
    Option.map_some, List.foldl_nil, spConnRespond]

theorem step_tversion (tc : Spfcall) (pkt : Packet) (kind : tc.type = .tversion) :
    Spconn.step srv conn (.message tc pkt) =
      (spVersion srv (conn.accept tc) conn.nextRef tc pkt).bind fun (now, outcome) =>
        answerOutcome srv now conn.nextRef outcome := by
  simp [Spconn.step, spSrvProcessFcall, kind, FcallType.number, spFcalls]

theorem spVersionRc_small {tc : Spfcall} {pkt : Packet} (small : tc.msize ≤ iohdrsz) :
    spVersionRc srv conn tc pkt = some (conn, none, true) := by
  rw [spVersionRc, if_pos (by omega)]

theorem spVersionRc_large {tc : Spfcall} {pkt : Packet} (large : iohdrsz < tc.msize) :
    spVersionRc srv conn tc pkt =
      (spDefaultVersionRc srv conn tc.msize (tc.version.bytes pkt)).map fun (conn, rc, error) =>
        (conn, some rc, error) := by
  rw [spVersionRc, if_neg (by omega)]

theorem spDefaultVersionRc_assigned {msize : Nat} {version : List UInt8} {rc : VersionRc} {error : Bool}
    (ran : spDefaultVersionRc srv conn msize version = some (now, rc, error)) (assigned : rc ≠ .unassigned) :
    ∃ dotu, spVersionDotu srv.dotu version = some dotu ∧ iohdrsz ≤ min msize srv.msize ∧
      rc = .created (min msize srv.msize) (if dotu then ver9pu else ver9p) ∧ error = false ∧
      spConnReset srv conn (min msize srv.msize) dotu = some now := by
  unfold spDefaultVersionRc at ran
  dsimp only at ran
  split_ifs at ran with less
  · simp only [Option.some.injEq, Prod.mk.injEq] at ran
    exact absurd ran.2.1.symm assigned
  · cases supported : spVersionDotu srv.dotu version with
    | none =>
        simp only [supported, Option.map_none, Option.some.injEq, Prod.mk.injEq] at ran
        exact absurd ran.2.1.symm assigned
    | some dotu =>
        simp only [supported, Option.map_some] at ran
        obtain ⟨after, reset, same⟩ := Option.map_eq_some_iff.mp ran
        simp only [Prod.mk.injEq] at same
        obtain ⟨here, created, clean⟩ := same
        exact ⟨dotu, rfl, by omega, created.symm, clean.symm, here ▸ reset⟩

theorem spVersionDotu_implements {version : List UInt8} {dotu : Bool}
    (supported : spVersionDotu srv.dotu version = some dotu) :
    Implements srv (if dotu then ver9pu else ver9p) := by
  unfold spVersionDotu at supported
  split_ifs at supported with unix plain
  · cases supported
    exact .inr ⟨rfl, unix.2⟩
  · cases supported
    exact .inl rfl

theorem ver9pu_iff (dotu : Bool) : dotu = true ↔ (if dotu then ver9pu else ver9p) = ver9pu := by
  cases dotu <;> decide

theorem releasable_accept (reqs : List Spreq) :
    Releasable srv (conn.accept tc) reqs ↔ Releasable srv conn reqs :=
  Releasable.requests srv conn _ _ reqs

theorem spConnReset_iff {msize : Nat} {dotu : Bool} (inv : WorkInv conn) (unversioned : NoVersion conn)
    (kind : tc.type = .tversion) :
    (∃ now, spConnReset srv (conn.accept tc) msize dotu = some now) ↔
      Releasable srv conn conn.workreqs := by
  have enough : conn.workreqs.length < (conn.accept tc).workreqs.length + 1 := by
    simp only [Spconn.accept, List.length_cons]
    omega
  rw [← releasable_accept, ← flushWorkreqs_iff inv.accept rfl kind unversioned inv.links enough]
  constructor
  · rintro ⟨now, reset⟩
    obtain ⟨mid, flushed, -⟩ := Option.map_eq_some_iff.mp reset
    exact ⟨mid, flushed⟩
  · rintro ⟨mid, flushed⟩
    exact ⟨_, by rw [spConnReset, flushed]; rfl⟩

theorem spConnReset_after {msize : Nat} {dotu : Bool} (inv : WorkInv conn) (unversioned : NoVersion conn)
    (kind : tc.type = .tversion) (reset : spConnReset srv (conn.accept tc) msize dotu = some now) :
    WorkInv now ∧ now.fids = [] ∧ now.msize = msize ∧ now.dotu = dotu ∧ now.sent = conn.sent ∧
      now.workreqs = [{ ref := conn.nextRef, tag := tc.tag, tcall := tc }] := by
  have after := inv.accept.reset reset
  obtain ⟨mid, flushed, same⟩ := Option.map_eq_some_iff.mp reset
  obtain ⟨alone, sent⟩ := flushWorkreqs_after inv.accept rfl kind unversioned inv.links flushed
  subst now
  exact ⟨after, rfl, rfl, rfl, sent, alone⟩

/-- `sp_version` refuses a size that leaves no room, and nothing is touched. -/
theorem version_refused (inv : WorkInv conn) (kind : tc.type = .tversion) (small : tc.msize ≤ iohdrsz) :
    VersionAnswered srv conn tc pkt := by
  have handled := spVersion_rc srv (conn.accept tc) conn.nextRef tc pkt
  rw [spVersionRc_small small] at handled
  have order : WorkInv (conn.accept tc) := inv.accept
  have answered := spRespond_first srv order rfl rfl rfl .rerror (by decide)
  refine ⟨_, _, _,
    { conn.accept tc with workreqs := conn.workreqs, sent := conn.sent ++ [(conn.nextRef, .rerror)] },
    spVersionRc_small small, ?_, .inr ⟨rfl, answeredOnce_append inv rfl, rfl, rfl, rfl, rfl⟩⟩
  rw [step_tversion tc pkt kind, handled]
  exact answered

theorem version_accepted (inv : WorkInv conn) (unversioned : NoVersion conn) (kind : tc.type = .tversion)
    (large : iohdrsz < tc.msize) (room : iohdrsz ≤ srv.msize) {dotu : Bool}
    (supported : spVersionDotu srv.dotu (tc.version.bytes pkt) = some dotu)
    (reset : spConnReset srv (conn.accept tc) (min tc.msize srv.msize) dotu = some now) :
    VersionAnswered srv conn tc pkt := by
  obtain ⟨after, fids, msize, mode, sent, alone⟩ := spConnReset_after inv unversioned kind reset
  have assigned : spVersionRc srv (conn.accept tc) tc pkt =
      some (now, some (.created (min tc.msize srv.msize) (if dotu then ver9pu else ver9p)), false) := by
    rw [spVersionRc_large large, spDefaultVersionRc]
    simp only [supported, Option.map_some, reset]
    rw [if_neg (by omega)]
    rfl
  have handled := spVersion_rc srv (conn.accept tc) conn.nextRef tc pkt
  rw [assigned] at handled
  have answered := spRespond_first srv after alone rfl rfl .rversion (by decide)
  refine ⟨now, _, _, { now with workreqs := [], sent := now.sent ++ [(conn.nextRef, .rversion)] },
    assigned, ?_, .inl ⟨_, _, rfl, answeredOnce_append inv (by rw [sent]), Nat.min_le_left _ _,
    Nat.min_le_right _ _, spVersionDotu_implements supported, msize, ?_, fids, rfl⟩⟩
  · rw [step_tversion tc pkt kind, handled]
    exact answered
  · rw [← ver9pu_iff dotu, ← mode]

/-- In every state a connection can reach, a Tversion is answered as it should be exactly when
it is settled: an unsupported version or a server without room leaves `rc` unassigned, and a
request that cannot be given up keeps the reset going for ever. -/
theorem version_answered_iff {tree : Tree} {events : List ConnEvent}
    (ran : run (Spconn.step srv) (spConnCreate srv tree) events = some conn) (tc : Spfcall) (pkt : Packet)
    (kind : tc.type = .tversion) :
    VersionAnswered srv conn tc pkt ↔ VersionSettled srv conn tc pkt := by
  obtain ⟨inv, unversioned⟩ := reachable_workInv ran
  by_cases small : tc.msize ≤ iohdrsz
  · exact iff_of_true (version_refused inv kind small) (.inl small)
  · have large : iohdrsz < tc.msize := by omega
    constructor
    · rintro ⟨now, rc, error, next, assigned, -, reply⟩
      rw [spVersionRc_large large] at assigned
      obtain ⟨⟨mid, made, failed⟩, tried, same⟩ := Option.map_eq_some_iff.mp assigned
      simp only [Prod.mk.injEq] at same
      obtain ⟨-, created, -⟩ := same
      rcases reply with ⟨msize, version, good, -⟩ | ⟨null, -⟩
      · have used : made ≠ .unassigned := by
          intro missing
          rw [good, missing] at created
          simp at created
        obtain ⟨dotu, supported, room, -, -, reset⟩ := spDefaultVersionRc_assigned tried used
        exact .inr ⟨by simp [supported], by omega, (spConnReset_iff inv unversioned kind).mp ⟨mid, reset⟩⟩
      · rw [null] at created
        contradiction
    · rintro (less | ⟨known, room, released⟩)
      · exact absurd less small
      · obtain ⟨dotu, supported⟩ := Option.ne_none_iff_exists'.mp known
        obtain ⟨now, reset⟩ := (spConnReset_iff inv unversioned kind).mpr released
        exact version_accepted inv unversioned kind large room supported reset

-- a Tversion on a fresh connection

def tversion (version : Spstr) : Spfcall := { type := .tversion, msize := 8192, version }

/-- With a read outstanding, which its file gives up. -/
def reading : Spconn Unit Unit Unit where
  pool := true
  fids := [{ ref := 2, fid := 1, refcount := 2, omode := 0, user := some (), aux := some () }]
  workreqs := [{ ref := 4, tag := 7, tcall := { type := .tread, fid := 1, tag := 7, count := 8 }, fid := some 2 }]
  nextRef := 5
  tree := ()
  msize := 8192
  dotu := false
  sent := [(0, .rversion), (1, .rattach), (3, .ropen)]

theorem version_answered_iff_reading :
    VersionAnswered oneFile reading (tversion ⟨6, some 0⟩) ver9p := by
  have reached : run (Spconn.step oneFile) (spConnCreate oneFile ())
      [version, attach 1, .message { type := .topen, fid := 1 } [],
        .message { type := .tread, fid := 1, tag := 7, count := 8 } []] = some reading := rfl
  refine (version_answered_iff reached (tversion ⟨6, some 0⟩) ver9p rfl).mpr (.inr ⟨by decide, by decide, ?_⟩)
  exact ⟨rfl, 2, _, rfl, rfl, rfl, trivial⟩

/-- The three bytes of a version no server has. -/
theorem unsupportedVersion_unassigned :
    ¬ VersionAnswered oneFile (spConnCreate oneFile ()) (tversion ⟨3, some 0⟩) [102, 111, 111] := by
  rintro ⟨now, rc, error, next, -, stepped, -⟩
  have undefined : (Spconn.step oneFile (spConnCreate oneFile ())
      (.message (tversion ⟨3, some 0⟩) [102, 111, 111])).isSome = false := by decide
  rw [stepped] at undefined
  contradiction

end Xcpu.Libspfs
