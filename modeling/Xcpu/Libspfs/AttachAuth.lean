import Xcpu.Libspfs.Closed
import Xcpu.Xcpufs.Auth

/-!
The auth fid of a Tattach (`sp_attach` in `fcall.c` of libspfs, `xauth_checkauth` in `xauth.c`).
The handler is told apart into the steps that the auth fid is for: it is looked at, it is given
to the auth module, and the tree is attached to.
-/

namespace Xcpu.Libspfs

open Xcpu.Keyed Xcpu.Transition

variable {Tree User Aux : Type} (srv : Spsrv Tree User Aux)

inductive AttachStep (User Aux : Type) where
  /-- `afid->type` -/
  | reads (afid : Option (Spfid User Aux))
  | checks (afid : Option (Spfid User Aux)) (accepted : Bool)
  | attaches

def attachUserSteps (conn : Spconn Tree User Aux) (ref : Nat) (afid : Option Nat) (tc : Spfcall)
    (pkt : Packet) : List (AttachStep User Aux) :=
  match srv.finduser conn.tree tc pkt with
  | none => []
  | some user =>
      let conn := conn.setFid ref fun f => { f with user := some user }
      match conn.fidAt ref with
      | none => []
      | some f =>
          let checked := srv.checkauth conn.tree f (afid.bind conn.fidAt) (tc.aname.bytes pkt)
          if srv.auth then
            .checks (afid.bind conn.fidAt) checked.value.isSome ::
              if checked.value = none then [] else [.attaches]
          else [.attaches]

/-- Without an afid the handler looks at the type of one when the client gave NOFID. -/
def attachSteps (conn : Spconn Tree User Aux) (req : Nat) (tc : Spfcall) (pkt : Packet) :
    List (AttachStep User Aux) :=
  match spFidFind conn tc.fid with
  | some _ => []
  | none =>
      match spFidCreate conn tc.fid with
      | (none, _) => []
      | (some ref, conn) =>
          let conn := conn.bindFid req ref
          match spFidFind conn tc.afid with
          | none => if tc.afid ≠ nofid then [] else .reads none :: attachUserSteps srv conn ref none tc pkt
          | some a => attachUserSteps srv (spFidIncref conn a.ref) ref (some a.ref) tc pkt

/-- The steps of a Tattach that comes in now. -/
def tattachSteps (conn : Spconn Tree User Aux) (tc : Spfcall) (pkt : Packet) : List (AttachStep User Aux) :=
  attachSteps srv (conn.accept tc) conn.nextRef tc pkt

def Attached (conn : Spconn Tree User Aux) (tc : Spfcall) (pkt : Packet) : Prop :=
  ∃ now outcome, spAttach srv (conn.accept tc) conn.nextRef tc pkt = some (now, outcome) ∧
    outcome.rc ≠ none ∧ outcome.error = false

/-- A Tattach that leads to `next` is attached with a genuine auth fid only. -/
structure AttachSafe (conn : Spconn Tree User Aux) (tc : Spfcall) (pkt : Packet) (next : Spconn Tree User Aux) :
    Prop where
  genuine : ∀ afid accepted, .checks afid accepted ∈ tattachSteps srv conn tc pkt →
    (afid = none ∧ tc.afid = nofid) ∨ ∃ a, afid = some a ∧ a.type &&& qtauth ≠ 0
  accepted : ∀ before after, tattachSteps srv conn tc pkt = before ++ .attaches :: after → srv.auth →
    ∃ afid, .checks afid true ∈ before
  there : ∀ afid, .reads afid ∈ tattachSteps srv conn tc pkt → afid ≠ none
  kept : ¬ Attached srv conn tc pkt → ∀ a, spFidFind conn tc.afid = some a →
    ∃ b, spFidFind next tc.afid = some b ∧ b.ref = a.ref ∧ b.refcount = a.refcount

/-- The new fid when the callbacks get to see it. -/
def attachFid (conn : Spconn Tree User Aux) (tc : Spfcall) (user : Option User) : Spfid User Aux :=
  { ref := conn.nextRef + 1, fid := tc.fid, refcount := 1, user }

def Spfid.incref (f : Spfid User Aux) : Spfid User Aux := { f with refcount := f.refcount + 1 }

/-- The server knows the user, and its callbacks accept it with this auth fid. -/
def Grants (conn : Spconn Tree User Aux) (tc : Spfcall) (pkt : Packet) (a : Spfid User Aux) : Prop :=
  match srv.finduser conn.tree tc pkt with
  | none => False
  | some user =>
      let checked := srv.checkauth conn.tree (attachFid conn tc user) (some a) (tc.aname.bytes pkt)
      let back := srv.attach (if srv.auth then checked.tree else conn.tree) (attachFid conn tc user) (some a) tc pkt
      ¬ (srv.auth ∧ checked.value = none) ∧ back.value ≠ none ∧ back.error = false

/-- The user is known and has to show an auth fid. -/
def Checks (conn : Spconn Tree User Aux) (tc : Spfcall) (pkt : Packet) : Prop :=
  srv.auth ∧ srv.finduser conn.tree tc pkt ≠ none

/-- A Tattach for a new fid gives the number of another one that exists, and this is an auth fid
if it is asked for. A reference to it is not the only one, unless the Tattach succeeds. -/
def AttachFit (conn : Spconn Tree User Aux) (tc : Spfcall) (pkt : Packet) : Prop :=
  spFidFind conn tc.fid = none → conn.pool →
    if tc.afid = tc.fid then ¬ Checks srv conn tc pkt
    else
      match spFidFind conn tc.afid with
      | none => tc.afid ≠ nofid
      | some a => (Checks srv conn tc pkt → a.type &&& qtauth ≠ 0) ∧
          (a.refcount ≠ 0 ∨ Grants srv conn tc pkt a.incref)

variable {srv} {conn now next : Spconn Tree User Aux} {tc : Spfcall} {pkt : Packet}

theorem setFid_head {n : Spfid User Aux} {rest : List (Spfid User Aux)} (fids : now.fids = n :: rest)
    (new : n.ref ∉ rest.map Spfid.ref) (change : Spfid User Aux → Spfid User Aux) :
    (now.setFid n.ref change).fids = change n :: rest := by
  have others : update Spfid.ref rest n.ref change = rest := update_absent new
  rw [update] at others
  rw [Spconn.setFid, fids, update, List.map_cons, if_pos rfl, others]

theorem fidAt_head {n : Spfid User Aux} {rest : List (Spfid User Aux)} (fids : now.fids = n :: rest) :
    now.fidAt n.ref = some n := by
  rw [Spconn.fidAt, fids, List.find?_cons_of_pos (by simp)]

section Attach

variable {n : Spfid User Aux} {rest : List (Spfid User Aux)} {afid : Option Nat}
  (fids : now.fids = n :: rest) (new : n.ref ∉ rest.map Spfid.ref)

include fids new

theorem spAttachUser_fids :
    ∃ m, (spAttachUser srv now n.ref afid tc pkt).1.fids = m :: rest ∧ m.ref = n.ref ∧ m.fid = n.fid := by
  rw [spAttachUser]
  split
  · exact ⟨n, fids, rfl, rfl⟩
  · rename_i user found
    have named := setFid_head fids new fun f => { f with user := some user }
    dsimp only
    split
    · exact ⟨_, named, rfl, rfl⟩
    · split
      · exact ⟨_, named, rfl, rfl⟩
      · generalize (srv.attach _ _ _ tc pkt) = back
        have called : ((now.setFid n.ref fun f => { f with user := some user }).called n.ref back).fids =
            { n with user := some user, aux := back.aux } :: rest :=
          @setFid_head _ _ _ { now.setFid n.ref (fun f => { f with user := some user }) with tree := back.tree }
            { n with user := some user } rest named new _
        dsimp only
        split
        · exact ⟨_, setFid_head (n := { n with user := some user, aux := back.aux }) called new _, rfl, rfl⟩
        · exact ⟨_, called, rfl, rfl⟩

theorem spAttachUser_granted {a : Spfid User Aux} (shape : n = attachFid conn tc none)
    (tree : now.tree = conn.tree)
    (other : ∀ user, afid.bind (now.setFid n.ref fun f => { f with user := some user }).fidAt = some a) :
    ((spAttachUser srv now n.ref afid tc pkt).2.rc ≠ none ∧ (spAttachUser srv now n.ref afid tc pkt).2.error = false) ↔
      Grants srv conn tc pkt a := by
  rw [spAttachUser, Grants, tree]
  cases found : srv.finduser conn.tree tc pkt with
  | none => simp [Outcome.failed]
  | some user =>
      have here : (now.setFid n.ref fun f => { f with user := some user }).fidAt n.ref =
          some (attachFid conn tc user) := by
        have named := fidAt_head (setFid_head fids new fun f => { f with user := some user })
        rw [shape] at named ⊢
        exact named
      have same : (now.setFid n.ref fun f => { f with user := some user }).tree = conn.tree := tree
      dsimp only
      rw [here, other user]
      dsimp only
      rw [same]
      split
      · rename_i refused
        simp [refused]
      · rename_i passed
        simp only [passed, not_false_eq_true, true_and]
        rfl

theorem attachUserSteps_cases (srv : Spsrv Tree User Aux) (afid : Option Nat) (tc : Spfcall) (pkt : Packet) :
    (srv.finduser now.tree tc pkt = none ∧ attachUserSteps srv now n.ref afid tc pkt = []) ∨
    ∃ user, srv.finduser now.tree tc pkt = some user ∧
      ((srv.auth = false ∧ attachUserSteps srv now n.ref afid tc pkt = [.attaches]) ∨
      ∃ accepted rest, srv.auth = true ∧ attachUserSteps srv now n.ref afid tc pkt =
        .checks (afid.bind (now.setFid n.ref fun f => { f with user := some user }).fidAt) accepted :: rest ∧
        (rest = [] ∨ accepted = true ∧ rest = [.attaches])) := by
  rw [attachUserSteps]
  split
  · rename_i unknown
    exact .inl ⟨unknown, rfl⟩
  · rename_i user found
    refine .inr ⟨user, found, ?_⟩
    dsimp only
    rw [fidAt_head (setFid_head fids new fun f => { f with user := some user })]
    dsimp only
    split
    · rename_i asks
      refine .inr ⟨_, _, asks, rfl, ?_⟩
      split
      · exact .inl rfl
      · rename_i passed
        exact .inr ⟨Option.isSome_iff_ne_none.mpr passed, rfl⟩
    · rename_i free
      exact .inl ⟨by simpa using free, rfl⟩

theorem attachUserSteps_checks (srv : Spsrv Tree User Aux) (afid : Option Nat) (tc : Spfcall) (pkt : Packet)
    {property : Option (Spfid User Aux) → Prop} :
    (∀ a accepted, .checks a accepted ∈ attachUserSteps srv now n.ref afid tc pkt → property a) ↔
      (srv.auth → ∀ user, srv.finduser now.tree tc pkt = some user →
        property (afid.bind (now.setFid n.ref fun f => { f with user := some user }).fidAt)) := by
  rcases attachUserSteps_cases fids new srv afid tc pkt with
    ⟨unknown, steps⟩ | ⟨user, known, ⟨free, steps⟩ | ⟨accepted, rest, asks, steps, later⟩⟩
  · rw [steps]
    simp [unknown]
  · rw [steps]
    simp [free]
  · rw [steps]
    constructor
    · intro checked _ other same
      obtain rfl := Option.some.inj (known.symm.trans same)
      exact checked _ accepted List.mem_cons_self
    · intro holds a other member
      rcases List.mem_cons.mp member with same | more
      · cases same
        exact holds asks user known
      · rcases later with rfl | ⟨-, rfl⟩
        · cases more
        · cases List.mem_singleton.mp more

theorem attachUserSteps_accepted (srv : Spsrv Tree User Aux) (afid : Option Nat) (tc : Spfcall) (pkt : Packet)
    (asks : srv.auth) {before after : List (AttachStep User Aux)}
    (steps : attachUserSteps srv now n.ref afid tc pkt = before ++ .attaches :: after) :
    ∃ a, .checks a true ∈ before := by
  rcases attachUserSteps_cases fids new srv afid tc pkt with
    ⟨-, nothing⟩ | ⟨user, -, ⟨free, -⟩ | ⟨accepted, rest, -, asked, later⟩⟩
  · rw [nothing] at steps
    simp at steps
  · simp [free] at asks
  · rw [asked] at steps
    cases before with
    | nil => simp at steps
    | cons first more =>
        obtain ⟨rfl, tail⟩ := List.cons.inj (steps.trans (List.cons_append ..))
        rcases later with rfl | ⟨rfl, rfl⟩
        · simp at tail
        · exact ⟨_, List.mem_cons_self⟩

theorem attachUserSteps_reads (srv : Spsrv Tree User Aux) (afid : Option Nat) (tc : Spfcall) (pkt : Packet)
    {a : Option (Spfid User Aux)} :
    .reads a ∉ attachUserSteps srv now n.ref afid tc pkt := by
  intro member
  rcases attachUserSteps_cases fids new srv afid tc pkt with
    ⟨-, steps⟩ | ⟨user, -, ⟨-, steps⟩ | ⟨accepted, rest, -, steps, rfl | ⟨-, rfl⟩⟩⟩
  · rw [steps] at member
    cases member
  · rw [steps] at member
    cases List.mem_singleton.mp member
  · rw [steps] at member
    cases List.mem_singleton.mp member
  · rw [steps] at member
    simp at member

end Attach

/-- How a Tattach for a new fid starts: the fid is made and bound to the request. -/
def attaching (conn : Spconn Tree User Aux) (tc : Spfcall) : Spconn Tree User Aux :=
  (spFidCreate (conn.accept tc) tc.fid).2.bindFid conn.nextRef (conn.nextRef + 1)

section Fresh

variable (numbered : Numbered conn) (free : spFidFind conn tc.fid = none) (pool : conn.pool = true)

include free pool in
theorem spFidCreate_attaching : spFidCreate (conn.accept tc) tc.fid =
    (some (conn.nextRef + 1), (spFidCreate (conn.accept tc) tc.fid).2) := by
  have both : (conn.accept tc).pool ∧ spFidFind (conn.accept tc) tc.fid = none := ⟨pool, free⟩
  rw [spFidCreate, if_pos both]
  rfl

include numbered in
theorem Numbered.unused {ref : Nat} (later : conn.nextRef ≤ ref) : ref ∉ conn.fids.map Spfid.ref := by
  intro member
  obtain ⟨f, inside, same⟩ := List.mem_map.mp member
  have below := numbered.fresh f inside
  omega

include numbered free pool

theorem attaching_fids : (attaching conn tc).fids = attachFid conn tc none :: conn.fids := by
  have both : (conn.accept tc).pool ∧ spFidFind (conn.accept tc) tc.fid = none := ⟨pool, free⟩
  rw [attaching, spFidCreate, if_pos both]
  exact setFid_head (n := { ref := conn.nextRef + 1, fid := tc.fid }) rfl (numbered.unused (Nat.le_succ _)) _

theorem attaching_find (other : tc.afid ≠ tc.fid) : spFidFind (attaching conn tc) tc.afid = spFidFind conn tc.afid := by
  rw [spFidFind, attaching_fids numbered free pool, List.find?_cons_of_neg]
  · rfl
  · simpa [attachFid] using Ne.symm other

theorem attaching_find_own (own : tc.afid = tc.fid) :
    spFidFind (attaching conn tc) tc.afid = some (attachFid conn tc none) := by
  rw [spFidFind, attaching_fids numbered free pool, List.find?_cons_of_pos]
  simp [attachFid, own]

omit numbered in
theorem spAttach_unknown (srv : Spsrv Tree User Aux) (pkt : Packet)
    (missing : spFidFind (attaching conn tc) tc.afid = none) :
    spAttach srv (conn.accept tc) conn.nextRef tc pkt =
      if tc.afid ≠ nofid then some (attaching conn tc, .failed)
      else some (spAttachUser srv (attaching conn tc) (conn.nextRef + 1) none tc pkt) := by
  have unused : spFidFind (conn.accept tc) tc.fid = none := free
  rw [attaching] at missing
  rw [spAttach, unused, spFidCreate_attaching free pool]
  dsimp only
  rw [missing]
  rfl

omit numbered in
theorem spAttach_known (srv : Spsrv Tree User Aux) (pkt : Packet)
    {a : Spfid User Aux} (found : spFidFind (attaching conn tc) tc.afid = some a) :
    spAttach srv (conn.accept tc) conn.nextRef tc pkt =
      (spFidDecref srv (spAttachUser srv (spFidIncref (attaching conn tc) a.ref) (conn.nextRef + 1) (some a.ref) tc pkt).1
        a.ref).map (·, (spAttachUser srv (spFidIncref (attaching conn tc) a.ref) (conn.nextRef + 1) (some a.ref) tc pkt).2) := by
  have unused : spFidFind (conn.accept tc) tc.fid = none := free
  rw [attaching] at found
  rw [spAttach, unused, spFidCreate_attaching free pool]
  dsimp only
  rw [found]
  rfl

omit numbered in
theorem tattachSteps_unknown (srv : Spsrv Tree User Aux) (pkt : Packet)
    (missing : spFidFind (attaching conn tc) tc.afid = none) :
    tattachSteps srv conn tc pkt =
      if tc.afid ≠ nofid then []
      else .reads none :: attachUserSteps srv (attaching conn tc) (conn.nextRef + 1) none tc pkt := by
  have unused : spFidFind (conn.accept tc) tc.fid = none := free
  rw [attaching] at missing
  rw [tattachSteps, attachSteps, unused, spFidCreate_attaching free pool]
  dsimp only
  rw [missing]
  rfl

omit numbered in
theorem tattachSteps_known (srv : Spsrv Tree User Aux) (pkt : Packet)
    {a : Spfid User Aux} (found : spFidFind (attaching conn tc) tc.afid = some a) :
    tattachSteps srv conn tc pkt =
      attachUserSteps srv (spFidIncref (attaching conn tc) a.ref) (conn.nextRef + 1) (some a.ref) tc pkt := by
  have unused : spFidFind (conn.accept tc) tc.fid = none := free
  rw [attaching] at found
  rw [tattachSteps, attachSteps, unused, spFidCreate_attaching free pool]
  dsimp only
  rw [found]
  rfl

end Fresh

theorem attached_queue {ref : Nat} {back : Back Tree Aux Rcall} :
    SameQueue now (if back.value.isSome then spFidIncref (now.called ref back) ref else now.called ref back) := by
  split
  · exact ⟨rfl, rfl, rfl, rfl, rfl, rfl⟩
  · exact ⟨rfl, rfl, rfl, rfl, rfl, rfl⟩

theorem spAttachUser_queue {ref : Nat} {afid : Option Nat} : SameQueue now (spAttachUser srv now ref afid tc pkt).1 := by
  rw [spAttachUser]
  split
  · exact .refl now
  · dsimp only
    split
    · exact setFid_queue _ _
    · split
      · exact ⟨rfl, rfl, rfl, rfl, rfl, rfl⟩
      · exact (setFid_queue _ _).trans attached_queue

/-- The fid is in the table with this many references. -/
def Holds (conn : Spconn Tree User Aux) (f : Spfid User Aux) (count : Int) : Prop :=
  ∃ g ∈ conn.fids, g.ref = f.ref ∧ g.fid = f.fid ∧ g.refcount = count

section Holds

variable {f : Spfid User Aux} {count : Int} {ref : Nat}

theorem Holds.find (holds : Holds now f count) (numbered : Numbered now) :
    ∃ b, spFidFind now f.fid = some b ∧ b.ref = f.ref ∧ b.refcount = count := by
  obtain ⟨g, inside, same, number, counted⟩ := holds
  exact ⟨g, find?_of_mem numbered.numbers inside number, same, counted⟩

theorem Holds.setFid_other (holds : Holds now f count) (other : ref ≠ f.ref)
    (change : Spfid User Aux → Spfid User Aux) : Holds (now.setFid ref change) f count := by
  obtain ⟨g, inside, same, more⟩ := holds
  refine ⟨g, mem_update.mpr ⟨g, inside, ?_⟩, same, more⟩
  rw [if_neg fun here => other (here.symm.trans same)]

theorem Holds.decref_other (holds : Holds now f count) (numbered : Numbered now) (other : ref ≠ f.ref)
    (dropped : spFidDecref srv now ref = some next) : Holds next f count := by
  rw [spFidDecref] at dropped
  split at dropped
  · cases dropped
  · rename_i h found
    obtain ⟨member, same⟩ := find?_key found
    split at dropped
    · obtain rfl := Option.some.inj dropped
      rw [spFidDestroy, find?_of_mem numbered.numbers member rfl]
      obtain ⟨g, inside, here, more⟩ := holds
      refine ⟨g, (mem_eraseP numbered.numbers).mpr ⟨inside, fun number => ?_⟩, here, more⟩
      have one := List.inj_on_of_nodup_map numbered.numbers inside member number
      exact other (same.symm.trans (one ▸ here))
    · exact Option.some.inj dropped ▸ holds.setFid_other other _

theorem Holds.decref_self (holds : Holds now f count) (numbered : Numbered now)
    (dropped : spFidDecref srv now f.ref = some next) :
    (count = 1 ∧ ∀ g ∈ next.fids, g.ref ≠ f.ref) ∨ (count ≠ 1 ∧ Holds next f (count - 1)) := by
  obtain ⟨g, inside, here, number, counted⟩ := holds
  have found : now.fidAt f.ref = some g := find?_of_mem numbered.refs inside here
  rw [spFidDecref, found] at dropped
  dsimp only at dropped
  split at dropped
  · rename_i last
    refine .inl ⟨by omega, ?_⟩
    obtain rfl := Option.some.inj dropped
    rw [spFidDestroy, find?_of_mem numbered.numbers inside rfl]
    intro h member same
    obtain ⟨before, apart⟩ := (mem_eraseP numbered.numbers).mp member
    exact apart (congrArg Spfid.fid (List.inj_on_of_nodup_map numbered.refs before inside (same.trans here.symm)))
  · refine .inr ⟨by omega, ?_⟩
    obtain rfl := Option.some.inj dropped
    refine ⟨_, mem_update.mpr ⟨g, inside, rfl⟩, ?_⟩
    rw [if_pos here]
    exact ⟨here, number, by rw [counted]⟩

theorem Holds.relabel (holds : Holds now f count) {change : Spfid User Aux → Spfid User Aux}
    (same : ∀ g, (change g).ref = g.ref ∧ (change g).fid = g.fid ∧ (change g).refcount = g.refcount) :
    Holds (now.setFid ref change) f count := by
  obtain ⟨g, inside, here, number, counted⟩ := holds
  refine ⟨_, mem_update.mpr ⟨g, inside, rfl⟩, ?_⟩
  split
  · obtain ⟨same_ref, same_fid, same_count⟩ := same g
    exact ⟨same_ref.trans here, same_fid.trans number, same_count.trans counted⟩
  · exact ⟨here, number, counted⟩

theorem Holds.respond {rc : Option Rcall} {r : Spreq} (holds : Holds now f count) (numbered : Numbered now)
    (waiting : now.reqAt ref = some r) (other : ∀ fid, r.fid = some fid → fid ≠ f.ref)
    (responded : spRespond srv now ref rc = some next) : Holds next f count := by
  obtain ⟨req, chain, noted, dropped, found, -, note, drop, rfl⟩ := spRespond_cases responded
  obtain rfl := Option.some.inj (waiting.symm.trans found)
  have marked : Holds noted f count ∧ Numbered noted := by
    have filtered : Numbered { now with workreqs := now.workreqs.filter (·.ref ∉ ref :: chain) } :=
      ⟨numbered.refs, numbered.numbers, numbered.fresh⟩
    rcases noteDiroffset_cases note with rfl | ⟨here, offset, rfl⟩
    · exact ⟨holds, filtered⟩
    · exact ⟨holds.relabel fun _ => ⟨rfl, rfl, rfl⟩, (@Numbered.closed _ _ _ srv).setFid filtered fun _ => ⟨rfl, rfl⟩⟩
  cases held : r.fid with
  | none =>
      rw [held] at drop
      exact Option.some.inj drop ▸ marked.1
  | some fid =>
      rw [held] at drop
      have gone : Holds dropped f count := marked.1.decref_other marked.2 (other fid held) drop
      exact gone

theorem Holds.answered {outcome : Outcome} {r : Spreq} (holds : Holds now f count) (numbered : Numbered now)
    (waiting : now.reqAt ref = some r) (other : ∀ fid, r.fid = some fid → fid ≠ f.ref)
    (answered : answerOutcome srv now ref outcome = some next) : Holds next f count := by
  rcases answerOutcome_cases answered with ⟨-, -, rfl⟩ | ⟨rc, responded, -⟩
  · exact holds
  · exact holds.respond numbered waiting other responded

end Holds

theorem gone_closed {ref : Nat} :
    Closed srv fun conn : Spconn Tree User Aux => (∀ g ∈ conn.fids, g.ref ≠ ref) ∧ ref < conn.nextRef where
  same gone fids later := ⟨fun g member => gone.1 g (fids ▸ member), Nat.lt_of_lt_of_le gone.2 later⟩
  setFid gone same := by
    refine ⟨fun g member => ?_, gone.2⟩
    obtain ⟨old, inside, rfl⟩ := mem_update.mp member
    split
    · rw [(same old).1]
      exact gone.1 old inside
    · exact gone.1 old inside
  created := by
    intro conn fid result next gone created
    rw [spFidCreate] at created
    split at created
    · obtain ⟨-, rfl⟩ := Prod.mk.inj created
      refine ⟨fun g member => ?_, Nat.lt_succ_of_lt gone.2⟩
      rcases List.mem_cons.mp member with rfl | inside
      · exact (Nat.ne_of_lt gone.2).symm
      · exact gone.1 g inside
    · obtain ⟨-, rfl⟩ := Prod.mk.inj created
      exact gone
  destroyed gone := by
    rw [spFidDestroy]
    split
    · exact ⟨fun g member => gone.1 g (List.mem_of_mem_eraseP member), gone.2⟩
    · exact gone
  cleared gone none later := by
    refine ⟨fun g member => ?_, Nat.lt_of_lt_of_le gone.2 later⟩
    rw [none] at member
    cases member

section Cases

variable (numbered : Numbered conn) {outcome : Outcome}

theorem accept_reqAt : (conn.accept tc).reqAt conn.nextRef = some { ref := conn.nextRef, tag := tc.tag, tcall := tc } := by
  rw [Spconn.reqAt, Spconn.accept, List.find?_cons_of_pos (by simp)]

theorem attaching_reqAt : ∃ r, (attaching conn tc).reqAt conn.nextRef = some r ∧ r.fid = some (conn.nextRef + 1) := by
  have listed : (spFidCreate (conn.accept tc) tc.fid).2.workreqs =
      { ref := conn.nextRef, tag := tc.tag, tcall := tc } :: conn.workreqs := by
    rw [spFidCreate]
    split
    · rfl
    · rfl
  refine ⟨{ ref := conn.nextRef, tag := tc.tag, tcall := tc, fid := some (conn.nextRef + 1) }, ?_, rfl⟩
  have same : (attaching conn tc).workreqs =
      update Spreq.ref (spFidCreate (conn.accept tc) tc.fid).2.workreqs conn.nextRef
        fun r => { r with fid := some (conn.nextRef + 1) } := rfl
  rw [Spconn.reqAt, same, listed, update, List.map_cons, if_pos rfl, List.find?_cons_of_pos (by simp)]

include numbered

theorem AttachSafe.unmade (steps : tattachSteps srv conn tc pkt = [])
    (answered : answerOutcome srv (conn.accept tc) conn.nextRef outcome = some next) :
    AttachSafe srv conn tc pkt next := by
  refine ⟨fun a accepted member => ?_, fun before after same => ?_, fun a member => ?_, fun _ a found => ?_⟩
  · rw [steps] at member
    cases member
  · rw [steps] at same
    simp at same
  · rw [steps] at member
    cases member
  · obtain ⟨member, same⟩ := find?_key found
    have accepted : Numbered (conn.accept tc) := (@Numbered.closed _ _ _ srv).same numbered rfl (Nat.le_succ _)
    have holds : Holds (conn.accept tc) a a.refcount := ⟨a, member, rfl, rfl, rfl⟩
    have kept := holds.answered accepted accept_reqAt (fun _ held => nomatch held) answered
    exact same ▸ kept.find ((@Numbered.closed _ _ _ srv).answered accepted answered)

variable (free : spFidFind conn tc.fid = none) (pool : conn.pool = true)

include free pool

theorem attaching_incref {a : Spfid User Aux} (member : a ∈ conn.fids) :
    (spFidIncref (attaching conn tc) a.ref).fids =
      attachFid conn tc none :: update Spfid.ref conn.fids a.ref Spfid.incref := by
  have below := numbered.fresh a member
  rw [spFidIncref, Spconn.setFid, attaching_fids numbered free pool, update, List.map_cons, if_neg]
  · rfl
  · simp only [attachFid]
    omega

omit free pool in
theorem update_unused {ref : Nat} {change : Spfid User Aux → Spfid User Aux}
    (same : ∀ f, (change f).ref = f.ref) :
    (attachFid conn tc none).ref ∉ (update Spfid.ref conn.fids ref change).map Spfid.ref := by
  rw [update_map _ same]
  exact numbered.unused (Nat.le_succ _)

theorem attaching_seen {a : Spfid User Aux} (member : a ∈ conn.fids) (user : User) :
    (some a.ref).bind ((spFidIncref (attaching conn tc) a.ref).setFid (attachFid conn tc none).ref
      fun f => { f with user := some user }).fidAt = some a.incref := by
  have table := setFid_head (attaching_incref numbered free pool member)
    (update_unused numbered fun _ => rfl) fun f => { f with user := some user }
  have below := numbered.fresh a member
  have apart : ¬ (attachFid conn tc none).ref = a.ref := by
    simp only [attachFid]
    omega
  rw [Option.bind_some, Spconn.fidAt, table, List.find?_cons_of_neg (by simpa using apart),
    @find?_update _ Spfid.ref conn.fids a.ref Spfid.incref fun _ => rfl, find?_of_mem numbered.refs member rfl, Option.map_some, if_pos rfl]

omit numbered in
theorem attaching_tree : (attaching conn tc).tree = conn.tree := by
  rw [attaching, spFidCreate, if_pos ⟨show (conn.accept tc).pool from pool, free⟩]
  rfl

variable (srv pkt)

omit numbered in
theorem steps_safe_iff {a : Spfid User Aux} {rest : List (Spfid User Aux)} {other : User → Spfid User Aux}
    {n : Spfid User Aux} (found : spFidFind (attaching conn tc) tc.afid = some a)
    (table : (spFidIncref (attaching conn tc) a.ref).fids = n :: rest) (new : n.ref ∉ rest.map Spfid.ref)
    (own : n.ref = conn.nextRef + 1)
    (seen : ∀ user, (some a.ref).bind ((spFidIncref (attaching conn tc) a.ref).setFid n.ref
      fun f => { f with user := some user }).fidAt = some (other user)) {type : Nat} (types : ∀ user, (other user).type = type) :
    AttachSafe srv conn tc pkt next ↔ (Checks srv conn tc pkt → type &&& qtauth ≠ 0) ∧
      (¬ Attached srv conn tc pkt → ∀ a, spFidFind conn tc.afid = some a →
        ∃ b, spFidFind next tc.afid = some b ∧ b.ref = a.ref ∧ b.refcount = a.refcount) := by
  have steps := tattachSteps_known free pool srv pkt found
  rw [← own] at steps
  have tree : (spFidIncref (attaching conn tc) a.ref).tree = conn.tree := attaching_tree free pool
  have checks := @attachUserSteps_checks _ _ _ _ _ _ table new srv (some a.ref) tc pkt
    fun afid => (afid = none ∧ tc.afid = nofid) ∨ ∃ a, afid = some a ∧ a.type &&& qtauth ≠ 0
  rw [← steps, tree] at checks
  constructor
  · intro safe
    refine ⟨fun ⟨asks, known⟩ => ?_, safe.kept⟩
    obtain ⟨user, known⟩ := Option.ne_none_iff_exists'.mp known
    rcases checks.mp safe.genuine asks user known with ⟨none, -⟩ | ⟨b, same, auth⟩
    · rw [seen user] at none
      cases none
    · rw [seen user] at same
      rw [← types user, Option.some.inj same]
      exact auth
  · intro ⟨auth, kept⟩
    refine ⟨checks.mpr fun asks user known => ?_, fun before after same asks => ?_, fun afid member => ?_, kept⟩
    · refine .inr ⟨other user, seen user, ?_⟩
      rw [types user]
      exact auth ⟨asks, by simp [known]⟩
    · rw [steps] at same
      exact attachUserSteps_accepted table new srv _ tc pkt asks same
    · rw [steps] at member
      exact (attachUserSteps_reads table new srv _ tc pkt member).elim

/-- With a fid as its own auth fid, nothing but the auth module gets in the way. -/
theorem attachSafe_own (own : tc.afid = tc.fid) : AttachSafe srv conn tc pkt next ↔ ¬ Checks srv conn tc pkt := by
  have table : (spFidIncref (attaching conn tc) (attachFid conn tc none).ref).fids =
      (attachFid conn tc none).incref :: conn.fids :=
    setFid_head (attaching_fids numbered free pool) (numbered.unused (Nat.le_succ _)) _
  have unused : (attachFid conn tc none).incref.ref ∉ conn.fids.map Spfid.ref := numbered.unused (Nat.le_succ _)
  have given (user : User) : (some (attachFid conn tc none).ref).bind
      ((spFidIncref (attaching conn tc) (attachFid conn tc none).ref).setFid (attachFid conn tc none).incref.ref
        fun f => { f with user := some user }).fidAt = some (attachFid conn tc user).incref :=
    fidAt_head (setFid_head table unused fun f => { f with user := some user })
  rw [steps_safe_iff srv pkt free pool (attaching_find_own numbered free pool own) table unused rfl given
    fun _ => rfl, own, free]
  simp

omit numbered in
/-- Without an afid the handler looks at one all the same, unless the client names an unknown fid. -/
theorem attachSafe_unknown (missing : spFidFind (attaching conn tc) tc.afid = none)
    (absent : spFidFind conn tc.afid = none) : AttachSafe srv conn tc pkt next ↔ tc.afid ≠ nofid := by
  have steps := tattachSteps_unknown free pool srv pkt missing
  constructor
  · intro safe given
    rw [if_neg (not_not.mpr given)] at steps
    exact safe.there none (steps ▸ List.mem_cons_self) rfl
  · intro other
    rw [if_pos other] at steps
    refine ⟨fun a accepted member => ?_, fun before after same => ?_, fun a member => ?_, fun _ a found => ?_⟩
    · rw [steps] at member
      cases member
    · rw [steps] at same
      simp at same
    · rw [steps] at member
      cases member
    · rw [absent] at found
      cases found

theorem spAttach_granted {a : Spfid User Aux} (member : a ∈ conn.fids) :
    ((spAttachUser srv (spFidIncref (attaching conn tc) a.ref) (conn.nextRef + 1) (some a.ref) tc pkt).2.rc ≠ none ∧
      (spAttachUser srv (spFidIncref (attaching conn tc) a.ref) (conn.nextRef + 1) (some a.ref) tc pkt).2.error = false) ↔
    Grants srv conn tc pkt a.incref :=
  spAttachUser_granted (attaching_incref numbered free pool member) (update_unused numbered fun _ => rfl) rfl
    (attaching_tree free pool) (attaching_seen numbered free pool member)

theorem spAttachUser_holds {a : Spfid User Aux} (member : a ∈ conn.fids) :
    Holds (spAttachUser srv (spFidIncref (attaching conn tc) a.ref) (conn.nextRef + 1) (some a.ref) tc pkt).1 a
      (a.refcount + 1) := by
  have table := attaching_incref numbered free pool member
  have unused := @update_unused _ _ _ conn tc numbered a.ref Spfid.incref fun _ => rfl
  obtain ⟨m, fids, -⟩ := @spAttachUser_fids _ _ _ srv _ tc pkt _ _ (some a.ref) table unused
  have listed : a.incref ∈ update Spfid.ref conn.fids a.ref Spfid.incref :=
    mem_update.mpr ⟨a, member, (if_pos rfl).symm⟩
  refine ⟨a.incref, ?_, rfl, rfl, rfl⟩
  rw [show (attachFid conn tc (none : Option User)).ref = conn.nextRef + 1 from rfl] at fids
  rw [fids]
  exact List.mem_cons_of_mem _ listed

omit numbered free pool in
theorem decref_kept_iff {last mid : Spconn Tree User Aux} {a : Spfid User Aux} {outcome : Outcome} (numbered : Numbered last)
    (holds : Holds last a (a.refcount + 1)) (queue : last.workreqs = (attaching conn tc).workreqs)
    (below : a.ref < conn.nextRef) (dropped : spFidDecref srv last a.ref = some mid)
    (answered : answerOutcome srv mid conn.nextRef outcome = some next) :
    (∃ b, spFidFind next a.fid = some b ∧ b.ref = a.ref ∧ b.refcount = a.refcount) ↔ a.refcount ≠ 0 := by
  have used : a.ref < last.nextRef := by
    obtain ⟨g, inside, here, -⟩ := holds
    exact here ▸ numbered.fresh g inside
  have kept : Numbered mid := Numbered.closed.decref numbered dropped
  have queues := spFidDecref_queue dropped
  rcases holds.decref_self numbered dropped with ⟨last, gone⟩ | ⟨more, left⟩
  · have away := gone_closed.answered ⟨gone, queues.nextRef ▸ used⟩ answered
    constructor
    · rintro ⟨b, found, same, -⟩
      exact (away.1 b (find?_key found).1 same).elim
    · intro some
      omega
  · obtain ⟨r, waiting, bound⟩ := @attaching_reqAt _ _ _ conn tc
    have waits : mid.reqAt conn.nextRef = some r := by
      rw [Spconn.reqAt, queues.workreqs, queue]
      exact waiting
    have stays := left.answered kept waits (fun fid held => by rw [bound] at held; cases held; omega) answered
    obtain ⟨b, found, same, count⟩ := stays.find (Numbered.closed.answered kept answered)
    constructor
    · intro _ none
      omega
    · intro _
      exact ⟨b, found, same, by omega⟩

theorem attachSafe_made {outcome : Outcome}
    (did : spAttach srv (conn.accept tc) conn.nextRef tc pkt = some (now, outcome))
    (answered : answerOutcome srv now conn.nextRef outcome = some next) :
    AttachSafe srv conn tc pkt next ↔ AttachFit srv conn tc pkt := by
  rw [AttachFit]
  simp only [free, pool, true_implies]
  by_cases own : tc.afid = tc.fid
  · rw [if_pos own]
    exact attachSafe_own srv pkt numbered free pool own
  · rw [if_neg own]
    have same := attaching_find numbered free pool own
    cases known : spFidFind conn tc.afid with
    | none => exact attachSafe_unknown srv pkt free pool (same.trans known) known
    | some a =>
        have found := same.trans known
        obtain ⟨member, number⟩ := find?_key known
        rw [steps_safe_iff srv pkt free pool found (attaching_incref numbered free pool member)
          (update_unused numbered fun _ => rfl) rfl (fun user => attaching_seen numbered free pool member user)
          fun _ => rfl]
        have attached : Attached srv conn tc pkt ↔ outcome.rc ≠ none ∧ outcome.error = false := by
          constructor
          · rintro ⟨other, reply, ran, accepted⟩
            obtain ⟨-, rfl⟩ := Prod.mk.inj (Option.some.inj (did.symm.trans ran))
            exact accepted
          · intro accepted
            exact ⟨now, outcome, did, accepted⟩
        rw [spAttach_known free pool srv pkt found] at did
        obtain ⟨mid, dropped, here⟩ := Option.map_eq_some_iff.mp did
        obtain ⟨rfl, rfl⟩ := Prod.mk.inj here
        rw [spAttach_granted srv pkt numbered free pool member] at attached
        have closed : Closed srv Numbered := Numbered.closed
        have accepted : Numbered (conn.accept tc) := closed.same numbered rfl (Nat.le_succ _)
        have start : Numbered (spFidIncref (attaching conn tc) a.ref) :=
          closed.incref (closed.bindFid (closed.created accepted (spFidCreate_attaching free pool)))
        have kept := decref_kept_iff srv (Numbered.closed.spAttachUser start)
          (spAttachUser_holds srv pkt numbered free pool member) (spAttachUser_queue).workreqs
          (numbered.fresh a member) dropped answered
        rw [number] at kept
        simp only [known, Option.some.injEq, forall_eq', kept, attached]
        exact and_congr Iff.rfl or_iff_not_imp_right.symm

end Cases

/-- In every reachable state a Tattach uses a genuine auth fid only, and leaves it as it was when it is
refused, exactly when it fits; without an auth fid `xauth_checkauth` is defined and refuses. -/
theorem attach_safe_iff (tree : Tree) (events : List ConnEvent) (kind : tc.type = .tattach)
    (ran : run (Spconn.step srv) (spConnCreate srv tree) events = some conn)
    (stepped : spSrvProcessFcall srv conn tc pkt = some next) :
    (AttachSafe srv conn tc pkt next ↔ AttachFit srv conn tc pkt) ∧
      ∀ {User Key : Type} [DecidableEq User] (crypto : Xcpufs.Auth.Crypto User Key) (passkeys) (user : User),
        Xcpufs.Auth.xauthCheckauth crypto passkeys user none = some (false, passkeys) := by
  refine ⟨?_, fun crypto passkeys user => rfl⟩
  have numbered := numbered_run ran
  obtain ⟨now, outcome, handled, answered⟩ := spSrvProcessFcall_cases stepped
  have did : spAttach srv (conn.accept tc) conn.nextRef tc pkt = some (now, outcome) := by
    rw [kind] at handled
    exact Option.some.inj handled
  cases used : spFidFind conn tc.fid with
  | some f =>
      have unfree : spFidFind (conn.accept tc) tc.fid = some f := used
      rw [spAttach, unfree] at did
      obtain ⟨rfl, rfl⟩ := Prod.mk.inj (Option.some.inj did)
      have steps : tattachSteps srv conn tc pkt = [] := by
        rw [tattachSteps, attachSteps, unfree]
      refine iff_of_true (AttachSafe.unmade numbered steps answered) fun free => ?_
      rw [used] at free
      cases free
  | none =>
      have free : spFidFind (conn.accept tc) tc.fid = none := used
      by_cases pool : conn.pool = true
      · exact attachSafe_made srv pkt numbered used pool did answered
      · have failed : spFidCreate (conn.accept tc) tc.fid = (none, conn.accept tc) := by
          rw [spFidCreate, if_neg fun both => pool both.1]
        rw [spAttach, free, failed] at did
        obtain ⟨rfl, rfl⟩ := Prod.mk.inj (Option.some.inj did)
        have steps : tattachSteps srv conn tc pkt = [] := by
          rw [tattachSteps, attachSteps, free, failed]
        exact iff_of_true (AttachSafe.unmade numbered steps answered) fun _ full => (pool full).elim

/-- A server that asks for auth fids, gives them to everyone and accepts every fid. -/
def asksAuth : Spsrv Unit Unit Unit :=
  { oneFile with auth := true, startauth := fun _ _ _ => ⟨(), some (), some {}, false⟩ }

/-- A session in which fid 1 was attached with the auth fid 5. -/
def authed : List ConnEvent :=
  [version, .message { type := .tauth, afid := 5 } [], .message { type := .tattach, fid := 1, afid := 5 } []]

theorem attach_safe_iff_authed : ∃ conn, run (Spconn.step asksAuth) (spConnCreate asksAuth ()) authed = some conn ∧
    ∃ next, spSrvProcessFcall asksAuth conn { type := .tattach, fid := 2, afid := 5 } [] = some next ∧
      (AttachSafe asksAuth conn { type := .tattach, fid := 2, afid := 5 } [] next ↔
        AttachFit asksAuth conn { type := .tattach, fid := 2, afid := 5 } []) :=
  ⟨_, rfl, _, rfl, (attach_safe_iff () authed rfl rfl rfl).1⟩

/-- The auth module is given the ordinary fid 1, and in a session without one a null fid is looked at. -/
theorem ordinaryAfid_checked :
    (∃ conn, run (Spconn.step asksAuth) (spConnCreate asksAuth ()) authed = some conn ∧
      ∃ next, spSrvProcessFcall asksAuth conn { type := .tattach, fid := 2, afid := 1 } [] = some next ∧
        ¬ AttachSafe asksAuth conn { type := .tattach, fid := 2, afid := 1 } [] next) ∧
    ∃ conn, run (Spconn.step oneFile) (spConnCreate oneFile ()) [version] = some conn ∧
      ∃ next, spSrvProcessFcall oneFile conn { type := .tattach, fid := 1, afid := nofid } [] = some next ∧
        ¬ AttachSafe oneFile conn { type := .tattach, fid := 1, afid := nofid } [] next := by
  constructor
  · refine ⟨_, rfl, _, rfl, fun safe => ?_⟩
    rcases safe.genuine _ true (List.mem_cons_self ..) with ⟨-, given⟩ | ⟨a, same, auth⟩
    · exact absurd given (by decide)
    · obtain rfl := Option.some.inj same
      exact auth rfl
  · refine ⟨_, rfl, _, rfl, fun safe => ?_⟩
    exact safe.there none (List.mem_cons_self ..) rfl

end Xcpu.Libspfs
