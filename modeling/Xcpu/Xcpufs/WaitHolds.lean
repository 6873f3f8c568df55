import Mathlib.Data.List.Perm.Lattice
import Xcpu.Xcpufs.WaitReads

/-!
What keeps a session that reads of `wait` hang on: the references of the fids and the holds of the
session while its reads are answered, and when one of them is given up.
-/

namespace Xcpu.Xcpufs.WaitReads

open Xcpu.Keyed Xcpu.Ledger Xcpu.Transition Xcpu.Xcpufs.Session

/-- The outstanding reads of a fid. -/
def onFid (workreqs : List Waitreq) (fid : Nat) : Nat := workreqs.countP (·.fid == fid)

/-- Each outstanding read refers to its fid. -/
structure FidsFit (fids : List Waitfid) (workreqs : List Waitreq) : Prop where
  distinct : (fids.map Waitfid.fid).Nodup
  counts : ∀ f ∈ fids, (onFid workreqs f.fid : Int) ≤ f.refcount ∧ 0 < f.refcount
  known : ∀ wreq ∈ workreqs, wreq.fid ∈ fids.map Waitfid.fid

/-- What refers to the session. -/
def Server.holds (server : Server) : Nat :=
  server.others + server.fids.length + server.xs.pid.elim 0 fun _ => 1

/-- The session is there, with at least so many holds. A session that lost its last hold while it
was persistent has lost a reference of its directory. -/
structure Alive (xs : Xsession) (holds : Nat) : Prop where
  listed : xs.listed = true
  tree : xs.inTree = true ↔ xs.state ≠ .wiped
  sroot : 0 < xs.sroot ∧ xs.sroot ≤ 1 + if xs.inTree then (sessionFiles.length : Int) else 0
  counted : (holds : Int) ≤ xs.refcount

/-- The session is freed, and nothing refers to it. -/
structure Gone (xs : Xsession) (holds : Nat) : Prop where
  listed : xs.listed = false
  tree : xs.inTree = false
  none : holds = 0

section Fids

variable {fids : List Waitfid} {workreqs : List Waitreq} {wreq : Waitreq} {f : Waitfid}

theorem onFid_cons (workreqs : List Waitreq) (wreq : Waitreq) (fid : Nat) :
    onFid (wreq :: workreqs) fid = onFid workreqs fid + if wreq.fid = fid then 1 else 0 := by
  rw [onFid, onFid, List.countP_cons]
  simp

theorem onFid_erase (fid : Nat) (member : wreq ∈ workreqs) :
    onFid (workreqs.erase wreq) fid + (if wreq.fid = fid then 1 else 0) = onFid workreqs fid := by
  rw [← onFid_cons, onFid, onFid]
  exact (List.perm_cons_erase member).symm.countP_eq _

theorem onFid_erase_le (fid : Nat) (member : wreq ∈ workreqs) :
    onFid (workreqs.erase wreq) fid ≤ onFid workreqs fid := by
  have one := onFid_erase fid member
  omega

theorem decref_keys (fid : Nat) :
    (update Waitfid.fid fids fid fun f => { f with refcount := f.refcount - 1 }).map Waitfid.fid =
      fids.map Waitfid.fid := update_map Waitfid.fid fun _ => rfl

theorem FidsFit.find (fit : FidsFit fids workreqs) (member : wreq ∈ workreqs) :
    ∃ f ∈ fids, f.fid = wreq.fid ∧ fids.find? (·.fid == wreq.fid) = some f := by
  obtain ⟨f, inside, same⟩ := List.mem_map.mp (fit.known wreq member)
  exact ⟨f, inside, same, find?_of_mem fit.distinct inside same⟩

/-- The fids after one reference of a fid is given up. -/
def decrefFids (fids : List Waitfid) (f : Waitfid) : List Waitfid :=
  if f.refcount - 1 = 0 then fids.eraseP (·.fid == f.fid)
  else update Waitfid.fid fids f.fid fun f => { f with refcount := f.refcount - 1 }

theorem length_decrefFids (inside : f ∈ fids) :
    ((decrefFids fids f).length : Int) + (if f.refcount - 1 = 0 then 1 else 0) = fids.length := by
  have nonempty := List.length_pos_of_mem inside
  rw [decrefFids]
  split
  · have shorter : (fids.eraseP (·.fid == f.fid)).length = fids.length - 1 :=
      List.length_eraseP_of_mem inside (by simp)
    omega
  · rw [update, List.length_map]
    omega

theorem FidsFit.decref {rest : List Waitreq} (fit : FidsFit fids workreqs) (inside : f ∈ fids)
    (sub : ∀ r ∈ rest, r ∈ workreqs) (less : ∀ fid, onFid rest fid ≤ onFid workreqs fid)
    (counted : (onFid rest f.fid : Int) ≤ f.refcount - 1) : FidsFit (decrefFids fids f) rest := by
  have here := (fit.counts f inside).2
  rw [decrefFids]
  split
  · refine ⟨fit.distinct.sublist (List.eraseP_sublist.map _), ?_, ?_⟩
    · intro g member
      have before := List.mem_of_mem_eraseP member
      have counts := fit.counts g before
      have fewer := less g.fid
      omega
    · intro r member
      obtain ⟨g, before, same⟩ := List.mem_map.mp (fit.known r (sub r member))
      have last : onFid rest f.fid = 0 := by omega
      have other : r.fid ≠ f.fid := by
        have apart := List.countP_eq_zero.mp last r member
        simpa using apart
      refine List.mem_map.mpr ⟨g, (mem_eraseP fit.distinct).mpr ⟨before, ?_⟩, same⟩
      rw [same]
      exact other
  · refine ⟨by rw [decref_keys]; exact fit.distinct, ?_, ?_⟩
    · intro g member
      obtain ⟨old, before, rfl⟩ := mem_update.mp member
      have counts := fit.counts old before
      have fewer := less old.fid
      split
      · rename_i same
        obtain rfl := List.inj_on_of_nodup_map fit.distinct before inside same
        exact ⟨counted, by dsimp only; omega⟩
      · omega
    · rw [decref_keys]
      exact fun r member => fit.known r (sub r member)

theorem FidsFit.incref (fit : FidsFit fids workreqs) (inside : f ∈ fids) (same : wreq.fid = f.fid) :
    FidsFit (update Waitfid.fid fids f.fid fun f => { f with refcount := f.refcount + 1 }) (wreq :: workreqs) := by
  have keys : (update Waitfid.fid fids f.fid fun f => { f with refcount := f.refcount + 1 }).map Waitfid.fid =
      fids.map Waitfid.fid := update_map Waitfid.fid fun _ => rfl
  refine ⟨by rw [keys]; exact fit.distinct, ?_, ?_⟩
  · intro g member
    obtain ⟨old, before, rfl⟩ := mem_update.mp member
    have counts := fit.counts old before
    have more := onFid_cons workreqs wreq old.fid
    rw [same] at more
    by_cases here : f.fid = old.fid
    · rw [if_pos here] at more
      rw [if_pos here.symm]
      dsimp only
      omega
    · rw [if_neg here] at more
      rw [if_neg (Ne.symm here)]
      omega
  · rw [keys]
    intro r member
    rcases List.mem_cons.mp member with rfl | member
    · rw [same]
      exact List.mem_map_of_mem inside
    · exact fit.known r member

/-- The table refers to a fid when it has a reference that is not a read's. -/
def Tabled (fids : List Waitfid) (workreqs : List Waitreq) (fid : Nat) : Prop :=
  ∃ f ∈ fids, f.fid = fid ∧ (onFid workreqs fid : Int) < f.refcount

theorem Tabled.decref {fid : Nat} (fit : FidsFit fids workreqs) (inside : f ∈ fids) (member : wreq ∈ workreqs)
    (same : f.fid = wreq.fid) (tabled : Tabled fids workreqs fid) :
    Tabled (decrefFids fids f) (workreqs.erase wreq) fid := by
  obtain ⟨g, there, rfl, more⟩ := tabled
  have fewer := onFid_erase_le g.fid member
  rw [decrefFids]
  by_cases here : g.fid = f.fid
  · obtain rfl := List.inj_on_of_nodup_map fit.distinct there inside here
    have one := onFid_erase g.fid member
    rw [if_pos same.symm] at one
    rw [if_neg (by omega)]
    refine ⟨_, mem_update.mpr ⟨g, there, rfl⟩, ?_⟩
    rw [if_pos rfl]
    exact ⟨rfl, by dsimp only; omega⟩
  · split
    · exact ⟨g, (mem_eraseP fit.distinct).mpr ⟨there, here⟩, rfl, by omega⟩
    · refine ⟨_, mem_update.mpr ⟨g, there, rfl⟩, ?_⟩
      rw [if_neg here]
      exact ⟨rfl, by omega⟩

end Fids

section Holds

variable {server : Server} {others holds : Nat} {f : Waitfid} {wreq : Waitreq} {before : List Waitreq}

theorem sessionDecref_more (depth : Nat) (server : Server) (listed : server.xs.listed = true)
    (more : server.xs.refcount ≠ 1) :
    sessionDecref (depth + 1) server =
      some { server with xs := { server.xs with refcount := server.xs.refcount - 1 } } := by
  have left : server.xs.refcount - 1 ≠ 0 := by omega
  rw [sessionDecref, if_pos listed]
  dsimp only
  rw [if_pos left]

theorem fidDecref_eq (decref : Server → Option Server) (server : Server)
    (distinct : (server.fids.map Waitfid.fid).Nodup) (inside : f ∈ server.fids) :
    fidDecref decref server f.fid =
      if f.refcount - 1 = 0 then decref { server with fids := decrefFids server.fids f }
      else some { server with fids := decrefFids server.fids f } := by
  have found : findFid server f.fid = some f := find?_of_mem distinct inside rfl
  rw [fidDecref, found, decrefFids]
  dsimp only
  split <;> rfl

theorem respond_answers (decref : Server → Option Server) (server : Server) (member : wreq ∈ server.workreqs)
    (data : Data) :
    respond decref server wreq (some data) =
      (fidDecref decref { server with workreqs := server.workreqs.erase wreq } wreq.fid).map fun later =>
        { later with answered := (wreq, data) :: later.answered } := by
  rw [respond, if_pos member]
  cases fidDecref decref { server with workreqs := server.workreqs.erase wreq } wreq.fid <;> rfl

theorem respond_flushes (decref : Server → Option Server) (server : Server) (member : wreq ∈ server.workreqs) :
    respond decref server wreq none =
      (fidDecref decref { server with workreqs := server.workreqs.erase wreq } wreq.fid).map fun later =>
        { later with flushed := wreq :: later.flushed } := by
  rw [respond, if_pos member]
  cases fidDecref decref { server with workreqs := server.workreqs.erase wreq } wreq.fid <;> rfl

theorem fidDecref_kept (depth : Nat) (server : Server) (alive : Alive server.xs (server.fids.length + others))
    (kept : 0 < others) (fit : FidsFit server.fids before) (inside : f ∈ server.fids) :
    ∃ refcount, fidDecref (sessionDecref (depth + 1)) server f.fid =
        some { server with fids := decrefFids server.fids f, xs := { server.xs with refcount := refcount } } ∧
      refcount - (decrefFids server.fids f).length = server.xs.refcount - server.fids.length := by
  have counted := alive.counted
  have shorter := length_decrefFids inside
  rw [fidDecref_eq _ server fit.distinct inside]
  split
  · rename_i last
    rw [if_pos last] at shorter
    have nonempty := List.length_pos_of_mem inside
    refine ⟨_, sessionDecref_more depth _ alive.listed (by dsimp only; omega), ?_⟩
    dsimp only
    omega
  · rename_i more
    rw [if_neg more] at shorter
    exact ⟨server.xs.refcount, rfl, by omega⟩

/-- The server after the requests are answered, without the fids that nothing else refers to. -/
def replied (server : Server) (fids : List Waitfid) (refcount : Int) : Server :=
  { server with
    workreqs := []
    answered := (server.workreqs.map fun wreq => (wreq, waitData server.exitstatus wreq)).reverse ++ server.answered
    fids := fids
    xs := { server.xs with refcount := refcount } }

/-- The loop answers all requests, and the fids that the table refers to stay. -/
theorem replyAll_kept (depth : Nat) (reqs : List Waitreq) (alive : Alive server.xs (server.fids.length + others))
    (kept : 0 < others) (all : server.workreqs = reqs) (fit : FidsFit server.fids reqs) :
    ∃ fids refcount, replyAll (sessionDecref (depth + 1)) server reqs = some (replied server fids refcount) ∧
      FidsFit fids [] ∧ refcount - fids.length = server.xs.refcount - server.fids.length ∧
      ∀ fid, Tabled server.fids reqs fid → Tabled fids [] fid := by
  induction reqs generalizing server with
  | nil =>
      refine ⟨server.fids, server.xs.refcount, ?_, fit, rfl, fun fid tabled => tabled⟩
      rw [replyAll, replied, all, List.map_nil, List.reverse_nil, List.nil_append, ← all]
  | cons wreq rest ih =>
      have member : wreq ∈ wreq :: rest := List.mem_cons_self
      have gone : (wreq :: rest).erase wreq = rest := List.erase_cons_head wreq rest
      obtain ⟨f, inside, same, -⟩ := fit.find member
      have counted : (onFid rest f.fid : Int) ≤ f.refcount - 1 := by
        have before := (fit.counts f inside).1
        have one := onFid_erase f.fid member
        rw [if_pos same.symm, gone] at one
        omega
      have fewer := fun fid => onFid_erase_le fid member
      rw [gone] at fewer
      obtain ⟨refcount, dropped, moved⟩ :=
        fidDecref_kept depth { server with workreqs := rest } alive kept fit inside
      have fit' := fit.decref inside (fun r there => List.mem_cons_of_mem wreq there) fewer counted
      let next : Server := { server with
        workreqs := rest
        fids := decrefFids server.fids f
        xs := { server.xs with refcount := refcount }
        answered := (wreq, waitData server.exitstatus wreq) :: server.answered }
      have alive' : Alive next.xs (next.fids.length + others) := by
        refine ⟨alive.listed, alive.tree, alive.sroot, ?_⟩
        have holds := alive.counted
        dsimp only [next] at moved ⊢
        omega
      obtain ⟨fids, refcount', replies, fit'', moved', stays⟩ := ih alive' rfl fit'
      refine ⟨fids, refcount', ?_, fit'', moved'.trans moved, ?_⟩
      · have answered := respond_answers (sessionDecref (depth + 1)) server (all ▸ member)
          (waitData server.exitstatus wreq)
        rw [all, gone, ← same, dropped, Option.map_some] at answered
        rw [replyAll, if_pos alive.listed, answered, Option.bind_eq_bind, Option.bind_some, replies]
        simp [replied, next, all]
      · intro fid tabled
        have tabled' := tabled.decref fit inside member same
        rw [gone] at tabled'
        exact stays fid tabled'

theorem removed (xs : Xsession) (alive : Alive xs holds) (more : sessionFiles.length < xs.sroot)
    (state : xs.state ≠ .wiped) :
    Session.sessionWipe xs = some { xs with state := .wiped, inTree := false, sroot := 1 } := by
  have tree := alive.tree.mpr state
  have sroot := alive.sroot
  rw [if_pos tree] at sroot
  have left : xs.sroot - sessionFiles.length = 1 := by omega
  rw [Session.sessionWipe, if_neg state, sessionRemoveDir, if_pos ⟨tree, more⟩]
  dsimp only
  rw [left]

theorem sessionWipe_kept (depth : Nat) (alive : Alive server.xs (server.fids.length + others)) (kept : 0 < others)
    (all : server.waitreqs = server.workreqs) (fit : FidsFit server.fids server.workreqs)
    (more : sessionFiles.length < server.xs.sroot) (state : server.xs.state ≠ .wiped) :
    ∃ fids refcount, sessionWipe (sessionDecref (depth + 1)) server =
        some { replied server fids refcount with
          waitreqs := [],
          xs := { server.xs with refcount := refcount, state := .wiped, inTree := false, sroot := 1 } } ∧
      FidsFit fids [] ∧ refcount - fids.length = server.xs.refcount - server.fids.length := by
  let wiped : Server := { server with
    xs := { server.xs with state := .wiped, inTree := false, sroot := 1 }, waitreqs := [] }
  have alive' : Alive wiped.xs (wiped.fids.length + others) :=
    ⟨alive.listed, by simp [wiped], by simp [wiped], alive.counted⟩
  obtain ⟨fids, refcount, replies, fit', moved, -⟩ := replyAll_kept depth server.workreqs alive' kept rfl fit
  refine ⟨fids, refcount, ?_, fit', moved⟩
  rw [sessionWipe, if_neg state, removed server.xs alive more state, Option.bind_eq_bind, Option.bind_some, all]
  exact replies

/-- The last hold may be given up: the directory has the references that this takes. -/
def LastFits (xs : Xsession) : Prop :=
  xs.state = .wiped ∨ if xs.mode = .normal then sessionFiles.length < xs.sroot else 1 < xs.sroot

/-- What giving up a hold leaves of the session. -/
structure Drops (xs after : Xsession) (holds : Nat) (workreqs : List Waitreq) : Prop where
  session : Alive after holds ∨ Gone after holds
  pid : after.pid = xs.pid
  state : after.state = xs.state ∨ after.state = .wiped ∧ workreqs = []

theorem sessionWipe_idle (decref : Server → Option Server) (server : Server) (idle : server.waitreqs = []) :
    sessionWipe decref server = (Session.sessionWipe server.xs).map fun xs => { server with xs } := by
  rw [sessionWipe]
  split
  · rename_i wiped
    rw [Session.sessionWipe, if_pos wiped]
    rfl
  · cases Session.sessionWipe server.xs <;> simp [replyAll, idle]

theorem gone_of_wiped {xs : Xsession} (tree : xs.inTree = false) (sroot : xs.sroot = 1) :
    Gone { srootDecref xs with released := xs.released + 1 } 0 := by
  refine ⟨?_, tree, rfl⟩
  rw [srootDecref, sroot]
  rfl

theorem decref_last (alive : Alive server.xs 1) (last : server.xs.refcount = 1) (fits : LastFits server.xs)
    (resting : server.xs.state ≠ .running) (idle : server.waitreqs = []) (none : server.workreqs = []) :
    ∃ xs, decref server = some { server with xs } ∧ Drops server.xs xs 0 server.workreqs := by
  have zero : server.xs.refcount - 1 = 0 := by omega
  have tree := alive.tree
  have sroot := alive.sroot
  let left : Server := { server with xs := { server.xs with refcount := server.xs.refcount - 1 } }
  have alive' : Alive left.xs 0 := ⟨alive.listed, alive.tree, alive.sroot, by dsimp only [left]; omega⟩
  rw [decref, sessionDecref, if_pos alive.listed]
  dsimp only
  rw [if_neg (not_not.mpr zero)]
  by_cases wiped : server.xs.state = .wiped
  · have outside : server.xs.inTree = false := by
      rw [← Bool.not_eq_true, tree]
      exact not_not.mpr wiped
    rw [outside, if_neg Bool.false_ne_true] at sroot
    have one : server.xs.sroot = 1 := by omega
    have wipe := sessionWipe_idle (sessionDecref 1) left idle
    rw [Session.sessionWipe, if_pos wiped, Option.map_some] at wipe
    refine ⟨{ srootDecref left.xs with released := left.xs.released + 1 }, ?_, ?_⟩
    · split
      · rw [wipe]
        rfl
      · rfl
    · exact ⟨.inr (gone_of_wiped outside one), rfl, .inl rfl⟩
  · have inside := tree.mpr wiped
    have room := (or_iff_right wiped).mp fits
    rw [if_pos inside] at sroot
    split at room
    · rename_i normal
      have wipe := sessionWipe_idle (sessionDecref 1) left idle
      rw [removed left.xs alive' room wiped, Option.map_some] at wipe
      rw [if_pos ⟨normal, resting⟩, wipe]
      exact ⟨_, rfl, .inr (gone_of_wiped rfl rfl), rfl, .inr ⟨rfl, none⟩⟩
    · rename_i persistent
      rw [if_neg fun both => persistent both.1]
      have directory : 0 < server.xs.sroot - 1 ∧
          server.xs.sroot - 1 ≤ 1 + if server.xs.inTree then (sessionFiles.length : Int) else 0 := by
        rw [if_pos inside]
        omega
      refine ⟨_, rfl, .inl ⟨?_, tree, directory, alive'.counted⟩, rfl, .inl rfl⟩
      exact decide_eq_true (Int.ne_of_gt directory.1)

theorem decref_fits (server : Server) (alive : Alive server.xs (server.holds + 1))
    (fit : FidsFit server.fids server.workreqs) (fits : server.xs.refcount = 1 → LastFits server.xs)
    (running : server.xs.state = .running → server.xs.pid ≠ none) (all : server.waitreqs = server.workreqs) :
    ∃ xs, decref server = some { server with xs } ∧ Drops server.xs xs server.holds server.workreqs := by
  have counted := alive.counted
  by_cases last : server.xs.refcount = 1
  · have none : server.holds = 0 := by omega
    have parts := none
    rw [Server.holds] at parts
    have ended : server.xs.pid = .none := by
      cases process : server.xs.pid with
      | none => rfl
      | some pid =>
          rw [process, Option.elim_some] at parts
          omega
    have empty : server.workreqs = [] := by
      rw [List.eq_nil_iff_forall_not_mem]
      intro wreq member
      obtain ⟨f, inside, -⟩ := fit.find member
      have some := List.length_pos_of_mem inside
      omega
    rw [none] at alive ⊢
    exact decref_last alive last (fits last) (fun state => running state ended) (all.trans empty) empty
  · have kept : (server.holds : Int) ≤ server.xs.refcount - 1 := by omega
    exact ⟨_, sessionDecref_more 1 server alive.listed last,
      .inl ⟨alive.listed, alive.tree, alive.sroot, kept⟩, rfl, .inl rfl⟩

end Holds

end Xcpu.Xcpufs.WaitReads
