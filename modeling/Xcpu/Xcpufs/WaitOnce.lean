import Xcpu.Xcpufs.WaitHolds

/-!
Each read of `wait` is answered once, by the exit of the process, by a wipe or by its flush, as long
as no fid is clunked again while reads keep it, and the session's directory has the references that
a wipe of it takes.
-/

namespace Xcpu.Xcpufs.WaitReads

open Xcpu.Keyed Xcpu.Ledger Xcpu.Transition Xcpu.Xcpufs.Session

def Server.book (server : Server) : Book Waitreq :=
  ⟨server.workreqs, server.answered.map Prod.fst, server.flushed, server.next⟩

/-- Each read stands in one place, once; those not answered are in the list of the session, which
waits for an exit that can still come. -/
structure Sound (server : Server) : Prop where
  settled : server.book.Settled Waitreq.number
  all : server.waitreqs = server.workreqs
  waits : server.xs.state = .finished ∨ server.xs.state = .wiped → server.waitreqs = []

structure Inv (server : Server) : Prop where
  session : Alive server.xs server.holds ∨ Gone server.xs server.holds
  running : server.xs.state = .running → server.xs.pid ≠ none
  fit : FidsFit server.fids server.workreqs
  sound : Sound server

/-- No read is answered or begins to wait. -/
def Quiet (server later : Server) : Prop :=
  later.waitreqs = server.waitreqs ∧ later.answered = server.answered ∧ later.flushed = server.flushed

/-- All reads that wait are answered. -/
def Replies (exitstatus : Option (List UInt8)) (server later : Server) : Prop :=
  later.waitreqs = [] ∧ later.flushed = server.flushed ∧
    later.answered = (server.waitreqs.map fun wreq => (wreq, waitData exitstatus wreq)).reverse ++ server.answered

/-- A read that was flushed, if it was waiting. -/
def Flushes (number : Nat) (server later : Server) : Prop :=
  match server.waitreqs.find? (·.number == number) with
  | none => Quiet server later
  | some wreq =>
      later.waitreqs = server.waitreqs.erase wreq ∧ later.answered = server.answered ∧
        later.flushed = wreq :: server.flushed

/-- A read that comes: it is answered when the process has ended or the session is wiped, else it waits. -/
def Reads (wreq : Waitreq) (server later : Server) : Prop :=
  later.flushed = server.flushed ∧
    if server.xs.state = .finished ∨ server.xs.state = .wiped then
      later.waitreqs = server.waitreqs ∧ later.answered = (wreq, waitData server.exitstatus wreq) :: server.answered
    else later.waitreqs = wreq :: server.waitreqs ∧ later.answered = server.answered

/-- What becomes of the reads. -/
def Answers (server : Server) : Event → Server → Prop
  | .exited pid status, later =>
      if server.xs.listed ∧ server.xs.pid = some pid then Replies (some (Numerals.formatInt status)) server later
      else Quiet server later
  | .wipe, later =>
      if 0 < server.others ∧ server.xs.state ≠ .wiped then Replies server.exitstatus server later
      else Quiet server later
  | .flush number, later => Flushes number server later
  | .read fid offset count, later =>
      if findFid server fid = none then Quiet server later
      else Reads { number := server.next, fid, offset, count } server later
  | _, later => Quiet server later

/-- A clunk finds the reference of the table, and where the last hold is given up or the session is
wiped, the directory has the references that this takes. -/
def Guard (server : Server) : Event → Prop
  | .clunk fid => ∀ f, findFid server fid = some f →
      (onFid server.workreqs fid : Int) < f.refcount ∧
        (f.refcount = 1 → server.xs.refcount = 1 → LastFits server.xs)
  | .flush number => ∀ wreq ∈ server.workreqs, wreq.number = number → ∀ f, findFid server wreq.fid = some f →
      f.refcount = 1 → server.xs.refcount = 1 → LastFits server.xs
  | .release => 0 < server.others → server.xs.refcount = 1 → LastFits server.xs
  | .exited pid _ => server.xs.pid = some pid → server.xs.refcount = 1 + server.fids.length →
      (∀ f ∈ server.fids, f.refcount = onFid server.workreqs f.fid) → LastFits server.xs
  | .wipe => 0 < server.others → server.xs.state ≠ .wiped → sessionFiles.length < server.xs.sroot
  | _ => True

section Steps

variable {server : Server} {xs : Xsession} {fid pid number offset count : Nat} {status : Int}

theorem Drops.inv (server : Server) (drops : Drops server.xs xs server.holds server.workreqs)
    (running : server.xs.state = .running → server.xs.pid ≠ none) (fit : FidsFit server.fids server.workreqs)
    (sound : Sound server) : Inv { server with xs } := by
  have holds : Server.holds { server with xs } = server.holds := by
    rw [Server.holds, Server.holds, drops.pid]
  refine ⟨?_, ?_, fit, ⟨sound.settled, sound.all, ?_⟩⟩
  · rw [holds]
    exact drops.session
  · intro state
    rcases drops.state with same | ⟨wiped, -⟩
    · rw [same] at state
      rw [drops.pid]
      exact running state
    · rw [wiped] at state
      contradiction
  · intro state
    rcases drops.state with same | ⟨-, none⟩
    · rw [same] at state
      exact sound.waits state
    · exact sound.all.trans none

theorem Inv.alive (inv : Inv server) (held : 0 < server.holds) : Alive server.xs server.holds := by
  rcases inv.session with alive | gone
  · exact alive
  · have none := gone.none
    omega

theorem Inv.release (inv : Inv server) (guard : Guard server .release) :
    ∃ later, step server .release = some later ∧ Inv later ∧ Answers server .release later := by
  rw [step]
  split
  · rename_i some
    have alive := inv.alive (by rw [Server.holds]; omega)
    let left : Server := { server with others := server.others - 1 }
    have alive' : Alive left.xs (left.holds + 1) := by
      have same : left.holds + 1 = server.holds := by
        rw [Server.holds, Server.holds]
        dsimp only [left]
        omega
      rw [same]
      exact alive
    obtain ⟨xs, dropped, drops⟩ := decref_fits left alive' inv.fit (guard some) inv.running inv.sound.all
    exact ⟨_, dropped, drops.inv left inv.running inv.fit ⟨inv.sound.settled, inv.sound.all, inv.sound.waits⟩,
      rfl, rfl, rfl⟩
  · exact ⟨server, rfl, inv, rfl, rfl, rfl⟩

theorem Inv.held (inv : Inv server) {f : Waitfid} (inside : f ∈ server.fids) : Alive server.xs server.holds := by
  have some := List.length_pos_of_mem inside
  exact inv.alive (by rw [Server.holds]; omega)

theorem Inv.read (inv : Inv server) : ∃ later, step server (.read fid offset count) = some later ∧ Inv later ∧
    Answers server (.read fid offset count) later := by
  simp only [step, Answers]
  cases found : findFid server fid with
  | none => exact ⟨server, rfl, inv, rfl, rfl, rfl⟩
  | some f =>
      obtain ⟨inside, rfl⟩ := find?_key found
      have alive := inv.held inside
      let wreq : Waitreq := { number := server.next, fid := f.fid, offset, count }
      let taken : Server := { server with
        fids := update Waitfid.fid server.fids f.fid fun f => { f with refcount := f.refcount + 1 }
        workreqs := wreq :: server.workreqs
        next := server.next + 1 }
      have fit : FidsFit taken.fids taken.workreqs := inv.fit.incref inside rfl
      have same : taken.fids.length = server.fids.length := List.length_map ..
      have settled : taken.book.Settled Waitreq.number := inv.sound.settled.arrives wreq rfl (.refl _)
      dsimp only
      simp only [if_neg (Option.some_ne_none f), waitRead, if_pos alive.listed, Reads]
      split
      · rename_i ended
        have positive := (inv.fit.counts f inside).2
        let f' : Waitfid := { f with refcount := f.refcount + 1 }
        have inside' : f' ∈ taken.fids := mem_update.mpr ⟨f, inside, by rw [if_pos rfl]⟩
        have gone : taken.workreqs.erase wreq = server.workreqs := List.erase_cons_head wreq server.workreqs
        have dropped := fidDecref_eq decref { taken with workreqs := server.workreqs } fit.distinct inside'
        rw [if_neg (by dsimp only [f']; omega)] at dropped
        have answered := respond_answers decref taken (List.mem_cons_self)
          (waitData server.exitstatus wreq)
        rw [gone] at answered
        have length := length_decrefFids inside'
        rw [if_neg (by dsimp only [f']; omega)] at length
        have counted : (onFid server.workreqs f.fid : Int) ≤ f.refcount + 1 - 1 := by
          have before := (inv.fit.counts f inside).1
          omega
        have fit' : FidsFit (decrefFids taken.fids f') server.workreqs :=
          fit.decref inside' (fun r member => List.mem_cons_of_mem wreq member)
            (fun fid => (List.sublist_cons_self wreq server.workreqs).countP_le) counted
        have holds : (decrefFids taken.fids f').length = server.fids.length := by omega
        rw [dropped, Option.map_some] at answered
        refine ⟨_, answered, ⟨?_, inv.running, fit', ?_, inv.sound.all, inv.sound.waits⟩, rfl, rfl, rfl⟩
        · rw [Server.holds]
          dsimp only [taken]
          rw [holds]
          exact .inl alive
        · exact settled.moves ⟨⟨[wreq], List.perm_append_singleton wreq server.workreqs, .refl _⟩, rfl, rfl⟩
      · rename_i waiting
        refine ⟨_, rfl, ⟨.inl ?_, inv.running, fit, settled, ?_, ?_⟩, rfl, rfl, rfl⟩
        · rw [Server.holds]
          dsimp only
          rw [same]
          exact alive
        · exact congrArg (wreq :: ·) inv.sound.all
        · exact fun ended => absurd ended waiting

theorem fidDecref_fits (server : Server) {f : Waitfid} {before : List Waitreq} (alive : Alive server.xs server.holds)
    (fit : FidsFit server.fids before) (inside : f ∈ server.fids)
    (fits : f.refcount = 1 → server.xs.refcount = 1 → LastFits server.xs)
    (fit' : FidsFit (decrefFids server.fids f) server.workreqs)
    (running : server.xs.state = .running → server.xs.pid ≠ none) (all : server.waitreqs = server.workreqs) :
    ∃ xs, fidDecref decref server f.fid = some { server with fids := decrefFids server.fids f, xs } ∧
      Drops server.xs xs (Server.holds { server with fids := decrefFids server.fids f }) server.workreqs := by
  have length := length_decrefFids inside
  let left : Server := { server with fids := decrefFids server.fids f }
  rw [fidDecref_eq decref server fit.distinct inside]
  split
  · rename_i last
    rw [if_pos last] at length
    have same : left.holds + 1 = server.holds := by
      rw [Server.holds, Server.holds]
      dsimp only [left]
      omega
    exact decref_fits left (same ▸ alive) fit' (fits (by omega)) running all
  · rename_i more
    rw [if_neg more] at length
    have same : left.holds = server.holds := by
      rw [Server.holds, Server.holds]
      dsimp only [left]
      omega
    exact ⟨server.xs, rfl, .inl (same ▸ alive), rfl, .inl rfl⟩

theorem Inv.clunk (inv : Inv server) (guard : Guard server (.clunk fid)) :
    ∃ later, step server (.clunk fid) = some later ∧ Inv later ∧ Answers server (.clunk fid) later := by
  simp only [step, Answers]
  cases found : findFid server fid with
  | none => exact ⟨server, rfl, inv, rfl, rfl, rfl⟩
  | some f =>
      obtain ⟨tabled, fits⟩ := guard f found
      obtain ⟨inside, rfl⟩ := find?_key found
      have fit : FidsFit (decrefFids server.fids f) server.workreqs :=
        inv.fit.decref inside (fun r member => member) (fun fid => Nat.le_refl _) (by omega)
      obtain ⟨xs, dropped, drops⟩ :=
        fidDecref_fits server (inv.held inside) inv.fit inside fits fit inv.running inv.sound.all
      let left : Server := { server with fids := decrefFids server.fids f }
      exact ⟨_, dropped, drops.inv left inv.running fit ⟨inv.sound.settled, inv.sound.all, inv.sound.waits⟩,
        rfl, rfl, rfl⟩

theorem Inv.flush (inv : Inv server) (guard : Guard server (.flush number)) :
    ∃ later, step server (.flush number) = some later ∧ Inv later ∧ Answers server (.flush number) later := by
  simp only [step, Answers, waitFlush, Flushes, inv.sound.all]
  cases found : server.workreqs.find? (·.number == number) with
  | none => exact ⟨server, rfl, inv, inv.sound.all ▸ ⟨rfl, rfl, rfl⟩⟩
  | some wreq =>
      obtain ⟨member, same⟩ := find?_key found
      obtain ⟨f, inside, fid, there⟩ := inv.fit.find member
      have alive := inv.held inside
      let left : Server := { server with
        waitreqs := server.workreqs.erase wreq
        workreqs := server.workreqs.erase wreq }
      have counted : (onFid left.workreqs f.fid : Int) ≤ f.refcount - 1 := by
        have before := (inv.fit.counts f inside).1
        have one := onFid_erase f.fid member
        rw [if_pos fid.symm] at one
        dsimp only [left]
        omega
      have fit : FidsFit (decrefFids server.fids f) left.workreqs :=
        inv.fit.decref inside (fun r there => List.mem_of_mem_erase there) (fun fid => onFid_erase_le fid member)
          counted
      obtain ⟨xs, dropped, drops⟩ := fidDecref_fits left alive inv.fit inside
        (guard wreq member same f there) fit inv.running rfl
      have settled : Book.Settled Waitreq.number
          ⟨server.workreqs.erase wreq, server.answered.map Prod.fst, wreq :: server.flushed, server.next⟩ :=
        inv.sound.settled.withdraws (List.perm_cons_erase member) (.refl _)
      simp only [if_pos alive.listed, if_pos member]
      have flushed := respond_flushes decref { server with waitreqs := server.workreqs.erase wreq } member
      rw [fid] at dropped
      rw [dropped, Option.map_some] at flushed
      let last : Server := { left with fids := decrefFids server.fids f, flushed := wreq :: server.flushed }
      refine ⟨_, flushed, drops.inv last inv.running fit ⟨settled, rfl, ?_⟩, rfl, rfl, rfl⟩
      intro ended
      have none := inv.sound.waits ended
      rw [inv.sound.all] at none
      rw [none] at member
      cases member

theorem replied_settled (server : Server) (fids : List Waitfid) (refcount : Int)
    (settled : server.book.Settled Waitreq.number) :
    (replied server fids refcount).book.Settled Waitreq.number := by
  refine settled.moves ⟨⟨server.workreqs.reverse, List.reverse_perm _, ?_⟩, rfl, rfl⟩
  simp [Server.book, replied, Function.comp_def]

theorem Inv.wipe (inv : Inv server) (guard : Guard server .wipe) :
    ∃ later, step server .wipe = some later ∧ Inv later ∧ Answers server .wipe later := by
  simp only [step, Answers]
  by_cases held : 0 < server.others
  · by_cases wiped : server.xs.state = .wiped
    · refine ⟨server, ?_, inv, ?_⟩
      · rw [if_pos held, sessionWipe, if_pos wiped]
      · rw [if_neg fun both => both.2 wiped]
        exact ⟨rfl, rfl, rfl⟩
    · have alive := inv.alive (by rw [Server.holds]; omega)
      let busy : Nat := server.xs.pid.elim 0 fun _ => 1
      have alive' : Alive server.xs (server.fids.length + (server.others + busy)) := by
        have same : server.fids.length + (server.others + busy) = server.holds := by
          rw [Server.holds]
          omega
        rw [same]
        exact alive
      obtain ⟨fids, refcount, wipe, fit, moved⟩ := sessionWipe_kept 1 alive' (by omega) inv.sound.all inv.fit
        (guard held wiped) wiped
      refine ⟨_, (if_pos held).trans wipe, ⟨.inl ⟨alive.listed, by simp, by simp, ?_⟩, ?_, fit, ?_⟩, ?_⟩
      · have counted := alive'.counted
        rw [Server.holds]
        dsimp only [replied, busy] at counted ⊢
        omega
      · exact fun running => by contradiction
      · exact ⟨replied_settled server fids refcount inv.sound.settled, rfl, fun _ => rfl⟩
      · rw [if_pos ⟨held, wiped⟩, Replies, inv.sound.all]
        exact ⟨rfl, rfl, rfl⟩
  · refine ⟨server, if_neg held, inv, ?_⟩
    rw [if_neg fun both => held both.1]
    exact ⟨rfl, rfl, rfl⟩

theorem untabled {fids : List Waitfid} (fit : FidsFit server.fids server.workreqs) (empty : fids = [])
    (stays : ∀ fid, Tabled server.fids server.workreqs fid → Tabled fids [] fid) :
    ∀ f ∈ server.fids, f.refcount = onFid server.workreqs f.fid := by
  intro f inside
  have counts := (fit.counts f inside).1
  by_contra other
  obtain ⟨g, there, -⟩ := stays f.fid ⟨f, inside, rfl, by omega⟩
  rw [empty] at there
  cases there

theorem Inv.exited (inv : Inv server) (guard : Guard server (.exited pid status)) :
    ∃ later, step server (.exited pid status) = some later ∧ Inv later ∧
      Answers server (.exited pid status) later := by
  simp only [step, Answers, sigchldNotify]
  by_cases ours : server.xs.listed = true ∧ server.xs.pid = some pid
  · obtain ⟨listed, process⟩ := ours
    have alive : Alive server.xs server.holds := by
      rcases inv.session with alive | gone
      · exact alive
      · rw [gone.listed] at listed
        contradiction
    simp only [if_pos (And.intro listed process)]
    let ended : Server := { server with
      xs := { server.xs with state := if server.xs.state ≠ .wiped then .finished else server.xs.state, pid := none }
      exitstatus := some (Numerals.formatInt status)
      waitreqs := [] }
    have wiped : ended.xs.state = .wiped ↔ server.xs.state = .wiped := by
      dsimp only [ended]
      split
      · rename_i other
        exact ⟨fun both => by contradiction, fun both => absurd both other⟩
      · exact Iff.rfl
    have resting : ended.xs.state ≠ .running := by
      dsimp only [ended]
      split
      · exact fun both => by contradiction
      · rename_i other
        rw [not_not.mp other]
        exact fun both => by contradiction
    have alive' : Alive ended.xs (ended.fids.length + (server.others + 1)) := by
      refine ⟨listed, ?_, alive.sroot, ?_⟩
      · rw [ne_eq, wiped]
        exact alive.tree
      · have counted := alive.counted
        rw [Server.holds, process, Option.elim_some] at counted
        dsimp only [ended]
        omega
    obtain ⟨fids, refcount, replies, fit, moved, stays⟩ :=
      replyAll_kept 1 server.workreqs alive' (by omega) rfl inv.fit
    have counted := alive'.counted
    dsimp only [ended] at moved counted
    let answered : Server := replied ended fids refcount
    have alive'' : Alive answered.xs (answered.holds + 1) := by
      refine ⟨listed, alive'.tree, alive'.sroot, ?_⟩
      have idle : answered.holds = server.others + fids.length := rfl
      rw [idle]
      dsimp only [answered, replied, ended]
      omega
    have fits : answered.xs.refcount = 1 → LastFits answered.xs := by
      intro last
      dsimp only [answered, replied] at last
      have empty : fids = [] := List.eq_nil_of_length_eq_zero (by omega)
      rw [empty, List.length_nil] at moved
      have room := guard process (by omega) (untabled inv.fit empty stays)
      exact room.imp_left wiped.mpr
    obtain ⟨xs, dropped, drops⟩ := decref_fits answered alive'' fit fits (fun state => absurd state resting) rfl
    have sound : Sound answered := ⟨replied_settled ended fids refcount inv.sound.settled, rfl, fun _ => rfl⟩
    refine ⟨_, ?_, drops.inv answered (fun state => absurd state resting) fit sound, ?_⟩
    · rw [inv.sound.all, decref, replies]
      exact dropped
    · rw [Replies, inv.sound.all]
      exact ⟨rfl, rfl, rfl⟩
  · simp only [if_neg ours]
    exact ⟨server, rfl, inv, rfl, rfl, rfl⟩

theorem Inv.openWait (inv : Inv server) : ∃ later, step server (.openWait fid) = some later ∧ Inv later ∧
    Answers server (.openWait fid) later := by
  simp only [step, Answers]
  by_cases fresh : server.xs.inTree = true ∧ findFid server fid = none
  · have absent : fid ∉ server.fids.map Waitfid.fid := find?_none_iff.mp fresh.2
    have alive : Alive server.xs server.holds := by
      rcases inv.session with alive | gone
      · exact alive
      · rw [gone.tree] at fresh
        cases fresh.1
    rw [if_pos fresh, if_pos alive.listed]
    refine ⟨_, rfl, ⟨.inl ⟨alive.listed, alive.tree, alive.sroot, ?_⟩, inv.running, ⟨?_, ?_, ?_⟩, ?_⟩, rfl, rfl, rfl⟩
    · have counted := alive.counted
      rw [Server.holds] at counted ⊢
      dsimp only [sessionIncref, List.length_cons]
      omega
    · exact List.nodup_cons.mpr ⟨absent, inv.fit.distinct⟩
    · intro f member
      rcases List.mem_cons.mp member with rfl | member
      · have none : onFid server.workreqs fid = 0 := by
          refine List.countP_eq_zero.mpr fun wreq there => ?_
          intro same
          exact absent ((by simpa using same : wreq.fid = fid) ▸ inv.fit.known wreq there)
        dsimp only
        omega
      · exact inv.fit.counts f member
    · exact fun wreq there => List.mem_cons_of_mem fid (inv.fit.known wreq there)
    · exact ⟨inv.sound.settled, inv.sound.all, inv.sound.waits⟩
  · exact ⟨server, if_neg fresh, inv, rfl, rfl, rfl⟩

theorem Inv.hold (inv : Inv server) : ∃ later, step server .hold = some later ∧ Inv later ∧
    Answers server .hold later := by
  simp only [step, Answers]
  by_cases reached : server.xs.inTree = true ∨ 0 < server.others
  · have alive : Alive server.xs server.holds := by
      rcases reached with inside | held
      · rcases inv.session with alive | gone
        · exact alive
        · rw [gone.tree] at inside
          cases inside
      · exact inv.alive (by rw [Server.holds]; omega)
    rw [if_pos reached, if_pos alive.listed]
    refine ⟨_, rfl, ⟨.inl ⟨alive.listed, alive.tree, alive.sroot, ?_⟩, inv.running, inv.fit, ?_⟩, rfl, rfl, rfl⟩
    · have counted := alive.counted
      rw [Server.holds] at counted ⊢
      dsimp only [sessionIncref]
      omega
    · exact ⟨inv.sound.settled, inv.sound.all, inv.sound.waits⟩
  · exact ⟨server, if_neg reached, inv, rfl, rfl, rfl⟩

theorem Inv.exec (inv : Inv server) : ∃ later, step server (.exec pid) = some later ∧ Inv later ∧
    Answers server (.exec pid) later := by
  simp only [step, Answers]
  by_cases accepted : 0 < server.others ∧ server.xs.state ≠ .wiped
  · have alive := inv.alive (by rw [Server.holds]; omega)
    have tree := alive.tree.mpr accepted.2
    rw [if_pos accepted]
    have resting : SessionState.running ≠ .wiped := fun same => by contradiction
    refine ⟨_, rfl, ⟨.inl ⟨alive.listed, ⟨fun _ => resting, fun _ => tree⟩, alive.sroot, ?_⟩,
      fun _ => Option.some_ne_none pid, inv.fit, ?_⟩, rfl, rfl, rfl⟩
    · have counted := alive.counted
      rw [Server.holds] at counted ⊢
      dsimp only [sessionIncref, Option.elim_some]
      omega
    · exact ⟨inv.sound.settled, inv.sound.all, fun ended => by rcases ended with ended | ended <;> contradiction⟩
  · exact ⟨server, if_neg accepted, inv, rfl, rfl, rfl⟩

theorem Inv.type (inv : Inv server) (mode : SessionMode) : ∃ later, step server (.type mode) = some later ∧
    Inv later ∧ Answers server (.type mode) later := by
  simp only [step, Answers]
  by_cases held : 0 < server.others
  · have alive := inv.alive (by rw [Server.holds]; omega)
    rw [if_pos held]
    have alive' : Alive { server.xs with mode } server.holds :=
      ⟨alive.listed, alive.tree, alive.sroot, alive.counted⟩
    exact ⟨_, rfl, ⟨.inl alive', inv.running, inv.fit, ⟨inv.sound.settled, inv.sound.all, inv.sound.waits⟩⟩,
      rfl, rfl, rfl⟩
  · exact ⟨server, if_neg held, inv, rfl, rfl, rfl⟩

theorem Inv.step (inv : Inv server) (event : Event) (guard : Guard server event) :
    ∃ later, WaitReads.step server event = some later ∧ Inv later ∧ Answers server event later := by
  cases event with
  | openWait fid => exact inv.openWait
  | hold => exact inv.hold
  | release => exact inv.release guard
  | exec pid => exact inv.exec
  | wipe => exact inv.wipe guard
  | type mode => exact inv.type mode
  | read fid offset count => exact inv.read
  | flush number => exact inv.flush guard
  | exited pid status => exact inv.exited guard
  | clunk fid => exact inv.clunk guard

theorem inv_start : Inv start where
  session := .inl ⟨rfl, by decide, by decide, by decide⟩
  running := fun running => by contradiction
  fit := {
    distinct := List.nodup_nil
    counts := fun f member => absurd member List.not_mem_nil
    known := fun wreq member => absurd member List.not_mem_nil }
  sound := ⟨Book.settled_empty, rfl, fun _ => rfl⟩

end Steps

/-- The reads of `wait` in a run. -/
theorem waitReads_answered (events : List Event) (guarded : Guarded step Guard start events) :
    (∃ server, run step start events = some server ∧ Sound server) ∧ EveryStep step Answers start events := by
  have preserved : ∀ server event later, Inv server → Guard server event → step server event = some later →
      Inv later ∧ Answers server event later := by
    intro server event later inv guard stepped
    obtain ⟨next, same, inv', answers⟩ := inv.step event guard
    rw [stepped] at same
    cases same
    exact ⟨inv', answers⟩
  constructor
  · obtain ⟨server, ran, inv⟩ := run_defined step
      (fun server event inv guard => by
        obtain ⟨later, stepped, inv', -⟩ := Inv.step inv event guard
        exact ⟨later, stepped, inv'⟩) inv_start guarded
    exact ⟨server, ran, inv.sound⟩
  · exact everyStep_of_invariant step (fun server event later inv guard stepped =>
      (preserved server event later inv guard stepped).1) (fun server event later inv guard stepped =>
      (preserved server event later inv guard stepped).2) inv_start guarded

theorem argInt_small {value : Nat} (small : value < 2 ^ 31) : argInt value = value :=
  Int32.toInt_ofNat_of_lt small

theorem waitData_status (status : List UInt8) (wreq : Waitreq) (offset : wreq.offset < 2 ^ 31)
    (count : wreq.count < 2 ^ 31) :
    waitData (some status) wreq = ((status.drop wreq.offset).take wreq.count).map some := by
  rw [waitData, cutstr, argInt_small offset, argInt_small count, cutbuf]
  dsimp only
  by_cases past : status.length < wreq.offset
  · have empty : status.drop wreq.offset = [] := List.drop_eq_nil_of_le (by omega)
    rw [if_pos (by omega), empty, List.take_nil, List.map_nil]
  · have first : max 0 (wreq.offset : Int) = wreq.offset := by omega
    have width : (min (0 + (status.length : Int)) (wreq.offset + wreq.count) - wreq.offset).toNat =
        min (status.length - wreq.offset) wreq.count := by omega
    rw [if_neg (by omega), if_neg (by omega), first, width]
    have none : ((wreq.offset : Int) - wreq.offset).toNat = 0 := by omega
    have from_start : ((wreq.offset : Int) - 0).toNat = wreq.offset := by omega
    rw [none, from_start, List.replicate_zero, List.nil_append, List.map_take, List.take_take, min_self,
      ← List.length_drop, ← List.map_take, min_comm, ← List.take_eq_take_min]

/-- Two reads wait, one is flushed, and the exit of the process answers the other. -/
def visit : List Event :=
  [.exec 7, .openWait 1, .read 1 0 10, .read 1 2 10, .flush 0, .exited 7 15, .read 1 0 10, .clunk 1]

theorem visit_guarded : Guarded step Guard start visit := by
  refine guarded_cons step rfl trivial ?_
  refine guarded_cons step rfl trivial ?_
  refine guarded_cons step rfl trivial ?_
  refine guarded_cons step rfl trivial ?_
  refine guarded_cons step rfl (fun wreq member same f found last left => absurd left (by decide)) ?_
  refine guarded_cons step rfl (fun own last => absurd last (by decide)) ?_
  refine guarded_cons step rfl trivial ?_
  refine guarded_cons step rfl ?_ trivial
  intro f found
  have same : some f = some { fid := 1, refcount := 1 } := found.symm.trans (by rfl)
  cases same
  exact ⟨by decide, fun _ last => absurd last (by decide)⟩

theorem waitReads_answered_visit :
    (∃ server, run step start visit = some server ∧ Sound server) ∧ EveryStep step Answers start visit :=
  waitReads_answered visit visit_guarded

/-- The second clunk of a fid frees it, and its read is then answered on it. -/
theorem clunked_twice : ¬ ∀ events : List Event,
    (∃ server, run step start events = some server ∧ Sound server) ∧ EveryStep step Answers start events := by
  intro all
  obtain ⟨server, ran, -⟩ := (all [.exec 7, .openWait 1, .read 1 0 10, .clunk 1, .clunk 1, .exited 7 0]).1
  have none : run step start [.exec 7, .openWait 1, .read 1 0 10, .clunk 1, .clunk 1, .exited 7 0] = none := by
    decide
  rw [none] at ran
  cases ran

end Xcpu.Xcpufs.WaitReads
