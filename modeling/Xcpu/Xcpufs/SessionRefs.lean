import Xcpu.Xcpufs.Session

/-!
What keeps a session, counted. A session's reference count covers the fids on its files, the
fid that opened `clone` and the process, and its root directory is released once, when
nothing keeps the session any more.
-/

namespace Xcpu.Xcpufs.Session

open Xcpu.Keyed Xcpu.Transition

/-- What a fid's aux holds of a session. The directory `fs` of the tree has no operations, so
nothing is counted for it. -/
def Current.holds (session : Nat) : Current → Nat
  | .file (.sroot other) => if other = session then 1 else 0
  | .file (.child other kind) => if kind = .fs then 0 else if other = session then 1 else 0
  | .fs other _ => if other = session then 1 else 0
  | _ => 0

def Spfilefid.holds (session : Nat) (f : Spfilefid) : Nat :=
  f.current.holds session + if f.session = some session then 1 else 0

def Spfilefid.atRoot (session : Nat) (f : Spfilefid) : Nat :=
  if f.current = .file (.sroot session) then 1 else 0

def Xsession.process (xs : Xsession) : Int := if xs.pid = none then 0 else 1

def Xsession.treeRefs (xs : Xsession) : Int := if xs.inTree then sessionFiles.length else 0

/-- The counts of a session that `holds` fids keep, `atRoot` of them on its root directory. The
root directory may miss references that a walk to a parent did not take. -/
structure Xsession.Kept (xs : Xsession) (holds atRoot : Nat) : Prop where
  fresh : xs.released = 0
  refs : holds + xs.process ≤ xs.refcount
  upper : xs.sroot ≤ 1 + xs.treeRefs + atRoot
  lower : 1 + xs.treeRefs + atRoot + holds + xs.process ≤ xs.sroot + xs.refcount
  tree : xs.inTree = true ↔ xs.state ≠ .wiped
  running : xs.state = .running → xs.pid ≠ none

/-- A session of the server, freed or not; where `exact`, the counts are exact too. -/
structure Xsession.Fine (exact : Prop) (xs : Xsession) (holds atRoot : Nat) : Prop where
  kept : xs.listed → xs.Kept holds atRoot
  once : xs.released ≤ 1
  gone : 0 < xs.released → xs.listed = false
  counted : exact → xs.listed → xs.refcount = holds + xs.process
  live : exact → 0 < holds → xs.listed
  rooted : exact → xs.inTree → xs.listed
  owned : exact → xs.pid ≠ none → xs.listed

section Session

variable {exact : Prop} {xs : Xsession} {holds atRoot : Nat}

theorem sessionFiles_length : (sessionFiles.length : Int) = 11 := rfl

theorem sessionDecref_more (more : xs.refcount ≠ 1) :
    sessionDecref xs = some { xs with refcount := xs.refcount - 1 } := by
  rw [sessionDecref]
  dsimp only
  rw [if_pos (by omega)]

/-- The last to leave a session that is not persistent wipes it, and its reference of the root
directory goes. -/
theorem sessionDecref_last (kept : xs.Kept (holds + 1) atRoot) (one : xs.refcount = 1)
    (last : xs.mode = .normal ∨ xs.state = .wiped) (room : 0 < xs.sroot - xs.treeRefs) :
    sessionDecref xs = some { xs with
      refcount := 0
      state := .wiped
      inTree := false
      sroot := xs.sroot - xs.treeRefs - 1
      listed := decide (xs.sroot - xs.treeRefs - 1 ≠ 0)
      released := 1 } := by
  have idle : xs.state ≠ .running := by
    intro running
    have process := kept.refs
    rw [Xsession.process, if_neg (kept.running running)] at process
    omega
  rw [sessionDecref]
  dsimp only
  rw [if_neg (by omega)]
  by_cases wiped : xs.state = .wiped
  · have out : xs.inTree = false := by
      rw [← Bool.not_eq_true, kept.tree]
      exact not_not_intro wiped
    have fresh := kept.fresh
    have zero : xs.refcount - 1 = 0 := by omega
    simp only [sessionWipe, wiped, Xsession.treeRefs, out]
    obtain ⟨refcount, state, mode, pid, sroot, inTree, listed, released⟩ := xs
    dsimp only at *
    subst wiped out fresh
    simp [srootDecref, zero]
  · have inside := kept.tree.mpr wiped
    have normal := last.resolve_right wiped
    have fresh := kept.fresh
    have zero : xs.refcount - 1 = 0 := by omega
    rw [Xsession.treeRefs, if_pos inside] at room ⊢
    rw [if_pos ⟨normal, idle⟩, sessionWipe, if_neg wiped, sessionRemoveDir]
    dsimp only
    rw [if_pos ⟨inside, by omega⟩]
    simp [srootDecref, zero, fresh]

theorem Xsession.process_nonneg (xs : Xsession) : 0 ≤ xs.process := by
  rw [Xsession.process]
  split <;> omega

theorem Xsession.process_le_one (xs : Xsession) : xs.process ≤ 1 := by
  rw [Xsession.process]
  split <;> omega

theorem Xsession.Fine.leave (fine : xs.Fine exact (holds + 1) atRoot) (listed : xs.listed) (within : atRoot ≤ holds)
    (last : xs.refcount = 1 → xs.mode = .normal ∨ xs.state = .wiped) :
    ∃ left, sessionDecref xs = some left ∧ left.Fine exact holds atRoot := by
  have kept := fine.kept listed
  obtain ⟨fresh, refs, upper, lower, tree, running⟩ := fine.kept listed
  have process := xs.process_nonneg
  by_cases one : xs.refcount = 1
  · refine ⟨_, sessionDecref_last kept one (last one) (by omega), ?_, ?_, ?_, ?_, ?_, ?_, ?_⟩
    · intro still
      simp only [decide_eq_true_eq] at still
      omega
    · exact Nat.le_refl 1
    · intro _
      rw [decide_eq_false_iff_not]
      omega
    · intro _ still
      simp only [decide_eq_true_eq] at still
      omega
    · intro _ some
      omega
    · intro _ rooted
      cases rooted
    · intro _ started
      rw [Xsession.process, if_neg started] at refs
      omega
  · refine ⟨_, sessionDecref_more one, ?_, fine.once, fine.gone, ?_, fun _ _ => listed, fun _ _ => listed,
      fun _ _ => listed⟩
    · intro _
      refine ⟨fresh, ?_, upper, ?_, tree, running⟩
      · change _ + xs.process ≤ xs.refcount - 1
        omega
      · change 1 + xs.treeRefs + _ + _ + xs.process ≤ xs.sroot + (xs.refcount - 1)
        omega
    · intro counts _
      have same := fine.counted counts listed
      change xs.refcount - 1 = _ + xs.process
      omega

theorem Xsession.Fine.ended (fine : xs.Fine exact holds atRoot) (listed : xs.listed) (started : xs.pid ≠ none) :
    Xsession.Fine exact { xs with state := if xs.state ≠ .wiped then .finished else xs.state, pid := none }
      (holds + 1) atRoot where
  kept := fun _ => by
    obtain ⟨fresh, refs, upper, lower, tree, running⟩ := fine.kept listed
    rw [Xsession.process, if_neg started] at refs lower
    refine ⟨fresh, ?_, upper, ?_, ?_, ?_⟩
    · change _ + (0 : Int) ≤ xs.refcount
      omega
    · change 1 + xs.treeRefs + _ + _ + (0 : Int) ≤ xs.sroot + xs.refcount
      omega
    · dsimp only
      split
      · rename_i other
        simp [tree, other]
      · exact tree
    · dsimp only
      split
      · intro same
        cases same
      · rename_i wiped
        intro same
        rw [same] at wiped
        exact absurd (by decide) wiped
  once := fine.once
  gone := fine.gone
  counted := fun counts _ => by
    have same := fine.counted counts listed
    rw [Xsession.process, if_neg started] at same
    change xs.refcount = _ + (0 : Int)
    omega
  live := fun _ _ => listed
  rooted := fun _ _ => listed
  owned := fun _ _ => listed

theorem Xsession.Fine.exec (fine : xs.Fine exact holds atRoot) (listed : xs.listed) (unwiped : xs.state ≠ .wiped)
    (free : exact → xs.pid = none) (pid : Nat) :
    (sessionIncref { xs with state := .running, pid := some pid }).Fine exact holds atRoot where
  kept := fun _ => by
    obtain ⟨fresh, refs, upper, lower, tree, running⟩ := fine.kept listed
    have before := xs.process_nonneg
    refine ⟨fresh, ?_, upper, ?_, ?_, ?_⟩
    · change _ + (1 : Int) ≤ xs.refcount + 1
      omega
    · change 1 + xs.treeRefs + _ + _ + (1 : Int) ≤ xs.sroot + (xs.refcount + 1)
      omega
    · simp [sessionIncref, tree, unwiped]
    · intro _ none
      cases none
  once := fine.once
  gone := fine.gone
  counted := fun counts _ => by
    have same := fine.counted counts listed
    rw [Xsession.process, if_pos (free counts)] at same
    change xs.refcount + 1 = _ + (1 : Int)
    omega
  live := fun _ _ => listed
  rooted := fun _ _ => listed
  owned := fun _ _ => listed

theorem Xsession.Fine.wipe (fine : xs.Fine exact holds atRoot) (listed : xs.listed) :
    (∀ wiped, sessionWipe xs = some wiped → wiped.Fine exact holds atRoot) ∧
      (exact → ∃ wiped, sessionWipe xs = some wiped) := by
  rw [sessionWipe]
  split
  · refine ⟨?_, fun _ => ⟨xs, rfl⟩⟩
    rintro wiped ⟨⟩
    exact fine
  · rename_i unwiped
    obtain ⟨fresh, refs, upper, lower, tree, running⟩ := fine.kept listed
    have inside := tree.mpr unwiped
    rw [Xsession.treeRefs, if_pos inside] at upper lower
    rw [sessionRemoveDir]
    constructor
    · intro wiped removed
      split at removed
      · simp only [Option.some.injEq] at removed
        subst removed
        refine ⟨?_, fine.once, fine.gone, fine.counted, fun _ _ => listed, fun _ _ => listed, fun _ _ => listed⟩
        intro _
        refine ⟨fresh, refs, ?_, ?_, by simp, by simp⟩
        · change xs.sroot - sessionFiles.length ≤ 1 + (0 : Int) + _
          omega
        · change 1 + (0 : Int) + _ + _ + xs.process ≤ xs.sroot - sessionFiles.length + xs.refcount
          omega
      · cases removed
    · intro counts
      have same := fine.counted counts listed
      rw [if_pos]
      · exact ⟨_, rfl⟩
      · exact ⟨inside, by dsimp only; omega⟩

end Session

def Host.holds (host : Host) (session : Nat) : Nat := weight (Spfilefid.holds session) host.fids

def Host.atRoot (host : Host) (session : Nat) : Nat := weight (Spfilefid.atRoot session) host.fids

structure Host.Inv (exact : Prop) (host : Host) : Prop where
  numbers : (host.fids.map Spfilefid.fid).Nodup
  settled : ∀ f ∈ host.fids, ∀ session, f.current ≠ .file (.child session .fs)
  bound : ∀ f ∈ host.fids, ∀ session, 0 < f.holds session → session < host.sessions.length
  cloner : ∀ f ∈ host.fids, f.session ≠ none → f.current = .file (.file true) ∧ f.opened = true
  sessions : ∀ session (xs : Xsession), host.sessions[session]? = some xs →
    xs.Fine exact (host.holds session) (host.atRoot session)

/-- A step that leaves the defined behaviour is not `exact`, and any other keeps the counts. -/
def Safe (exact : Prop) : Option Host → Prop
  | none => ¬ exact
  | some next => next.Inv exact

section Steps

variable {exact : Prop} {host : Host} {session : Nat} {xs : Xsession} {f : Spfilefid}

theorem session_some : host.session session = some xs ↔ host.sessions[session]? = some xs ∧ xs.listed := by
  rw [Host.session]
  cases host.sessions[session]? with
  | none => simp
  | some other =>
      simp only [Option.bind_eq_bind, Option.bind_some, Option.ite_none_right_eq_some, Option.some.injEq]
      constructor
      · rintro ⟨listed, rfl⟩
        exact ⟨rfl, listed⟩
      · rintro ⟨rfl, listed⟩
        exact ⟨listed, rfl⟩

theorem find_mem (found : host.find fid = some f) : f ∈ host.fids ∧ f.fid = fid :=
  find?_key found

theorem atRoot_le_holds (f : Spfilefid) (session : Nat) : f.atRoot session ≤ f.holds session := by
  rw [Spfilefid.atRoot, Spfilefid.holds]
  split
  · rename_i here
    rw [here, Current.holds, if_pos rfl]
    omega
  · exact Nat.zero_le _

theorem Host.within (host : Host) (session : Nat) : host.atRoot session ≤ host.holds session :=
  weight_mono fun f _ => atRoot_le_holds f session

namespace Host.Inv

variable (inv : host.Inv exact)
include inv

theorem fine (found : host.session session = some xs) :
    xs.listed ∧ xs.Fine exact (host.holds session) (host.atRoot session) := by
  obtain ⟨inside, listed⟩ := session_some.mp found
  exact ⟨listed, inv.sessions session xs inside⟩

theorem held (member : f ∈ host.fids) (holds : 0 < f.holds session) (gone : host.session session = none) : ¬ exact := by
  intro counts
  have below := inv.bound f member session holds
  have inside := List.getElem?_eq_getElem below
  have total : f.holds session ≤ host.holds session := le_weight member
  have listed := (inv.sessions session _ inside).live counts (by omega)
  rw [session_some.mpr ⟨inside, listed⟩] at gone
  cases gone

theorem change {fids : List Spfilefid} {changed : Xsession} {forked : Nat}
    (numbers : (fids.map Spfilefid.fid).Nodup)
    (settled : ∀ f ∈ fids, ∀ other, f.current ≠ .file (.child other .fs))
    (bound : ∀ f ∈ fids, ∀ other, 0 < f.holds other → other < host.sessions.length)
    (cloner : ∀ f ∈ fids, f.session ≠ none → f.current = .file (.file true) ∧ f.opened = true)
    (others : ∀ other, other ≠ session →
      weight (Spfilefid.holds other) fids = host.holds other ∧ weight (Spfilefid.atRoot other) fids = host.atRoot other)
    (fine : session < host.sessions.length →
      changed.Fine exact (weight (Spfilefid.holds session) fids) (weight (Spfilefid.atRoot session) fids)) :
    Host.Inv exact ⟨host.sessions.set session changed, fids, forked⟩ := by
  refine ⟨numbers, settled, ?_, cloner, ?_⟩
  · intro f member other holds
    rw [List.length_set]
    exact bound f member other holds
  · intro other xs inside
    rw [List.getElem?_set] at inside
    by_cases same : session = other
    · subst other
      rw [if_pos rfl] at inside
      split at inside
      · rename_i below
        simp only [Option.some.injEq] at inside
        subst xs
        exact fine below
      · cases inside
    · rw [if_neg same] at inside
      obtain ⟨holds, atRoot⟩ := others other (Ne.symm same)
      rw [Host.holds, Host.atRoot]
      dsimp only
      rw [holds, atRoot]
      exact inv.sessions other xs inside

theorem put {changed : Xsession} {forked : Nat}
    (fine : changed.Fine exact (host.holds session) (host.atRoot session)) :
    Host.Inv exact ⟨host.sessions.set session changed, host.fids, forked⟩ :=
  inv.change inv.numbers inv.settled inv.bound inv.cloner (fun _ _ => ⟨rfl, rfl⟩) fun _ => fine

theorem add {new : Spfilefid} {changed : Xsession} (absent : host.find new.fid = none)
    (settled : ∀ other, new.current ≠ .file (.child other .fs)) (unbound : new.session = none)
    (bound : ∀ other, 0 < new.holds other → other = session ∧ session < host.sessions.length)
    (fine : session < host.sessions.length →
      changed.Fine exact (host.holds session + new.holds session) (host.atRoot session + new.atRoot session)) :
    Host.Inv exact ⟨host.sessions.set session changed, host.fids ++ [new], host.forked⟩ := by
  have single (measure : Spfilefid → Nat) : weight measure (host.fids ++ [new]) = weight measure host.fids + measure new := by
    rw [weight_append]
    rfl
  apply inv.change
  · rw [List.map_append, List.nodup_append]
    refine ⟨inv.numbers, by simp, ?_⟩
    intro number inside other last same
    rw [List.map_cons, List.map_nil, List.mem_singleton] at last
    exact find?_none_iff.mp absent (last ▸ same ▸ inside)
  · intro f member other
    rcases List.mem_append.mp member with member | member
    · exact inv.settled f member other
    · rw [List.mem_singleton.mp member]
      exact settled other
  · intro f member other holds
    rcases List.mem_append.mp member with member | member
    · exact inv.bound f member other holds
    · rw [List.mem_singleton.mp member] at holds
      obtain ⟨rfl, below⟩ := bound other holds
      exact below
  · intro f member opened
    rcases List.mem_append.mp member with member | member
    · exact inv.cloner f member opened
    · rw [List.mem_singleton.mp member] at opened
      exact absurd unbound opened
  · intro other apart
    have none : new.holds other = 0 := by
      by_contra some
      exact apart (bound other (by omega)).1
    have below := atRoot_le_holds new other
    rw [single, single]
    exact ⟨by rw [Host.holds]; omega, by rw [Host.atRoot]; omega⟩
  · rw [single, single]
    exact fine

theorem moved {current : Current} {changed : Xsession} (member : f ∈ host.fids)
    (settled : ∀ other, current ≠ .file (.child other .fs)) (unbound : f.session = none)
    (bound : ∀ other, 0 < current.holds other → other < host.sessions.length)
    (others : ∀ other, other ≠ session → current.holds other = f.current.holds other)
    (roots : ∀ other, other ≠ session → current ≠ .file (.sroot other) ∧ f.current ≠ .file (.sroot other))
    (fine : session < host.sessions.length →
      ∀ holds atRoot, holds + f.current.holds session = host.holds session + current.holds session →
      atRoot + f.atRoot session = host.atRoot session + (if current = .file (.sroot session) then 1 else 0) →
      changed.Fine exact holds atRoot) :
    Host.Inv exact ⟨host.sessions.set session changed, (host.move f.fid current).fids, host.forked⟩ := by
  have shift (measure : Spfilefid → Nat) : weight measure (host.move f.fid current).fids + measure f =
      weight measure host.fids + measure { f with current } := weight_update inv.numbers member
  have holds (other : Nat) : f.holds other = f.current.holds other ∧
      Spfilefid.holds other { f with current } = current.holds other := by
    rw [Spfilefid.holds, Spfilefid.holds, unbound]
    exact ⟨rfl, rfl⟩
  apply inv.change
  · rw [Host.move, update_map _ (by intro item; rfl)]
    exact inv.numbers
  · intro g inside other
    obtain ⟨old, before, rfl⟩ := mem_update.mp inside
    split
    · exact settled other
    · exact inv.settled old before other
  · intro g inside other some
    obtain ⟨old, before, rfl⟩ := mem_update.mp inside
    split at some
    · rename_i same
      rw [List.inj_on_of_nodup_map inv.numbers before member same, (holds other).2] at some
      exact bound other some
    · exact inv.bound old before other some
  · intro g inside opened
    obtain ⟨old, before, rfl⟩ := mem_update.mp inside
    split at opened
    · rename_i same
      rw [List.inj_on_of_nodup_map inv.numbers before member same] at opened
      exact absurd unbound opened
    · rename_i other
      rw [if_neg other]
      exact inv.cloner old before opened
  · intro other apart
    have first := shift (Spfilefid.holds other)
    have second := shift (Spfilefid.atRoot other)
    rw [(holds other).1, (holds other).2, others other apart] at first
    rw [Spfilefid.atRoot, Spfilefid.atRoot, if_neg (roots other apart).1, if_neg (roots other apart).2] at second
    rw [Host.holds, Host.atRoot]
    omega
  · have first := shift (Spfilefid.holds session)
    rw [(holds session).1, (holds session).2] at first
    exact fun below => fine below _ _ first (shift (Spfilefid.atRoot session))

theorem erased {changed : Xsession} (member : f ∈ host.fids)
    (others : ∀ other, other ≠ session → f.holds other = 0)
    (fine : session < host.sessions.length →
      ∀ holds atRoot, holds + f.holds session = host.holds session →
      atRoot + f.atRoot session = host.atRoot session → changed.Fine exact holds atRoot) :
    Host.Inv exact ⟨host.sessions.set session changed, host.fids.eraseP (·.fid == f.fid), host.forked⟩ := by
  have less (measure : Spfilefid → Nat) : weight measure (host.fids.eraseP (·.fid == f.fid)) + measure f =
      weight measure host.fids := weight_eraseP inv.numbers member
  have kept {g : Spfilefid} (inside : g ∈ host.fids.eraseP (·.fid == f.fid)) : g ∈ host.fids :=
    List.mem_of_mem_eraseP inside
  apply inv.change
  · exact inv.numbers.sublist (List.eraseP_sublist.map _)
  · exact fun g inside => inv.settled g (kept inside)
  · exact fun g inside => inv.bound g (kept inside)
  · exact fun g inside => inv.cloner g (kept inside)
  · intro other apart
    have first := less (Spfilefid.holds other)
    have second := less (Spfilefid.atRoot other)
    have none := others other apart
    have below := atRoot_le_holds f other
    rw [Host.holds, Host.atRoot]
    omega
  · exact fun below => fine below _ _ (less _) (less _)

end Host.Inv

/-- The last hold of a session is given up only where the session is wiped with it, or was. -/
def Host.Last (host : Host) (session : Nat) : Prop :=
  ∀ xs, host.session session = some xs → xs.refcount = 1 → xs.mode = .normal ∨ xs.state = .wiped

/-- Walks that keep the counts. One that leaves the root directory of a session lets go of the
session first, so another must hold it when the walk stays within; and none comes out of the
directory of the process, unless there is neither a permission nor that directory. -/
structure Host.WalkAllowed (exact : Prop) (host : Host) (f : Spfilefid) (name : List Char) (permitted stat : Bool) :
    Prop where
  last : ∀ session nfile, f.current = .file (.sroot session) →
    lookup host (.sroot session) name = some (some nfile) → host.Last session
  entry : ∀ session other, f.current = .file (.sroot session) →
    lookup host (.sroot session) name = some (some (.child other .fs)) → stat = true
  inside : exact → ∀ session other file xs, f.current = .file (.sroot session) →
    lookup host (.sroot session) name = some (some (.child other file)) → host.session session = some xs →
    xs.refcount ≠ 1
  top : exact → ∀ session, f.current = .fs session [] → name = dotdot → permitted = false ∧ stat = false

/-- Steps that keep the counts, the first group where they need not be `exact`. -/
def Host.Allowed (exact : Prop) (host : Host) : Event → Prop
  | .walk fid name permitted stat => ∀ f, host.find fid = some f → f.opened = false →
      host.WalkAllowed exact f name permitted stat
  | .exited pid => ∀ session, findPid host pid = some session → host.Last session
  | .destroy fid => ∀ f session, host.find fid = some f → 0 < f.holds session → host.Last session
  | .ctl fid (.exec forks) => exact → forks = true → ∀ f session xs, host.find fid = some f → f.opened = true →
      f.current = .file (.child session .ctl) → host.session session = some xs → xs.state = .wiped ∨ xs.pid = none
  | _ => True

theorem session_below (found : host.session session = some xs) : session < host.sessions.length :=
  (List.getElem?_eq_some_iff.mp (session_some.mp found).1).1

section Find

variable {permitted : Bool} {name : List Char} {fid : Nat} {dir nfile : Spfile} (may : executable permitted dir = true)
include may

end Find

section Walk

variable {permitted stat : Bool} {name : List Char} (inv : host.Inv exact)
include inv

theorem unopened (member : f ∈ host.fids) (closed : f.opened = false) : f.session = none := by
  by_contra held
  have opened := (inv.cloner f member held).2
  rw [closed] at opened
  cases opened

end Walk

section Handlers

variable {number : Nat} (inv : host.Inv exact)
include inv

theorem joined {current : Current} {changed : Xsession} (absent : host.find number = none)
    (settled : ∀ other, current ≠ .file (.child other .fs)) (there : host.session session = some xs)
    (holds : ∀ other, current.holds other = if session = other then 1 else 0)
    (fine : changed.Fine exact (host.holds session + 1)
      (host.atRoot session + if current = .file (.sroot session) then 1 else 0)) :
    Host.Inv exact ⟨host.sessions.set session changed, host.fids ++ [{ fid := number, current }], host.forked⟩ := by
  have total (other : Nat) : Spfilefid.holds other { fid := number, current } = if session = other then 1 else 0 := by
    rw [Spfilefid.holds, holds]
    simp
  apply inv.add absent settled rfl
  · intro other some
    rw [total] at some
    split at some
    · rename_i same
      exact ⟨same.symm, session_below there⟩
    · cases some
  · intro _
    rw [total, if_pos rfl, Spfilefid.atRoot]
    exact fine

end Handlers

end Steps

theorem Host.Inv.start (exact : Prop) : Host.Inv exact {} :=
  ⟨List.nodup_nil, by simp, by simp, by simp, by simp⟩

/-- What a fid or a process holds is there, nothing was released of a session that is there, and
its reference count is the number of its holds. -/
structure Host.Counted (host : Host) : Prop where
  fids : ∀ f ∈ host.fids, ∀ session, 0 < f.holds session → ∃ xs, host.session session = some xs
  processes : ∀ xs ∈ host.sessions, xs.pid ≠ none → xs.listed
  sessions : ∀ session xs, host.session session = some xs →
    xs.released = 0 ∧ xs.refcount = host.holds session + xs.process

theorem Host.Inv.exactly {host : Host} (inv : host.Inv True) : host.Counted where
  fids := by
    intro f member session holds
    cases there : host.session session with
    | none => exact absurd trivial (inv.held member holds there)
    | some xs => exact ⟨xs, rfl⟩
  processes := by
    intro xs member started
    obtain ⟨session, inside⟩ := List.getElem?_of_mem member
    exact (inv.sessions session xs inside).owned trivial started
  sessions := by
    intro session xs there
    obtain ⟨listed, fine⟩ := inv.fine there
    exact ⟨(fine.kept listed).fresh, fine.counted trivial listed⟩

/-- A client that opens `clone`, and one that comes to the root directory of its session. -/
def visit : List Event :=
  [.attach 1, .walk 1 ['c', 'l', 'o', 'n', 'e'] true true, .openfid 1 true, .attach 2, .walk 2 ['0'] true true]

theorem walkAllowed_outside {exact : Prop} {host : Host} {f : Spfilefid} {name : List Char} {permitted stat : Bool}
    (here : f.current = .file .root) : host.WalkAllowed exact f name permitted stat where
  last := by simp [here]
  entry := by simp [here]
  inside := by simp [here]
  top := by simp [here]

theorem visit_guarded (exact : Prop) {later : List Event}
    (guarded : ∀ host, run Host.step {} visit = some host → Guarded Host.step (Host.Allowed exact) host later) :
    Guarded Host.step (Host.Allowed exact) {} (visit ++ later) := by
  refine guarded_cons _ rfl trivial (guarded_cons _ rfl ?_ (guarded_cons _ rfl trivial (guarded_cons _ rfl trivial
    (guarded_cons _ rfl ?_ (guarded _ rfl)))))
  · rintro f ⟨⟩ -
    exact walkAllowed_outside rfl
  · rintro f ⟨⟩ -
    exact walkAllowed_outside rfl

/-- A persistent session that is left twice. -/
def returns : List Event :=
  visit ++ [.clone 2 3, .walk 3 ['c', 't', 'l'] true true, .openfid 3 true, .ctl 3 (.type .persistent),
    .destroy 1, .destroy 3, .destroy 2, .attach 4, .walk 4 ['0'] true true, .destroy 4]

end Xcpu.Xcpufs.Session
