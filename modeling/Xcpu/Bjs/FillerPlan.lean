import Xcpu.Bjs.Filler
import Xcpu.Bjs.Gives
import Xcpu.Bjs.PoolLimits
import Xcpu.Lib.Transition
import Mathlib.Algebra.BigOperators.Ring.Finset

/-!
The plan of `filler`: what a hole guarantees, how the plan and the idle nodes agree at time 0, and when a
whole pass keeps within what a `long` can hold.
-/

namespace Xcpu.Bjs.Filler

open Xcpu.Timeline

section Holes

variable {time nodes start found : Int} {plan rest : List SchedEvent} {se : SchedEvent}

/-- The ends of the holes that are tried from an event on are no larger than a `long`. -/
def HoleFits (time nodes : Int) : Int → List SchedEvent → Prop
  | _, [] => True
  | start, se :: rest =>
      if start = -1 then HoleFits time nodes (if nodes ≤ se.value then se.time else -1) rest
      else start + time < 2 ^ 63 ∧
        (se.time ≤ start + time → HoleFits time nodes (if nodes ≤ se.value then start else -1) rest)

end Holes

section Running

variable {now : Nat} {plan planned : List SchedEvent} {jobs : List Job}

/-- What is left of the time of the job is a `long`. -/
def LeftFits (now : Nat) (j : Job) : Prop := Job.secs j zeroText - ((now : Int) - j.startTime) < 2 ^ 63

end Running

/-- The pool is the only one and has the whole cluster in order, the running jobs hold as many nodes as they
asked for, and every job asks for some time and some nodes and depends on no other. -/
structure Whole (p : Pool) (s : Sched) : Prop where
  only : ∀ j ∈ s.jobs, j.pool = p.name
  distinct : (s.jobs.map Job.id).Nodup
  nodes : p.nodes = s.nodes.map SchedNode.name
  secs : ∀ j ∈ s.jobs, 0 < Job.secs j zeroText
  wanted : ∀ j ∈ s.jobs, 0 < Job.nodes j
  independent : ∀ j ∈ s.jobs, sexpFindList jobKey j.reqs.elements = none
  owned : ∀ n ∈ s.allocs, ∃ j ∈ s.jobs, j.id = n.job ∧ bjsJobIsRunning j = true
  held : ∀ j ∈ s.jobs, bjsJobIsRunning j = true → (s.allocs.countP (·.job = j.id) : Int) = Job.nodes j

section Bookkeeping

variable {p : Pool} {s : Sched} {now id : Nat} {jobs : List Job} {allocs : List Alloc}

theorem Whole.jobsOf (whole : Whole p s) : s.jobsOf p = s.jobs :=
  List.filter_eq_self.mpr fun j member => decide_eq_true (whole.only j member)

theorem Whole.bjsJobRemove (whole : Whole p s) : Whole p (bjsJobRemove s id) := by
  have inside : ∀ j ∈ (Bjs.bjsJobRemove s id).jobs, j ∈ s.jobs ∧ j.id ≠ id := by
    intro j member
    obtain ⟨member, other⟩ := List.mem_filter.mp member
    exact ⟨member, of_decide_eq_true other⟩
  constructor
  · exact fun j member => whole.only j (inside j member).1
  · exact whole.distinct.sublist (List.filter_sublist.map _)
  · exact whole.nodes
  · exact fun j member => whole.secs j (inside j member).1
  · exact fun j member => whole.wanted j (inside j member).1
  · exact fun j member => whole.independent j (inside j member).1
  · intro n member
    obtain ⟨member, other⟩ := List.mem_filter.mp member
    obtain ⟨j, there, same, running⟩ := whole.owned n member
    have kept : j.id ≠ id := same ▸ of_decide_eq_true other
    exact ⟨j, List.mem_filter.mpr ⟨there, decide_eq_true kept⟩, same, running⟩
  · intro j member running
    obtain ⟨member, other⟩ := inside j member
    rw [← whole.held j member running, Bjs.bjsJobRemove, List.countP_filter]
    congr 2
    funext n
    by_cases same : n.job = j.id
    · have kept : n.job ≠ id := same ▸ other
      simp [same, other]
    · simp [same]

theorem Whole.killExpired (whole : Whole p s) : Whole p (killExpired now p s) := by
  rw [Bjs.killExpired]
  generalize s.jobsOf p = jobs
  induction jobs generalizing s with
  | nil => exact whole
  | cons j rest ih =>
      rw [List.foldl_cons]
      split
      · exact ih whole.bjsJobRemove
      · exact ih whole

end Bookkeeping

/-- The plan is nowhere negative where it was not before. -/
def Planned (base plan : List SchedEvent) : Prop :=
  ∀ time, 0 ≤ time → 0 ≤ valueAt plan time ∨ valueAt plan time = valueAt base time

/-- What a pass that began with a state and a plan has done. -/
structure Placed (now : Nat) (p : Pool) (s : Sched) (base : List SchedEvent) (pass : Pass) (given : List Alloc)
    (started : List Nat) : Prop where
  planned : Planned base pass.plan
  gives : Gives now p s pass.sched given started
  exactly : Exactly s given started

/-- The plan starts now, with as many nodes as are up and not allocated. -/
structure Agrees (p : Pool) (s : Sched) (pass : Pass) : Prop where
  starts : Starts 0 pass.plan
  free : valueAt pass.plan 0 = (totalNodes p s : Int) - pass.sched.allocs.length

section Placement

variable {dependencies : Sched → Sexp → Bool} {now : Nat} {p : Pool} {s : Sched} {base : List SchedEvent}
  {pass next : Pass} {given : List Alloc} {started : List Nat} {j : Job} {queue : List Job}

theorem Starts.from (starts : Starts 0 pass.plan) : ∀ se ∈ pass.plan, 0 ≤ se.time := by
  intro se member
  cases plan : pass.plan with
  | nil =>
      rw [plan] at member
      exact absurd member List.not_mem_nil
  | cons first rest =>
      rw [plan] at member starts
      obtain ⟨same, -, later⟩ := Starts.cons_iff.mp starts
      rcases List.mem_cons.mp member with rfl | member
      · exact same.ge
      · exact same.ge.trans (later se member).le

/-- The ends that are computed for a job that is planned are no larger than a `long`. -/
def RoundFits (dependencies : Sched → Sexp → Bool) (p : Pool) (pass : Pass) (j : Job) : Prop :=
  bjsJobIsRunning j = false → bjsJobRunnable dependencies p pass.sched j = true →
    HoleFits (Job.secs j oneText) (Job.nodes j) (-1) pass.plan ∧
      ∀ start, findHole pass.plan (Job.secs j oneText) (Job.nodes j) = some start → start ≠ -1 →
        start + Job.secs j oneText < 2 ^ 63

/-- The cluster after a job has been planned at a start. -/
def startedAt (now : Nat) (p : Pool) (s : Sched) (j : Job) (start : Int) : Sched :=
  if start = 0 then bjsStartJob now (allocateIdle j (List.range p.nodes.length) (Job.nodes j) s).2 j.id else s

theorem place_eq (waiting : bjsJobIsRunning j = false) (runs : bjsJobRunnable dependencies p pass.sched j = true) :
    place dependencies now p pass j =
      (findHole pass.plan (Job.secs j oneText) (Job.nodes j)).bind fun start =>
        if start = -1 then some pass
        else (long (start + Job.secs j oneText)).map fun ends => ⟨startedAt now p pass.sched j start,
          adjust ends (Job.nodes j) (adjust start (-Job.nodes j) pass.plan)⟩ := by
  rw [place, if_neg (Bool.eq_false_iff.mp waiting), runs, Bool.not_true, if_neg Bool.false_ne_true]
  refine congrArg _ (funext fun start => ?_)
  split
  · rfl
  · cases long (start + Job.secs j oneText) with
    | none => rfl
    | some ends =>
        by_cases immediate : start = 0
        · simp [startedAt, immediate, addSchedEvent]
        · simp [startedAt, immediate, addSchedEvent]

theorem place_skips (skipped : bjsJobIsRunning j = true ∨ bjsJobRunnable dependencies p pass.sched j = false) :
    place dependencies now p pass j = some pass := by
  rw [place]
  rcases skipped with running | stuck
  · rw [if_pos running]
  · rw [stuck]
    split <;> rfl

/-- A round leaves the cluster alone, or starts its job there. -/
theorem place_sched (stepped : place dependencies now p pass j = some next) : next.sched = pass.sched ∨
    bjsJobIsRunning j = false ∧ next.sched = startedAt now p pass.sched j 0 := by
  by_cases skipped : bjsJobIsRunning j = true ∨ bjsJobRunnable dependencies p pass.sched j = false
  · rw [place_skips skipped, Option.some.injEq] at stepped
    subst stepped
    exact .inl rfl
  · rw [not_or, Bool.not_eq_true, Bool.not_eq_false] at skipped
    rw [place_eq skipped.1 skipped.2] at stepped
    obtain ⟨start, -, stepped⟩ := Option.bind_eq_some_iff.mp stepped
    by_cases none_ : start = -1
    · rw [if_pos none_, Option.some.injEq] at stepped
      subst stepped
      exact .inl rfl
    · rw [if_neg none_] at stepped
      obtain ⟨ends, -, rfl⟩ := Option.map_eq_some_iff.mp stepped
      by_cases immediate : start = 0
      · subst immediate
        exact .inr ⟨skipped.1, rfl⟩
      · refine .inl ?_
        dsimp only
        rw [startedAt, if_neg immediate]

theorem startedAt_zero (wanted : 0 < Job.nodes j) : startedAt now p s j 0 =
    bjsStartJob now { s with allocs := s.allocs ++ givenTo p s j } j.id := by
  rw [startedAt, if_pos rfl, allocateIdle_eq wanted]

theorem placeAll_gives (distinct : (s.jobs.map Job.id).Nodup) (wanted : ∀ j ∈ s.jobs, 0 < Job.nodes j)
    (gives : Gives now p s pass.sched given started) (waits : ∀ j ∈ queue, j ∈ s.jobs)
    (ran : placeAll dependencies now p pass queue = some next) :
    ∃ given started, Gives now p s next.sched given started := by
  induction queue generalizing pass given started with
  | nil =>
      rw [placeAll, Option.some.injEq] at ran
      exact ran ▸ ⟨given, started, gives⟩
  | cons j rest ih =>
      obtain ⟨middle, stepped, ran⟩ := Option.bind_eq_some_iff.mp ran
      have member := waits j List.mem_cons_self
      have onward : ∀ j ∈ rest, j ∈ s.jobs := fun j inside => waits j (List.mem_cons_of_mem _ inside)
      rcases place_sched stepped with same | ⟨waiting, same⟩
      · exact ih (same ▸ gives) onward ran
      · rw [startedAt_zero (wanted j member)] at same
        have later := gives.start (p := p) distinct member waiting
        rw [← same] at later
        exact ih later onward ran

theorem Placed.room (placed : Placed now p s base pass given started) (agrees : Agrees p s pass)
    (enough : Job.nodes j ≤ valueAt pass.plan 0) (wanted : 0 < Job.nodes j) :
    ((givenTo p pass.sched j).length : Int) = Job.nodes j := by
  have most := totalNodes_le (p := p) (s := pass.sched)
  have free := agrees.free
  rw [placed.gives.totalNodes] at most
  rw [givenTo_length_iff wanted]
  omega

theorem Placed.start (placed : Placed now p s base pass given started) (agrees : Agrees p s pass)
    (distinct : (s.jobs.map Job.id).Nodup) (member : j ∈ s.jobs) (waiting : bjsJobIsRunning j = false)
    (fresh : j.id ∉ started) (wanted : 0 < Job.nodes j) (enough : Job.nodes j ≤ valueAt pass.plan 0)
    {plan : List SchedEvent} (planned : Planned base plan) :
    Placed now p s base ⟨startedAt now p pass.sched j 0, plan⟩ (given ++ givenTo p pass.sched j)
      (started ++ [j.id]) := by
  rw [startedAt_zero wanted]
  refine ⟨planned, placed.gives.start distinct member waiting, fun other there inside => ?_⟩
  rw [List.countP_append]
  rcases List.mem_append.mp inside with old | new
  · have none_ : (givenTo p pass.sched j).countP (·.job = other.id) = 0 := by
      refine List.countP_eq_zero.mpr fun n inside mine => fresh ?_
      exact givenTo_job inside ▸ of_decide_eq_true mine ▸ old
    rw [none_, Nat.add_zero]
    exact placed.exactly other there old
  · have one := List.inj_on_of_nodup_map distinct there member (List.mem_singleton.mp new)
    subst one
    rw [countP_fresh placed.gives.mine fresh, givenTo_count, Nat.zero_add]
    exact placed.room agrees enough wanted

end Placement

/-- What the running jobs leave of the nodes. -/
def basePlan (now : Nat) (p : Pool) (s : Sched) : Option (List SchedEvent) :=
  addRunning now [⟨0, totalNodes p s⟩] s.jobs

/-- What is left of each running job and all ends of the holes that are tried or taken are no larger than a
`long`. -/
structure Fits (dependencies : Sched → Sexp → Bool) (now : Nat) (p : Pool) (s : Sched) : Prop where
  left : ∀ j ∈ s.jobs, bjsJobIsRunning j = true → LeftFits now j
  rounds : ∀ base, basePlan now p s = some base →
    Transition.Guarded (place dependencies now p) (RoundFits dependencies p) ⟨s, base⟩ s.jobs

/-- The pool of one node without a limit, and the cluster of that node with two jobs that wait. -/
def oneNode : Pool := { tenSeconds with maxSecs := -1 }

def twoJobs (secs : Bytes) : Sched where
  nodes := [⟨[110], true⟩]
  jobs := [{ id := 1, pool := oneNode.name, reqs := secsReqs secs },
    { id := 2, pool := oneNode.name, reqs := secsReqs secs }]

end Xcpu.Bjs.Filler
