import Xcpu.Bjs.Pool

/-!
What the policies schedule with (`bjs.c`): nodes by their number, the jobs, and the allocations, each of
which is linked into the list of its node and of its job. Time is what `time` returns.
-/

namespace Xcpu.Bjs

/-- A node, whose number is its place. -/
structure SchedNode where
  name : Bytes
  up : Bool
  deriving DecidableEq

/-- A job has not been started while `startTime` is 0. -/
structure Job where
  id : Nat
  pool : Bytes
  reqs : Sexp
  startTime : Nat := 0
  priority : Int := 0
  deriving DecidableEq

/-- A `struct node_alloc_t`. -/
structure Alloc where
  job : Nat
  node : Nat
  deriving DecidableEq

/-- The allocations in the order in which they were made, which is their order in every list. -/
structure Sched where
  nodes : List SchedNode
  allocs : List Alloc := []
  jobs : List Job := []
  deriving DecidableEq

/-- The list of jobs of a pool. -/
def Sched.jobsOf (s : Sched) (p : Pool) : List Job := s.jobs.filter (·.pool = p.name)

/-- The node belongs to the pool. -/
def Pool.owns (p : Pool) (s : Sched) (node : Nat) : Bool :=
  s.nodes[node]?.any fun n => p.nodes.any (· = n.name)

def bjsNodeUp (s : Sched) (node : Nat) : Bool := s.nodes[node]?.any (·.up)

def bjsNodeIdle (s : Sched) (node : Nat) : Bool := bjsNodeUp s node && s.allocs.all (·.node ≠ node)

/-- A node whose jobs all have a priority below `pri`, up or not. -/
def bjsNodeUsable (s : Sched) (node : Nat) (pri : Int) : Bool :=
  s.nodes[node]?.isSome && s.allocs.all fun n => n.node ≠ node || s.jobs.all fun j => j.id ≠ n.job || j.priority < pri

/-- A node that is down or that there is not is only logged. -/
def bjsNodeAllocate (s : Sched) (j : Job) (node : Nat) : Sched :=
  if bjsNodeUp s node then { s with allocs := s.allocs ++ [⟨j.id, node⟩] } else s

/-- `bjs_job_remove`, with the nodes of the job. -/
def bjsJobRemove (s : Sched) (id : Nat) : Sched :=
  { s with allocs := s.allocs.filter (·.job ≠ id), jobs := s.jobs.filter (·.id ≠ id) }

/-- Every job on the node is removed. A job that is there twice would be removed together with the allocation
that comes next. -/
def bjsKillNode (s : Sched) (node : Nat) : Option Sched :=
  let jobs := (s.allocs.filter (·.node = node)).map Alloc.job
  if jobs.Nodup then some (jobs.foldl bjsJobRemove s) else none

def bjsStartJob (now : Nat) (s : Sched) (id : Nat) : Sched :=
  { s with jobs := s.jobs.map fun j => if j.id = id then { j with startTime := now } else j }

def bjsJobIsRunning (j : Job) : Bool := j.startTime ≠ 0

/-- `"job"`, the requirement that names other jobs -/
def jobKey : Bytes := jobAtom

/-- The requirements of a job as numbers. -/
def Job.nodes (j : Job) : Int := (nodesRequired j.reqs).toInt
def Job.secs (j : Job) (dfl : Bytes) : Int := (timeRequired j.reqs dfl).toInt

/-- The time of the job has expired. -/
def expired (now : Nat) (j : Job) : Bool :=
  j.startTime ≠ 0 && 0 ≤ j.priority && Job.secs j zeroText ≤ (now : Int) - j.startTime

/-- Kill off jobs whose time has expired. -/
def killExpired (now : Nat) (p : Pool) (s : Sched) : Sched :=
  (s.jobsOf p).foldl (fun s j => if expired now j then bjsJobRemove s j.id else s) s

/-- The loop that gives idle nodes to a job, over the numbers that are left, with how many are needed: how many
are still needed after it. -/
def allocateIdle (j : Job) : List Nat → Int → Sched → Int × Sched
  | [], nodes, s => (nodes, s)
  | i :: rest, nodes, s =>
      if nodes = 0 then (nodes, s)
      else if bjsNodeIdle s i then allocateIdle j rest (nodes - 1) (bjsNodeAllocate s j i)
      else allocateIdle j rest nodes s

/-- How many nodes are up, by as many numbers as the pool has nodes. -/
def totalNodes (p : Pool) (s : Sched) : Nat := (List.range p.nodes.length).countP (bjsNodeUp s)

-- whether the jobs that a job depends on allow it to run
variable (dependencies : Sched → Sexp → Bool)

def dependenciesMet (s : Sched) (j : Job) : Bool :=
  match sexpFindList jobKey j.reqs.elements with
  | none => true
  | some _ => dependencies s j.reqs

/-- There are enough nodes up to ever run the job, by as many numbers as its pool has nodes, and its
dependencies allow it. -/
def bjsJobRunnable (p : Pool) (s : Sched) (j : Job) : Bool :=
  if (totalNodes p s : Int) < j.nodes then false else dependenciesMet dependencies s j

/-- `find_first_runable` of `simple.c` and of `shared.c`. -/
def findFirstRunable (p : Pool) (s : Sched) : Option Job :=
  (s.jobsOf p).find? fun j => bjsJobRunnable dependencies p s j && !bjsJobIsRunning j

/-- What all jobs and allocations have in common: the numbers of the jobs differ, an allocation belongs to a
job, no priority is ever set, and what was accepted asks for some nodes. -/
structure WellKept (s : Sched) : Prop where
  distinct : (s.jobs.map Job.id).Nodup
  owned : ∀ n ∈ s.allocs, ∃ j ∈ s.jobs, j.id = n.job
  priority : ∀ j ∈ s.jobs, j.priority = 0
  wanted : ∀ j ∈ s.jobs, 0 < j.nodes

section Killing

variable {p : Pool} {s : Sched} {now id node : Nat}

theorem WellKept.bjsJobRemove (kept : WellKept s) : WellKept (bjsJobRemove s id) := by
  have inside : ∀ j ∈ (Bjs.bjsJobRemove s id).jobs, j ∈ s.jobs := fun j member => (List.mem_filter.mp member).1
  constructor
  · exact kept.distinct.sublist (List.filter_sublist.map _)
  · intro n member
    obtain ⟨member, other⟩ := List.mem_filter.mp member
    obtain ⟨j, there, same⟩ := kept.owned n member
    have apart : j.id ≠ id := same ▸ of_decide_eq_true other
    exact ⟨j, List.mem_filter.mpr ⟨there, decide_eq_true apart⟩, same⟩
  · exact fun j member => kept.priority j (inside j member)
  · exact fun j member => kept.wanted j (inside j member)

theorem WellKept.killExpired (kept : WellKept s) : WellKept (killExpired now p s) := by
  rw [Bjs.killExpired]
  generalize s.jobsOf p = jobs
  induction jobs generalizing s with
  | nil => exact kept
  | cons j rest ih =>
      rw [List.foldl_cons]
      split
      · exact ih kept.bjsJobRemove
      · exact ih kept

theorem bjsKillNode_free (free : ∀ n ∈ s.allocs, n.node ≠ node) : bjsKillNode s node = some s := by
  have none_ : s.allocs.filter (·.node = node) = [] :=
    List.filter_eq_nil_iff.mpr fun n member same => free n member (of_decide_eq_true same)
  rw [bjsKillNode, none_]
  rfl

theorem WellKept.bjsNodeUsable_iff (kept : WellKept s) : bjsNodeUsable s node 0 = true ↔
    (s.nodes[node]?).isSome = true ∧ ∀ n ∈ s.allocs, n.node ≠ node := by
  rw [bjsNodeUsable, Bool.and_eq_true, List.all_eq_true]
  refine and_congr_right fun _ => ⟨fun usable n member same => ?_, fun free n member => ?_⟩
  · obtain ⟨j, there, mine⟩ := kept.owned n member
    have killable := usable n member
    rw [Bool.or_eq_true, List.all_eq_true] at killable
    rcases killable with other | all
    · exact of_decide_eq_true other same
    · have zero := kept.priority j there
      have less := all j there
      simp [mine, zero] at less
  · rw [decide_eq_true (free n member), Bool.true_or]

end Killing

end Xcpu.Bjs
