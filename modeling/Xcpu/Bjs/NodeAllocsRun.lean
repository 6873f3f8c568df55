import Xcpu.Bjs.Reconfigure
import Xcpu.Lib.Transition

/-!
Runs of the scheduler on the lists in memory, beside the same runs on what the policies see. The loops that walk
a list are given as much fuel as there can be entries.
-/

namespace Xcpu.Bjs.NodeAllocs

open Circular Buckets

/-- The first job of a list with the number. -/
def jobAmong (jobs : Nat → Option Job) (id : Nat) : List Place → Option (Option Nat)
  | [] => some none
  | .jobList j :: rest => (jobs j).bind fun job => if job.id = id then some (some j) else jobAmong jobs id rest
  | _ :: _ => none

/-- The search for a job by its number, as `client_remove_job` has it. -/
def findJob (fuel : Nat) (m : Memory) (id : Nat) : Option (Option Nat) :=
  (elements fuel m.heap .bjsJobs).bind (jobAmong m.jobs id)

def bjsNodeIdle (m : Memory) (node : Nat) : Option Bool :=
  match m.nodes[node]? with
  | none => some false
  | some n => if n.up then listEmpty m.heap (.nodeJobs node) else some false

/-- Every allocation of a list has a job of a priority below `pri`. -/
def allBelow (m : Memory) (pri : Int) : List Place → Option Bool
  | [] => some true
  | l :: rest => (jobsEntry l).bind fun n => (m.allocs n).bind fun alloc => (m.jobs alloc.job).bind fun job =>
      if pri ≤ job.priority then some false else allBelow m pri rest

def bjsNodeUsable (fuel : Nat) (m : Memory) (node : Nat) (pri : Int) : Option Bool :=
  match m.nodes[node]? with
  | none => some false
  | some _ => (elements fuel m.heap (.nodeJobs node)).bind (allBelow m pri)

/-- The name of the node of an allocation on the list of its job -/
def nameAt (m : Memory) (l : Place) : Option Bytes :=
  (nodesEntry l).bind fun n => (m.allocs n).bind fun alloc => (m.nodes[alloc.node]?).map SchedNode.name

/-- The names that a job finds in `NODES`, and an interactive one in its answer. -/
def jobNodeNames (fuel : Nat) (m : Memory) (j : Nat) : Option (List Bytes) :=
  (elements fuel m.heap (.jobNodes j)).bind (List.mapM (nameAt m))

def jobAt (m : Memory) : Place → Option Job
  | .jobPlist j => m.jobs j
  | _ => none

/-- The jobs of a pool, in the order of its queue. -/
def poolQueue (fuel : Nat) (m : Memory) (pool : Bytes) : Option (List Job) :=
  (elements fuel m.heap (.poolJobs m.conf pool)).bind (List.mapM (jobAt m))

inductive Event
  | submit (j : Nat) (pool : Bytes) (reqs : Sexp)
  | refuse (j : Nat) (reqs : Sexp)
  | allocate (n id node : Nat)
  | start (id now : Nat)
  | remove (id : Nat)
  | killNode (node : Nat)
  | status (node : Nat) (up : Bool)
  | reconfigure (pools : List Bytes) (policy : Bytes → Policy) (accepts : Nat → Bool)

/-- The job that an event is about is found by its number; there must be one. -/
def step (asserts : Bool) (fuel : Nat) (m : Memory) : Event → Option Memory
  | .submit j pool reqs => submit m j pool reqs
  | .refuse j reqs => refuse asserts m j reqs
  | .allocate n id node => do
      let some j ← findJob fuel m id | none
      bjsNodeAllocate m n j node
  | .start id now => do
      let some j ← findJob fuel m id | none
      return { m with jobs := Function.update m.jobs j ((m.jobs j).map fun job => { job with startTime := now }) }
  | .remove id => do
      let some j ← findJob fuel m id | none
      bjsJobRemove asserts fuel m j
  | .killNode node => bjsKillNode asserts fuel m node
  | .status node up => some { m with nodes := setUp m.nodes node up }
  | .reconfigure pools policy accepts => configXfer asserts fuel m pools policy accepts

/-- The heads of all lists, with nothing in them. -/
def initial (pools : List Bytes) (nodes : List SchedNode) : Memory where
  heap := (.bjsJobs :: (pools.map (.poolJobs 0) ++ (List.range nodes.length).map .nodeJobs)).foldl initListHead
    fun _ => none
  allocs _ := none
  jobs _ := none
  nodes := nodes
  pools := pools

/-- `malloc` gives memory that is free, jobs are for pools that there are, and a new configuration has a pool for
every job, which takes it and is not a shared one. -/
def Allowed (m : Memory) : Event → Prop
  | .submit j pool _ => m.jobs j = none ∧ pool ∈ m.pools
  | .refuse j _ => m.jobs j = none
  | .allocate n _ _ => m.allocs n = none
  | .reconfigure pools policy accepts => ∀ j job, m.jobs j = some job →
      job.pool ∈ pools ∧ accepts j ∧ setsPool (policy job.pool)
  | _ => True

section Steps

variable {m : Memory} {jobs : List (Nat × Bytes)} {allocs : List (Nat × Alloc)}
  {fuel j n node id : Nat}

theorem jobAmong_eq {records : Nat → Option Job} (there : ∀ p ∈ jobs, ∃ job, records p.1 = some job) :
    jobAmong records id (jobs.map fun p => Place.jobList p.1) =
      some ((jobs.find? fun p => decide (numberOf records p.1 = id)).map Prod.fst) := by
  induction jobs with
  | nil => rfl
  | cons p rest ih =>
      obtain ⟨job, found⟩ := there p List.mem_cons_self
      have number : numberOf records p.1 = job.id := by rw [numberOf, found]; rfl
      rw [List.map_cons, jobAmong, found, Option.bind_some, List.find?_cons, number]
      by_cases here : job.id = id
      · simp [here]
      · rw [if_neg here, decide_eq_false here]
        exact ih fun q inside => there q (List.mem_cons_of_mem _ inside)

/-- A number that the policies know belongs to a job in memory, and the search finds it. -/
theorem Laid.findJob (laid : Laid m jobs allocs) (enough : jobs.length ≤ fuel)
    (known : (schedOf m jobs allocs).jobs.any (·.id = id)) :
    ∃ j job, findJob fuel m id = some (some j) ∧ j ∈ jobs.map Prod.fst ∧ m.jobs j = some job ∧ job.id = id := by
  have there : ∀ p ∈ jobs, ∃ job, m.jobs p.1 = some job := fun p inside =>
    (laid.recorded.there p inside).imp fun _ found => found.1
  have walk : NodeAllocs.findJob fuel m id =
      some ((jobs.find? fun p => decide (numberOf m.jobs p.1 = id)).map Prod.fst) := by
    have all : bucket (fun _ : Nat × Bytes => ()) jobs () = jobs := List.filter_eq_self.mpr fun _ _ => rfl
    rw [NodeAllocs.findJob, laid.woven.all.elements trivial enough, all]
    exact jobAmong_eq there
  obtain ⟨job, inside, same⟩ := List.any_eq_true.mp known
  obtain ⟨p, member, found⟩ := List.mem_filterMap.mp inside
  have number : numberOf m.jobs p.1 = id := by
    rw [numberOf, found]
    exact of_decide_eq_true same
  cases search : jobs.find? fun p => decide (numberOf m.jobs p.1 = id) with
  | none => exact absurd (decide_eq_true number) (List.find?_eq_none.mp search p member)
  | some q =>
      obtain ⟨job', found'⟩ := there q (List.mem_of_find?_eq_some search)
      have number' : numberOf m.jobs q.1 = id := of_decide_eq_true (List.find?_some search :)
      refine ⟨q.1, job', by rw [walk, search]; rfl, List.mem_map_of_mem (List.mem_of_find?_eq_some search), found', ?_⟩
      rw [numberOf, found'] at number'
      exact number'

/-- What memory answers about a node, a job and a pool is what the policies see there. -/
structure Answers (fuel : Nat) (m : Memory) (s : Sched) : Prop where
  idle : ∀ node, bjsNodeIdle m node = some (Bjs.bjsNodeIdle s node)
  usable : ∀ node pri, bjsNodeUsable fuel m node pri = some (Bjs.bjsNodeUsable s node pri)
  names : ∀ id, s.jobs.any (·.id = id) → ∃ j, findJob fuel m id = some (some j) ∧ jobNodeNames fuel m j =
    some ((s.allocs.filter (·.job = id)).filterMap fun n => s.nodes[n.node]?.map SchedNode.name)
  queue : ∀ pool ∈ m.pools, poolQueue fuel m pool = some (s.jobs.filter (·.pool = pool))

theorem Laid.idle (laid : Laid m jobs allocs) :
    NodeAllocs.bjsNodeIdle m node = some (Bjs.bjsNodeIdle (schedOf m jobs allocs) node) := by
  rw [NodeAllocs.bjsNodeIdle, Bjs.bjsNodeIdle, bjsNodeUp, schedOf]
  cases there : m.nodes[node]? with
  | none => rfl
  | some n =>
      simp only [Option.any_some]
      cases n.up with
      | false => rfl
      | true =>
          rw [if_pos rfl, laid.woven.onNodes.listEmpty (List.getElem?_eq_some_iff.mp there).1, bucket_isEmpty,
            Bool.true_and, List.all_map]
          rfl

/-- A job is the only one with its number. -/
theorem Laid.all_number {job : Job} {pri : Int} (laid : Laid m jobs allocs) (live : j ∈ jobs.map Prod.fst)
    (found : m.jobs j = some job) :
    ((schedOf m jobs allocs).jobs.all fun k => k.id ≠ numberOf m.jobs j || k.priority < pri) =
      decide (job.priority < pri) := by
  have number : numberOf m.jobs j = job.id := by rw [numberOf, found]; rfl
  rw [Bool.eq_iff_iff, List.all_eq_true, decide_eq_true_eq]
  constructor
  · intro all
    obtain ⟨p, inside, rfl⟩ := List.mem_map.mp live
    have below := all job (List.mem_filterMap.mpr ⟨p, inside, found⟩)
    simpa [number] using below
  · intro below k member
    obtain ⟨p, inside, found'⟩ := List.mem_filterMap.mp member
    by_cases here : p.1 = j
    · rw [here, found] at found'
      obtain rfl := Option.some.inj found'
      simp [below]
    · have other : k.id ≠ numberOf m.jobs j := fun same => here (laid.recorded.inj (List.mem_map_of_mem inside) live
        (by rw [← same, numberOf, found']; rfl))
      simp [other]

theorem Laid.allBelow {pri : Int} {entries : List (Nat × Alloc)} (laid : Laid m jobs allocs)
    (inside : entries ⊆ allocs) : allBelow m pri (entries.map fun p => Place.allocJobs p.1) = some (entries.all fun p =>
      (schedOf m jobs allocs).jobs.all fun j => j.id ≠ numberOf m.jobs p.2.job || j.priority < pri) := by
  induction entries with
  | nil => rfl
  | cons p rest ih =>
      have here := inside List.mem_cons_self
      have live := laid.woven.onJobs.placed p here
      obtain ⟨q, member, same⟩ := List.mem_map.mp live
      obtain ⟨job, found, -⟩ := laid.recorded.there q member
      rw [same] at found
      rw [List.map_cons, NodeAllocs.allBelow, jobsEntry, Option.bind_some, laid.allocRecord p here, Option.bind_some,
        found, Option.bind_some, List.all_cons, laid.all_number live found]
      by_cases below : job.priority < pri
      · rw [if_neg (Int.not_le.mpr below), ih fun q member => inside (List.mem_cons_of_mem _ member),
          decide_eq_true below, Bool.true_and]
      · rw [if_pos (Int.not_lt.mp below), decide_eq_false below, Bool.false_and]

theorem Laid.usable {pri : Int} (laid : Laid m jobs allocs) (enough : allocs.length ≤ fuel) :
    NodeAllocs.bjsNodeUsable fuel m node pri = some (Bjs.bjsNodeUsable (schedOf m jobs allocs) node pri) := by
  rw [NodeAllocs.bjsNodeUsable, Bjs.bjsNodeUsable]
  cases there : m.nodes[node]? with
  | none => simp [schedOf, there]
  | some n =>
      have here : (schedOf m jobs allocs).nodes[node]?.isSome = true := by rw [schedOf, there]; rfl
      have walk := laid.woven.onNodes.elements (List.getElem?_eq_some_iff.mp there).1 enough
      simp only [walk, Option.bind_some]
      rw [laid.allBelow fun p member => (mem_bucket member).1, bucket, List.all_filter, here, Bool.true_and,
        show (schedOf m jobs allocs).allocs = allocs.map (numbered m.jobs) from rfl, List.all_map]
      refine congrArg some (List.all_congr rfl fun p => ?_)
      by_cases placed : p.2.node = node <;> simp [placed, numbered]

/-- A walk reads something at every entry. -/
theorem mapM_filterMap {Entry Value : Type} {place : Entry → Place} {read : Place → Option Value}
    {value : Entry → Option Value} {entries : List Entry}
    (reads : ∀ e ∈ entries, read (place e) = value e ∧ (value e).isSome) :
    (entries.map place).mapM read = some (entries.filterMap value) := by
  induction entries with
  | nil => rfl
  | cons e rest ih =>
      obtain ⟨same, there⟩ := reads e List.mem_cons_self
      obtain ⟨v, found⟩ := Option.isSome_iff_exists.mp there
      rw [List.map_cons, List.mapM_cons, same, found, ih fun e member => reads e (List.mem_cons_of_mem _ member),
        List.filterMap_cons_some found]
      rfl

theorem Laid.names (laid : Laid m jobs allocs) (live : j ∈ jobs.map Prod.fst) (enough : allocs.length ≤ fuel) :
    jobNodeNames fuel m j = some (((schedOf m jobs allocs).allocs.filter (·.job = numberOf m.jobs j)).filterMap
      fun n => (schedOf m jobs allocs).nodes[n.node]?.map SchedNode.name) := by
  have walk : jobNodeNames fuel m j = some ((bucket (fun p : Nat × Alloc => p.2.job) allocs j).filterMap
      fun p => m.nodes[p.2.node]?.map SchedNode.name) := by
    rw [jobNodeNames, laid.woven.onJobs.elements live enough, Option.bind_some]
    refine mapM_filterMap fun p member => ⟨?_, ?_⟩
    · rw [nameAt, nodesEntry, Option.bind_some, laid.allocRecord p (mem_bucket member).1, Option.bind_some]
    · rw [List.getElem?_eq_getElem (laid.woven.onNodes.placed p (mem_bucket member).1)]
      rfl
  have same : bucket (fun p : Nat × Alloc => p.2.job) allocs j =
      allocs.filter ((fun alloc : Alloc => decide (alloc.job = numberOf m.jobs j)) ∘ numbered m.jobs) := by
    refine List.filter_congr fun p inside => decide_eq_decide.mpr ⟨congrArg (numberOf m.jobs), fun same => ?_⟩
    exact laid.recorded.inj (laid.woven.onJobs.placed p inside) live same
  rw [walk, same, schedOf, List.filter_map, List.filterMap_map]
  rfl

theorem Laid.queue {pool : Bytes} (laid : Laid m jobs allocs) (known : pool ∈ m.pools)
    (enough : jobs.length ≤ fuel) :
    poolQueue fuel m pool = some ((schedOf m jobs allocs).jobs.filter (·.pool = pool)) := by
  have walk : poolQueue fuel m pool = some ((bucket Prod.snd jobs pool).filterMap fun p => m.jobs p.1) := by
    rw [poolQueue, laid.woven.pooled.elements known enough, Option.bind_some]
    refine mapM_filterMap fun p member => ⟨rfl, ?_⟩
    obtain ⟨job, found, -⟩ := laid.recorded.there p (mem_bucket member).1
    exact Option.isSome_of_eq_some found
  rw [walk, schedOf, bucket, List.filterMap_filter, List.filter_filterMap]
  refine congrArg some (List.filterMap_congr fun p inside => ?_)
  obtain ⟨job, found, same, -⟩ := laid.recorded.there p inside
  rw [found, Option.filter_some, same]

theorem Laid.answers (laid : Laid m jobs allocs) (enoughJobs : jobs.length ≤ fuel)
    (enough : allocs.length ≤ fuel) : Answers fuel m (schedOf m jobs allocs) where
  idle _ := laid.idle
  usable _ _ := laid.usable enough
  names id known := by
    obtain ⟨j, job, found, live, record, rfl⟩ := laid.findJob enoughJobs known
    have number : numberOf m.jobs j = job.id := by rw [numberOf, record]; rfl
    exact ⟨j, found, number ▸ laid.names live enough⟩
  queue _ known := laid.queue known enoughJobs

end Steps

end Xcpu.Bjs.NodeAllocs
