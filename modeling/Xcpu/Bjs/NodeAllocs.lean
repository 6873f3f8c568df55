import Xcpu.Bjs.Schedule
import Xcpu.Lib.Buckets

/-!
The lists of the scheduler in memory (`bjs.c`, `bjs_list.h`). Every allocation is linked into the list of its
node and into the list of its job, and every job into the list of all jobs and into the list of its pool. What
is freed is not in memory any more.
-/

namespace Xcpu.Bjs.NodeAllocs

open Circular Buckets

/-- The addresses of the `struct list_head`s, each by the structure that it is a member of. The pools are those of
a configuration, and configurations are counted. -/
inductive Place
  | bjsJobs
  | poolJobs (conf : Nat) (pool : Bytes)
  | nodeJobs (node : Nat)
  | jobNodes (j : Nat)
  | jobList (j : Nat)
  | jobPlist (j : Nat)
  | allocJobs (n : Nat)
  | allocNodes (n : Nat)
  deriving DecidableEq

/-- The `job` of an allocation is the address of the job. Where the `pool` of a job points to is told by
`poolConf`, the number of the configuration that the pool is of. -/
structure Memory where
  heap : Heap Place
  allocs : Nat → Option Alloc
  jobs : Nat → Option Job
  poolConf : Nat → Nat := fun _ => 0
  nodes : List SchedNode
  pools : List Bytes
  conf : Nat := 0
  jobId : Nat := 0
  cleanSet : List Bytes := []

def freed (heap : Heap Place) (place : Place) : Heap Place := Function.update heap place none

/-- `mkjob` and the policy's `submit`, with the requirements and a pool that accepted the job, which becomes its
`pool`. -/
def submit (m : Memory) (j : Nat) (pool : Bytes) (reqs : Sexp) : Option Memory := do
  let heap ← listAddTail (initListHead m.heap (.jobNodes j)) (.jobList j) .bjsJobs
  let heap ← listAddTail heap (.jobPlist j) (.poolJobs m.conf pool)
  return { m with
    heap, jobs := Function.update m.jobs j (some { id := m.jobId, pool, reqs }), jobId := m.jobId + 1
    poolConf := Function.update m.poolConf j m.conf }

/-- `n` is the address that `malloc` gives. -/
def bjsNodeAllocate (m : Memory) (n j node : Nat) : Option Memory :=
  match m.nodes[node]? with
  | none => some m
  | some bjsnode =>
      if bjsnode.up then do
        let heap ← listAddTail m.heap (.allocJobs n) (.nodeJobs node)
        let heap ← listAddTail heap (.allocNodes n) (.jobNodes j)
        return { m with heap, allocs := Function.update m.allocs n (some ⟨j, node⟩) }
      else some m

def bjsNodeDeallocate (m : Memory) (n : Nat) : Option Memory := do
  let alloc ← m.allocs n
  let heap ← listDel m.heap (.allocJobs n)
  let heap ← listDel heap (.allocNodes n)
  let bjsnode ← m.nodes[alloc.node]?
  let empty ← listEmpty heap (.nodeJobs alloc.node)
  return { m with
    heap := freed (freed heap (.allocJobs n)) (.allocNodes n)
    allocs := Function.update m.allocs n none
    cleanSet := if empty then m.cleanSet ++ [bjsnode.name] else m.cleanSet }

/-- `list_entry` with `nodes_list` and with `jobs_list` -/
def nodesEntry : Place → Option Nat
  | .allocNodes n => some n
  | _ => none

def jobsEntry : Place → Option Nat
  | .allocJobs n => some n
  | _ => none

/-- The first allocation of the job goes until there is none. -/
def bjsJobKill : Nat → Memory → Nat → Option Memory
  | 0, m, j => (listEmpty m.heap (.jobNodes j)).bind fun empty => if empty then some m else none
  | fuel + 1, m, j => (listEmpty m.heap (.jobNodes j)).bind fun empty =>
      if empty then some m
      else (m.heap (.jobNodes j)).bind fun links => (nodesEntry links.next).bind fun n =>
        (bjsNodeDeallocate m n).bind fun m => bjsJobKill fuel m j

/-- Without `NDEBUG` a program has its assertions (`asserts`), and one that fails ends it. -/
def assert (asserts : Bool) (condition : Option Bool) : Option Unit :=
  if asserts then condition.bind fun holds => if holds then some () else none else some ()

/-- The assertion asks for a job that still has allocations, and `bjs_job_kill` leaves none. -/
def bjsJobFree (asserts : Bool) (m : Memory) (j : Nat) : Option Memory :=
  (listDel m.heap (.jobList j)).bind fun heap =>
    (assert asserts ((listEmpty heap (.jobNodes j)).map not)).map fun _ =>
      { m with
        heap := freed (freed (freed heap (.jobNodes j)) (.jobList j)) (.jobPlist j)
        jobs := Function.update m.jobs j none }

/-- `mkjob` for a job that `submit_check_builtin` then refuses. -/
def refuse (asserts : Bool) (m : Memory) (j : Nat) (reqs : Sexp) : Option Memory := do
  let heap ← listAddTail (initListHead m.heap (.jobNodes j)) (.jobList j) .bjsJobs
  let job : Job := { id := m.jobId, pool := [], reqs }
  bjsJobFree asserts { m with heap, jobs := Function.update m.jobs j (some job), jobId := m.jobId + 1 } j

/-- With the `remove` of the job's policy, which is found in its pool. -/
def bjsJobRemove (asserts : Bool) (fuel : Nat) (m : Memory) (j : Nat) : Option Memory :=
  (bjsJobKill fuel m j).bind fun m =>
    if m.poolConf j = m.conf then
      (listDel m.heap (.jobPlist j)).bind fun heap => bjsJobFree asserts { m with heap } j
    else none

/-- The loop of `bjs_kill_node` from a pointer on; what comes next is read before the job is removed. -/
def killFrom (asserts : Bool) (fuel node : Nat) : Nat → Memory → Place → Option Memory
  | 0, m, l => if l = .nodeJobs node then some m else none
  | rounds + 1, m, l =>
      if l = .nodeJobs node then some m
      else (jobsEntry l).bind fun n => (m.allocs n).bind fun alloc => (m.heap l).bind fun links =>
        (bjsJobRemove asserts fuel m alloc.job).bind fun m => killFrom asserts fuel node rounds m links.next

def bjsKillNode (asserts : Bool) (fuel : Nat) (m : Memory) (node : Nat) : Option Memory :=
  match m.nodes[node]? with
  | none => some m
  | some _ => (m.heap (.nodeJobs node)).bind fun links => killFrom asserts fuel node fuel m links.next

def setUp (nodes : List SchedNode) (node : Nat) (up : Bool) : List SchedNode := nodes.modify node fun n => { n with up }

/-- The kind of list that a place is part of. -/
inductive Kind
  | all
  | pool
  | node
  | job
  deriving DecidableEq

def Place.kind : Place → Kind
  | .bjsJobs | .jobList _ => .all
  | .poolJobs _ _ | .jobPlist _ => .pool
  | .nodeJobs _ | .allocJobs _ => .node
  | .jobNodes _ | .allocNodes _ => .job

/-- A place that belongs to a job or an allocation that is there. -/
def Place.used (conf : Nat) (jobs : List (Nat × Bytes)) (allocs : List (Nat × Alloc)) : Place → Prop
  | .bjsJobs | .nodeJobs _ => True
  | .poolJobs c _ => c = conf
  | .jobList j | .jobPlist j | .jobNodes j => j ∈ jobs.map Prod.fst
  | .allocJobs n | .allocNodes n => n ∈ allocs.map Prod.fst

abbrev InAll (heap : Heap Place) (jobs : List (Nat × Bytes)) : Prop :=
  Hung (fun _ : Unit => Place.bjsJobs) (fun p => .jobList p.1) (fun _ => ()) heap (fun _ => True) jobs

abbrev InPools (conf : Nat) (pools : List Bytes) (heap : Heap Place) (jobs : List (Nat × Bytes)) : Prop :=
  Hung (Place.poolJobs conf) (fun p => .jobPlist p.1) Prod.snd heap (fun pool => pool ∈ pools) jobs

abbrev OnNodes (nodes : Nat) (heap : Heap Place) (allocs : List (Nat × Alloc)) : Prop :=
  Hung .nodeJobs (fun p => .allocJobs p.1) (fun p => p.2.node) heap (fun node => node < nodes) allocs

abbrev OnJobs (heap : Heap Place) (jobs : List (Nat × Bytes)) (allocs : List (Nat × Alloc)) : Prop :=
  Hung .jobNodes (fun p => .allocNodes p.1) (fun p => p.2.job) heap (fun j => j ∈ jobs.map Prod.fst) allocs

/-- The jobs and the allocations hang in their lists, in the order in which they were made. -/
structure Woven (conf : Nat) (pools : List Bytes) (nodes : Nat) (heap : Heap Place) (jobs : List (Nat × Bytes))
    (allocs : List (Nat × Alloc)) : Prop where
  all : InAll heap jobs
  pooled : InPools conf pools heap jobs
  onNodes : OnNodes nodes heap allocs
  onJobs : OnJobs heap jobs allocs

/-- The number of the job at an address. -/
def numberOf (records : Nat → Option Job) (j : Nat) : Nat := ((records j).map Job.id).getD 0

/-- An allocation with the number of its job. -/
def numbered (records : Nat → Option Job) (p : Nat × Alloc) : Alloc := ⟨numberOf records p.2.job, p.2.node⟩

/-- The records of the jobs are in memory with the pools they are in, and their numbers differ. -/
structure Recorded (records : Nat → Option Job) (jobId : Nat) (jobs : List (Nat × Bytes)) : Prop where
  there : ∀ p ∈ jobs, ∃ job, records p.1 = some job ∧ job.pool = p.2 ∧ job.id < jobId
  ids : (jobs.map fun p => numberOf records p.1).Nodup

structure Laid (m : Memory) (jobs : List (Nat × Bytes)) (allocs : List (Nat × Alloc)) : Prop where
  recorded : Recorded m.jobs m.jobId jobs
  pointed : ∀ p ∈ jobs, m.poolConf p.1 = m.conf
  allocRecord : ∀ p ∈ allocs, m.allocs p.1 = some p.2
  woven : Woven m.conf m.pools m.nodes.length m.heap jobs allocs

/-- What the policies see of the memory. -/
def schedOf (m : Memory) (jobs : List (Nat × Bytes)) (allocs : List (Nat × Alloc)) : Sched :=
  ⟨m.nodes, allocs.map (numbered m.jobs), jobs.filterMap fun p => m.jobs p.1⟩

theorem bjsJobs_injective : Function.Injective fun _ : Unit => Place.bjsJobs := fun _ _ _ => rfl

theorem poolJobs_injective (conf : Nat) : Function.Injective (Place.poolJobs conf) := fun _ _ same =>
  (Place.poolJobs.inj same).2

theorem nodeJobs_injective : Function.Injective Place.nodeJobs := fun _ _ => Place.nodeJobs.inj

theorem jobNodes_injective : Function.Injective Place.jobNodes := fun _ _ => Place.jobNodes.inj

theorem bjsJobs_apart (_ : Unit) (p : Nat × Bytes) : Place.bjsJobs ≠ .jobList p.1 := nofun

theorem poolJobs_apart (conf : Nat) (pool : Bytes) (p : Nat × Bytes) : Place.poolJobs conf pool ≠ .jobPlist p.1 := nofun

theorem nodeJobs_apart (node : Nat) (p : Nat × Alloc) : Place.nodeJobs node ≠ .allocJobs p.1 := nofun

theorem jobNodes_apart (j : Nat) (p : Nat × Alloc) : Place.jobNodes j ≠ .allocNodes p.1 := nofun

section Woven

variable {conf : Nat} {pools : List Bytes} {nodes : Nat} {heap heap' : Heap Place} {jobs : List (Nat × Bytes)}
  {allocs before after : List (Nat × Alloc)} {p : Nat × Alloc}

theorem Woven.congr (woven : Woven conf pools nodes heap jobs allocs)
    (same : ∀ place, place.used conf jobs allocs → heap' place = heap place) :
    Woven conf pools nodes heap' jobs allocs where
  all := woven.all.congr (fun _ _ => same .bjsJobs trivial) fun q inside =>
    same (.jobList q.1) (List.mem_map_of_mem inside)
  pooled := woven.pooled.congr (fun pool _ => same (.poolJobs conf pool) rfl) fun q inside =>
    same (.jobPlist q.1) (List.mem_map_of_mem inside)
  onNodes := woven.onNodes.congr (fun node _ => same (.nodeJobs node) trivial) fun q inside =>
    same (.allocJobs q.1) (List.mem_map_of_mem inside)
  onJobs := woven.onJobs.congr (fun j alive => same (.jobNodes j) alive) fun q inside =>
    same (.allocNodes q.1) (List.mem_map_of_mem inside)

/-- The memory of what is not there any more can be given back. -/
theorem Woven.freed (woven : Woven conf pools nodes heap jobs allocs) (place : Place)
    (unused : ¬ place.used conf jobs allocs) : Woven conf pools nodes (freed heap place) jobs allocs :=
  woven.congr fun other used => Function.update_of_ne (fun same : other = place => unused (same ▸ used)) _ _

/-- A list of one kind is changed, and the others are not. -/
def Off (kind : Kind) (heap heap' : Heap Place) : Prop := ∀ place : Place, place.kind ≠ kind → heap' place = heap place

theorem Off.of_frame {Key Entry : Type} {kind : Kind} {head : Key → Place} {element : Entry → Place}
    {entries : List Entry} (heads : ∀ k, (head k).kind = kind) (elements : ∀ e, (element e).kind = kind)
    (frame : ∀ other, (∀ k, other ≠ head k) → (∀ e ∈ entries, other ≠ element e) → heap' other = heap other) :
    Off kind heap heap' := fun place other =>
  frame place (fun k same => other (same ▸ heads k)) fun e _ same => other (same ▸ elements e)

theorem Off.jobNodes {kind : Kind} (off : Off kind heap heap') (other : Kind.job ≠ kind) (j : Nat) :
    heap' (.jobNodes j) = heap (.jobNodes j) := off (.jobNodes j) other

theorem InAll.off {kind : Kind} (all : InAll heap jobs) (off : Off kind heap heap') (other : Kind.all ≠ kind) :
    InAll heap' jobs := all.congr (fun _ _ => off .bjsJobs other) fun q _ => off (.jobList q.1) other

theorem InPools.off {kind : Kind} (pooled : InPools conf pools heap jobs) (off : Off kind heap heap')
    (other : Kind.pool ≠ kind) : InPools conf pools heap' jobs :=
  pooled.congr (fun pool _ => off (.poolJobs conf pool) other) fun q _ => off (.jobPlist q.1) other

theorem OnNodes.off {kind : Kind} (onNodes : OnNodes nodes heap allocs) (off : Off kind heap heap')
    (other : Kind.node ≠ kind) : OnNodes nodes heap' allocs :=
  onNodes.congr (fun node _ => off (.nodeJobs node) other) fun q _ => off (.allocJobs q.1) other

theorem OnJobs.off {kind : Kind} (onJobs : OnJobs heap jobs allocs) (off : Off kind heap heap')
    (other : Kind.job ≠ kind) : OnJobs heap' jobs allocs :=
  onJobs.congr (fun j _ => off (.jobNodes j) other) fun q _ => off (.allocNodes q.1) other

theorem Woven.allocate (p : Nat × Alloc) (woven : Woven conf pools nodes heap jobs allocs) (node : p.2.node < nodes)
    (job : p.2.job ∈ jobs.map Prod.fst) (fresh : p.1 ∉ allocs.map Prod.fst) :
    ∃ heap₁ heap₂, listAddTail heap (.allocJobs p.1) (.nodeJobs p.2.node) = some heap₁ ∧
      listAddTail heap₁ (.allocNodes p.1) (.jobNodes p.2.job) = some heap₂ ∧
      Woven conf pools nodes heap₂ jobs (allocs ++ [p]) := by
  have unused : ∀ make : Nat → Place, Function.Injective make → make p.1 ∉ allocs.map fun q => make q.1 := by
    intro make injective member
    obtain ⟨q, inside, same⟩ := List.mem_map.mp member
    exact fresh (injective same ▸ List.mem_map_of_mem inside)
  obtain ⟨heap₁, first, onNodes, frame₁⟩ :=
    woven.onNodes.add nodeJobs_injective nodeJobs_apart node (unused .allocJobs fun _ _ => Place.allocJobs.inj)
  have off₁ : Off .node heap heap₁ := Off.of_frame (fun _ => rfl) (fun _ => rfl) frame₁
  obtain ⟨heap₂, second, onJobs, frame₂⟩ := (woven.onJobs.off off₁ (by decide)).add jobNodes_injective jobNodes_apart
    job (unused .allocNodes fun _ _ => Place.allocNodes.inj)
  have off₂ : Off .job heap₁ heap₂ := Off.of_frame (fun _ => rfl) (fun _ => rfl) frame₂
  exact ⟨heap₁, heap₂, first, second, (woven.all.off off₁ (by decide)).off off₂ (by decide),
    (woven.pooled.off off₁ (by decide)).off off₂ (by decide), OnNodes.off onNodes off₂ (by decide), onJobs⟩

theorem Woven.deallocate (woven : Woven conf pools nodes heap jobs (before ++ p :: after)) :
    ∃ heap₁ heap₂, listDel heap (.allocJobs p.1) = some heap₁ ∧ listDel heap₁ (.allocNodes p.1) = some heap₂ ∧
      Woven conf pools nodes heap₂ jobs (before ++ after) := by
  obtain ⟨heap₁, first, onNodes, frame₁⟩ := woven.onNodes.remove nodeJobs_injective nodeJobs_apart
  have off₁ : Off .node heap heap₁ := Off.of_frame (fun _ => rfl) (fun _ => rfl) frame₁
  obtain ⟨heap₂, second, onJobs, frame₂⟩ :=
    (woven.onJobs.off off₁ (by decide)).remove jobNodes_injective jobNodes_apart
  have off₂ : Off .job heap₁ heap₂ := Off.of_frame (fun _ => rfl) (fun _ => rfl) frame₂
  exact ⟨heap₁, heap₂, first, second, (woven.all.off off₁ (by decide)).off off₂ (by decide),
    (woven.pooled.off off₁ (by decide)).off off₂ (by decide), OnNodes.off onNodes off₂ (by decide), onJobs⟩

/-- A job without allocations leaves both lists it is in. -/
theorem Woven.removeJob {jobsBefore jobsAfter : List (Nat × Bytes)} {q : Nat × Bytes}
    (woven : Woven conf pools nodes heap (jobsBefore ++ q :: jobsAfter) allocs) (free : ∀ p ∈ allocs, p.2.job ≠ q.1) :
    ∃ heap₁ heap₂, listDel heap (.jobPlist q.1) = some heap₁ ∧ listDel heap₁ (.jobList q.1) = some heap₂ ∧
      listEmpty heap₂ (.jobNodes q.1) = some true ∧
      Woven conf pools nodes heap₂ (jobsBefore ++ jobsAfter) allocs := by
  obtain ⟨heap₁, first, pooled, frame₁⟩ := woven.pooled.remove (poolJobs_injective conf) (poolJobs_apart conf)
  have off₁ : Off .pool heap heap₁ := Off.of_frame (fun _ => rfl) (fun _ => rfl) frame₁
  obtain ⟨heap₂, second, all, frame₂⟩ := (woven.all.off off₁ (by decide)).remove bjsJobs_injective bjsJobs_apart
  have off₂ : Off .all heap₁ heap₂ := Off.of_frame (fun _ => rfl) (fun _ => rfl) frame₂
  have still : ∀ p ∈ allocs, p.2.job ∈ (jobsBefore ++ jobsAfter).map Prod.fst := by
    intro p inside
    have there := woven.onJobs.placed p inside
    rw [List.map_append, List.map_cons, List.mem_append, List.mem_cons] at there
    rw [List.map_append, List.mem_append]
    exact there.imp_right fun here => here.resolve_left (free p inside)
  have fewer : jobsBefore ++ jobsAfter ⊆ jobsBefore ++ q :: jobsAfter :=
    (List.Sublist.refl jobsBefore |>.append (List.sublist_cons_self q jobsAfter)).subset
  have onJobs := ((woven.onJobs.off off₁ (by decide)).off off₂ (by decide)).restrict
    (fun j alive => List.map_subset Prod.fst fewer alive) still
  have empty : listEmpty heap₂ (.jobNodes q.1) = some true := by
    have nothing : bucket (fun p : Nat × Alloc => p.2.job) allocs q.1 = [] :=
      List.filter_eq_nil_iff.mpr fun p inside here => free p inside (of_decide_eq_true here)
    have before := woven.onJobs.listEmpty (List.mem_map_of_mem (List.mem_append_right _ List.mem_cons_self))
    rw [nothing] at before
    rwa [listEmpty, off₂.jobNodes (by decide) q.1, off₁.jobNodes (by decide) q.1]
  exact ⟨heap₁, heap₂, first, second, empty, all, InPools.off pooled off₂ (by decide),
    (woven.onNodes.off off₁ (by decide)).off off₂ (by decide), onJobs⟩

/-- A job that is made and not put into a pool leaves the list of all jobs again. -/
theorem Woven.refuse (q : Nat × Bytes) (woven : Woven conf pools nodes heap jobs allocs)
    (fresh : q.1 ∉ jobs.map Prod.fst) :
    ∃ heap₁ heap₂, listAddTail (initListHead heap (.jobNodes q.1)) (.jobList q.1) .bjsJobs = some heap₁ ∧
      listDel heap₁ (.jobList q.1) = some heap₂ ∧ listEmpty heap₂ (.jobNodes q.1) = some true ∧
      Woven conf pools nodes heap₂ jobs allocs := by
  have unowned : ¬ Place.used conf jobs allocs (.jobNodes q.1) := fresh
  have woven : Woven conf pools nodes (initListHead heap (.jobNodes q.1)) jobs allocs := woven.congr fun other used =>
    Function.update_of_ne (fun same : other = .jobNodes q.1 => unowned (same ▸ used)) _ _
  have unused : Place.jobList q.1 ∉ jobs.map fun p => Place.jobList p.1 := by
    intro member
    obtain ⟨p, inside, same⟩ := List.mem_map.mp member
    exact fresh (Place.jobList.inj same ▸ List.mem_map_of_mem inside)
  obtain ⟨heap₁, first, all, frame₁⟩ := woven.all.add bjsJobs_injective bjsJobs_apart trivial unused
  have off₁ : Off .all (initListHead heap (.jobNodes q.1)) heap₁ := Off.of_frame (fun _ => rfl) (fun _ => rfl) frame₁
  obtain ⟨heap₂, second, all, frame₂⟩ := all.remove bjsJobs_injective bjsJobs_apart
  have off₂ : Off .all heap₁ heap₂ := Off.of_frame (fun _ => rfl) (fun _ => rfl) frame₂
  have empty : listEmpty heap₂ (.jobNodes q.1) = some true := by
    rw [listEmpty, off₂.jobNodes (by decide) q.1, off₁.jobNodes (by decide) q.1]
    exact ListAt.initListHead.listEmpty
  rw [List.append_nil] at all
  exact ⟨heap₁, heap₂, first, second, empty, all, (woven.pooled.off off₁ (by decide)).off off₂ (by decide),
    (woven.onNodes.off off₁ (by decide)).off off₂ (by decide), (woven.onJobs.off off₁ (by decide)).off off₂ (by decide)⟩

/-- The addresses of the allocations differ. -/
theorem Woven.distinct (woven : Woven conf pools nodes heap jobs allocs) : (allocs.map Prod.fst).Nodup := by
  have places : (allocs.map fun q => Place.allocJobs q.1).Nodup := woven.onNodes.distinct
  have same : (allocs.map Prod.fst).map Place.allocJobs = allocs.map fun q => Place.allocJobs q.1 := List.map_map
  rw [← same] at places
  exact places.of_map

theorem InAll.distinct (all : InAll heap jobs) : (jobs.map Prod.fst).Nodup := by
  have places : (jobs.map fun q => Place.jobList q.1).Nodup := Hung.distinct all
  have same : (jobs.map Prod.fst).map Place.jobList = jobs.map fun q => Place.jobList q.1 := List.map_map
  rw [← same] at places
  exact places.of_map

end Woven

section Laid

variable {m : Memory} {jobs jobsBefore jobsAfter : List (Nat × Bytes)}
  {allocs before after : List (Nat × Alloc)} {p : Nat × Alloc} {fuel j : Nat}

/-- What a step comes to that frees a job, or not. With its assertions the program ends there. -/
def outcome (asserts frees : Bool) (m : Memory) : Option Memory := if asserts && frees then none else some m

/-- The list of the job is empty whenever it is freed. -/
theorem bjsJobFree_outcome (asserts : Bool) (m : Memory) {heap : Heap Place}
    (unlinked : listDel m.heap (.jobList j) = some heap)
    (empty : listEmpty heap (.jobNodes j) = some true) :
    bjsJobFree asserts m j = outcome asserts true { m with
      heap := freed (freed (freed heap (.jobNodes j)) (.jobList j)) (.jobPlist j)
      jobs := Function.update m.jobs j none } := by
  rw [bjsJobFree, unlinked, Option.bind_some, empty]
  cases asserts <;> rfl

/-- Nothing but the pointers, the allocations and what is to be cleaned changes. -/
def Keeps (m m' : Memory) : Prop := ∃ heap allocs cleanSet, m' = { m with heap, allocs, cleanSet }

theorem Keeps.trans {m' m'' : Memory} (first : Keeps m m') (second : Keeps m' m'') : Keeps m m'' := by
  obtain ⟨_, _, _, rfl⟩ := first
  obtain ⟨heap, allocs, cleanSet, rfl⟩ := second
  exact ⟨heap, allocs, cleanSet, rfl⟩

theorem not_mem_without {Entry : Type} {entries after : List (Nat × Entry)} {p : Nat × Entry}
    (distinct : ((entries ++ p :: after).map Prod.fst).Nodup) : p.1 ∉ (entries ++ after).map Prod.fst := by
  rw [List.map_append, List.map_cons] at distinct
  rw [List.map_append]
  exact (List.nodup_cons.mp (List.nodup_middle.mp distinct)).1

theorem Laid.bjsNodeDeallocate (laid : Laid m jobs (before ++ p :: after)) :
    ∃ m', bjsNodeDeallocate m p.1 = some m' ∧ Laid m' jobs (before ++ after) ∧ Keeps m m' := by
  have inside : p ∈ before ++ p :: after := List.mem_append_right _ List.mem_cons_self
  have fewer : before ++ after ⊆ before ++ p :: after :=
    (List.Sublist.refl before |>.append (List.sublist_cons_self p after)).subset
  have gone := not_mem_without laid.woven.distinct
  obtain ⟨heap₁, heap₂, first, second, woven⟩ := laid.woven.deallocate
  have there : p.2.node < m.nodes.length := laid.woven.onNodes.placed p inside
  refine ⟨{ m with
    heap := freed (freed heap₂ (.allocJobs p.1)) (.allocNodes p.1)
    allocs := Function.update m.allocs p.1 none
    cleanSet := if (bucket (fun q : Nat × Alloc => q.2.node) (before ++ after) p.2.node).isEmpty then
      m.cleanSet ++ [m.nodes[p.2.node].name] else m.cleanSet }, ?_,
    ⟨laid.recorded, laid.pointed, fun q member => ?_,
      (woven.freed (.allocJobs p.1) gone).freed (.allocNodes p.1) gone⟩,
    _, _, _, rfl⟩
  · rw [NodeAllocs.bjsNodeDeallocate, laid.allocRecord p inside, Option.bind_eq_bind, Option.bind_some, first,
      Option.bind_eq_bind, Option.bind_some, second, Option.bind_eq_bind, Option.bind_some,
      List.getElem?_eq_getElem there, Option.bind_eq_bind, Option.bind_some, woven.onNodes.listEmpty there]
    rfl
  · have other : q.1 ≠ p.1 := fun same => gone (same ▸ List.mem_map_of_mem member)
    exact (Function.update_of_ne other _ _).trans (laid.allocRecord q (fewer member))

/-- The allocations of other jobs. -/
abbrev others (allocs : List (Nat × Alloc)) (j : Nat) : List (Nat × Alloc) :=
  allocs.filter fun p => decide (p.2.job ≠ j)

theorem others_of_empty (nothing : bucket (fun p : Nat × Alloc => p.2.job) allocs j = []) : others allocs j = allocs :=
  List.filter_eq_self.mpr fun q inside => by simpa using List.filter_eq_nil_iff.mp nothing q inside

theorem Laid.bjsJobKill (laid : Laid m jobs allocs) (live : j ∈ jobs.map Prod.fst)
    (enough : (bucket (fun p : Nat × Alloc => p.2.job) allocs j).length ≤ fuel) :
    ∃ m', bjsJobKill fuel m j = some m' ∧ Laid m' jobs (others allocs j) ∧ Keeps m m' := by
  have list := laid.woven.onJobs.lists j live
  have empty := laid.woven.onJobs.listEmpty live
  induction fuel generalizing m allocs with
  | zero =>
      have nothing := List.eq_nil_of_length_eq_zero (Nat.le_zero.mp enough)
      rw [NodeAllocs.bjsJobKill, empty, nothing, others_of_empty nothing]
      exact ⟨m, rfl, laid, _, _, _, rfl⟩
  | succ fuel ih =>
      cases found : bucket (fun p : Nat × Alloc => p.2.job) allocs j with
      | nil =>
          rw [NodeAllocs.bjsJobKill, empty, found, others_of_empty found]
          exact ⟨m, rfl, laid, _, _, _, rfl⟩
      | cons p rest =>
          obtain ⟨before, after, rfl, none, here, tail⟩ := List.filter_eq_cons_iff.mp found
          obtain ⟨m₁, first, laid₁, keeps₁⟩ := laid.bjsNodeDeallocate
          have fewer : bucket (fun p : Nat × Alloc => p.2.job) (before ++ after) j = rest := by
            rw [bucket_append, ← tail, show bucket (fun p : Nat × Alloc => p.2.job) before j = [] from
              List.filter_eq_nil_iff.mpr none]
            rfl
          obtain ⟨m', ran, laid', keeps⟩ := ih laid₁ (by rw [fewer]; rw [found, List.length_cons] at enough; omega)
            (laid₁.woven.onJobs.lists j live) (laid₁.woven.onJobs.listEmpty live)
          refine ⟨m', ?_, ?_, keeps₁.trans keeps⟩
          · rw [NodeAllocs.bjsJobKill, empty, Option.bind_some, found, if_neg (by simp), list.links_head, found,
              Option.bind_some, List.map_cons, List.headD_cons, nodesEntry, Option.bind_some, first, Option.bind_some,
              ran]
          · have same : p.2.job = j := of_decide_eq_true here
            rwa [others, List.filter_append, List.filter_cons_of_neg (by simp [same]), ← List.filter_append]

theorem without_split {Entry : Type} {entries after : List (Nat × Entry)} {q : Nat × Entry}
    (distinct : ((entries ++ q :: after).map Prod.fst).Nodup) :
    (entries ++ q :: after).filter (fun p => decide (p.1 ≠ q.1)) = entries ++ after := by
  have gone := not_mem_without distinct
  have keep : ∀ p ∈ entries ++ after, decide (p.1 ≠ q.1) = true := fun p inside =>
    decide_eq_true fun same => gone (same ▸ List.mem_map_of_mem inside)
  rw [List.filter_append, List.filter_cons_of_neg (by simp), ← List.filter_append, List.filter_eq_self.mpr keep]

section Recorded

variable {records : Nat → Option Job} {jobId : Nat} {fewer : List (Nat × Bytes)}

theorem update_other {value : Option Job} (gone : j ∉ jobs.map Prod.fst) {p : Nat × Bytes} (inside : p ∈ jobs) :
    Function.update records j value p.1 = records p.1 :=
  Function.update_of_ne (fun same : p.1 = j => gone (same ▸ List.mem_map_of_mem inside)) _ _

theorem Recorded.update (recorded : Recorded records jobId jobs) (value : Option Job) (sub : fewer.Sublist jobs)
    (gone : j ∉ fewer.map Prod.fst) : Recorded (Function.update records j value) jobId fewer := by
  refine ⟨fun p inside => ?_, ?_⟩
  · rw [update_other gone inside]
    exact recorded.there p (sub.subset inside)
  · have same : (fewer.map fun p => numberOf records p.1) =
        fewer.map fun p => numberOf (Function.update records j value) p.1 :=
      List.map_congr_left fun p inside => by rw [numberOf, numberOf, update_other gone inside]
    exact same ▸ recorded.ids.sublist (sub.map _)

/-- A new job gets the next number. -/
theorem Recorded.push (recorded : Recorded records jobId jobs) (gone : j ∉ jobs.map Prod.fst) (job : Job)
    (next : job.id = jobId) :
    Recorded (Function.update records j (some job)) (jobId + 1) (jobs ++ [(j, job.pool)]) := by
  have old := recorded.update (some job) (List.Sublist.refl jobs) gone
  have here : Function.update records j (some job) j = some job := Function.update_self _ _ _
  refine ⟨fun p inside => ?_, ?_⟩
  · rcases List.mem_append.mp inside with inside | inside
    · obtain ⟨job, found, same, small⟩ := old.there p inside
      exact ⟨job, found, same, Nat.lt_succ_of_lt small⟩
    · rw [List.mem_singleton.mp inside]
      exact ⟨job, here, rfl, next ▸ Nat.lt_succ_self _⟩
  · rw [List.map_append]
    refine List.nodup_append.mpr ⟨old.ids, List.nodup_singleton _, ?_⟩
    intro a first b second same
    obtain ⟨p, inside, rfl⟩ := List.mem_map.mp first
    obtain ⟨job, found, -, small⟩ := old.there p inside
    rw [List.map_singleton, List.mem_singleton] at second
    simp only [second, numberOf, found, here, Option.map_some, Option.getD_some, next] at same
    exact absurd same (Nat.ne_of_lt small)

/-- Two jobs that are there have different numbers. -/
theorem Recorded.inj (recorded : Recorded records jobId jobs) {j' : Nat} (first : j ∈ jobs.map Prod.fst)
    (second : j' ∈ jobs.map Prod.fst) (same : numberOf records j = numberOf records j') : j = j' := by
  obtain ⟨p, inside, rfl⟩ := List.mem_map.mp first
  obtain ⟨q, inside', rfl⟩ := List.mem_map.mp second
  rw [List.inj_on_of_nodup_map recorded.ids inside inside' same]

end Recorded

theorem Laid.bjsJobRemove (laid : Laid m jobs allocs) (live : j ∈ jobs.map Prod.fst)
    (enough : allocs.length ≤ fuel) :
    ∃ m', (∀ asserts, bjsJobRemove asserts fuel m j = outcome asserts true m') ∧
      Laid m' (jobs.filter fun p => decide (p.1 ≠ j)) (others allocs j) ∧
      ∃ heap allocs cleanSet, m' = { m with heap, allocs, jobs := Function.update m.jobs j none, cleanSet } := by
  obtain ⟨m₁, killed, laid₁, heap, allocs, cleanSet, rfl⟩ :=
    laid.bjsJobKill live (Nat.le_trans (List.length_filter_le _ _) enough)
  obtain ⟨q, inside, rfl⟩ := List.mem_map.mp live
  obtain ⟨before, after, rfl⟩ := List.append_of_mem inside
  rw [without_split (InAll.distinct laid.woven.all)]
  have gone := not_mem_without (InAll.distinct laid.woven.all)
  obtain ⟨heap₁, heap₂, first, second, empty, woven⟩ := laid₁.woven.removeJob fun p member =>
    of_decide_eq_true (List.mem_filter.mp member).2
  have fewer : (before ++ after).Sublist (before ++ q :: after) :=
    (List.Sublist.refl before).append (List.sublist_cons_self q after)
  refine ⟨{ m with
    heap := freed (freed (freed heap₂ (.jobNodes q.1)) (.jobList q.1)) (.jobPlist q.1)
    allocs, jobs := Function.update m.jobs q.1 none, cleanSet }, fun asserts => ?_,
    ⟨laid.recorded.update none fewer gone, fun p member => laid.pointed p (fewer.subset member), laid₁.allocRecord, ?_⟩,
    _, _, _, rfl⟩
  · rw [NodeAllocs.bjsJobRemove, killed, Option.bind_some, if_pos (laid.pointed q inside), first, Option.bind_some,
      bjsJobFree_outcome asserts _ second empty]
  · exact ((woven.freed (.jobNodes q.1) gone).freed (.jobList q.1) gone).freed (.jobPlist q.1) gone

/-- A job that is removed takes its allocations along, for the policies too. -/
theorem schedOf_remove (laid : Laid m jobs allocs) (live : j ∈ jobs.map Prod.fst) (heap : Heap Place)
    (records : Nat → Option Alloc) (cleanSet : List Bytes) :
    schedOf { m with heap, allocs := records, jobs := Function.update m.jobs j none, cleanSet }
        (jobs.filter fun p => decide (p.1 ≠ j)) (others allocs j) =
      Bjs.bjsJobRemove (schedOf m jobs allocs) (numberOf m.jobs j) := by
  have jobsSame : ((jobs.filter fun p => decide (p.1 ≠ j)).filterMap fun p => Function.update m.jobs j none p.1) =
      (jobs.filterMap fun p => m.jobs p.1).filter fun job => decide (job.id ≠ numberOf m.jobs j) := by
    rw [List.filterMap_filter, List.filter_filterMap]
    refine List.filterMap_congr fun p inside => ?_
    obtain ⟨job, found, -⟩ := laid.recorded.there p inside
    by_cases here : p.1 = j
    · rw [if_neg (by simp [here]), found, Option.filter_some, if_neg (by simp [← here, numberOf, found])]
    · have other : job.id ≠ numberOf m.jobs j := fun same =>
        here (laid.recorded.inj (List.mem_map_of_mem inside) live (by rw [← same, numberOf, found]; rfl))
      rw [if_pos (decide_eq_true here), Function.update_of_ne here, found, Option.filter_some,
        if_pos (decide_eq_true other)]
  have allocsSame : (others allocs j).map (numbered (Function.update m.jobs j none)) =
      (allocs.map (numbered m.jobs)).filter fun alloc => decide (alloc.job ≠ numberOf m.jobs j) := by
    rw [List.filter_map, others]
    have same : allocs.filter (fun p => decide (p.2.job ≠ j)) =
        allocs.filter ((fun alloc : Alloc => decide (alloc.job ≠ numberOf m.jobs j)) ∘ numbered m.jobs) := by
      refine List.filter_congr fun p inside => decide_eq_decide.mpr (not_congr ⟨fun here => ?_, fun same => ?_⟩)
      · rw [numbered, here]
      · exact laid.recorded.inj (laid.woven.onJobs.placed p inside) live same
    rw [← same]
    refine List.map_congr_left fun p inside => ?_
    have other : p.2.job ≠ j := of_decide_eq_true (List.mem_filter.mp inside).2
    rw [numbered, numbered, numberOf, numberOf, Function.update_of_ne other]
  rw [schedOf, jobsSame, allocsSame]
  rfl

end Laid

section Steps

variable {m : Memory} {jobs : List (Nat × Bytes)} {allocs : List (Nat × Alloc)}
  {fuel j n node id : Nat}

theorem Woven.submit {conf : Nat} {pools : List Bytes} {nodes : Nat} {heap : Heap Place} (q : Nat × Bytes)
    (woven : Woven conf pools nodes heap jobs allocs) (fresh : q.1 ∉ jobs.map Prod.fst) (pool : q.2 ∈ pools) :
    ∃ heap₁ heap₂, listAddTail (initListHead heap (.jobNodes q.1)) (.jobList q.1) .bjsJobs = some heap₁ ∧
      listAddTail heap₁ (.jobPlist q.1) (.poolJobs conf q.2) = some heap₂ ∧
      Woven conf pools nodes heap₂ (jobs ++ [q]) allocs := by
  have unused : ∀ make : Nat → Place, Function.Injective make → make q.1 ∉ jobs.map fun p => make p.1 := by
    intro make injective member
    obtain ⟨p, inside, same⟩ := List.mem_map.mp member
    exact fresh (injective same ▸ List.mem_map_of_mem inside)
  have onJobs := woven.onJobs.newKey jobNodes_injective jobNodes_apart fresh
  have off₀ : Off .job heap (initListHead heap (.jobNodes q.1)) := fun place other =>
    Function.update_of_ne (fun same : place = .jobNodes q.1 => other (same ▸ rfl)) _ _
  obtain ⟨heap₁, first, all, frame₁⟩ := (woven.all.off off₀ (by decide)).add bjsJobs_injective bjsJobs_apart trivial
    (unused .jobList fun _ _ => Place.jobList.inj)
  have off₁ : Off .all (initListHead heap (.jobNodes q.1)) heap₁ := Off.of_frame (fun _ => rfl) (fun _ => rfl) frame₁
  have pooled := (woven.pooled.off off₀ (by decide)).off off₁ (by decide)
  obtain ⟨heap₂, second, pooled, frame₂⟩ := pooled.add (poolJobs_injective conf) (poolJobs_apart conf) pool
    (unused .jobPlist fun _ _ => Place.jobPlist.inj)
  have off₂ : Off .pool heap₁ heap₂ := Off.of_frame (fun _ => rfl) (fun _ => rfl) frame₂
  have grown : OnJobs (initListHead heap (.jobNodes q.1)) (jobs ++ [q]) allocs := by
    refine ⟨onJobs.distinct, fun p inside => ?_, fun k alive => onJobs.lists k ?_⟩
    · exact List.map_subset _ (List.subset_append_left _ _) (woven.onJobs.placed p inside)
    · rw [List.map_append, List.mem_append] at alive
      exact alive.symm.imp_left List.mem_singleton.mp
  exact ⟨heap₁, heap₂, first, second, InAll.off all off₂ (by decide), pooled,
    ((woven.onNodes.off off₀ (by decide)).off off₁ (by decide)).off off₂ (by decide),
    (grown.off off₁ (by decide)).off off₂ (by decide)⟩

theorem Laid.fresh (laid : Laid m jobs allocs) (fresh : m.jobs j = none) : j ∉ jobs.map Prod.fst := by
  intro member
  obtain ⟨p, inside, rfl⟩ := List.mem_map.mp member
  obtain ⟨job, found, -⟩ := laid.recorded.there p inside
  rw [fresh] at found
  cases found

/-- Of a job that is refused nothing stays but its number. -/
theorem Laid.refuse (laid : Laid m jobs allocs) (reqs : Sexp) (fresh : m.jobs j = none) :
    ∃ m', (∀ asserts, NodeAllocs.refuse asserts m j reqs = outcome asserts true m') ∧ Laid m' jobs allocs ∧
      m'.jobId = m.jobId + 1 ∧ schedOf m' jobs allocs = schedOf m jobs allocs := by
  have gone := laid.fresh fresh
  obtain ⟨heap₁, heap₂, first, second, empty, woven⟩ := Woven.refuse (j, []) laid.woven gone
  have restored (job : Job) : Function.update (Function.update m.jobs j (some job)) j none = m.jobs := by
    rw [Function.update_idem, ← fresh, Function.update_eq_self]
  refine ⟨{ m with
    heap := freed (freed (freed heap₂ (.jobNodes j)) (.jobList j)) (.jobPlist j), jobId := m.jobId + 1 },
    fun asserts => ?_, ⟨⟨fun p inside => ?_, laid.recorded.ids⟩, laid.pointed, laid.allocRecord, ?_⟩, rfl, rfl⟩
  · rw [NodeAllocs.refuse, first, Option.bind_eq_bind, Option.bind_some]
    exact (bjsJobFree_outcome asserts _ second empty).trans (by rw [restored])
  · obtain ⟨job, found, pool, small⟩ := laid.recorded.there p inside
    exact ⟨job, found, pool, Nat.lt_succ_of_lt small⟩
  · exact ((woven.freed (.jobNodes j) gone).freed (.jobList j) gone).freed (.jobPlist j) gone

theorem Laid.submit {pool : Bytes} (laid : Laid m jobs allocs) (reqs : Sexp) (fresh : m.jobs j = none)
    (known : pool ∈ m.pools) :
    ∃ m', NodeAllocs.submit m j pool reqs = some m' ∧ Laid m' (jobs ++ [(j, pool)]) allocs ∧
      m'.jobId = m.jobId + 1 ∧ schedOf m' (jobs ++ [(j, pool)]) allocs =
        { schedOf m jobs allocs with jobs := (schedOf m jobs allocs).jobs ++ [{ id := m.jobId, pool, reqs }] } := by
  have gone := laid.fresh fresh
  obtain ⟨heap₁, heap₂, first, second, woven⟩ := Woven.submit (j, pool) laid.woven gone known
  have here : Function.update m.jobs j (some { id := m.jobId, pool, reqs }) j = some { id := m.jobId, pool, reqs } :=
    Function.update_self _ _ _
  refine ⟨{ m with
    heap := heap₂
    jobs := Function.update m.jobs j (some { id := m.jobId, pool, reqs }), jobId := m.jobId + 1
    poolConf := Function.update m.poolConf j m.conf }, ?_,
    ⟨laid.recorded.push gone { id := m.jobId, pool, reqs } rfl, fun p inside => ?_, laid.allocRecord, woven⟩, rfl, ?_⟩
  · rw [NodeAllocs.submit, first, Option.bind_eq_bind, Option.bind_some, second]
    rfl
  · rcases List.mem_append.mp inside with inside | inside
    · have other : p.1 ≠ j := fun same => gone (same ▸ List.mem_map_of_mem inside)
      exact (Function.update_of_ne other _ _).trans (laid.pointed p inside)
    · rw [List.mem_singleton.mp inside]
      exact Function.update_self _ _ _
  · have still : ∀ p ∈ allocs, numbered (Function.update m.jobs j (some { id := m.jobId, pool, reqs })) p =
        numbered m.jobs p := by
      intro p inside
      have other : p.2.job ≠ j := fun same => gone (same ▸ laid.woven.onJobs.placed p inside)
      rw [numbered, numbered, numberOf, numberOf, Function.update_of_ne other]
    have jobsSame : jobs.filterMap (fun p => Function.update m.jobs j (some { id := m.jobId, pool, reqs }) p.1) =
        jobs.filterMap fun p => m.jobs p.1 := List.filterMap_congr fun p inside => update_other gone inside
    simp only [schedOf, List.map_congr_left still, List.filterMap_append, jobsSame, List.filterMap_cons, here,
      List.filterMap_nil]

theorem Laid.bjsNodeAllocate {job : Job} (laid : Laid m jobs allocs) (node : Nat) (fresh : m.allocs n = none)
    (live : j ∈ jobs.map Prod.fst) (found : m.jobs j = some job) :
    ∃ m' allocs', NodeAllocs.bjsNodeAllocate m n j node = some m' ∧ Laid m' jobs allocs' ∧
      allocs'.length ≤ allocs.length + 1 ∧ m'.jobId = m.jobId ∧
      schedOf m' jobs allocs' = Bjs.bjsNodeAllocate (schedOf m jobs allocs) job node := by
  have nothing : m.nodes[node]?.any (·.up) = false → NodeAllocs.bjsNodeAllocate m n j node = some m →
      ∃ m' allocs', NodeAllocs.bjsNodeAllocate m n j node = some m' ∧ Laid m' jobs allocs' ∧
      allocs'.length ≤ allocs.length + 1 ∧ m'.jobId = m.jobId ∧
      schedOf m' jobs allocs' = Bjs.bjsNodeAllocate (schedOf m jobs allocs) job node := by
    intro down same
    refine ⟨m, allocs, same, laid, Nat.le_succ _, rfl, ?_⟩
    rw [Bjs.bjsNodeAllocate, bjsNodeUp, schedOf, down]
    rfl
  cases there : m.nodes[node]? with
  | none => exact nothing (by rw [there]; rfl) (by rw [NodeAllocs.bjsNodeAllocate, there])
  | some bjsnode =>
      cases up : bjsnode.up with
      | false => exact nothing (by rw [there, Option.any_some, up]) (by simp [NodeAllocs.bjsNodeAllocate, there, up])
      | true =>
          have gone : n ∉ allocs.map Prod.fst := by
            intro member
            obtain ⟨p, inside, rfl⟩ := List.mem_map.mp member
            rw [laid.allocRecord p inside] at fresh
            cases fresh
          obtain ⟨heap₁, heap₂, first, second, woven⟩ := Woven.allocate (n, ⟨j, node⟩) laid.woven
            (List.getElem?_eq_some_iff.mp there).1 live gone
          refine ⟨{ m with heap := heap₂, allocs := Function.update m.allocs n (some ⟨j, node⟩) },
            allocs ++ [(n, ⟨j, node⟩)], ?_, ⟨laid.recorded, laid.pointed, ?_, woven⟩, by rw [List.length_append]; rfl,
            rfl, ?_⟩
          · rw [NodeAllocs.bjsNodeAllocate, there]
            simp only [up, if_true, first, second, Option.bind_eq_bind, Option.bind_some, Option.pure_def]
          · intro p inside
            rcases List.mem_append.mp inside with inside | inside
            · have other : p.1 ≠ n := fun same => gone (same ▸ List.mem_map_of_mem inside)
              exact (Function.update_of_ne other _ _).trans (laid.allocRecord p inside)
            · rw [List.mem_singleton.mp inside]
              exact Function.update_self _ _ _
          · have alive : bjsNodeUp (schedOf m jobs allocs) node = true := by
              rw [bjsNodeUp, schedOf, there, Option.any_some, up]
            rw [Bjs.bjsNodeAllocate, if_pos alive, schedOf, schedOf, List.map_append, List.map_singleton, numbered,
              numberOf, found]
            rfl

theorem Laid.start {job : Job} (laid : Laid m jobs allocs) (found : m.jobs j = some job)
    (live : j ∈ jobs.map Prod.fst) (now : Nat) :
    Laid { m with jobs := Function.update m.jobs j (some { job with startTime := now }) } jobs allocs ∧
      schedOf { m with jobs := Function.update m.jobs j (some { job with startTime := now }) } jobs allocs =
        bjsStartJob now (schedOf m jobs allocs) job.id := by
  have numbers : ∀ k,
      numberOf (Function.update m.jobs j (some { job with startTime := now })) k = numberOf m.jobs k := by
    intro k
    by_cases here : k = j
    · rw [here, numberOf, numberOf, Function.update_self, found]
      rfl
    · rw [numberOf, numberOf, Function.update_of_ne here]
  refine ⟨⟨⟨fun p inside => ?_, ?_⟩, laid.pointed, laid.allocRecord, laid.woven⟩, ?_⟩
  · obtain ⟨old, there, pool, small⟩ := laid.recorded.there p inside
    by_cases here : p.1 = j
    · rw [here, found] at there
      obtain rfl := Option.some.inj there
      have changed : Function.update m.jobs j (some { job with startTime := now }) p.1 =
          some { job with startTime := now } := by rw [here, Function.update_self]
      exact ⟨_, changed, pool, small⟩
    · exact ⟨old, (Function.update_of_ne here _ _).trans there, pool, small⟩
  · simp only [numbers]
    exact laid.recorded.ids
  · have jobsSame : (jobs.filterMap fun p => Function.update m.jobs j (some { job with startTime := now }) p.1) =
        (jobs.filterMap fun p => m.jobs p.1).map fun k => if k.id = job.id then { k with startTime := now } else k := by
      rw [List.map_filterMap]
      refine List.filterMap_congr fun p inside => ?_
      obtain ⟨old, there, -, -⟩ := laid.recorded.there p inside
      by_cases here : p.1 = j
      · rw [here, Function.update_self, found, Option.map_some, if_pos rfl]
      · have other : old.id ≠ job.id := fun same => here (laid.recorded.inj (List.mem_map_of_mem inside) live
          (by rw [numberOf, numberOf, there, found]; exact same))
        rw [Function.update_of_ne here, there, Option.map_some, if_neg other]
    have allocsSame : allocs.map (numbered (Function.update m.jobs j (some { job with startTime := now }))) =
        allocs.map (numbered m.jobs) := List.map_congr_left fun p _ => by rw [numbered, numbered, numbers]
    rw [bjsStartJob, schedOf, jobsSame, allocsSame]
    rfl

theorem setUp_length (nodes : List SchedNode) (node : Nat) (up : Bool) : (setUp nodes node up).length = nodes.length :=
  List.length_modify ..

theorem Laid.status {up : Bool} (laid : Laid m jobs allocs) :
    Laid { m with nodes := setUp m.nodes node up } jobs allocs where
  recorded := laid.recorded
  pointed := laid.pointed
  allocRecord := laid.allocRecord
  woven := by
    rw [setUp_length]
    exact laid.woven

abbrev onNode (allocs : List (Nat × Alloc)) (node : Nat) : List (Nat × Alloc) :=
  bucket (fun p : Nat × Alloc => p.2.node) allocs node

theorem onNode_any : (allocs.any fun p => decide (p.2.node = node)) = !(onNode allocs node).isEmpty := by
  rw [onNode, bucket_isEmpty, List.not_all_eq_any_not]
  simp only [ne_eq, decide_not, Bool.not_not]

/-- The jobs of a node are removed one after the other as long as no two of the allocations have one job. -/
theorem Laid.killFrom {rounds : Nat} (laid : Laid m jobs allocs) (there : node < m.nodes.length)
    (distinct : ((onNode allocs node).map fun p => p.2.job).Nodup) (enough : allocs.length ≤ fuel)
    (many : (onNode allocs node).length ≤ rounds) :
    ∃ m' jobs' allocs', (∀ asserts, NodeAllocs.killFrom asserts fuel node rounds m
        (((onNode allocs node).map fun p => Place.allocJobs p.1).headD (.nodeJobs node)) =
          outcome asserts (!(onNode allocs node).isEmpty) m') ∧
      Laid m' jobs' allocs' ∧ jobs'.length ≤ jobs.length ∧ allocs'.length ≤ allocs.length ∧ m'.jobId = m.jobId ∧
      schedOf m' jobs' allocs' = ((onNode allocs node).map fun p => numberOf m.jobs p.2.job).foldl Bjs.bjsJobRemove
        (schedOf m jobs allocs) := by
  induction rounds generalizing m jobs allocs with
  | zero =>
      rw [List.eq_nil_of_length_eq_zero (Nat.le_zero.mp many)]
      exact ⟨m, jobs, allocs, fun asserts => by cases asserts <;> exact if_pos rfl, laid, Nat.le_refl _,
        Nat.le_refl _, rfl, rfl⟩
  | succ rounds ih =>
      have list : ListAt m.heap (.nodeJobs node) ((onNode allocs node).map fun p => Place.allocJobs p.1) :=
        laid.woven.onNodes.lists node there
      cases found : onNode allocs node with
      | nil =>
          exact ⟨m, jobs, allocs, fun asserts => by cases asserts <;> exact if_pos rfl, laid, Nat.le_refl _,
            Nat.le_refl _, rfl, rfl⟩
      | cons p rest =>
          rw [found] at many distinct list
          obtain ⟨fresh, distinct⟩ := List.nodup_cons.mp distinct
          have inside : p ∈ allocs := (mem_bucket (found ▸ List.mem_cons_self)).1
          have live := laid.woven.onJobs.placed p inside
          obtain ⟨m₁, removed, laid₁, heap₁, allocs₁, cleanSet₁, rfl⟩ := laid.bjsJobRemove live enough
          have apart : ∀ q ∈ rest, q.2.job ≠ p.2.job := fun q member same =>
            fresh (List.mem_map.mpr ⟨q, member, same⟩)
          have left : onNode (others allocs p.2.job) node = rest := by
            have keep : rest.filter (fun q => decide (q.2.job ≠ p.2.job)) = rest :=
              List.filter_eq_self.mpr fun q member => decide_eq_true (apart q member)
            have swap : onNode (others allocs p.2.job) node =
                (onNode allocs node).filter fun q => decide (q.2.job ≠ p.2.job) :=
              (List.filter_filter ..).trans
                ((List.filter_congr fun q _ => Bool.and_comm ..).trans (List.filter_filter ..).symm)
            rw [swap, found, List.filter_cons_of_neg (by simp), keep]
          have shorter : (others allocs p.2.job).length ≤ allocs.length := List.length_filter_le _ _
          obtain ⟨m', jobs', allocs', ran, laid', fewerJobs, fewer, id', same⟩ :=
            ih laid₁ there (left.symm ▸ distinct) (Nat.le_trans shorter enough)
              (by rw [left]; exact Nat.le_of_succ_le_succ many)
          obtain ⟨links, here, next⟩ := Option.map_eq_some_iff.mp (ListAt.next_of [] list)
          refine ⟨m', jobs', allocs', fun asserts => ?_, laid', Nat.le_trans fewerJobs (List.length_filter_le _ _),
            Nat.le_trans fewer shorter, id', ?_⟩
          · rw [List.map_cons, List.headD_cons, NodeAllocs.killFrom, if_neg nofun, jobsEntry, Option.bind_some,
              laid.allocRecord p inside, Option.bind_some, here, Option.bind_some, removed, next]
            cases asserts with
            | false =>
                rw [left] at ran
                exact ran false
            | true => rfl
          · have numbers : (rest.map fun q => numberOf (Function.update m.jobs p.2.job none) q.2.job) =
                rest.map fun q => numberOf m.jobs q.2.job := List.map_congr_left fun q member => by
              rw [numberOf, numberOf, Function.update_of_ne (apart q member)]
            rw [same, left, numbers, List.map_cons, List.foldl_cons, schedOf_remove laid live]

theorem Laid.bjsKillNode {after : Sched} (laid : Laid m jobs allocs) (enough : allocs.length ≤ fuel)
    (killed : Bjs.bjsKillNode (schedOf m jobs allocs) node = some after) :
    ∃ m' jobs' allocs', (∀ asserts, NodeAllocs.bjsKillNode asserts fuel m node =
        outcome asserts ((schedOf m jobs allocs).allocs.any (·.node = node)) m') ∧ Laid m' jobs' allocs' ∧
      jobs'.length ≤ jobs.length ∧ allocs'.length ≤ allocs.length ∧ m'.jobId = m.jobId ∧
      schedOf m' jobs' allocs' = after := by
  have numbers : ((schedOf m jobs allocs).allocs.filter fun n => decide (n.node = node)).map Alloc.job =
      (onNode allocs node).map fun p => numberOf m.jobs p.2.job := by
    rw [schedOf, List.filter_map, List.map_map]
    rfl
  have frees : ((schedOf m jobs allocs).allocs.any fun n => decide (n.node = node)) =
      !(onNode allocs node).isEmpty := by
    rw [schedOf, List.any_map, ← onNode_any]
    rfl
  simp only [frees]
  rw [Bjs.bjsKillNode, numbers] at killed
  split at killed
  · rename_i distinct
    cases killed
    by_cases there : node < m.nodes.length
    · have list := laid.woven.onNodes.lists node there
      have separate : ((onNode allocs node).map fun p => p.2.job).Nodup := by
        refine List.Nodup.of_map (numberOf m.jobs) ?_
        rw [List.map_map]
        exact distinct
      obtain ⟨m', jobs', allocs', ran, rest⟩ := laid.killFrom there separate enough
        (Nat.le_trans (List.length_filter_le _ _) enough)
      refine ⟨m', jobs', allocs', fun asserts => ?_, rest⟩
      rw [NodeAllocs.bjsKillNode, List.getElem?_eq_getElem there]
      simp only [list.links_head, Option.bind_some]
      exact ran asserts
    · have nothing : onNode allocs node = [] := List.filter_eq_nil_iff.mpr fun p inside here =>
        there (of_decide_eq_true here ▸ laid.woven.onNodes.placed p inside)
      refine ⟨m, jobs, allocs, fun asserts => ?_, laid, Nat.le_refl _, Nat.le_refl _, rfl, by rw [nothing]; rfl⟩
      rw [NodeAllocs.bjsKillNode, List.getElem?_eq_none (Nat.le_of_not_lt there), nothing]
      cases asserts <;> rfl
  · cases killed

end Steps

end Xcpu.Bjs.NodeAllocs
