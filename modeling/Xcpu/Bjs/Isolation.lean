import Xcpu.Bjs.FillerPlan
import Xcpu.Bjs.Shared
import Xcpu.Bjs.Simple

/-!
Which nodes the policies give to the jobs of a pool: those with the numbers below its number of nodes, whatever
nodes it has.
-/

namespace Xcpu.Bjs

/-- `schedule` of the policy, with what it does to the cluster. -/
def Policy.schedule (dependencies : Sched → Sexp → Bool) (now : Nat) : Policy → Pool → Sched → Option Sched
  | .simple, p, s => simpleSchedule dependencies now p s
  | .filler, p, s => (Filler.fillerSchedule dependencies now p s).map Filler.Pass.sched
  | .shared, p, s => sharedSchedule dependencies now p s

/-- The cluster when the pass begins to look for nodes. -/
def Policy.begins (now : Nat) : Policy → Pool → Sched → Sched
  | .shared, _, s => s
  | _, p, s => killExpired now p s

/-- What the policy asks of a node that it gives to a job. -/
def Policy.available : Policy → Sched → Nat → Bool
  | .shared, s, node => bjsNodeUp s node
  | _, s, node => bjsNodeIdle s node

/-- A pass gives the jobs of the pool only nodes that belong to it and were available. -/
def Isolated (dependencies : Sched → Sexp → Bool) (now : Nat) (p : Pool) (s : Sched) : Prop :=
  ∀ final, p.policy.schedule dependencies now p s = some final →
    ∀ n ∈ givenSince (p.policy.begins now p s) final,
      p.owns s n.node = true ∧ p.policy.available (p.policy.begins now p s) n.node = true

section Numbers

variable {dependencies : Sched → Sexp → Bool} {now : Nat} {p : Pool} {s final : Sched} {n : Alloc}

theorem killExpired_nodes : (killExpired now p s).nodes = s.nodes := by
  rw [killExpired]
  generalize s.jobsOf p = jobs
  induction jobs generalizing s with
  | nil => rfl
  | cons j rest ih =>
      rw [List.foldl_cons, ih]
      split <;> rfl

theorem Gives.numbers {given : List Alloc} {started : List Nat} (gives : Gives now p s final given started)
    (member : n ∈ Bjs.givenSince s final) : n.node < p.nodes.length ∧ bjsNodeIdle s n.node = true := by
  rw [gives.givenSince] at member
  obtain ⟨range, idle⟩ := List.mem_filter.mp (gives.idle n member)
  exact ⟨List.mem_range.mp range, idle⟩

theorem schedule_numbers (clock : 0 < now) (kept : WellKept s)
    (ran : p.policy.schedule dependencies now p s = some final)
    (member : n ∈ givenSince (p.policy.begins now p s) final) :
    n.node < p.nodes.length ∧ p.policy.available (p.policy.begins now p s) n.node = true := by
  have after : WellKept (killExpired now p s) := kept.killExpired
  cases policy : p.policy with
  | simple =>
      rw [policy] at ran member
      obtain ⟨other, given, started, same, gives, -⟩ := simpleLoop_whole clock after
      have one := Option.some.inj (same.symm.trans ran)
      subst one
      exact gives.numbers member
  | filler =>
      rw [policy] at ran member
      obtain ⟨pass, planned, rfl⟩ := Option.map_eq_some_iff.mp ran
      obtain ⟨plan, -, placed⟩ := Option.bind_eq_some_iff.mp planned
      have begun : Gives now p (killExpired now p s) (⟨killExpired now p s, plan⟩ : Filler.Pass).sched [] [] := .nothing
      obtain ⟨given, started, gives⟩ := Filler.placeAll_gives after.distinct after.wanted begun
        (fun j inside => (List.mem_filter.mp inside).1) placed
      exact gives.numbers member
  | shared =>
      rw [policy] at ran member
      obtain ⟨given, same, inside⟩ := sharedSchedule_adds ran
      rw [Policy.begins, givenSince, same, List.drop_left] at member
      obtain ⟨count, there, same⟩ := inside n member
      rw [same]
      exact jobCounts_mem there

/-- A cluster with one node up, and a job of one node that waits. -/
def oneUp (names : List Bytes) (node : Nat) (j : Job) : Sched where
  nodes := names.mapIdx fun i name => ⟨name, i = node⟩
  jobs := [j]

/-- The job of the pool. -/
def oneJob (p : Pool) : Job := { id := 1, pool := p.name, reqs := secsReqs eightText }

theorem oneJob_nodes : (oneJob p).nodes = 1 := by
  have one : (nodesRequired (secsReqs eightText)).toInt = 1 := by decide
  exact one

theorem oneJob_secs : Job.secs (oneJob p) oneText = 8 := by
  have eight : (timeRequired (secsReqs eightText) oneText).toInt = 8 := by decide
  exact eight

variable {names : List Bytes} {node i : Nat} {name : Bytes}

theorem oneUp_names : (oneUp names node (oneJob p)).nodes.map SchedNode.name = names := by
  refine List.ext_getElem? fun i => ?_
  rw [List.getElem?_map, oneUp, List.getElem?_mapIdx, Option.map_map]
  exact Option.map_id_apply

theorem oneUp_up (there : node < names.length) : bjsNodeUp (oneUp names node (oneJob p)) i = true ↔ i = node := by
  rw [bjsNodeUp, oneUp, List.getElem?_mapIdx, Option.any_map]
  constructor
  · intro up
    cases found : names[i]? with
    | none =>
        rw [found] at up
        cases up
    | some name =>
        rw [found] at up
        exact of_decide_eq_true up
  · rintro rfl
    rw [List.getElem?_eq_getElem there]
    exact decide_eq_true rfl

theorem range_filter {n : Nat} (inside : node < n) {test : Nat → Bool} (only : ∀ i, test i = true ↔ i = node) :
    (List.range n).filter test = [node] := by
  have same : test = (decide <| · = node) := funext fun i => Bool.eq_iff_iff.mpr (by rw [only, decide_eq_true_iff])
  have once : (List.range n).count node = 1 :=
    List.count_eq_one_of_mem List.nodup_range (List.mem_range.mpr inside)
  rw [same, List.filter_eq, once]
  rfl

theorem wellKept_oneUp : WellKept (oneUp names node (oneJob p)) := by
  have jobs : ∀ j ∈ (oneUp names node (oneJob p)).jobs, j = oneJob p := fun j member => List.mem_singleton.mp member
  constructor
  · exact List.nodup_singleton _
  · exact fun n member => absurd member List.not_mem_nil
  · exact fun j member => jobs j member ▸ rfl
  · intro j member
    rw [jobs j member, oneJob_nodes]
    exact Int.one_pos

/-- The cluster after the job has been started. -/
def oneStarted (now : Nat) (names : List Bytes) (node : Nat) (p : Pool) : Sched :=
  bjsStartJob now { oneUp names node (oneJob p) with allocs := [⟨1, node⟩] } 1

theorem oneUp_jobsOf : (oneUp names node (oneJob p)).jobsOf p = [oneJob p] := by
  have mine : decide ((oneJob p).pool = p.name) = true := decide_eq_true rfl
  rw [Sched.jobsOf, oneUp, List.filter_singleton, mine]
  rfl

theorem oneUp_killExpired : killExpired now p (oneUp names node (oneJob p)) = oneUp names node (oneJob p) := by
  rw [killExpired, oneUp_jobsOf]
  rfl

theorem oneUp_begins : p.policy.begins now p (oneUp names node (oneJob p)) = oneUp names node (oneJob p) := by
  cases policy : p.policy with
  | simple => exact oneUp_killExpired
  | filler => exact oneUp_killExpired
  | shared => rfl

theorem oneUp_idle (inside : node < p.nodes.length) (there : node < names.length) :
    idleNodes p (oneUp names node (oneJob p)) = [node] := by
  refine range_filter inside fun i => ?_
  rw [bjsNodeIdle_iff, oneUp_up there]
  exact and_iff_left fun n member => absurd member List.not_mem_nil

theorem oneUp_given (inside : node < p.nodes.length) (there : node < names.length) :
    givenTo p (oneUp names node (oneJob p)) (oneJob p) = [⟨1, node⟩] := by
  rw [givenTo, oneUp_idle inside there, oneJob_nodes]
  rfl

theorem oneUp_total (inside : node < p.nodes.length) (there : node < names.length) :
    totalNodes p (oneUp names node (oneJob p)) = 1 := by
  rw [totalNodes, List.countP_eq_length_filter, range_filter inside fun i => oneUp_up there]
  rfl

theorem oneUp_runnable (inside : node < p.nodes.length) (there : node < names.length) :
    bjsJobRunnable dependencies p (oneUp names node (oneJob p)) (oneJob p) = true := by
  refine bjsJobRunnable_iff.mpr ⟨?_, ?_⟩
  · rw [oneJob_nodes, oneUp_total inside there]
    rfl
  · have none_ : sexpFindList jobKey (oneJob p).reqs.elements = none := by
      have none_ : sexpFindList jobKey (secsReqs eightText).elements = none := by decide
      exact none_
    rw [dependenciesMet, none_]

theorem oneUp_first (inside : node < p.nodes.length) (there : node < names.length) :
    findFirstRunable dependencies p (oneUp names node (oneJob p)) = some (oneJob p) := by
  rw [findFirstRunable, oneUp_jobsOf, List.find?_cons_of_pos]
  rw [oneUp_runnable inside there]
  rfl

theorem oneStarted_first (clock : 0 < now) : findFirstRunable dependencies p (oneStarted now names node p) = none := by
  have jobs : (oneStarted now names node p).jobs = [{ oneJob p with startTime := now }] := rfl
  rw [findFirstRunable, Sched.jobsOf, jobs, List.find?_eq_none]
  intro j member
  have running : bjsJobIsRunning j = true := by
    rw [List.mem_singleton.mp (List.mem_filter.mp member).1, bjsJobIsRunning]
    exact decide_eq_true clock.ne'
  rw [running, Bool.not_true, Bool.and_false]
  exact Bool.false_ne_true

theorem simple_oneUp (clock : 0 < now) (inside : node < p.nodes.length) (there : node < names.length) :
    simpleLoop dependencies now p 2 (oneUp names node (oneJob p)) = some (oneStarted now names node p) := by
  have free : ¬(countFreeNodes p (oneUp names node (oneJob p)) : Int) < (oneJob p).nodes := by
    have member : node ∈ (List.range p.nodes.length) := List.mem_range.mpr inside
    have usable : bjsNodeUsable (oneUp names node (oneJob p)) node 0 = true := by
      refine wellKept_oneUp.bjsNodeUsable_iff.mpr ⟨?_, fun n inside => absurd inside List.not_mem_nil⟩
      rw [oneUp, List.getElem?_mapIdx, List.getElem?_eq_getElem there]
      rfl
    have some_ : 0 < countFreeNodes p (oneUp names node (oneJob p)) := List.countP_pos_iff.mpr ⟨node, member, usable⟩
    rw [oneJob_nodes]
    omega
  rw [simpleLoop, oneUp_first inside there]
  dsimp only
  rw [if_neg free, startSimple_eq wellKept_oneUp List.mem_cons_self, oneUp_given inside there, Option.bind_some]
  have started : bjsStartJob now { oneUp names node (oneJob p) with
      allocs := (oneUp names node (oneJob p)).allocs ++ [⟨1, node⟩] } (oneJob p).id = oneStarted now names node p := rfl
  rw [started, simpleLoop, oneStarted_first clock]

theorem filler_oneUp (inside : node < p.nodes.length) (there : node < names.length) :
    Filler.placeAll dependencies now p ⟨oneUp names node (oneJob p), [⟨0, 1⟩]⟩ [oneJob p] =
      some ⟨oneStarted now names node p, [⟨0, 0⟩, ⟨8, 1⟩]⟩ := by
  have hole : Filler.findHole [⟨0, 1⟩] 8 1 = some 0 := by decide
  have ends : Filler.long (0 + 8) = some 8 := by decide
  have waits : bjsJobIsRunning (oneJob p) = false := rfl
  have runs : bjsJobRunnable dependencies p (⟨oneUp names node (oneJob p), [⟨0, 1⟩]⟩ : Filler.Pass).sched (oneJob p) =
    true := oneUp_runnable inside there
  have placed : Filler.place dependencies now p ⟨oneUp names node (oneJob p), [⟨0, 1⟩]⟩ (oneJob p) = _ :=
    Filler.place_eq waits runs
  rw [Filler.placeAll, placed, oneJob_nodes, oneJob_secs]
  dsimp only
  have now_ : ¬(0 : Int) = -1 := by decide
  have wanted : 0 < (oneJob p).nodes := oneJob_nodes (p := p) ▸ Int.one_pos
  rw [hole, Option.bind_some, if_neg now_, ends, Option.map_some, Filler.startedAt_zero wanted,
    oneUp_given inside there, Option.bind_eq_bind, Option.bind_some, Filler.placeAll]
  rfl

theorem shared_oneUp (clock : 0 < now) (inside : node < p.nodes.length) (there : node < names.length) :
    sharedSchedule dependencies now p (oneUp names node (oneJob p)) = some (oneStarted now names node p) := by
  have counts : jobCounts p (oneUp names node (oneJob p)) = [⟨node, 0⟩] := by
    rw [jobCounts, range_filter inside fun i => oneUp_up there]
    exact List.mergeSort_singleton _
  have up := (oneUp_up (p := p) there).mpr rfl
  have given : allocateShared [⟨node, 0⟩] (oneJob p) 1 0 (oneUp names node (oneJob p)) =
      some (0, { oneUp names node (oneJob p) with allocs := [⟨1, node⟩] }) := by
    have took : bjsNodeAllocate (oneUp names node (oneJob p)) (oneJob p) node =
      { oneUp names node (oneJob p) with allocs := [⟨1, node⟩] } := if_pos up
    rw [allocateShared]
    dsimp only [List.getElem?_cons_zero, Option.bind_eq_bind, Option.bind_some]
    have one : (0 + 1) % [(⟨node, 0⟩ : JobCount)].length = 0 := Nat.mod_self 1
    rw [took, allocateShared, one]
  have started : bjsStartJob now { oneUp names node (oneJob p) with allocs := [⟨1, node⟩] } (oneJob p).id =
    oneStarted now names node p := rfl
  have rounds : (oneUp names node (oneJob p)).jobs.length = 1 := rfl
  rw [sharedSchedule, oneUp_first inside there, counts, rounds, sharedLoop, oneUp_first inside there]
  dsimp only [Option.isNone_some]
  rw [if_neg Bool.false_ne_true, oneJob_nodes, Int.toNat_one, given, Option.bind_eq_bind, Option.bind_some]
  dsimp only
  rw [started, sharedLoop, oneStarted_first clock]

theorem schedule_oneUp (clock : 0 < now) (inside : node < p.nodes.length) (there : node < names.length) :
    p.policy.schedule dependencies now p (oneUp names node (oneJob p)) = some (oneStarted now names node p) := by
  cases policy : p.policy with
  | simple =>
      have rounds : (oneUp names node (oneJob p)).jobs.length + 1 = 2 := rfl
      rw [Policy.schedule, simpleSchedule, oneUp_killExpired, rounds]
      exact simple_oneUp clock inside there
  | filler =>
      have plan : Filler.addRunning now [⟨0, ((1 : Nat) : Int)⟩] [oneJob p] = some [⟨0, 1⟩] := rfl
      rw [Policy.schedule, Filler.fillerSchedule, oneUp_killExpired, oneUp_total inside there, oneUp_jobsOf, plan,
        Option.bind_eq_bind, Option.bind_some, filler_oneUp inside there]
      rfl
  | shared => exact shared_oneUp clock inside there

theorem owns_iff (same : s.nodes.map SchedNode.name = names) (there : names[node]? = some name) :
    p.owns s node = true ↔ name ∈ p.nodes := by
  rw [← same, List.getElem?_map] at there
  obtain ⟨found, known, rfl⟩ := Option.map_eq_some_iff.mp there
  rw [Pool.owns, known, Option.any_some, List.any_eq_true]
  simp only [decide_eq_true_eq, exists_eq_right]

theorem begins_nodes : (p.policy.begins now p s).nodes = s.nodes := by
  cases policy : p.policy with
  | simple => exact killExpired_nodes
  | filler => exact killExpired_nodes
  | shared => rfl

end Numbers

/-- In a cluster of nodes with these names, every pass over a pool is isolated exactly when each node with a number
below its number of nodes belongs to it. -/
theorem isolated_iff (names : List Bytes) (p : Pool) :
    (∀ dependencies now s, 0 < now → WellKept s → s.nodes.map SchedNode.name = names →
      Isolated dependencies now p s) ↔
    ∀ i name, i < p.nodes.length → names[i]? = some name → name ∈ p.nodes := by
  constructor
  · intro every i name inside there
    have known : i < names.length := (List.getElem?_eq_some_iff.mp there).1
    have ran : p.policy.schedule (fun _ _ => true) 1 p (oneUp names i (oneJob p)) = some (oneStarted 1 names i p) :=
      schedule_oneUp Nat.one_pos inside known
    have given : (⟨1, i⟩ : Alloc) ∈
        givenSince (p.policy.begins 1 p (oneUp names i (oneJob p))) (oneStarted 1 names i p) := by
      rw [oneUp_begins]
      exact List.mem_singleton.mpr rfl
    have owned := (every (fun _ _ => true) 1 _ Nat.one_pos wellKept_oneUp oneUp_names _ ran _ given).1
    exact (owns_iff oneUp_names there).mp owned
  · intro all dependencies now s clock kept same final ran n member
    obtain ⟨inside, available⟩ := schedule_numbers clock kept ran member
    refine ⟨?_, available⟩
    have up : bjsNodeUp s n.node = true := by
      have up : bjsNodeUp (p.policy.begins now p s) n.node = true := by
        cases policy : p.policy with
        | simple =>
            rw [policy] at available
            exact (bjsNodeIdle_iff.mp available).1
        | filler =>
            rw [policy] at available
            exact (bjsNodeIdle_iff.mp available).1
        | shared =>
            rw [policy] at available
            exact available
      rw [bjsNodeUp, begins_nodes] at up
      exact up
    cases found : s.nodes[n.node]? with
    | none =>
        rw [bjsNodeUp, found] at up
        cases up
    | some node =>
        have name : names[n.node]? = some node.name := by
          rw [← same, List.getElem?_map, found]
          rfl
        exact (owns_iff same name).mpr (all n.node node.name inside name)

/-- A pool of the second of two nodes. -/
def secondNode : Pool := { name := [113], policy := .filler, nodes := [[98]] }

/-- Its job gets the first node. -/
theorem wrong_pool : WellKept (oneUp [[97], [98]] 0 (oneJob secondNode)) ∧
    ¬Isolated (fun _ _ => true) 1 secondNode (oneUp [[97], [98]] 0 (oneJob secondNode)) := by
  refine ⟨wellKept_oneUp, fun isolated => ?_⟩
  have ran : secondNode.policy.schedule (fun _ _ => true) 1 secondNode (oneUp [[97], [98]] 0 (oneJob secondNode)) =
    some (oneStarted 1 [[97], [98]] 0 secondNode) := schedule_oneUp Nat.one_pos (by decide) (by decide)
  have given : (⟨1, 0⟩ : Alloc) ∈
      givenSince (secondNode.policy.begins 1 secondNode (oneUp [[97], [98]] 0 (oneJob secondNode)))
        (oneStarted 1 [[97], [98]] 0 secondNode) := by
    rw [oneUp_begins]
    exact List.mem_singleton.mpr rfl
  exact absurd (isolated _ ran _ given).1 (by decide)

end Xcpu.Bjs
