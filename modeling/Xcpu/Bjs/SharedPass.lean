import Xcpu.Bjs.Gives
import Xcpu.Bjs.Shared
import Mathlib.Data.List.Rotate

/-!
A whole pass of `shared`: the nodes of a job are the next ones around the sorted array, so that they differ as
long as there are no more of them than nodes that are up, and each round leaves fewer jobs that wait.
-/

namespace Xcpu.Bjs

section Turns

variable {p : Pool} {s : Sched} {j : Job} {counts : List JobCount} {reqd idx now : Nat}

/-- The allocations of a job that begins with this index. -/
def turns (counts : List JobCount) (j : Job) (reqd idx : Nat) : List Alloc :=
  ((counts.rotate idx).take reqd).map fun count => ⟨j.id, count.node⟩

theorem turns_length (enough : reqd ≤ counts.length) : (turns counts j reqd idx).length = reqd := by
  rw [turns, List.length_map, List.length_take, List.length_rotate]
  exact Nat.min_eq_left enough

theorem turns_nodes : (turns counts j reqd idx).map Alloc.node = ((counts.rotate idx).take reqd).map JobCount.node := by
  rw [turns, List.map_map]
  rfl

theorem turns_distinct (distinct : (counts.map JobCount.node).Nodup) :
    ((turns counts j reqd idx).map Alloc.node).Nodup := by
  rw [turns_nodes]
  refine List.Nodup.sublist ((List.take_sublist _ _).map _) ?_
  rw [List.map_rotate, List.nodup_rotate]
  exact distinct

theorem turns_mem {n : Alloc} (member : n ∈ turns counts j reqd idx) :
    n.job = j.id ∧ ∃ count ∈ counts, n.node = count.node := by
  obtain ⟨count, inside, rfl⟩ := List.mem_map.mp member
  exact ⟨rfl, count, List.mem_rotate.mp (List.mem_of_mem_take inside), rfl⟩

theorem jobCounts_distinct : ((jobCounts p s).map JobCount.node).Nodup := by
  have same : ((jobCounts p s).map JobCount.node).Perm ((List.range p.nodes.length).filter (bjsNodeUp s)) := by
    refine ((List.mergeSort_perm _ _).map _).trans ?_
    rw [List.map_map]
    exact .of_eq (List.map_id _)
  exact same.nodup_iff.mpr (List.nodup_range.filter _)

end Turns

/-- The pass has come from the first state to the second by starting these jobs, each on its own turns. -/
structure Deals (now : Nat) (p : Pool) (s after : Sched) (given : List Alloc) (started : List Nat) : Prop where
  nodes : after.nodes = s.nodes
  allocs : after.allocs = s.allocs ++ given
  jobs : after.jobs = s.jobs.map fun j => if j.id ∈ started then { j with startTime := now } else j
  live : ∀ n ∈ given, n.node < p.nodes.length ∧ bjsNodeUp s n.node = true
  mine : ∀ n ∈ given, n.job ∈ started
  distinct : ∀ id, ((given.filter (·.job = id)).map Alloc.node).Nodup
  exactly : ∀ j ∈ s.jobs, j.id ∈ started → ((given.filter (·.job = j.id)).length : Int) = j.nodes

section Dealing

variable {dependencies : Sched → Sexp → Bool} {now rounds idx : Nat} {p : Pool} {s after : Sched}
  {given : List Alloc} {started : List Nat} {j : Job}

theorem Deals.nothing : Deals now p s s [] [] :=
  { nodes := rfl
    allocs := (List.append_nil _).symm
    jobs := (List.map_id _).symm
    live := fun _ member => absurd member List.not_mem_nil
    mine := fun _ member => absurd member List.not_mem_nil
    distinct := fun _ => List.nodup_nil
    exactly := fun _ _ member => absurd member List.not_mem_nil }

theorem Deals.up (deals : Deals now p s after given started) (node : Nat) : bjsNodeUp after node = bjsNodeUp s node := by
  rw [bjsNodeUp, bjsNodeUp, deals.nodes]

theorem Deals.totalNodes (deals : Deals now p s after given started) : totalNodes p after = totalNodes p s :=
  List.countP_congr fun node _ => by rw [deals.up]

/-- A job that waits after the pass has come this far is one of the first state that has not been started. -/
theorem Deals.waiting (deals : Deals now p s after given started) (clock : 0 < now) (member : j ∈ after.jobs)
    (waiting : bjsJobIsRunning j = false) : j ∈ s.jobs ∧ j.id ∉ started := by
  rw [deals.jobs] at member
  obtain ⟨old, inside, rfl⟩ := List.mem_map.mp member
  by_cases begun : old.id ∈ started
  · rw [if_pos begun, bjsJobIsRunning, decide_eq_false_iff_not] at waiting
    dsimp only at waiting
    omega
  · rw [if_neg begun]
    exact ⟨inside, begun⟩

/-- The nodes of one more job. -/
theorem Deals.start (deals : Deals now p s after given started) (distinct : (s.jobs.map Job.id).Nodup)
    (member : j ∈ s.jobs) (fresh : j.id ∉ started) (wanted : 0 ≤ j.nodes)
    (enough : j.nodes.toNat ≤ (jobCounts p s).length) :
    Deals now p s (bjsStartJob now { after with
        allocs := after.allocs ++ turns (jobCounts p s) j j.nodes.toNat idx } j.id)
      (given ++ turns (jobCounts p s) j j.nodes.toNat idx) (started ++ [j.id]) := by
  have before : given.filter (·.job = j.id) = [] :=
    List.filter_eq_nil_iff.mpr fun n inside same => fresh (of_decide_eq_true same ▸ deals.mine n inside)
  have own : (turns (jobCounts p s) j j.nodes.toNat idx).filter (·.job = j.id) =
      turns (jobCounts p s) j j.nodes.toNat idx :=
    List.filter_eq_self.mpr fun n inside => decide_eq_true (turns_mem inside).1
  have others {id : Nat} (other : id ≠ j.id) :
      (turns (jobCounts p s) j j.nodes.toNat idx).filter (·.job = id) = [] := by
    refine List.filter_eq_nil_iff.mpr fun n inside same => other ?_
    rw [← of_decide_eq_true same, (turns_mem inside).1]
  constructor
  · exact deals.nodes
  · rw [← List.append_assoc, ← deals.allocs]
    rfl
  · rw [bjsStartJob]
    dsimp only
    rw [deals.jobs, List.map_map]
    refine List.map_congr_left fun other _ => ?_
    rw [Function.comp_apply]
    by_cases old : other.id ∈ started
    · rw [if_pos old, if_pos (List.mem_append_left _ old)]
      split <;> rfl
    · rw [if_neg old]
      by_cases same : other.id = j.id
      · rw [if_pos same, if_pos (List.mem_append_right _ (List.mem_singleton.mpr same))]
      · have apart : other.id ∉ started ++ [j.id] := fun there =>
          (List.mem_append.mp there).elim old fun one => same (List.mem_singleton.mp one)
        rw [if_neg same, if_neg apart]
  · intro n inside
    rcases List.mem_append.mp inside with old | new
    · exact deals.live n old
    · obtain ⟨-, count, there, same⟩ := turns_mem new
      rw [same]
      exact jobCounts_mem there
  · intro n inside
    rcases List.mem_append.mp inside with old | new
    · exact List.mem_append_left _ (deals.mine n old)
    · exact List.mem_append_right _ (List.mem_singleton.mpr (turns_mem new).1)
  · intro id
    rw [List.filter_append]
    by_cases same : id = j.id
    · rw [same, before, own]
      exact turns_distinct jobCounts_distinct
    · rw [others same, List.append_nil]
      exact deals.distinct id
  · intro other there inside
    rw [List.filter_append]
    rcases List.mem_append.mp inside with old | new
    · have apart : other.id ≠ j.id := fun same => fresh (same ▸ old)
      rw [others apart, List.append_nil]
      exact deals.exactly other there old
    · have same := List.inj_on_of_nodup_map distinct there member (List.mem_singleton.mp new)
      subst same
      rw [before, own, List.nil_append, turns_length enough]
      exact Int.toNat_of_nonneg wanted

/-- The queue of the pool: accepted jobs that do not depend on others. -/
structure Queued (p : Pool) (s : Sched) : Prop where
  distinct : (s.jobs.map Job.id).Nodup
  admitted : ∀ j ∈ s.jobsOf p, submitCheckBuiltin p j.reqs = .ok ()
  independent : ∀ j ∈ s.jobsOf p, sexpFindList jobKey j.reqs.elements = none

theorem Queued.runnable_iff (queued : Queued p s) (member : j ∈ s.jobsOf p) :
    bjsJobRunnable dependencies p s j = true ↔ j.nodes ≤ totalNodes p s := by
  rw [bjsJobRunnable, dependenciesMet, queued.independent j member]
  dsimp only
  split
  · rename_i few
    exact iff_of_false Bool.false_ne_true (not_le.mpr few)
  · rename_i many
    exact iff_of_true rfl (not_lt.mp many)

theorem Deals.starts (deals : Deals now p s after given started) (queued : Queued p s)
    (empty : findFirstRunable dependencies p after = none) (member : j ∈ s.jobsOf p)
    (runnable : bjsJobRunnable dependencies p s j = true) : after.isRunning j.id = true := by
  obtain ⟨there, ours⟩ := List.mem_filter.mp member
  let later : Job := if j.id ∈ started then { j with startTime := now } else j
  have inside : later ∈ after.jobs := by
    rw [deals.jobs]
    exact List.mem_map_of_mem there
  have id : later.id = j.id := by
    dsimp only [later]
    split <;> rfl
  have reqs : later.reqs = j.reqs := by
    dsimp only [later]
    split <;> rfl
  have pool : later.pool = j.pool := by
    dsimp only [later]
    split <;> rfl
  have still : bjsJobRunnable dependencies p after later = true := by
    rw [queued.runnable_iff member] at runnable
    have few : ¬(Bjs.totalNodes p after : Int) < later.nodes := by
      rw [deals.totalNodes, Job.nodes, reqs]
      exact not_lt.mpr runnable
    rw [bjsJobRunnable, if_neg few, dependenciesMet, reqs, queued.independent j member]
  have mine : later ∈ after.jobsOf p := List.mem_filter.mpr ⟨inside, by rw [pool]; exact ours⟩
  have runs := List.find?_eq_none.mp empty later mine
  rw [still, Bool.true_and, Bool.not_eq_true', Bool.not_eq_false] at runs
  rw [Sched.isRunning, List.any_eq_true]
  exact ⟨later, inside, by rw [runs, Bool.and_true]; exact decide_eq_true id⟩

end Dealing

end Xcpu.Bjs
