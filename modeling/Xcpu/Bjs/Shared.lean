import Xcpu.Bjs.Schedule

/-!
The policy `shared` (`shared.c`), which gives each job the least loaded nodes in turn, whether or not they have
other jobs.
-/

namespace Xcpu.Bjs

/-- `struct jc_t` -/
structure JobCount where
  node : Nat
  count : Nat
  deriving DecidableEq

def sortCompare (a b : JobCount) : Bool := b.count < a.count

/-- How many jobs there are on each node that is up, the least loaded one first. -/
def jobCounts (p : Pool) (s : Sched) : List JobCount :=
  (((List.range p.nodes.length).filter (bjsNodeUp s)).map fun i => ⟨i, s.allocs.countP (·.node = i)⟩).mergeSort
    fun a b => !sortCompare a b

/-- Nodes for a job, with how many it still needs and the index of the next one. -/
def allocateShared (counts : List JobCount) (j : Job) : Nat → Nat → Sched → Option (Nat × Sched)
  | 0, idx, s => some (idx, s)
  | reqd + 1, idx, s => do
      let count ← counts[idx]?
      allocateShared counts j reqd ((idx + 1) % counts.length) (bjsNodeAllocate s j count.node)

section Policy

variable (dependencies : Sched → Sexp → Bool)

/-- `while (j)`, with a bound on its rounds. -/
def sharedLoop (now : Nat) (p : Pool) (counts : List JobCount) : Nat → Nat → Sched → Option Sched
  | 0, _, _ => none
  | rounds + 1, idx, s =>
      match findFirstRunable dependencies p s with
      | none => some s
      | some j => do
          let (idx, s) ← allocateShared counts j j.nodes.toNat idx s
          sharedLoop now p counts rounds idx (bjsStartJob now s j.id)

def sharedSchedule (now : Nat) (p : Pool) (s : Sched) : Option Sched :=
  if (findFirstRunable dependencies p s).isNone then some s
  else sharedLoop dependencies now p (jobCounts p s) (s.jobs.length + 1) 0 s

end Policy

section Allocations

variable {dependencies : Sched → Sexp → Bool} {now rounds reqd idx next : Nat} {p : Pool} {s after final : Sched}
  {j : Job} {counts : List JobCount}

theorem jobCounts_mem {count : JobCount} (member : count ∈ jobCounts p s) :
    count.node < p.nodes.length ∧ bjsNodeUp s count.node = true := by
  rw [jobCounts, List.mem_mergeSort] at member
  obtain ⟨i, inside, rfl⟩ := List.mem_map.mp member
  obtain ⟨range, up⟩ := List.mem_filter.mp inside
  exact ⟨List.mem_range.mp range, up⟩

/-- Allocations have been added, to nodes of these counts. -/
def Adds (counts : List JobCount) (s after : Sched) : Prop :=
  ∃ given, after.allocs = s.allocs ++ given ∧ ∀ n ∈ given, ∃ count ∈ counts, n.node = count.node

theorem Adds.nothing (same : after.allocs = s.allocs) : Adds counts s after :=
  ⟨[], by rw [same, List.append_nil], fun _ member => absurd member List.not_mem_nil⟩

theorem Adds.trans (first : Adds counts s after) (second : Adds counts after final) : Adds counts s final := by
  obtain ⟨given, same, inside⟩ := first
  obtain ⟨more, later, onward⟩ := second
  refine ⟨given ++ more, by rw [later, same, List.append_assoc], fun n member => ?_⟩
  rcases List.mem_append.mp member with old | new
  · exact inside n old
  · exact onward n new

theorem bjsNodeAllocate_adds {count : JobCount} (member : count ∈ counts) :
    Adds counts s (bjsNodeAllocate s j count.node) := by
  rw [bjsNodeAllocate]
  split
  · refine ⟨[⟨j.id, count.node⟩], rfl, fun n inside => ?_⟩
    rw [List.mem_singleton.mp inside]
    exact ⟨count, member, rfl⟩
  · exact .nothing rfl

theorem allocateShared_adds (ran : allocateShared counts j reqd idx s = some (next, after)) : Adds counts s after := by
  induction reqd generalizing idx s with
  | zero =>
      rw [allocateShared, Option.some.injEq, Prod.mk.injEq] at ran
      exact .nothing (congrArg Sched.allocs ran.2.symm)
  | succ reqd ih =>
      obtain ⟨count, found, ran⟩ := Option.bind_eq_some_iff.mp ran
      exact (bjsNodeAllocate_adds (List.mem_of_getElem? found)).trans (ih ran)

theorem sharedLoop_adds (ran : sharedLoop dependencies now p counts rounds idx s = some final) :
    Adds counts s final := by
  induction rounds generalizing idx s with
  | zero => cases ran
  | succ rounds ih =>
      rw [sharedLoop] at ran
      split at ran
      · exact .nothing (congrArg Sched.allocs (Option.some.inj ran).symm)
      · rename_i j _
        obtain ⟨⟨next, middle⟩, stepped, ran⟩ := Option.bind_eq_some_iff.mp ran
        have begun : Adds counts middle (bjsStartJob now middle j.id) := .nothing rfl
        exact (allocateShared_adds stepped).trans (begun.trans (ih ran))

theorem sharedSchedule_adds (ran : sharedSchedule dependencies now p s = some final) :
    Adds (jobCounts p s) s final := by
  rw [sharedSchedule] at ran
  split at ran
  · exact .nothing (congrArg Sched.allocs (Option.some.inj ran).symm)
  · exact sharedLoop_adds ran

end Allocations

end Xcpu.Bjs
