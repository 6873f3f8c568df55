import Xcpu.Bjs.Schedule
import Xcpu.Lib.Linked

/-!
`bjs_job_runnable` of bjs with its look at other jobs: the walk through the requirements of a job, and for each
number there the scan of the list of all jobs in memory.
-/

namespace Xcpu.Bjs.Dependencies

open Xcpu.Linked (Pointers Heap Doubly find find_eq)
open Xcpu.Numerals

/-- `struct bjs_job_t` with what is read of it. A link to the head of the list is `none`. -/
structure BjsJob where
  next : Option Nat
  prev : Option Nat
  jobId : Int32
  reqs : Sexp

def links : Pointers BjsJob where
  next := BjsJob.next
  prev := BjsJob.prev
  setNext link record := { record with next := link }
  setPrev link record := { record with prev := link }
  next_setNext _ _ := rfl
  prev_setNext _ _ := rfl
  next_setPrev _ _ := rfl
  prev_setPrev _ _ := rfl

/-- `bjs_jobs`, which is a list, with its jobs in memory. -/
structure JobTable where
  heap : Heap BjsJob
  bjsJobs : Option Nat
  jobs : List Nat
  linked : Doubly links heap jobs
  first : bjsJobs = jobs.head?

/-- An element of the requirements, or one inside an element that is a list. -/
inductive Place
  | requirement (i : Nat)
  | inside (i k : Nat)
  deriving DecidableEq

/-- What is returned, with the elements whose values were read as job ids. -/
structure Outcome where
  runnable : Bool
  examined : List Place
  deriving DecidableEq

/-- `sexp_find_list` from an element on, which is at a place: the place, the elements and the rest behind the list
that is found. -/
@[simp]
def sexpFindListAt (atom : Bytes) : Nat → Sexp → Option (Nat × Sexp × Sexp)
  | _, .null => none
  | i, .value _ next => sexpFindListAt atom (i + 1) next
  | i, .list elts next =>
      match elts with
      | .value val rest => if val = atom then some (i, .value val rest, next) else sexpFindListAt atom (i + 1) next
      | _ => sexpFindListAt atom (i + 1) next

theorem sexpFindListAt_elements (atom : Bytes) (i : Nat) (sx : Sexp) :
    (sexpFindListAt atom i sx).map (·.2.1) = sexpFindList atom sx := by
  induction sx generalizing i with
  | null => rfl
  | value val next ih => exact ih (i + 1)
  | list elts next _ ih =>
      cases elts with
      | null => exact ih (i + 1)
      | list inner rest => exact ih (i + 1)
      | value val rest =>
          rw [sexpFindListAt, sexpFindList]
          by_cases this : val = atom
          · rw [if_pos this, if_pos this]
            rfl
          · rw [if_neg this, if_neg this]
            exact ih (i + 1)

/-- The loop over all jobs: is the job that is looked for among them? The record that it reads in each round is the
one of `j`, the job that asks. -/
def scan (fuel : Nat) (table : JobTable) (j : Nat) (id : Int32) : Option Bool :=
  (find links table.heap (fun _ _ => (table.heap j).map fun j2 => j2.jobId == id) fuel table.bjsJobs).map Option.isSome

/-- The loop over the requirements, which begins behind the list that was found. The value of a list is not there
to be read. -/
@[simp]
def checkIds (fuel : Nat) (table : JobTable) (j : Nat) : Nat → Sexp → Option Outcome
  | _, .null => some ⟨true, []⟩
  | _, .list _ _ => none
  | i, .value val next =>
      match if (strtol0 val).2 = [] then scan fuel table j (Int32.ofInt (strtol0 val).1) else some false with
      | none => none
      | some true => some ⟨false, [.requirement i]⟩
      | some false => (checkIds fuel table j (i + 1) next).map fun outcome =>
          { outcome with examined := .requirement i :: outcome.examined }

/-- The second half of `bjs_job_runnable`. -/
def checkDependencies (fuel : Nat) (table : JobTable) (j : Nat) (reqs : Sexp) : Option Outcome :=
  match sexpFindListAt jobKey 0 reqs.elements with
  | none => some ⟨true, []⟩
  | some (i, _, next) => checkIds fuel table j (i + 1) next

def bjsJobRunnable (fuel : Nat) (p : Pool) (s : Sched) (table : JobTable) (j : Nat) : Option Outcome :=
  match table.heap j with
  | none => none
  | some record =>
      if (totalNodes p s : Int) < (nodesRequired record.reqs).toInt then some ⟨false, []⟩
      else checkDependencies fuel table j record.reqs

section Runnable

variable {fuel : Nat} {p : Pool} {s : Sched} {table : JobTable} {j : Nat} {record : BjsJob}

/-- The scan comes to an end, and has compared the job with itself. -/
theorem scan_self (here : table.heap j = some record) (enough : table.jobs.length ≤ fuel) (id : Int32) :
    scan fuel table j id = some (!table.jobs.isEmpty && record.jobId == id) := by
  have compared : ∀ node ∈ table.jobs, ∃ other, table.heap node = some other ∧
      ((table.heap j).map fun j2 => j2.jobId == id) = some (record.jobId == id) := by
    intro node among
    obtain ⟨other, there⟩ := table.linked.live node among
    exact ⟨other, there, by rw [here, Option.map_some]⟩
  have ends : find links table.heap (fun _ _ => (table.heap j).map fun j2 => j2.jobId == id) fuel table.jobs.head? =
      some (table.jobs.find? fun _ => record.jobId == id) := find_eq table.linked.forward enough compared
  rw [scan, table.first, ends, Option.map_some]
  cases table.jobs with
  | nil => rfl
  | cons first rest =>
      rw [List.find?_cons]
      cases record.jobId == id with
      | true => rfl
      | false => simp

/-- Behind the list there are atoms only: then the walk comes to an end. -/
theorem checkIds_defined (here : table.heap j = some record) (enough : table.jobs.length ≤ fuel) {next : Sexp}
    {texts : List Bytes} (atoms : next.vals = some texts) (i : Nat) :
    ∃ outcome, checkIds fuel table j i next = some outcome := by
  induction next generalizing i texts with
  | null => exact ⟨_, rfl⟩
  | list elts next _ _ => cases atoms
  | value val next ih =>
      rw [Sexp.vals, Option.map_eq_some_iff] at atoms
      obtain ⟨rest, atoms, -⟩ := atoms
      obtain ⟨outcome, later⟩ := ih atoms (i + 1)
      rw [checkIds, scan_self here enough, later]
      split
      · rename_i undefined
        split at undefined
        · cases undefined
        · cases undefined
      · exact ⟨_, rfl⟩
      · exact ⟨_, rfl⟩

/-- The value of whatever stands behind the list is read first. -/
theorem checkIds_reads {i : Nat} {next : Sexp} {outcome : Outcome} (more : next ≠ .null)
    (ran : checkIds fuel table j i next = some outcome) : ∃ rest, outcome.examined = .requirement i :: rest := by
  cases next with
  | null => exact absurd rfl more
  | list elts next => cases ran
  | value val next =>
      rw [checkIds] at ran
      split at ran
      · cases ran
      · cases ran
        exact ⟨[], rfl⟩
      · obtain ⟨later, -, rfl⟩ := Option.map_eq_some_iff.mp ran
        exact ⟨later.examined, rfl⟩

/-- What the scheduler sees of it. -/
theorem bjsJobRunnable_scheduled {outcome : Outcome} {job : Job} (here : table.heap j = some record)
    (reqs : job.reqs = record.reqs) (ran : bjsJobRunnable fuel p s table j = some outcome) :
    outcome.runnable =
      Bjs.bjsJobRunnable (fun _ reqs => (checkDependencies fuel table j reqs).any Outcome.runnable) p s job := by
  rw [bjsJobRunnable, here] at ran
  dsimp only at ran
  rw [Bjs.bjsJobRunnable, Job.nodes, reqs]
  split at ran
  · rename_i few
    rw [if_pos few]
    cases ran
    rfl
  · rename_i enough
    rw [if_neg enough, dependenciesMet, reqs, ← sexpFindListAt_elements jobKey 0]
    cases found : sexpFindListAt jobKey 0 record.reqs.elements with
    | none =>
        rw [checkDependencies, found] at ran
        cases ran
        rfl
    | some place => rw [Option.map_some, ran, Option.any_some]

end Runnable

/-- The dependencies are respected: no job of the list is in the table where the job may run, and the elements that
were examined are the ids of the list at that place, up to where it was decided that it may not run. -/
structure Respects (table : JobTable) (i : Nat) (texts : List Bytes) (outcome : Outcome) : Prop where
  waits : ∀ text ∈ texts, (strtol0 text).2 = [] → ∀ other ∈ table.jobs, ∀ record, table.heap other = some record →
    record.jobId = Int32.ofInt (strtol0 text).1 → outcome.runnable = false
  ids : outcome.examined <+: (List.range texts.length).map fun k => Place.inside i (k + 1)
  every : outcome.runnable = true → outcome.examined.length = texts.length

/-- They are respected only where the job waits for nodes anyway, or where there is nothing to respect: an empty list
with no requirement behind it. -/
theorem bjsJobRunnable_respects_iff (p : Pool) (s : Sched) (table : JobTable) {j : Nat} {record : BjsJob}
    (here : table.heap j = some record) {i : Nat} {ids next : Sexp} {texts : List Bytes}
    (found : sexpFindListAt jobKey 0 record.reqs.elements = some (i, .value jobKey ids, next))
    (known : ids.vals = some texts) :
    (∃ fuel outcome, bjsJobRunnable fuel p s table j = some outcome ∧ Respects table i texts outcome) ↔
      (totalNodes p s : Int) < (nodesRequired record.reqs).toInt ∨ texts = [] ∧ next = .null := by
  have run : ∀ fuel, ¬ (totalNodes p s : Int) < (nodesRequired record.reqs).toInt →
      bjsJobRunnable fuel p s table j = checkIds fuel table j (i + 1) next := by
    intro fuel enough
    rw [bjsJobRunnable, here]
    dsimp only
    rw [if_neg enough, checkDependencies, found]
  constructor
  · rintro ⟨fuel, outcome, ran, respects⟩
    refine or_iff_not_imp_left.mpr fun enough => ?_
    rw [run fuel enough] at ran
    by_cases last : next = .null
    · rw [last, checkIds] at ran
      cases ran
      exact ⟨List.eq_nil_of_length_eq_zero (respects.every rfl).symm, last⟩
    · obtain ⟨rest, examined⟩ := checkIds_reads last ran
      have foreign := respects.ids.subset (examined ▸ List.mem_cons_self)
      obtain ⟨k, -, inside⟩ := List.mem_map.mp foreign
      cases inside
  · intro either
    by_cases few : (totalNodes p s : Int) < (nodesRequired record.reqs).toInt
    · refine ⟨0, ⟨false, []⟩, ?_, ⟨fun _ _ _ _ _ _ _ _ => rfl, List.nil_prefix, fun runs => ?_⟩⟩
      · rw [bjsJobRunnable, here]
        exact if_pos few
      · cases runs
    · obtain ⟨rfl, rfl⟩ := either.resolve_left few
      refine ⟨0, ⟨true, []⟩, (run 0 few).trans rfl, ⟨fun text among => ?_, List.nil_prefix, fun _ => rfl⟩⟩
      exact absurd among List.not_mem_nil

/-- `"7"` -/
def sevenText : Bytes := [55]

/-- Two jobs with the numbers 7 and 8, where the second depends on the first. -/
def twoHeap : Heap BjsJob := fun node =>
  if node = 1 then some ⟨some 2, none, 7, .list .null .null⟩
  else if node = 2 then some ⟨none, some 1, 8, .list (.list (.value jobKey (.value sevenText .null)) .null) .null⟩
  else none

theorem twoHeap_linked : Doubly links twoHeap [1, 2] where
  distinct := by decide
  live node among := by
    rcases List.mem_cons.mp among with rfl | among
    · exact ⟨_, rfl⟩
    · obtain rfl := List.mem_singleton.mp among
      exact ⟨_, rfl⟩
  forward := ⟨rfl, rfl, trivial⟩
  backward := ⟨rfl, rfl, trivial⟩

theorem twoHeap_first : some 1 = [1, 2].head? := rfl

def twoJobs : JobTable where
  heap := twoHeap
  bjsJobs := some 1
  jobs := [1, 2]
  linked := twoHeap_linked
  first := twoHeap_first

/-- There is no node that is up. -/
theorem waitingForNodes_respects :
    ∃ fuel outcome, bjsJobRunnable fuel ⟨[], .simple, [], none, none, -1, -1, -1, -1⟩ ⟨[], [], []⟩ twoJobs 2 =
      some outcome ∧ Respects twoJobs 0 [sevenText] outcome :=
  (bjsJobRunnable_respects_iff _ _ _ rfl rfl rfl).mpr (.inl (by decide))

/-- The job may run while the one that it depends on is in the table. -/
theorem dependentJob_runs :
    ¬ ∃ fuel outcome, bjsJobRunnable fuel ⟨[], .simple, [[110]], none, none, -1, -1, -1, -1⟩ ⟨[⟨[110], true⟩], [], []⟩
      twoJobs 2 = some outcome ∧ Respects twoJobs 0 [sevenText] outcome := by
  rintro ⟨fuel, outcome, ran, respects⟩
  obtain rfl : ⟨true, []⟩ = outcome := Option.some.inj ran
  have held := respects.waits sevenText List.mem_cons_self (by decide) 1 List.mem_cons_self _ rfl (by decide)
  cases held

end Xcpu.Bjs.Dependencies
