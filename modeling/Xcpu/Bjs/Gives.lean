import Xcpu.Bjs.Schedule
import Mathlib.Data.List.Perm.Subperm

/-!
What a pass of the policies that give each node to one job does to the cluster: the allocations that it
adds and the jobs that it starts.
-/

namespace Xcpu.Bjs

section Nodes

variable {p : Pool} {s : Sched} {j : Job} {node : Nat}

theorem bjsNodeIdle_iff : bjsNodeIdle s node = true ↔ bjsNodeUp s node = true ∧ ∀ n ∈ s.allocs, n.node ≠ node := by
  rw [bjsNodeIdle, Bool.and_eq_true, List.all_eq_true]
  simp only [decide_eq_true_eq]

/-- The idle nodes among the numbers that a pass looks at. -/
def idleNodes (p : Pool) (s : Sched) : List Nat := (List.range p.nodes.length).filter (bjsNodeIdle s)

/-- The allocations that a job started now is given. -/
def givenTo (p : Pool) (s : Sched) (j : Job) : List Alloc :=
  ((idleNodes p s).take j.nodes.toNat).map (⟨j.id, ·⟩)

theorem allocateIdle_take {numbers : List Nat} (distinct : numbers.Nodup) (count : Nat) (s : Sched) :
    allocateIdle j numbers count s =
      ((count : Int) - ((numbers.filter (bjsNodeIdle s)).take count).length,
        { s with allocs := s.allocs ++ ((numbers.filter (bjsNodeIdle s)).take count).map (⟨j.id, ·⟩) }) := by
  induction numbers generalizing count s with
  | nil => simp [allocateIdle]
  | cons first rest ih =>
      obtain ⟨apart, distinct⟩ := List.nodup_cons.mp distinct
      rw [allocateIdle]
      cases count with
      | zero => simp
      | succ count =>
          have more : ((count + 1 : Nat) : Int) ≠ 0 := by omega
          have less : ((count + 1 : Nat) : Int) - 1 = count := by omega
          rw [if_neg more, less]
          by_cases idle : bjsNodeIdle s first = true
          · have up := (bjsNodeIdle_iff.mp idle).1
            rw [if_pos idle, bjsNodeAllocate, if_pos up, ih distinct, List.filter_cons, if_pos idle]
            have same : rest.filter (bjsNodeIdle { s with allocs := s.allocs ++ [⟨j.id, first⟩] }) =
                rest.filter (bjsNodeIdle s) := by
              refine List.filter_congr fun node member => ?_
              have other : first ≠ node := fun same => apart (same ▸ member)
              simp [bjsNodeIdle, bjsNodeUp, other]
            rw [same, List.take_succ_cons, List.length_cons, List.map_cons, List.append_assoc, List.singleton_append]
            refine Prod.ext ?_ rfl
            dsimp only
            omega
          · rw [if_neg idle, ih distinct, List.filter_cons, if_neg idle]

theorem allocateIdle_eq (wanted : 0 < j.nodes) : allocateIdle j (List.range p.nodes.length) j.nodes s =
    (j.nodes - (givenTo p s j).length, { s with allocs := s.allocs ++ givenTo p s j }) := by
  have cast : ((j.nodes.toNat : Nat) : Int) = j.nodes := Int.toNat_of_nonneg wanted.le
  have taken := allocateIdle_take (j := j) (List.nodup_range (n := p.nodes.length)) j.nodes.toNat s
  rw [cast] at taken
  rw [taken, givenTo, List.length_map]
  rfl

theorem totalNodes_le : totalNodes p s ≤ (idleNodes p s).length + s.allocs.length := by
  have busy : ((List.range p.nodes.length).filter fun node => !bjsNodeIdle s node).countP (bjsNodeUp s) ≤
      s.allocs.length := by
    have size : (s.allocs.map Alloc.node).length = s.allocs.length := List.length_map _
    rw [List.countP_eq_length_filter, ← size]
    refine (List.subperm_of_subset ?_ fun node member => ?_).length_le
    · exact (List.nodup_range.filter _).filter _
    · obtain ⟨inside, up⟩ := List.mem_filter.mp member
      have taken := (List.mem_filter.mp inside).2
      rw [Bool.not_eq_true', ← Bool.not_eq_true, bjsNodeIdle_iff] at taken
      push Not at taken
      obtain ⟨n, there, same⟩ := taken up
      exact List.mem_map.mpr ⟨n, there, same⟩
  have parts := List.countP_eq_countP_filter_add (List.range p.nodes.length) (bjsNodeUp s) (bjsNodeIdle s)
  have most := List.countP_le_length (p := bjsNodeUp s) (l := (List.range p.nodes.length).filter (bjsNodeIdle s))
  rw [totalNodes, idleNodes]
  omega

theorem givenTo_job {n : Alloc} (member : n ∈ givenTo p s j) : n.job = j.id := by
  obtain ⟨node, -, rfl⟩ := List.mem_map.mp member
  rfl

theorem givenTo_nodes : (givenTo p s j).map Alloc.node = (idleNodes p s).take j.nodes.toNat := by
  rw [givenTo, List.map_map]
  exact List.map_id _

theorem givenTo_distinct : ((givenTo p s j).map Alloc.node).Nodup := by
  rw [givenTo_nodes]
  exact (List.nodup_range.filter _).sublist (List.take_sublist _ _)

theorem givenTo_idle {n : Alloc} (member : n ∈ givenTo p s j) : n.node ∈ idleNodes p s := by
  have inside := List.mem_map_of_mem (f := Alloc.node) member
  rw [givenTo_nodes] at inside
  exact List.mem_of_mem_take inside

theorem givenTo_count : (givenTo p s j).countP (·.job = j.id) = (givenTo p s j).length :=
  List.countP_eq_length.mpr fun _ member => decide_eq_true (givenTo_job member)

theorem givenTo_length_iff (wanted : 0 < j.nodes) :
    ((givenTo p s j).length : Int) = j.nodes ↔ j.nodes ≤ (idleNodes p s).length := by
  rw [givenTo, List.length_map, List.length_take]
  omega

end Nodes

/-- A job of this number is running. -/
def Sched.isRunning (s : Sched) (id : Nat) : Bool := s.jobs.any fun j => j.id = id && bjsJobIsRunning j

/-- The allocations that have been added since. -/
def givenSince (s after : Sched) : List Alloc := after.allocs.drop s.allocs.length

/-- The pass has come from the first state to the second by starting jobs that waited, with idle nodes. -/
structure Gives (now : Nat) (p : Pool) (s after : Sched) (given : List Alloc) (started : List Nat) : Prop where
  nodes : after.nodes = s.nodes
  allocs : after.allocs = s.allocs ++ given
  distinct : (given.map Alloc.node).Nodup
  idle : ∀ n ∈ given, n.node ∈ idleNodes p s
  jobs : after.jobs = s.jobs.map fun j => if j.id ∈ started then { j with startTime := now } else j
  waiting : ∀ j ∈ s.jobs, j.id ∈ started → bjsJobIsRunning j = false
  known : ∀ id ∈ started, ∃ j ∈ s.jobs, j.id = id
  mine : ∀ n ∈ given, n.job ∈ started

section Giving

variable {now : Nat} {p : Pool} {s after : Sched} {given : List Alloc} {started : List Nat} {j : Job}

theorem Gives.nothing : Gives now p s s [] [] :=
  { nodes := rfl
    allocs := (List.append_nil _).symm
    distinct := List.nodup_nil
    idle := fun _ member => absurd member List.not_mem_nil
    jobs := (List.map_id _).symm
    waiting := fun _ _ member => absurd member List.not_mem_nil
    known := fun _ member => absurd member List.not_mem_nil
    mine := fun _ member => absurd member List.not_mem_nil }

theorem Gives.totalNodes (gives : Gives now p s after given started) : totalNodes p after = totalNodes p s := by
  rw [Bjs.totalNodes, Bjs.totalNodes]
  refine List.countP_congr fun node _ => ?_
  rw [bjsNodeUp, bjsNodeUp, gives.nodes]

theorem Gives.idle_before (gives : Gives now p s after given started) {node : Nat}
    (idle : node ∈ idleNodes p after) : node ∈ idleNodes p s ∧ node ∉ given.map Alloc.node := by
  obtain ⟨inside, idle⟩ := List.mem_filter.mp idle
  rw [bjsNodeIdle_iff, bjsNodeUp, gives.nodes, gives.allocs] at idle
  constructor
  · refine List.mem_filter.mpr ⟨inside, bjsNodeIdle_iff.mpr ⟨idle.1, fun n member => ?_⟩⟩
    exact idle.2 n (List.mem_append_left _ member)
  · intro taken
    obtain ⟨n, member, rfl⟩ := List.mem_map.mp taken
    exact idle.2 n (List.mem_append_right _ member) rfl

theorem Gives.start (gives : Gives now p s after given started) (distinct : (s.jobs.map Job.id).Nodup)
    (member : j ∈ s.jobs) (waiting : bjsJobIsRunning j = false) :
    Gives now p s (bjsStartJob now { after with allocs := after.allocs ++ givenTo p after j } j.id)
      (given ++ givenTo p after j) (started ++ [j.id]) := by
  constructor
  · exact gives.nodes
  · rw [← List.append_assoc, ← gives.allocs]
    rfl
  · rw [List.map_append, List.nodup_append]
    refine ⟨gives.distinct, givenTo_distinct, fun node old other new same => ?_⟩
    subst same
    obtain ⟨n, inside, rfl⟩ := List.mem_map.mp new
    exact (gives.idle_before (givenTo_idle inside)).2 old
  · intro n inside
    rcases List.mem_append.mp inside with old | new
    · exact gives.idle n old
    · exact (gives.idle_before (givenTo_idle new)).1
  · rw [bjsStartJob]
    dsimp only
    rw [gives.jobs, List.map_map]
    refine List.map_congr_left fun other _ => ?_
    rw [Function.comp_apply]
    by_cases old : other.id ∈ started
    · rw [if_pos old, if_pos (List.mem_append_left _ old)]
      split <;> rfl
    · rw [if_neg old]
      by_cases same : other.id = j.id
      · rw [if_pos same, if_pos (List.mem_append_right _ (List.mem_singleton.mpr same))]
      · have apart : other.id ∉ started ++ [j.id] := fun there =>
          (List.mem_append.mp there).elim old fun one => same (List.mem_singleton.mp one)
        rw [if_neg same, if_neg apart]
  · intro other there inside
    rcases List.mem_append.mp inside with old | new
    · exact gives.waiting other there old
    · exact List.inj_on_of_nodup_map distinct there member (List.mem_singleton.mp new) ▸ waiting
  · intro id inside
    rcases List.mem_append.mp inside with old | new
    · exact gives.known id old
    · exact ⟨j, member, (List.mem_singleton.mp new).symm⟩
  · intro n inside
    rcases List.mem_append.mp inside with old | new
    · exact List.mem_append_left _ (gives.mine n old)
    · exact List.mem_append_right _ (List.mem_singleton.mpr (givenTo_job new))

theorem Gives.givenSince (gives : Gives now p s after given started) : givenSince s after = given := by
  rw [Bjs.givenSince, gives.allocs, List.drop_left]

/-- The jobs that have been started have been given what they asked for. -/
def Exactly (s : Sched) (given : List Alloc) (started : List Nat) : Prop :=
  ∀ j ∈ s.jobs, j.id ∈ started → (given.countP (·.job = j.id) : Int) = j.nodes

theorem countP_fresh (mine : ∀ n ∈ given, n.job ∈ started) (fresh : j.id ∉ started) :
    given.countP (·.job = j.id) = 0 :=
  List.countP_eq_zero.mpr fun n inside same => fresh (of_decide_eq_true same ▸ mine n inside)

end Giving

end Xcpu.Bjs
