import Xcpu.Bjs.Gives
import Xcpu.Bjs.PoolLimits

/-!
The policy `simple` (`simple.c`), which starts jobs in their order as long as there are enough free nodes: when
what it counts as free is what a job is given.
-/

namespace Xcpu.Bjs

def countFreeNodes (p : Pool) (s : Sched) : Nat := (List.range p.nodes.length).countP (bjsNodeUsable s · 0)

/-- The loop that looks for nodes used by killable jobs, over the numbers that are left. A job that is killed
itself is gone. -/
def allocateUsable (j : Job) : List Nat → Int → Sched → Option Sched
  | [], _, s => some s
  | i :: rest, nodes, s =>
      if nodes = 0 then some s
      else if bjsNodeUsable s i 0 then do
        let s ← bjsKillNode s i
        if s.jobs.any (·.id = j.id) then allocateUsable j rest (nodes - 1) (bjsNodeAllocate s j i) else none
      else allocateUsable j rest nodes s

/-- One round of the loop, for a job that there are enough free nodes for. -/
def startSimple (now : Nat) (p : Pool) (s : Sched) (j : Job) : Option Sched :=
  let (nodes, s) := allocateIdle j (List.range p.nodes.length) j.nodes s
  (allocateUsable j (List.range p.nodes.length) nodes s).map fun s => bjsStartJob now s j.id

section Policy

variable (dependencies : Sched → Sexp → Bool)

/-- `while (j)`, with a bound on its rounds. -/
def simpleLoop (now : Nat) (p : Pool) : Nat → Sched → Option Sched
  | 0, _ => none
  | rounds + 1, s =>
      match findFirstRunable dependencies p s with
      | none => some s
      | some j =>
          if (countFreeNodes p s : Int) < j.nodes then some s
          else (startSimple now p s j).bind (simpleLoop now p rounds)

def simpleSchedule (now : Nat) (p : Pool) (s : Sched) : Option Sched :=
  let s := killExpired now p s
  simpleLoop dependencies now p (s.jobs.length + 1) s

/-- In every round that starts a job there are as many idle nodes as it asks for. -/
def EnoughIdle (now : Nat) (p : Pool) : Nat → Sched → Prop
  | 0, _ => True
  | rounds + 1, s => ∀ j, findFirstRunable dependencies p s = some j → j.nodes ≤ countFreeNodes p s →
      j.nodes ≤ (idleNodes p s).length ∧ ∀ next, startSimple now p s j = some next → EnoughIdle now p rounds next

end Policy

section Rounds

variable {dependencies : Sched → Sexp → Bool} {now rounds : Nat} {p : Pool} {s first next : Sched} {j : Job}
  {given more : List Alloc} {started new : List Nat}

/-- Where nothing is idle the second loop finds only nodes that are down. -/
theorem allocateUsable_busy (kept : WellKept s) (member : j ∈ s.jobs) {numbers : List Nat} {nodes : Int}
    (busy : ∀ i ∈ numbers, bjsNodeIdle s i = false) : allocateUsable j numbers nodes s = some s := by
  induction numbers generalizing nodes with
  | nil => rfl
  | cons i rest ih =>
      have later : ∀ i ∈ rest, bjsNodeIdle s i = false := fun i there => busy i (List.mem_cons_of_mem _ there)
      rw [allocateUsable]
      split
      · rfl
      · split
        · rename_i usable
          have free := (kept.bjsNodeUsable_iff.mp usable).2
          have down : ¬bjsNodeUp s i = true := by
            intro up
            exact absurd (bjsNodeIdle_iff.mpr ⟨up, free⟩) (Bool.eq_false_iff.mp (busy i List.mem_cons_self))
          have alive : s.jobs.any (·.id = j.id) = true :=
            List.any_eq_true.mpr ⟨j, member, decide_eq_true rfl⟩
          rw [bjsKillNode_free free, Option.bind_eq_bind, Option.bind_some, if_pos alive, bjsNodeAllocate, if_neg down]
          exact ih later
        · exact ih later

theorem WellKept.append_given (kept : WellKept s) (member : j ∈ s.jobs) :
    WellKept { s with allocs := s.allocs ++ givenTo p s j } := by
  refine ⟨kept.distinct, fun n inside => ?_, kept.priority, kept.wanted⟩
  rcases List.mem_append.mp inside with old | new
  · exact kept.owned n old
  · exact ⟨j, member, (givenTo_job new).symm⟩

theorem startSimple_eq (kept : WellKept s) (member : j ∈ s.jobs) : startSimple now p s j =
    some (bjsStartJob now { s with allocs := s.allocs ++ givenTo p s j } j.id) := by
  have wanted := kept.wanted j member
  rw [startSimple, allocateIdle_eq wanted]
  dsimp only
  have same : allocateUsable j (List.range p.nodes.length) (j.nodes - (givenTo p s j).length)
      { s with allocs := s.allocs ++ givenTo p s j } = some { s with allocs := s.allocs ++ givenTo p s j } := by
    by_cases enough : j.nodes = (givenTo p s j).length
    · have done : j.nodes - (givenTo p s j).length = 0 := by omega
      rw [done]
      cases List.range p.nodes.length with
      | nil => rfl
      | cons i rest => rw [allocateUsable, if_pos rfl]
    · refine allocateUsable_busy (kept.append_given member) member fun i inside => Bool.eq_false_iff.mpr fun idle => ?_
      rw [bjsNodeIdle_iff] at idle
      obtain ⟨up, free⟩ := idle
      have before : i ∈ idleNodes p s := by
        refine List.mem_filter.mpr ⟨inside, bjsNodeIdle_iff.mpr ⟨up, fun n there => ?_⟩⟩
        exact free n (List.mem_append_left _ there)
      have all : (idleNodes p s).take j.nodes.toNat = idleNodes p s := by
        refine List.take_of_length_le ?_
        by_contra short
        refine enough (Eq.symm ((givenTo_length_iff wanted).mpr ?_))
        omega
      have taken : i ∈ (givenTo p s j).map Alloc.node := by
        rw [givenTo_nodes, all]
        exact before
      obtain ⟨n, there, same⟩ := List.mem_map.mp taken
      exact free n (List.mem_append_right _ there) same
  rw [same]
  rfl

theorem Gives.wellKept (gives : Gives now p first s given started) (kept : WellKept first) : WellKept s := by
  have jobs : ∀ j ∈ s.jobs, ∃ old ∈ first.jobs, j.id = old.id ∧ j.priority = old.priority ∧ j.nodes = old.nodes := by
    intro j member
    rw [gives.jobs] at member
    obtain ⟨old, there, rfl⟩ := List.mem_map.mp member
    refine ⟨old, there, ?_⟩
    split <;> exact ⟨rfl, rfl, rfl⟩
  have ids : s.jobs.map Job.id = first.jobs.map Job.id := by
    rw [gives.jobs, List.map_map]
    refine List.map_congr_left fun old _ => ?_
    rw [Function.comp_apply]
    split <;> rfl
  have owner : ∀ id, (∃ j ∈ first.jobs, j.id = id) → ∃ j ∈ s.jobs, j.id = id := by
    rintro id ⟨old, there, same⟩
    have inside : id ∈ s.jobs.map Job.id := by
      rw [ids]
      exact List.mem_map.mpr ⟨old, there, same⟩
    exact List.mem_map.mp inside
  constructor
  · rw [ids]
    exact kept.distinct
  · intro n inside
    rw [gives.allocs] at inside
    rcases List.mem_append.mp inside with old | new
    · exact owner n.job (kept.owned n old)
    · exact owner n.job (gives.known n.job (gives.mine n new))
  · intro j member
    obtain ⟨old, there, -, same, -⟩ := jobs j member
    rw [same]
    exact kept.priority old there
  · intro j member
    obtain ⟨old, there, -, -, same⟩ := jobs j member
    rw [same]
    exact kept.wanted old there

theorem Gives.waiting_before (gives : Gives now p first s given started) (clock : 0 < now) (member : j ∈ s.jobs)
    (waiting : bjsJobIsRunning j = false) : j ∈ first.jobs ∧ j.id ∉ started := by
  rw [gives.jobs] at member
  obtain ⟨old, there, same⟩ := List.mem_map.mp member
  split at same
  · subst same
    rw [bjsJobIsRunning, decide_eq_false_iff_not, not_not] at waiting
    exact absurd waiting clock.ne'
  · rename_i fresh
    subst same
    exact ⟨there, fresh⟩

theorem countFreeNodes_le (kept : WellKept s) (after : WellKept next) (nodes : next.nodes = s.nodes)
    (allocs : ∀ n ∈ s.allocs, n ∈ next.allocs) : countFreeNodes p next ≤ countFreeNodes p s := by
  refine List.countP_mono_left fun node _ usable => ?_
  rw [after.bjsNodeUsable_iff, nodes] at usable
  exact kept.bjsNodeUsable_iff.mpr ⟨usable.1, fun n member => usable.2 n (allocs n member)⟩

theorem exactly_cons (distinct : (first.jobs.map Job.id).Nodup) (member : j ∈ first.jobs) (fresh : j.id ∉ new)
    (mine : ∀ n ∈ more, n.job ∈ new) : Exactly first (givenTo p s j ++ more) (j.id :: new) ↔
      ((givenTo p s j).length : Int) = j.nodes ∧ Exactly first more new := by
  have count : ∀ other : Job, other.id ≠ j.id → (givenTo p s j).countP (·.job = other.id) = 0 := by
    intro other different
    refine List.countP_eq_zero.mpr fun n inside same => different ?_
    exact (of_decide_eq_true same).symm.trans (givenTo_job inside)
  constructor
  · intro every
    constructor
    · have own := every j member List.mem_cons_self
      rw [List.countP_append, countP_fresh mine fresh, givenTo_count] at own
      exact own
    · intro other there inside
      have different : other.id ≠ j.id := fun same => fresh (same ▸ inside)
      have counted := every other there (List.mem_cons_of_mem _ inside)
      rw [List.countP_append, count other different, Nat.zero_add] at counted
      exact counted
  · rintro ⟨own, every⟩ other there inside
    rw [List.countP_append]
    rcases List.mem_cons.mp inside with same | inside
    · have one := List.inj_on_of_nodup_map distinct there member same
      subst one
      rw [countP_fresh mine fresh, givenTo_count]
      exact own
    · have different : other.id ≠ j.id := fun same => fresh (same ▸ inside)
      rw [count other different, Nat.zero_add]
      exact every other there inside

theorem findFirstRunable_some (found : findFirstRunable dependencies p s = some j) :
    j ∈ s.jobs ∧ bjsJobIsRunning j = false ∧ bjsJobRunnable dependencies p s j = true := by
  have passed := List.find?_some found
  rw [Bool.and_eq_true, Bool.not_eq_true'] at passed
  exact ⟨(List.mem_filter.mp (List.mem_of_find?_eq_some found)).1, passed.2, passed.1⟩

theorem bjsJobRunnable_iff : bjsJobRunnable dependencies p s j = true ↔
    j.nodes ≤ totalNodes p s ∧ dependenciesMet dependencies s j = true := by
  rw [bjsJobRunnable]
  split
  · rename_i few
    exact ⟨fun never => absurd never Bool.false_ne_true, fun enough => absurd enough.1 (not_le.mpr few)⟩
  · rename_i enough
    exact (and_iff_right (not_lt.mp enough)).symm

/-- The jobs that have been started since the first state are at most as many as it has. -/
theorem Gives.started_length (gives : Gives now p first s given started) (once : started.Nodup) :
    started.length ≤ first.jobs.length := by
  rw [← List.length_map (f := Job.id)]
  exact (List.subperm_of_subset once fun id inside => List.mem_map.mpr (gives.known id inside)).length_le

/-- The loop comes to an end, and gives all jobs that it starts what they ask for exactly when there are enough
idle nodes in each of its rounds. -/
theorem simpleLoop_run (clock : 0 < now) (kept : WellKept first) (gives : Gives now p first s given started)
    (enough : first.jobs.length < rounds + started.length) (once : started.Nodup) :
    ∃ final more new, simpleLoop dependencies now p rounds s = some final ∧
      Gives now p first final (given ++ more) (started ++ new) ∧ (started ++ new).Nodup ∧ (∀ n ∈ more, n.job ∈ new) ∧
      (Exactly first more new ↔ EnoughIdle dependencies now p rounds s) ∧
      (∀ j ∈ first.jobs, j.id ∈ new → j.nodes ≤ totalNodes p first ∧ j.nodes ≤ countFreeNodes p s) ∧
      ∀ j, findFirstRunable dependencies p s = some j → j.nodes ≤ countFreeNodes p s → j.id ∈ new := by
  induction rounds generalizing s given started with
  | zero =>
      have most := gives.started_length once
      omega
  | succ rounds ih =>
      have here := gives.wellKept kept
      have stops : simpleLoop dependencies now p (rounds + 1) s = some s →
          (∀ j, findFirstRunable dependencies p s = some j → ¬j.nodes ≤ countFreeNodes p s) →
          ∃ final more new, simpleLoop dependencies now p (rounds + 1) s = some final ∧
            Gives now p first final (given ++ more) (started ++ new) ∧ (started ++ new).Nodup ∧
            (∀ n ∈ more, n.job ∈ new) ∧
            (Exactly first more new ↔ EnoughIdle dependencies now p (rounds + 1) s) ∧
            (∀ j ∈ first.jobs, j.id ∈ new → j.nodes ≤ totalNodes p first ∧ j.nodes ≤ countFreeNodes p s) ∧
            ∀ j, findFirstRunable dependencies p s = some j → j.nodes ≤ countFreeNodes p s → j.id ∈ new := by
        intro ran stuck
        refine ⟨s, [], [], ran, ?_, ?_, fun _ none_ => absurd none_ List.not_mem_nil, ?_,
          fun _ _ none_ => absurd none_ List.not_mem_nil, fun j found free => absurd free (stuck j found)⟩
        · rw [List.append_nil, List.append_nil]
          exact gives
        · rw [List.append_nil]
          exact once
        · exact ⟨fun _ j found free => absurd free (stuck j found), fun _ _ _ none_ => absurd none_ List.not_mem_nil⟩
      cases found : findFirstRunable dependencies p s with
      | none =>
          refine found ▸ stops ?_ fun j there => ?_
          · rw [simpleLoop, found]
          · rw [found] at there
            cases there
      | some j =>
          obtain ⟨member, waiting, runnable⟩ := findFirstRunable_some found
          by_cases few : (countFreeNodes p s : Int) < j.nodes
          · refine found ▸ stops ?_ fun other there => ?_
            · rw [simpleLoop, found]
              exact if_pos few
            · rw [found, Option.some.injEq] at there
              exact there ▸ not_le.mpr few
          · obtain ⟨before, fresh⟩ := gives.waiting_before clock member waiting
            have stepped : startSimple now p s j = _ := startSimple_eq here member
            have later := gives.start (p := p) kept.distinct before waiting
            have once_more : (started ++ [j.id]).Nodup := by
              refine List.nodup_append.mpr ⟨once, List.nodup_singleton _, fun id old other new same => fresh ?_⟩
              exact List.mem_singleton.mp new ▸ same ▸ old
            obtain ⟨final, more, new, ran, gave, apart, mine, exact_, bounds, -⟩ := ih later
              (by rw [List.length_append, List.length_singleton]; omega) once_more
            rw [List.append_assoc] at apart
            have own : j.id ∉ new := by
              have parts := (List.nodup_append.mp apart).2.1
              exact (List.nodup_cons.mp parts).1
            refine ⟨final, givenTo p s j ++ more, j.id :: new, ?_, ?_, apart, ?_, ?_, ?_, ?_⟩
            · rw [simpleLoop, found]
              dsimp only
              rw [if_neg few, stepped]
              exact ran
            · rw [← List.append_assoc, ← List.singleton_append (l := new), ← List.append_assoc]
              exact gave
            · intro n inside
              rcases List.mem_append.mp inside with old | late
              · exact givenTo_job old ▸ List.mem_cons_self
              · exact List.mem_cons_of_mem _ (mine n late)
            · rw [exactly_cons kept.distinct before own mine, givenTo_length_iff (kept.wanted j before), exact_,
                EnoughIdle]
              constructor
              · rintro ⟨idle, rest⟩ other there _
                rw [found, Option.some.injEq] at there
                subst there
                refine ⟨idle, fun next same => ?_⟩
                rw [stepped, Option.some.injEq] at same
                exact same ▸ rest
              · intro all
                obtain ⟨idle, rest⟩ := all j found (not_lt.mp few)
                exact ⟨idle, rest _ stepped⟩
            · intro other there inside
              rcases List.mem_cons.mp inside with same | inside
              · have one := List.inj_on_of_nodup_map kept.distinct there before same
                subst one
                refine ⟨?_, not_lt.mp few⟩
                rw [← gives.totalNodes]
                exact (bjsJobRunnable_iff.mp runnable).1
              · obtain ⟨total, free⟩ := bounds other there inside
                have fewer := countFreeNodes_le (p := p) here (later.wellKept kept) rfl
                  fun n there => List.mem_append_left _ there
                exact ⟨total, free.trans (by exact_mod_cast fewer)⟩
            · intro other there _
              rw [Option.some.injEq] at there
              exact there ▸ List.mem_cons_self

theorem simpleLoop_whole (clock : 0 < now) (kept : WellKept s) : ∃ final given started,
    simpleLoop dependencies now p (s.jobs.length + 1) s = some final ∧ Gives now p s final given started ∧
      (Exactly s given started ↔ EnoughIdle dependencies now p (s.jobs.length + 1) s) ∧
      (∀ j ∈ s.jobs, j.id ∈ started → j.nodes ≤ totalNodes p s ∧ j.nodes ≤ countFreeNodes p s) ∧
      ∀ j, findFirstRunable dependencies p s = some j → j.nodes ≤ countFreeNodes p s → j.id ∈ started := by
  have rounds : s.jobs.length < s.jobs.length + 1 + ([] : List Nat).length := by simp
  obtain ⟨final, given, started, ran, gives, -, -, facts⟩ := simpleLoop_run clock kept .nothing rounds List.nodup_nil
  exact ⟨final, given, started, ran, gives, facts⟩

end Rounds

end Xcpu.Bjs
