import Xcpu.Bjs.NodeAllocs

/-!
A new configuration takes the place of the old one (`config_xfer` in `bjs.c`). Every job leaves the list of its
pool and is submitted to the pool of the same name.
-/

namespace Xcpu.Bjs.NodeAllocs

open Circular Buckets

/-- `list_entry` with `list` -/
def listEntry : Place → Option Nat
  | .jobList j => some j
  | _ => none

/-- The `submit` of the policy makes the pool that of the job. The one of the shared policy does not, and leaves it
to its caller. -/
def setsPool : Policy → Bool
  | .shared => false
  | .simple | .filler => true

/-- What becomes of a job that is in no list of a pool any more. -/
def rehome (asserts : Bool) (fuel : Nat) (pools : List Bytes) (policy : Bytes → Policy) (accepts : Nat → Bool)
    (m : Memory) (j : Nat) (pool : Bytes) : Option Memory :=
  if pools.any fun other => decide (other = pool) then
    let m := if setsPool (policy pool) then { m with poolConf := Function.update m.poolConf j (m.conf + 1) } else m
    if accepts j then
      (listAddTail m.heap (.jobPlist j) (.poolJobs (m.conf + 1) pool)).map fun heap => { m with heap }
    else some m
  else (bjsJobKill fuel m j).bind fun m => bjsJobFree asserts m j

/-- The transfer of the jobs, from a pointer on; what comes next is read afterwards. The name of the pool is in the
pool. -/
def xferFrom (asserts : Bool) (fuel : Nat) (pools : List Bytes) (policy : Bytes → Policy) (accepts : Nat → Bool) :
    Nat → Memory → Place → Option Memory
  | 0, m, l => if l = .bjsJobs then some m else none
  | rounds + 1, m, l =>
      if l = .bjsJobs then some m
      else (listEntry l).bind fun j => (m.jobs j).bind fun job =>
        if m.poolConf j = m.conf then (listDel m.heap (.jobPlist j)).bind fun heap =>
          (rehome asserts fuel pools policy accepts { m with heap } j job.pool).bind fun m =>
            (m.heap l).bind fun links => xferFrom asserts fuel pools policy accepts rounds m links.next
        else none

/-- `policy` are the policies of the new pools, and `accepts` says of which jobs they take them. -/
def configXfer (asserts : Bool) (fuel : Nat) (m : Memory) (pools : List Bytes) (policy : Bytes → Policy)
    (accepts : Nat → Bool) : Option Memory :=
  let heap := (pools.map (.poolJobs (m.conf + 1))).foldl initListHead m.heap
  (heap .bjsJobs).bind fun links =>
    (xferFrom asserts fuel pools policy accepts fuel { m with heap } links.next).map fun m =>
      { m with heap := (m.pools.map (.poolJobs m.conf)).foldl freed m.heap, pools, conf := m.conf + 1 }

/-- Some jobs are in the lists of the new pools and the others still in those of the old ones. -/
structure Moving (conf : Nat) (pools pools' : List Bytes) (nodes : Nat) (heap : Heap Place)
    (moved left : List (Nat × Bytes)) (allocs : List (Nat × Alloc)) : Prop where
  all : InAll heap (moved ++ left)
  old : InPools conf pools heap left
  new : InPools (conf + 1) pools' heap moved
  onNodes : OnNodes nodes heap allocs
  onJobs : OnJobs heap (moved ++ left) allocs

section Moving

variable {conf nodes : Nat} {pools pools' : List Bytes} {heap : Heap Place} {moved left : List (Nat × Bytes)}
  {allocs : List (Nat × Alloc)} {q : Nat × Bytes} {m : Memory} {policy : Bytes → Policy} {accepts : Nat → Bool}

/-- The next job is none of those behind it. -/
theorem Moving.single (moving : Moving conf pools pools' nodes heap moved (q :: left) allocs) :
    ∀ q' ∈ left, q.1 ≠ q'.1 := by
  have distinct := InAll.distinct moving.all
  rw [List.map_append] at distinct
  exact fun q' member same => (List.nodup_cons.mp (List.nodup_append.mp distinct).2.1).1
    (List.mem_map.mpr ⟨q', member, same.symm⟩)

/-- One job goes over. -/
theorem Moving.move (moving : Moving conf pools pools' nodes heap moved (q :: left) allocs) (known : q.2 ∈ pools') :
    ∃ heap₁ heap₂, listDel heap (.jobPlist q.1) = some heap₁ ∧
      listAddTail heap₁ (.jobPlist q.1) (.poolJobs (conf + 1) q.2) = some heap₂ ∧
      Moving conf pools pools' nodes heap₂ (moved ++ [q]) left allocs := by
  have apart : ∀ p ∈ moved, ∀ q' ∈ q :: left, p.1 ≠ q'.1 := by
    have distinct := InAll.distinct moving.all
    rw [List.map_append] at distinct
    exact fun p inside q' member same => (List.nodup_append.mp distinct).2.2 p.1 (List.mem_map_of_mem inside) q'.1
      (List.mem_map_of_mem member) same
  have single := moving.single
  have first : InPools conf pools heap ([] ++ q :: left) := moving.old
  obtain ⟨heap₁, first, old, frame₁⟩ := first.remove (poolJobs_injective conf) (poolJobs_apart conf)
  rw [List.nil_append] at old frame₁
  have off₁ : Off .pool heap heap₁ := Off.of_frame (fun _ => rfl) (fun _ => rfl) frame₁
  have new : InPools (conf + 1) pools' heap₁ moved := moving.new.congr
    (fun pool _ => frame₁ _ (fun _ same => absurd (Place.poolJobs.inj same).1 (Nat.succ_ne_self conf)) fun _ _ => nofun)
    fun p inside => frame₁ _ (fun _ => nofun) fun q' member same =>
      apart p inside q' (List.mem_cons_of_mem _ member) (Place.jobPlist.inj same)
  have fresh : Place.jobPlist q.1 ∉ moved.map fun p => Place.jobPlist p.1 := by
    intro member
    obtain ⟨p, inside, same⟩ := List.mem_map.mp member
    exact apart p inside q List.mem_cons_self (Place.jobPlist.inj same)
  obtain ⟨heap₂, second, new, frame₂⟩ := new.add (poolJobs_injective (conf + 1)) (poolJobs_apart (conf + 1)) known fresh
  have off₂ : Off .pool heap₁ heap₂ := Off.of_frame (fun _ => rfl) (fun _ => rfl) frame₂
  have old : InPools conf pools heap₂ left := Hung.congr old
    (fun pool _ => frame₂ _ (fun _ same => absurd (Place.poolJobs.inj same).1.symm (Nat.succ_ne_self conf))
      fun _ _ => nofun)
    fun q' member => frame₂ _ (fun _ => nofun) fun p inside same => by
      rcases List.mem_append.mp inside with inside | inside
      · exact apart p inside q' (List.mem_cons_of_mem _ member) (Place.jobPlist.inj same).symm
      · rw [List.mem_singleton.mp inside] at same
        exact single q' member (Place.jobPlist.inj same).symm
  have order : moved ++ [q] ++ left = moved ++ q :: left := List.append_cons .. |>.symm
  exact ⟨heap₁, heap₂, first, second,
    { all := order ▸ (moving.all.off off₁ nofun).off off₂ nofun
      old := old
      new := new
      onNodes := (moving.onNodes.off off₁ nofun).off off₂ nofun
      onJobs := order ▸ (moving.onJobs.off off₁ nofun).off off₂ nofun }⟩

/-- As long as every job has a pool to go to, the loop moves them all. -/
theorem xferFrom_moves (fuel : Nat) {rounds : Nat}
    (moving : Moving m.conf m.pools pools' m.nodes.length m.heap moved left allocs)
    (there : ∀ q ∈ left, ∃ job, m.jobs q.1 = some job ∧ job.pool = q.2)
    (homes : ∀ q ∈ left, q.2 ∈ pools' ∧ accepts q.1 ∧ setsPool (policy q.2))
    (pointed : ∀ q ∈ left, m.poolConf q.1 = m.conf) (done : ∀ q ∈ moved, m.poolConf q.1 = m.conf + 1)
    (enough : left.length ≤ rounds) :
    ∃ heap poolConf, (∀ asserts, xferFrom asserts fuel pools' policy accepts rounds m
        ((left.map fun q => Place.jobList q.1).headD .bjsJobs) = some { m with heap, poolConf }) ∧
      Moving m.conf m.pools pools' m.nodes.length heap (moved ++ left) [] allocs ∧
      ∀ q ∈ moved ++ left, poolConf q.1 = m.conf + 1 := by
  induction left generalizing m moved rounds with
  | nil =>
      rw [List.append_nil]
      refine ⟨m.heap, m.poolConf, fun asserts => ?_, moving, done⟩
      cases rounds <;> exact if_pos rfl
  | cons q left ih =>
      obtain ⟨rounds, rfl⟩ := Nat.exists_eq_succ_of_ne_zero (Nat.ne_of_gt (Nat.lt_of_lt_of_le (Nat.succ_pos _) enough))
      obtain ⟨known, taken, sets⟩ := homes q List.mem_cons_self
      obtain ⟨job, found, pool⟩ := there q List.mem_cons_self
      have single := moving.single
      obtain ⟨heap₁, heap₂, first, second, moving⟩ := moving.move known
      have named : (pools'.any fun other => decide (other = q.2)) = true :=
        List.any_eq_true.mpr ⟨q.2, known, decide_eq_true rfl⟩
      have all : ListAt heap₂ .bjsJobs ((moved ++ [q] ++ left).map fun q => Place.jobList q.1) := by
        have list := moving.all.lists () trivial
        rwa [show bucket (fun _ : Nat × Bytes => ()) (moved ++ [q] ++ left) () = moved ++ [q] ++ left from
          List.filter_eq_self.mpr fun _ _ => rfl] at list
      rw [List.append_assoc, List.map_append, List.map_append, List.map_singleton] at all
      obtain ⟨links, here, next⟩ := Option.map_eq_some_iff.mp (ListAt.next_of _ all)
      obtain ⟨heap', poolConf, ran, moving, done⟩ := ih
        (m := { m with heap := heap₂, poolConf := Function.update m.poolConf q.1 (m.conf + 1) }) moving
        (fun q' member => there q' (List.mem_cons_of_mem _ member))
        (fun q' member => homes q' (List.mem_cons_of_mem _ member))
        (fun q' member => (Function.update_of_ne (single q' member).symm _ _).trans
          (pointed q' (List.mem_cons_of_mem _ member)))
        (fun q' member => by
          by_cases same : q'.1 = q.1
          · rw [same]
            exact Function.update_self _ _ _
          · rcases List.mem_append.mp member with member | member
            · exact (Function.update_of_ne same _ _).trans (done q' member)
            · exact absurd (congrArg Prod.fst (List.mem_singleton.mp member)) same)
        (Nat.le_of_succ_le_succ enough)
      rw [List.append_assoc] at moving done
      refine ⟨heap', poolConf, fun asserts => ?_, moving, done⟩
      rw [List.map_cons, List.headD_cons, xferFrom, if_neg nofun, listEntry, Option.bind_some, found,
        Option.bind_some, if_pos (pointed q List.mem_cons_self), first, Option.bind_some, rehome, pool, if_pos named,
        if_pos sets, if_pos taken]
      simp only [second, Option.map_some, Option.bind_some, here, next]
      exact ran asserts

end Moving

/-- A walk over places that changes each of them changes nothing else. -/
theorem foldl_other {change : Heap Place → Place → Heap Place}
    (only : ∀ heap place other, other ≠ place → change heap place other = heap other) {places : List Place}
    {heap : Heap Place} {other : Place} (outside : other ∉ places) : places.foldl change heap other = heap other := by
  induction places generalizing heap with
  | nil => rfl
  | cons place rest ih =>
      rw [List.foldl_cons, ih fun inside => outside (List.mem_cons_of_mem _ inside)]
      exact only heap place other fun same => outside (same ▸ List.mem_cons_self)

/-- With a pool for every job in the new configuration, all jobs and allocations are in its lists. -/
theorem Laid.configXfer {m : Memory} {jobs : List (Nat × Bytes)} {allocs : List (Nat × Alloc)} {fuel : Nat}
    (laid : Laid m jobs allocs) (pools' : List Bytes) (policy : Bytes → Policy) (accepts : Nat → Bool)
    (homes : ∀ q ∈ jobs, q.2 ∈ pools' ∧ accepts q.1 ∧ setsPool (policy q.2)) (enough : jobs.length ≤ fuel) :
    ∃ m', (∀ asserts, NodeAllocs.configXfer asserts fuel m pools' policy accepts = some m') ∧ Laid m' jobs allocs ∧
      m'.pools = pools' ∧ m'.jobId = m.jobId ∧ schedOf m' jobs allocs = schedOf m jobs allocs := by
  have untouched : Off .pool m.heap ((pools'.map (.poolJobs (m.conf + 1))).foldl initListHead m.heap) := by
    intro place other
    refine foldl_other (fun _ _ _ away => Function.update_of_ne away _ _) fun inside => ?_
    obtain ⟨pool, -, rfl⟩ := List.mem_map.mp inside
    exact other rfl
  have kept : InPools m.conf m.pools ((pools'.map (.poolJobs (m.conf + 1))).foldl initListHead m.heap) jobs := by
    refine laid.woven.pooled.congr (fun pool _ => ?_) fun q _ => ?_ <;>
      refine foldl_other (fun _ _ _ away => Function.update_of_ne away _ _) fun inside => ?_
    · obtain ⟨_, -, same⟩ := List.mem_map.mp inside
      exact absurd (Place.poolJobs.inj same).1 (Nat.succ_ne_self m.conf)
    · obtain ⟨_, -, same⟩ := List.mem_map.mp inside
      cases same
  have start : Moving m.conf m.pools pools' m.nodes.length
      ((pools'.map (.poolJobs (m.conf + 1))).foldl initListHead m.heap) [] jobs allocs :=
    { all := laid.woven.all.off untouched nofun
      old := kept
      new := ⟨List.nodup_nil, nofun, fun pool known =>
        ListAt.alone (initListHeads_self (Or.inr (List.mem_map_of_mem known)))⟩
      onNodes := laid.woven.onNodes.off untouched nofun
      onJobs := laid.woven.onJobs.off untouched nofun }
  have list : ListAt ((pools'.map (.poolJobs (m.conf + 1))).foldl initListHead m.heap) .bjsJobs
      (jobs.map fun q => Place.jobList q.1) := by
    have list := start.all.lists () trivial
    rwa [show bucket (fun _ : Nat × Bytes => ()) ([] ++ jobs) () = jobs from
      List.filter_eq_self.mpr fun _ _ => rfl] at list
  obtain ⟨heap, poolConf, ran, done, pointed⟩ := xferFrom_moves fuel
    (m := { m with heap := (pools'.map (.poolJobs (m.conf + 1))).foldl initListHead m.heap }) start
    (fun q inside => (laid.recorded.there q inside).imp fun _ found => ⟨found.1, found.2.1⟩) homes laid.pointed nofun
    enough
  rw [List.nil_append] at done pointed
  refine ⟨{ m with
    heap := (m.pools.map (.poolJobs m.conf)).foldl freed heap, poolConf, pools := pools', conf := m.conf + 1 },
    fun asserts => ?_, ⟨laid.recorded, pointed, laid.allocRecord, ?_⟩, rfl, rfl, rfl⟩
  · rw [NodeAllocs.configXfer]
    simp only [list.links_head, Option.bind_some, ran, Option.map_some]
  · have woven : Woven (m.conf + 1) pools' m.nodes.length heap jobs allocs :=
      { all := by simpa using done.all
        pooled := done.new
        onNodes := done.onNodes
        onJobs := by simpa using done.onJobs }
    refine woven.congr fun place used => foldl_other (fun _ _ _ away => Function.update_of_ne away _ _) fun inside => ?_
    obtain ⟨pool, -, rfl⟩ := List.mem_map.mp inside
    exact absurd (show m.conf = m.conf + 1 from used) (Nat.succ_ne_self m.conf).symm

section Stale

variable {asserts : Bool} {fuel j n : Nat} {m m' : Memory} {pools : List Bytes} {policy : Bytes → Policy}
  {accepts : Nat → Bool}

end Stale

end Xcpu.Bjs.NodeAllocs
