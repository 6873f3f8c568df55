import Xcpu.Bjs.Node

/-!
`update_cluster_status`: the node set that the status monitor reports is compared with the last
one, and where it differs a new array of nodes is built and the allocations are moved over.
-/

namespace Xcpu.Bjs

/-- A node as the status monitor reports it. -/
structure Report where
  name : Bytes
  status : Bytes
  deriving DecidableEq

def Report.isUp (reported : Report) : Bool := reported.status = statusUp

/-- `cleanSet` has the names of the nodes that are to be cleaned. -/
structure Cluster where
  nodes : List BjsNode
  cleanSet : List Bytes := []
  deriving DecidableEq

/-- `bjs_clean_node`, which asks `bjs_get_node` whether there is such a node. -/
def bjsCleanNode (cluster : Cluster) (node : Nat) : Cluster :=
  match cluster.nodes[node]? with
  | none => cluster
  | some n => { cluster with cleanSet := cluster.cleanSet ++ [n.node.name] }

/-- The allocation at the head of the list of node `i` leaves it. `none` is a number beyond
`bjs_node_idx`. -/
def bjsNodeDeallocate (cluster : Cluster) (i : Nat) (a : NodeAlloc) : Option Cluster :=
  let cluster := { cluster with nodes := cluster.nodes.modify i fun n => { n with jobs := n.jobs.tail } }
  match cluster.nodes[a.node]? with
  | none => none
  | some n => some (if n.jobs = [] then bjsCleanNode cluster a.node else cluster)

/-- `xcpu_nodeset_to_bjs_nodes`; `malloc i` is the address of the `i`th new `Xpnode`. -/
def xcpuNodesetToBjsNodes (malloc : Nat → Nat) (ns : List Report) : List BjsNode :=
  ns.mapIdx fun i reported => { node := ⟨malloc i, reported.name, reported.status⟩ }

/-- The test whether the node set is the last one; the loop ends before the last name. -/
def membershipChanged (nodes : List BjsNode) (ns : List Report) : Bool :=
  if ns.length ≠ nodes.length then true
  else (ns.dropLast.zip nodes).any fun (reported, n) => reported.name ≠ n.node.name

/-- The test before the jobs of a node are moved: the address of its `Xpnode` is compared with the
number of new nodes. -/
def BjsNode.transferred (nids : Nat) (n : BjsNode) : Prop := n.jobs ≠ [] ∧ n.node.ref < nids

instance (nids : Nat) (n : BjsNode) : Decidable (n.transferred nids) := instDecidableAnd

/-- The transfer of old running jobs, from the `i`th old node on: the new nodes and what is left
of the old ones. `none` is an index beyond `new_node_idx`. -/
def transferJobs (nids : Nat) (newNodes : List BjsNode) (i : Nat) :
    List BjsNode → Option (List BjsNode × List BjsNode)
  | [] => some (newNodes, [])
  | n :: rest =>
      if n.transferred nids then
        match newNodes[i]? with
        | none => none
        | some newn =>
            (transferJobs nids (newNodes.set i { newn with jobs := n.jobs }) (i + 1) rest).map
              fun (newNodes, left) => (newNodes, { n with jobs := [] } :: left)
      else (transferJobs nids newNodes (i + 1) rest).map fun (newNodes, left) => (newNodes, n :: left)

/-- The list of node `i` is emptied from its head. -/
def dropJobs (cluster : Cluster) (i : Nat) : List NodeAlloc → Option Cluster
  | [] => some cluster
  | a :: rest => (bjsNodeDeallocate cluster i a).bind fun cluster => dropJobs cluster i rest

/-- The removal of the jobs that were not transferred, from the `i`th old node on. -/
def dropOldJobs (cluster : Cluster) (i : Nat) : List BjsNode → Option Cluster
  | [] => some cluster
  | n :: rest => (dropJobs cluster i n.jobs).bind fun cluster => dropOldJobs cluster (i + 1) rest

/-- The switch to the new array of nodes. -/
def switchNodes (malloc : Nat → Nat) (cluster : Cluster) (ns : List Report) : Option Cluster :=
  (transferJobs ns.length (xcpuNodesetToBjsNodes malloc ns) 0 cluster.nodes).bind
    fun (newNodes, left) => (dropOldJobs { cluster with nodes := left } 0 left).map
      fun cluster => { cluster with nodes := newNodes }

/-- A node that came up is cleaned for each pool that has it; what is cleaned is the node whose
number is its place in the pool. -/
@[simp]
def grabNode (pools : List (List Bytes)) (name : Bytes) (cluster : Cluster) : Cluster :=
  pools.foldl (fun cluster pool =>
    match pool.findIdx? (· = name) with
    | none => cluster
    | some k => bjsCleanNode cluster k) cluster

/-- One round of the last loop, with `change`. -/
def updateNode (pools : List (List Bytes)) (state : Cluster × Bool) (i : Nat) : Cluster × Bool :=
  match state.1.nodes[i]? with
  | none => state
  | some n =>
      if n.up = n.isUp then state
      else
        let cluster := { state.1 with nodes := state.1.nodes.set i { n with up := n.isUp } }
        if n.isUp then (grabNode pools n.node.name cluster, true) else (cluster, state.2)

/-- `update_cluster_status` with the node set `ns`: the cluster and what is returned. -/
def updateClusterStatus (pools : List (List Bytes)) (malloc : Nat → Nat) (cluster : Cluster)
    (ns : List Report) : Option (Cluster × Bool) :=
  let change := membershipChanged cluster.nodes ns
  (if change then switchNodes malloc cluster ns else some cluster).map fun cluster =>
    (List.range cluster.nodes.length).foldl (updateNode pools) (cluster, change)

/-- Every allocation has the number of the node whose list it is on. -/
def WellPlaced (nodes : List BjsNode) : Prop := ∀ p ∈ nodes.zipIdx, ∀ a ∈ p.1.jobs, a.node = p.2

/-- Each reported node is there once with its status, and the allocations of the nodes that are
still reported are on the nodes of the same names and no others. -/
structure Consistent (old : List BjsNode) (ns : List Report) (next : List BjsNode) : Prop where
  reported : (next.map fun n => (n.node.name, n.up)).Perm (ns.map fun r => (r.name, r.isUp))
  attached : ∀ n ∈ old, n.node.name ∈ ns.map Report.name → ∀ a ∈ n.jobs,
    (∃ m ∈ next, m.node.name = n.node.name ∧ a ∈ m.jobs) ∧
      ∀ m ∈ next, a ∈ m.jobs → m.node.name = n.node.name

/-- The condition: a node set that passes for the last one agrees with the names and statuses on
record, and otherwise every node with jobs stays at its place if its address is below the number
of nodes, and is not reported any more if it is not. -/
def UpdateSafe (old : List BjsNode) (ns : List Report) : Prop :=
  if membershipChanged old ns then
    ∀ p ∈ old.zipIdx, p.1.jobs ≠ [] →
      if p.1.node.ref < ns.length then
        p.2 < ns.length ∧ (p.1.node.name ∈ ns.map Report.name → (ns.map Report.name)[p.2]? = some p.1.node.name)
      else p.1.node.name ∉ ns.map Report.name
  else (old.map fun n => (n.node.name, n.isUp)).Perm (ns.map fun r => (r.name, r.isUp))

section Transfer

variable {nids : Nat} {nodes newNodes moved old left : List BjsNode} {cluster next : Cluster}

/-- What the new node `m` gets from the old node at its place. -/
def BjsNode.receive (nids : Nat) (m : BjsNode) : Option BjsNode → BjsNode
  | none => m
  | some n => if n.transferred nids then { m with jobs := n.jobs } else m

/-- What an old node keeps. -/
def BjsNode.leave (nids : Nat) (n : BjsNode) : BjsNode :=
  if n.transferred nids then { n with jobs := [] } else n

theorem transferJobs_none_iff {i : Nat} : transferJobs nids newNodes i old = none ↔
    ∃ p ∈ old.zipIdx i, p.1.transferred nids ∧ newNodes.length ≤ p.2 := by
  induction old generalizing i newNodes with
  | nil => simp [transferJobs]
  | cons n rest ih =>
      simp only [List.zipIdx_cons, List.mem_cons, exists_eq_or_imp]
      unfold transferJobs
      by_cases moves : n.transferred nids
      · rw [if_pos moves]
        by_cases inside : i < newNodes.length
        · rw [List.getElem?_eq_getElem inside, Option.map_eq_none_iff, ih, List.length_set]
          simp only [moves, true_and]
          exact ⟨.inr, fun out => out.resolve_left (by omega)⟩
        · rw [List.getElem?_eq_none (by omega)]
          exact iff_of_true rfl (.inl ⟨moves, by omega⟩)
      · rw [if_neg moves, Option.map_eq_none_iff, ih]
        simp [moves]

theorem transferJobs_left {i : Nat} (ran : transferJobs nids newNodes i old = some (moved, left)) :
    left = old.map (BjsNode.leave nids) := by
  induction old generalizing i newNodes left with
  | nil =>
      obtain ⟨-, rfl⟩ := Prod.mk.inj (Option.some.inj ran)
      rfl
  | cons n rest ih =>
      unfold transferJobs at ran
      rw [List.map_cons, BjsNode.leave]
      by_cases moves : n.transferred nids
      · rw [if_pos moves] at ran
        split at ran
        · contradiction
        · obtain ⟨⟨moved', left'⟩, later, same⟩ := Option.map_eq_some_iff.mp ran
          obtain ⟨rfl, rfl⟩ := Prod.mk.inj same
          rw [if_pos moves, ih later]
      · rw [if_neg moves] at ran
        obtain ⟨⟨moved', left'⟩, later, same⟩ := Option.map_eq_some_iff.mp ran
        obtain ⟨rfl, rfl⟩ := Prod.mk.inj same
        rw [if_neg moves, ih later]

theorem transferJobs_moved {i : Nat} (ran : transferJobs nids newNodes i old = some (moved, left)) (k : Nat) :
    moved[k]? = newNodes[k]?.map fun m => if i ≤ k then m.receive nids old[k - i]? else m := by
  induction old generalizing i newNodes left with
  | nil =>
      obtain ⟨rfl, -⟩ := Prod.mk.inj (Option.some.inj ran)
      simp [BjsNode.receive]
  | cons n rest ih =>
      have onward : i < k → (n :: rest)[k - i]? = rest[k - (i + 1)]? := by
        intro past
        rw [show k - i = (k - (i + 1)) + 1 by omega, List.getElem?_cons_succ]
      unfold transferJobs at ran
      by_cases moves : n.transferred nids
      · rw [if_pos moves] at ran
        split at ran
        · contradiction
        · rename_i newn found
          obtain ⟨⟨moved', left'⟩, later, same⟩ := Option.map_eq_some_iff.mp ran
          obtain ⟨rfl, rfl⟩ := Prod.mk.inj same
          rw [ih later]
          rcases Nat.lt_trichotomy k i with before | here | past
          · rw [List.getElem?_set_ne (by omega)]
            simp [Nat.not_le.mpr before, Nat.not_le.mpr (Nat.lt_succ_of_lt before)]
          · subst k
            obtain ⟨inside, -⟩ := List.getElem?_eq_some_iff.mp found
            rw [List.getElem?_set_self inside, found]
            simp [BjsNode.receive, moves, Nat.not_succ_le_self]
          · rw [List.getElem?_set_ne (by omega), onward past]
            simp [show i + 1 ≤ k by omega, show i ≤ k by omega]
      · rw [if_neg moves] at ran
        obtain ⟨⟨moved', left'⟩, later, same⟩ := Option.map_eq_some_iff.mp ran
        obtain ⟨rfl, rfl⟩ := Prod.mk.inj same
        rw [ih later]
        rcases Nat.lt_trichotomy k i with before | here | past
        · simp [Nat.not_le.mpr before, Nat.not_le.mpr (Nat.lt_succ_of_lt before)]
        · subst k
          simp [BjsNode.receive, moves, Nat.not_succ_le_self]
        · rw [onward past]
          simp [show i + 1 ≤ k by omega, show i ≤ k by omega]

theorem bjsCleanNode_nodes (k : Nat) : (bjsCleanNode cluster k).nodes = cluster.nodes := by
  unfold bjsCleanNode
  split <;> rfl

theorem dropJobs_some (i : Nat) {jobs : List NodeAlloc} (inside : ∀ a ∈ jobs, a.node < cluster.nodes.length) :
    ∃ next, dropJobs cluster i jobs = some next ∧ next.nodes.length = cluster.nodes.length := by
  induction jobs generalizing cluster with
  | nil => exact ⟨cluster, rfl, rfl⟩
  | cons a rest ih =>
      have here := inside a List.mem_cons_self
      obtain ⟨mid, did, size⟩ : ∃ mid, bjsNodeDeallocate cluster i a = some mid ∧
          mid.nodes.length = cluster.nodes.length := by
        unfold bjsNodeDeallocate
        dsimp only
        rw [List.getElem?_eq_getElem (by simpa using here)]
        refine ⟨_, rfl, ?_⟩
        split
        · rw [bjsCleanNode_nodes, List.length_modify]
        · rw [List.length_modify]
      obtain ⟨next, ran, same⟩ := ih fun a member => size ▸ inside a (List.mem_cons_of_mem _ member)
      exact ⟨next, by rw [dropJobs, did]; exact ran, same.trans size⟩

theorem dropOldJobs_some (cluster : Cluster) (i : Nat)
    (inside : ∀ n ∈ left, ∀ a ∈ n.jobs, a.node < cluster.nodes.length) :
    ∃ next, dropOldJobs cluster i left = some next := by
  induction left generalizing cluster i with
  | nil => exact ⟨cluster, rfl⟩
  | cons n rest ih =>
      obtain ⟨mid, did, size⟩ := dropJobs_some i (inside n List.mem_cons_self)
      obtain ⟨next, ran⟩ := ih mid (i + 1) fun n member => size ▸ inside n (List.mem_cons_of_mem _ member)
      exact ⟨next, by rw [dropOldJobs, did]; exact ran⟩

theorem WellPlaced.inside (placed : WellPlaced nodes) : ∀ n ∈ nodes, ∀ a ∈ n.jobs, a.node < nodes.length := by
  intro n member a listed
  obtain ⟨i, inside, here⟩ := List.getElem_of_mem member
  have found : (n, i) ∈ nodes.zipIdx :=
    List.mk_mem_zipIdx_iff_getElem?.mpr (List.getElem?_eq_some_iff.mpr ⟨inside, here⟩)
  exact placed (n, i) found a listed ▸ inside

theorem WellPlaced.same_place (placed : WellPlaced nodes) {i k : Nat} {n m : BjsNode}
    (first : nodes[i]? = some n) (second : nodes[k]? = some m) {a : NodeAlloc} (one : a ∈ n.jobs)
    (other : a ∈ m.jobs) : i = k :=
  (placed (n, i) (List.mk_mem_zipIdx_iff_getElem?.mpr first) a one).symm.trans
    (placed (m, k) (List.mk_mem_zipIdx_iff_getElem?.mpr second) a other)

end Transfer

section Update

variable {pools : List (List Bytes)} {malloc : Nat → Nat} {cluster next : Cluster} {ns : List Report}
variable {change : Bool}

def BjsNode.refreshed (n : BjsNode) : BjsNode := { n with up := n.isUp }

theorem grabNode_nodes (name : Bytes) : (grabNode pools name cluster).nodes = cluster.nodes := by
  unfold grabNode
  induction pools generalizing cluster with
  | nil => rfl
  | cons pool rest ih =>
      rw [List.foldl_cons, ih]
      split
      · rfl
      · exact bjsCleanNode_nodes _

theorem updateNode_nodes (state : Cluster × Bool) (i : Nat) :
    (updateNode pools state i).1.nodes = state.1.nodes.modify i BjsNode.refreshed := by
  unfold updateNode
  cases found : state.1.nodes[i]? with
  | none => rw [List.modify_eq_self (List.getElem?_eq_none_iff.mp found)]
  | some n =>
      obtain ⟨inside, here⟩ := List.getElem?_eq_some_iff.mp found
      have changed : state.1.nodes.modify i BjsNode.refreshed = state.1.nodes.set i n.refreshed := by
        rw [List.modify_eq_set_getElem? , found]
        rfl
      by_cases same : n.up = n.isUp
      · have unmoved : n.refreshed = n := by rw [BjsNode.refreshed, ← same]
        simp only [same, if_true]
        rw [changed, unmoved, ← here, List.set_getElem_self]
      · simp only [same, if_false]
        rw [changed]
        split
        · exact grabNode_nodes _
        · rfl

/-- The last loop gives every node the status on its record. -/
theorem updateNodes_nodes (pools : List (List Bytes)) (state : Cluster × Bool) :
    ((List.range state.1.nodes.length).foldl (updateNode pools) state).1.nodes =
      state.1.nodes.map BjsNode.refreshed := by
  have rounds : ∀ k, ((List.range k).foldl (updateNode pools) state).1.nodes =
      state.1.nodes.mapIdx fun i n => if i < k then n.refreshed else n := by
    intro k
    induction k with
    | zero => exact List.ext_getElem? fun i => by simp
    | succ k ih =>
        rw [List.range_succ, List.foldl_append, List.foldl_cons, List.foldl_nil, updateNode_nodes, ih]
        refine List.ext_getElem? fun i => ?_
        simp only [List.getElem?_modify, List.getElem?_mapIdx, Option.map_eq_map, Option.map_map]
        congr 1
        funext n
        simp only [Function.comp_apply]
        split_ifs <;> first | rfl | omega
  rw [rounds]
  refine List.ext_getElem? fun i => ?_
  rw [List.getElem?_mapIdx, List.getElem?_map]
  by_cases inside : i < state.1.nodes.length
  · simp [inside]
  · rw [List.getElem?_eq_none (by omega)]
    rfl

theorem xcpuNodesetToBjsNodes_get (k : Nat) : (xcpuNodesetToBjsNodes malloc ns)[k]? =
    ns[k]?.map fun r => ({ node := ⟨malloc k, r.name, r.status⟩ } : BjsNode) := by
  rw [xcpuNodesetToBjsNodes, List.getElem?_mapIdx]

theorem switchNodes_none_iff (malloc : Nat → Nat) (ns : List Report) (placed : WellPlaced cluster.nodes) :
    switchNodes malloc cluster ns = none ↔
    ∃ p ∈ cluster.nodes.zipIdx, p.1.transferred ns.length ∧ ns.length ≤ p.2 := by
  have size : (xcpuNodesetToBjsNodes malloc ns).length = ns.length := List.length_mapIdx
  unfold switchNodes
  cases ran : transferJobs ns.length (xcpuNodesetToBjsNodes malloc ns) 0 cluster.nodes with
  | none =>
      rw [transferJobs_none_iff, size] at ran
      exact iff_of_true rfl ran
  | some moved =>
      obtain ⟨newNodes, left⟩ := moved
      have stays : ¬ ∃ p ∈ cluster.nodes.zipIdx, p.1.transferred ns.length ∧ ns.length ≤ p.2 := by
        intro out
        rw [← size] at out
        have stuck := transferJobs_none_iff.mpr out
        rw [size, ran] at stuck
        contradiction
      refine iff_of_false ?_ stays
      have lefts := transferJobs_left ran
      have inside : ∀ n ∈ left, ∀ a ∈ n.jobs, a.node < left.length := by
        intro n member a listed
        rw [lefts] at member ⊢
        obtain ⟨old, before, same⟩ := List.mem_map.mp member
        rw [List.length_map]
        refine placed.inside old before a ?_
        subst n
        unfold BjsNode.leave at listed
        split at listed
        · simp at listed
        · exact listed
      obtain ⟨dropped, did⟩ := dropOldJobs_some { cluster with nodes := left } 0 inside
      simp [did]

theorem switchNodes_get (ran : switchNodes malloc cluster ns = some next) (k : Nat) :
    next.nodes[k]? = ns[k]?.map fun r =>
      ({ node := ⟨malloc k, r.name, r.status⟩ } : BjsNode).receive ns.length cluster.nodes[k]? := by
  obtain ⟨⟨newNodes, left⟩, did, ran⟩ := Option.bind_eq_some_iff.mp ran
  obtain ⟨dropped, -, same⟩ := Option.map_eq_some_iff.mp ran
  subst next
  rw [transferJobs_moved did, xcpuNodesetToBjsNodes_get, Option.map_map]
  congr 1

theorem refreshed_pairs (nodes : List BjsNode) :
    (nodes.map BjsNode.refreshed).map (fun n => (n.node.name, n.up)) =
      nodes.map fun n => (n.node.name, n.isUp) := by
  rw [List.map_map]
  rfl

theorem consistent_unchanged {old : List BjsNode} (placed : WellPlaced old) :
    Consistent old ns (old.map BjsNode.refreshed) ↔
      (old.map fun n => (n.node.name, n.isUp)).Perm (ns.map fun r => (r.name, r.isUp)) := by
  constructor
  · intro same
    rw [← refreshed_pairs]
    exact same.reported
  · intro same
    refine ⟨by rw [refreshed_pairs]; exact same, ?_⟩
    intro n member _ a listed
    refine ⟨⟨n.refreshed, List.mem_map_of_mem member, rfl, listed⟩, ?_⟩
    intro m later again
    obtain ⟨o, before, same⟩ := List.mem_map.mp later
    subst m
    obtain ⟨i, here⟩ := List.getElem?_of_mem member
    obtain ⟨k, there⟩ := List.getElem?_of_mem before
    have equal := placed.same_place here there listed again
    rw [equal, there] at here
    rw [Option.some.inj here]
    rfl

theorem switchNodes_mem (ran : switchNodes malloc cluster ns = some next) {m : BjsNode} {a : NodeAlloc}
    (member : m ∈ next.nodes) (listed : a ∈ m.jobs) :
    ∃ (k : Nat) (n : BjsNode), cluster.nodes[k]? = some n ∧ n.transferred ns.length ∧ a ∈ n.jobs ∧
      (ns.map Report.name)[k]? = some m.node.name := by
  obtain ⟨k, found⟩ := List.getElem?_of_mem member
  rw [switchNodes_get ran k] at found
  obtain ⟨r, reported, same⟩ := Option.map_eq_some_iff.mp found
  have name : (ns.map Report.name)[k]? = some r.name := by rw [List.getElem?_map, reported]; rfl
  cases old : cluster.nodes[k]? with
  | none =>
      simp only [old, BjsNode.receive] at same
      simp [← same] at listed
  | some n =>
      simp only [old, BjsNode.receive] at same
      split at same
      · rename_i moves
        rw [← same] at listed ⊢
        exact ⟨k, n, old, moves, listed, name⟩
      · simp [← same] at listed

theorem switchNodes_moved (ran : switchNodes malloc cluster ns = some next) {k : Nat} {n : BjsNode}
    (old : cluster.nodes[k]? = some n) (moves : n.transferred ns.length) {name : Bytes}
    (reported : (ns.map Report.name)[k]? = some name) :
    ∃ m ∈ next.nodes, m.node.name = name ∧ m.jobs = n.jobs := by
  rw [List.getElem?_map] at reported
  obtain ⟨r, here, same⟩ := Option.map_eq_some_iff.mp reported
  have found := switchNodes_get ran k
  rw [here, old, Option.map_some, BjsNode.receive, if_pos moves] at found
  exact ⟨_, List.mem_of_getElem? found, same, rfl⟩

theorem switchNodes_pairs (ran : switchNodes malloc cluster ns = some next) :
    (next.nodes.map fun n => (n.node.name, n.isUp)) = ns.map fun r => (r.name, r.isUp) := by
  refine List.ext_getElem? fun k => ?_
  rw [List.getElem?_map, List.getElem?_map, switchNodes_get ran k, Option.map_map]
  congr 1
  funext r
  simp only [Function.comp_apply]
  cases cluster.nodes[k]? with
  | none => rfl
  | some n =>
      rw [BjsNode.receive]
      split <;> rfl

theorem consistent_switched (placed : WellPlaced cluster.nodes)
    (ran : switchNodes malloc cluster ns = some next) :
    Consistent cluster.nodes ns (next.nodes.map BjsNode.refreshed) ↔
      ∀ p ∈ cluster.nodes.zipIdx, p.1.jobs ≠ [] → p.1.node.name ∈ ns.map Report.name →
        p.1.node.ref < ns.length ∧ (ns.map Report.name)[p.2]? = some p.1.node.name := by
  constructor
  · intro same p member busy reported
    have here := List.mk_mem_zipIdx_iff_getElem?.mp member
    obtain ⟨a, listed⟩ := List.exists_mem_of_ne_nil p.1.jobs busy
    obtain ⟨⟨m, later, name, again⟩, -⟩ :=
      same.attached p.1 (List.mem_of_getElem? here) reported a listed
    obtain ⟨o, before, refreshed⟩ := List.mem_map.mp later
    subst m
    obtain ⟨k, n, old, moves, origin, place⟩ := switchNodes_mem ran before again
    have equal := placed.same_place old here origin listed
    rw [equal, here] at old
    rw [← Option.some.inj old] at moves
    exact ⟨moves.2, equal ▸ name ▸ place⟩
  · intro moves
    refine ⟨by rw [refreshed_pairs, switchNodes_pairs ran], ?_⟩
    intro n member reported a listed
    obtain ⟨i, here⟩ := List.getElem?_of_mem member
    have busy : n.jobs ≠ [] := List.ne_nil_of_mem listed
    obtain ⟨low, place⟩ := moves (n, i) (List.mk_mem_zipIdx_iff_getElem?.mpr here) busy reported
    constructor
    · obtain ⟨m, later, name, jobs⟩ := switchNodes_moved ran here ⟨busy, low⟩ place
      exact ⟨m.refreshed, List.mem_map_of_mem later, name, jobs ▸ listed⟩
    · intro m later again
      obtain ⟨o, before, refreshed⟩ := List.mem_map.mp later
      subst m
      obtain ⟨k, old, found, -, origin, name⟩ := switchNodes_mem ran before again
      have equal := placed.same_place found here origin listed
      rw [equal, place] at name
      exact (Option.some.inj name).symm

/-- What is there after the last loop decides. -/
theorem updated_consistent (pools : List (List Bytes)) (old : List BjsNode) (ns : List Report)
    (mid : Cluster) (changed : Bool) :
    (∃ next change, (List.range mid.nodes.length).foldl (updateNode pools) (mid, changed) = (next, change) ∧
      Consistent old ns next.nodes) ↔ Consistent old ns (mid.nodes.map BjsNode.refreshed) := by
  have nodes := updateNodes_nodes pools (mid, changed)
  dsimp only at nodes
  rw [← nodes]
  constructor
  · rintro ⟨next, change, same, consistent⟩
    rw [same]
    exact consistent
  · intro consistent
    exact ⟨_, _, rfl, consistent⟩

/-- The update keeps the names, statuses and allocations as they should be exactly when the new
node set is safe: membership is compared without the last name, statuses are only read when the
membership changes, and jobs are moved by place, after a comparison with an address. -/
theorem update_consistent_iff (pools : List (List Bytes)) (malloc : Nat → Nat) (cluster : Cluster)
    (ns : List Report) (placed : WellPlaced cluster.nodes) :
    (∃ next change, updateClusterStatus pools malloc cluster ns = some (next, change) ∧
      Consistent cluster.nodes ns next.nodes) ↔ UpdateSafe cluster.nodes ns := by
  unfold updateClusterStatus UpdateSafe
  cases membershipChanged cluster.nodes ns with
  | false =>
      rw [← consistent_unchanged placed]
      simp only [Bool.false_eq_true, if_false, Option.map_some, Option.some.injEq]
      exact updated_consistent pools cluster.nodes ns cluster false
  | true =>
      simp only [if_true]
      cases ran : switchNodes malloc cluster ns with
      | none =>
          obtain ⟨p, member, moves, beyond⟩ := (switchNodes_none_iff malloc ns placed).mp ran
          refine iff_of_false (by simp) fun safe => ?_
          have here := safe p member moves.1
          rw [if_pos moves.2] at here
          omega
      | some mid =>
          have defined : ∀ p ∈ cluster.nodes.zipIdx, p.1.transferred ns.length → p.2 < ns.length := by
            intro p member moves
            by_contra beyond
            have stuck := (switchNodes_none_iff malloc ns placed).mpr ⟨p, member, moves, by omega⟩
            rw [ran] at stuck
            contradiction
          simp only [Option.map_some, Option.some.injEq]
          rw [updated_consistent, consistent_switched placed ran]
          refine forall_congr' fun p => forall_congr' fun member => forall_congr' fun busy => ?_
          split
          · rename_i low
            exact ⟨fun moves => ⟨defined p member ⟨busy, low⟩, fun reported => (moves reported).2⟩,
              fun safe reported => ⟨low, safe.2 reported⟩⟩
          · rename_i high
            exact ⟨fun moves reported => high (moves reported).1, fun gone reported => absurd reported gone⟩

/-- The update leaves every allocation with the number of the node it is on. -/
theorem updateClusterStatus_wellPlaced (placed : WellPlaced cluster.nodes)
    (ran : updateClusterStatus pools malloc cluster ns = some (next, change)) : WellPlaced next.nodes := by
  have kept : ∀ mid : Cluster, WellPlaced mid.nodes → WellPlaced (mid.nodes.map BjsNode.refreshed) := by
    intro mid placed p member a listed
    rw [List.zipIdx_map] at member
    obtain ⟨q, before, same⟩ := List.mem_map.mp member
    subst p
    exact placed q before a listed
  obtain ⟨mid, switched, refreshed⟩ := Option.map_eq_some_iff.mp ran
  have nodes := updateNodes_nodes pools (mid, membershipChanged cluster.nodes ns)
  dsimp only at nodes
  rw [refreshed] at nodes
  rw [nodes]
  refine kept mid ?_
  split at switched
  · intro p member a listed
    have here := List.mk_mem_zipIdx_iff_getElem?.mp member
    rw [switchNodes_get switched] at here
    obtain ⟨r, -, same⟩ := Option.map_eq_some_iff.mp here
    cases old : cluster.nodes[p.2]? with
    | none =>
        rw [old, BjsNode.receive] at same
        simp [← same] at listed
    | some n =>
        rw [old, BjsNode.receive] at same
        split at same
        · rw [← same] at listed
          exact placed (n, p.2) (List.mk_mem_zipIdx_iff_getElem?.mpr old) a listed
        · simp [← same] at listed
  · exact Option.some.inj switched ▸ placed

end Update

-- a node that the monitor first reports down, and one with a job

def downNode : BjsNode := { node := ⟨4096, [110, 49], [100, 111, 119, 110]⟩ }

def busyNode : BjsNode := { node := ⟨4128, [110, 48], statusUp⟩, up := true, jobs := [⟨8192, 1, 0⟩] }

theorem update_consistent_iff_replaced :
    ∃ next change, updateClusterStatus [[[110, 49]]] (fun i => 8192 + i) ⟨[busyNode, downNode], []⟩
        [⟨[110, 49], statusUp⟩, ⟨[110, 50], statusUp⟩] = some (next, change) ∧
      Consistent [busyNode, downNode] [⟨[110, 49], statusUp⟩, ⟨[110, 50], statusUp⟩] next.nodes :=
  (update_consistent_iff _ _ ⟨[busyNode, downNode], []⟩ _ (by unfold WellPlaced; decide)).mpr
    (by unfold UpdateSafe; decide)

/-- The node comes up and nothing sees it. -/
theorem upAgain_unseen :
    ¬ ∃ next change, updateClusterStatus [[[110, 49]]] (fun i => 8192 + i) ⟨[downNode], []⟩
        [⟨[110, 49], statusUp⟩] = some (next, change) ∧
      Consistent [downNode] [⟨[110, 49], statusUp⟩] next.nodes := by
  rintro ⟨next, change, ran, consistent⟩
  have stays : updateClusterStatus [[[110, 49]]] (fun i => 8192 + i) ⟨[downNode], []⟩
      [⟨[110, 49], statusUp⟩] = some (⟨[downNode], []⟩, false) := by decide
  rw [stays] at ran
  obtain ⟨rfl, -⟩ := Prod.mk.inj (Option.some.inj ran)
  have same := List.perm_singleton.mp consistent.reported
  revert same
  decide

end Xcpu.Bjs
