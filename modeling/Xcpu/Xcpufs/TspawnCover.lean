import Mathlib.Tactic.Ring
import Mathlib.Tactic.Linarith
import Xcpu.Xcpufs.Tspawn

/-!
The cut of `tspawn` covers its node list once and in order, and a child reads back from
its `clone` command exactly the nodes that `node_setup` wrote. By induction over the
recursion the tree then holds every node of the original list at one place.
-/

namespace Xcpu.Xcpufs

open Xcpu.Libstrutil

theorem roundUp_bounds (total width : Nat) (positive : 0 < width) :
    total ≤ (total / width + (if total % width ≠ 0 then 1 else 0)) * width ∧
      (total / width + (if total % width ≠ 0 then 1 else 0)) * width < total + width := by
  have split := Nat.div_add_mod total width
  have small := Nat.mod_lt total positive
  rw [Nat.mul_comm] at split
  by_cases exact : total % width = 0
  · simp only [exact, ne_eq, not_true_eq_false, if_false, Nat.add_zero]
    omega
  · simp only [exact, ne_eq, not_false_eq_true, if_true, Nat.add_mul, Nat.one_mul]
    omega

theorem roundUp_unique {total width first second : Nat}
    (firstCovers : total ≤ first * width) (firstTight : first * width < total + width)
    (secondCovers : total ≤ second * width) (secondTight : second * width < total + width) :
    first = second := by
  have below : first * width < (second + 1) * width := by
    rw [Nat.add_mul, Nat.one_mul]
    omega
  have above : second * width < (first + 1) * width := by
    rw [Nat.add_mul, Nat.one_mul]
    omega
  have firstLe := Nat.lt_of_mul_lt_mul_right below
  have secondLe := Nat.lt_of_mul_lt_mul_right above
  omega

/-- `groups` of the `children` direct children have clones; together they take the first
`groupEnd` entries, and every other child takes one of the entries left. -/
structure CutPlan (ns children width stop groups : Nat) : Prop where
  positive : 0 < width
  stopLe : stop ≤ ns
  covers : stop ≤ groups * width
  tight : groups * width < stop + width
  total : groups + (ns - stop) = children

theorem cutPlan_of_groupSizes {maxsessions : Int} {ns : Nat} (sessions : 0 < maxsessions)
    (nonempty : 0 < ns) :
    let sizes := groupSizes maxsessions ns
    ∃ groups, CutPlan ns sizes.1 sizes.2 (groupEnd ns sizes.1 sizes.2) groups := by
  simp only [groupSizes, gt_iff_lt, sessions, if_true]
  generalize children_def : min maxsessions.toNat ns = children
  have childrenPositive : 0 < children := by omega
  have childrenLe : children ≤ ns := by omega
  obtain ⟨widthCovers, widthTight⟩ := roundUp_bounds ns children childrenPositive
  generalize ns / children + (if ns % children ≠ 0 then 1 else 0) = width at widthCovers widthTight
  have widthPositive : 0 < width := by
    rcases Nat.eq_zero_or_pos width with rfl | positive
    · omega
    · exact positive
  by_cases single : width = 1
  · subst single
    refine ⟨0, ⟨by omega, ?_, ?_, ?_, ?_⟩⟩ <;> simp [groupEnd] <;> omega
  · obtain ⟨extra, rfl⟩ : ∃ extra, width = extra + 1 := ⟨width - 1, by omega⟩
    have extraPositive : 0 < extra := by omega
    obtain ⟨groupsCover, groupsTight⟩ := roundUp_bounds (ns - children) extra extraPositive
    simp only [groupEnd, gt_iff_lt, show 1 < extra + 1 by omega, if_true, Nat.add_sub_cancel]
    generalize (ns - children) / extra + (if (ns - children) % extra ≠ 0 then 1 else 0) = groups
      at groupsCover groupsTight
    have groupsLe : groups ≤ children := by
      have bound : groups * extra < (children + 1) * extra := by
        have spread : (extra + 1) * children = children * extra + children := by ring
        rw [Nat.add_mul, Nat.one_mul]
        omega
      exact Nat.lt_succ_iff.mp (Nat.lt_of_mul_lt_mul_right bound)
    have spread : groups * (extra + 1) = groups * extra + groups := by ring
    refine ⟨groups, ⟨by omega, by omega, by omega, by omega, by omega⟩⟩

section Loops

variable {netmount : CStr → Bool} {maxsessions : Int} {nnodes : Nat} {nds : List CStr}

/-- What `node_create` and `node_setup` made of one entry. -/
structure Setup.Made (maxsessions : Int) (setup : Setup) : Prop where
  command : setup.command = nodeSetup maxsessions setup.clones

theorem spawnNode_some {i idx : Nat} {clones : List CStr} {setup : Setup}
    (ran : spawnNode netmount maxsessions nnodes nds i idx clones = some setup) :
    idx < nnodes ∧ nds[i]? = some setup.entry ∧ setup.clones = clones ∧ setup.Made maxsessions := by
  unfold spawnNode at ran
  split at ran
  · rename_i room
    simp only [Option.bind_eq_bind, Option.bind_eq_some_iff] at ran
    obtain ⟨entry, found, node, created, made⟩ := ran
    obtain rfl := Option.some.inj made
    exact ⟨room, found, rfl, ⟨rfl⟩⟩
  · cases ran

theorem slice?_some {first last : Nat} {clones : List CStr}
    (taken : slice? nds first last = some clones) :
    last ≤ nds.length ∧ clones = (nds.drop first).take (last - first) := by
  unfold slice? at taken
  split at taken
  · rename_i inside
    exact ⟨inside, (Option.some.inj taken).symm⟩
  · cases taken

/-- One round of the loop takes the entries `i` to `e - 1`: the head and its clones. -/
theorem group_covers {i e : Nat} {entry : CStr} (first : nds[i]? = some entry) (later : i < e) :
    entry :: (nds.drop (i + 1)).take (e - (i + 1)) = (nds.drop i).take (e - i) := by
  obtain ⟨inside, value⟩ := List.getElem?_eq_some_iff.mp first
  rw [List.drop_eq_getElem_cons inside, value, show e - i = e - (i + 1) + 1 by omega,
    List.take_succ_cons]

theorem groupLoop_some {m ce fuel i idx j idx' : Nat} {setups : List Setup} (positive : 0 < m)
    (inside : i ≤ ce)
    (ran : groupLoop netmount maxsessions nnodes nds m ce fuel i idx = some (setups, j, idx')) :
    j = ce ∧ idx' = idx + setups.length ∧
      setups.flatMap Setup.covers = (nds.drop i).take (ce - i) ∧
      (∀ setup ∈ setups, setup.Made maxsessions) ∧
      ce - i ≤ setups.length * m ∧ setups.length * m < ce - i + m := by
  induction fuel generalizing i idx setups with
  | zero => cases ran
  | succ fuel ih =>
      simp only [groupLoop] at ran
      split at ran
      · rename_i more
        simp only [Option.bind_eq_bind, Option.bind_eq_some_iff, Prod.exists] at ran
        obtain ⟨clones, taken, setup, spawned, rest, j', idx'', looped, result⟩ := ran
        simp only [Option.some.injEq, Prod.mk.injEq] at result
        obtain ⟨rfl, rfl, rfl⟩ := result
        obtain ⟨_, clonesEq⟩ := slice?_some taken
        obtain ⟨_, entry, cloned, made⟩ := spawnNode_some spawned
        obtain ⟨stopped, counted, covered, allMade, enough, tight⟩ :=
          ih (by omega : min (i + m) ce ≤ ce) looped
        have head : setup.covers = (nds.drop i).take (min (i + m) ce - i) := by
          rw [Setup.covers, cloned, clonesEq]
          exact group_covers entry (by omega)
        refine ⟨stopped, by rw [counted, List.length_cons]; omega, ?_, ?_, ?_, ?_⟩
        · rw [List.flatMap_cons, covered, head]
          have later : nds.drop (min (i + m) ce) = (nds.drop i).drop (min (i + m) ce - i) := by
            rw [List.drop_drop]
            congr 1
            omega
          rw [later, ← List.take_add]
          congr 1
          omega
        · intro one member
          rcases List.mem_cons.mp member with rfl | old
          · exact made
          · exact allMade one old
        · rw [List.length_cons, Nat.add_mul, Nat.one_mul]
          omega
        · rw [List.length_cons, Nat.add_mul, Nat.one_mul]
          by_cases last : ce ≤ i + m
          · have stop : min (i + m) ce = ce := by omega
            rw [stop, Nat.sub_self, Nat.zero_add] at tight
            have none : rest.length = 0 := by
              by_contra some
              have := Nat.le_mul_of_pos_left m (Nat.pos_of_ne_zero some)
              omega
            rw [none]
            omega
          · omega
      · rename_i done
        simp only [Option.some.injEq, Prod.mk.injEq] at ran
        obtain ⟨rfl, rfl, rfl⟩ := ran
        have stop : ce - i = 0 := by omega
        refine ⟨by omega, by simp, by simp [stop], by simp, by omega, by simp; omega⟩

theorem tailLoop_some {fuel i idx : Nat} {setups : List Setup} (inside : i ≤ nds.length)
    (ran : tailLoop netmount maxsessions nnodes nds fuel i idx = some setups) :
    setups.flatMap Setup.covers = nds.drop i ∧ setups.length = nds.length - i ∧
      ∀ setup ∈ setups, setup.Made maxsessions := by
  induction fuel generalizing i idx setups with
  | zero => cases ran
  | succ fuel ih =>
      simp only [tailLoop] at ran
      split at ran
      · rename_i more
        simp only [Option.bind_eq_bind, Option.bind_eq_some_iff] at ran
        obtain ⟨setup, spawned, rest, looped, result⟩ := ran
        obtain rfl := Option.some.inj result
        obtain ⟨_, entry, cloned, made⟩ := spawnNode_some spawned
        obtain ⟨covered, counted, allMade⟩ := ih (by omega) looped
        obtain ⟨_, value⟩ := List.getElem?_eq_some_iff.mp entry
        refine ⟨?_, ?_, ?_⟩
        · rw [List.flatMap_cons, covered, Setup.covers, cloned, List.drop_eq_getElem_cons more, value]
          rfl
        · rw [List.length_cons, counted]
          omega
        · intro one member
          rcases List.mem_cons.mp member with rfl | old
          · exact made
          · exact allMade one old
      · rename_i done
        obtain rfl := Option.some.inj ran
        have stop : i = nds.length := by omega
        simp [stop]

variable (maxsessions nnodes)

theorem spawnNode_runs (i idx : Nat) (clones : List CStr)
    (created : ∀ entry ∈ nds, (nodeCreate netmount entry).isSome) (room : idx < nnodes)
    (inside : i < nds.length) :
    ∃ setup, spawnNode netmount maxsessions nnodes nds i idx clones = some setup := by
  obtain ⟨node, made⟩ := Option.isSome_iff_exists.mp (created nds[i] (by simp))
  exact ⟨⟨nds[i], node, clones, nodeSetup maxsessions clones⟩, by simp [spawnNode, room, inside, made]⟩

/-- With room for the groups in `ts->nodes` no index of the loop leaves its array. -/
theorem groupLoop_runs {m ce : Nat} (fuel i idx : Nat) (positive : 0 < m) (stop : ce ≤ nds.length)
    (created : ∀ entry ∈ nds, (nodeCreate netmount entry).isSome)
    (room : ce - i ≤ (nnodes - idx) * m) (enough : ce - i < fuel) :
    ∃ result, groupLoop netmount maxsessions nnodes nds m ce fuel i idx = some result := by
  induction fuel generalizing i idx with
  | zero => omega
  | succ fuel ih =>
      simp only [groupLoop]
      split
      · rename_i more
        have slots : idx < nnodes := by
          by_contra full
          have none : nnodes - idx = 0 := by omega
          rw [none, Nat.zero_mul] at room
          omega
        have shrink : (nnodes - idx) * m = (nnodes - (idx + 1)) * m + m := by
          rw [show nnodes - idx = nnodes - (idx + 1) + 1 by omega, Nat.add_mul, Nat.one_mul]
        obtain ⟨setup, spawned⟩ := spawnNode_runs maxsessions nnodes i idx
          ((nds.drop (i + 1)).take (min (i + m) ce - (i + 1))) created slots (by omega)
        obtain ⟨⟨setups, last⟩, looped⟩ := ih (min (i + m) ce) (idx + 1) (by omega) (by omega)
        exact ⟨(setup :: setups, last), by
          simp [slice?, show min (i + m) ce ≤ nds.length by omega, spawned, looped]⟩
      · exact ⟨_, rfl⟩

theorem tailLoop_runs (fuel i idx : Nat)
    (created : ∀ entry ∈ nds, (nodeCreate netmount entry).isSome)
    (room : nds.length - i ≤ nnodes - idx) (enough : nds.length - i < fuel) :
    ∃ setups, tailLoop netmount maxsessions nnodes nds fuel i idx = some setups := by
  induction fuel generalizing i idx with
  | zero => omega
  | succ fuel ih =>
      simp only [tailLoop]
      split
      · rename_i more
        obtain ⟨setup, spawned⟩ := spawnNode_runs maxsessions nnodes i idx [] created
          (by omega) more
        obtain ⟨setups, looped⟩ := ih (i + 1) (idx + 1) (by omega) (by omega)
        exact ⟨setup :: setups, by simp [spawned, looped]⟩
      · exact ⟨_, rfl⟩

end Loops

section Levels

variable {netmount : CStr → Bool} {maxsessions : Int} {dest : CStr} {nds : List CStr}

theorem getnodes_ne_nil (listed : getnodes dest = some nds) : nds ≠ [] := by
  simp only [getnodes] at listed
  split at listed
  · cases listed
  · obtain rfl := Option.some.inj listed
    exact List.splitOn_ne_nil _ _

theorem tspawn_covers {setups : List Setup} (sessions : 0 < maxsessions)
    (listed : getnodes dest = some nds) (ran : tspawn netmount maxsessions dest = some setups) :
    setups.flatMap Setup.covers = nds ∧ setups.length = min maxsessions.toNat nds.length ∧
      ∀ setup ∈ setups, setup.Made maxsessions := by
  have nonempty : 0 < nds.length := List.length_pos_iff.mpr (getnodes_ne_nil listed)
  obtain ⟨groups, plan⟩ := cutPlan_of_groupSizes sessions nonempty
  simp only [tspawn, listed, Option.bind_eq_bind, Option.bind_some] at ran
  have children : (groupSizes maxsessions nds.length).1 = min maxsessions.toNat nds.length := by
    simp [groupSizes, sessions]
  generalize groupSizes maxsessions nds.length = sizes at plan ran children
  obtain ⟨n, m⟩ := sizes
  simp only [Option.bind_eq_some_iff, Prod.exists] at ran
  obtain ⟨grouped, i, idx, looped, singles, tailed, result⟩ := ran
  obtain rfl := Option.some.inj result
  obtain ⟨rfl, counted, covered, groupsMade, enough, tight⟩ :=
    groupLoop_some plan.positive (Nat.zero_le _) looped
  obtain ⟨tailCovered, tailCounted, tailMade⟩ := tailLoop_some plan.stopLe tailed
  refine ⟨?_, ?_, ?_⟩
  · rw [List.flatMap_append, covered, tailCovered, List.drop_zero, Nat.sub_zero,
      List.take_append_drop]
  · have exact : grouped.length = groups := by
      rw [Nat.sub_zero] at enough tight
      exact roundUp_unique enough tight plan.covers plan.tight
    rw [List.length_append, tailCounted, exact, plan.total]
    exact children
  · intro setup member
    rcases List.mem_append.mp member with old | new
    · exact groupsMade setup old
    · exact tailMade setup new

theorem tspawn_runs (sessions : 0 < maxsessions) (listed : getnodes dest = some nds)
    (created : ∀ entry ∈ nds, (nodeCreate netmount entry).isSome) :
    ∃ setups, tspawn netmount maxsessions dest = some setups := by
  have nonempty : 0 < nds.length := List.length_pos_iff.mpr (getnodes_ne_nil listed)
  obtain ⟨groups, plan⟩ := cutPlan_of_groupSizes sessions nonempty
  simp only [tspawn, listed, Option.bind_eq_bind, Option.bind_some]
  generalize groupSizes maxsessions nds.length = sizes at plan
  obtain ⟨n, m⟩ := sizes
  have stopLe := plan.stopLe
  have total := plan.total
  dsimp only at stopLe total ⊢
  have room : groupEnd nds.length n m - 0 ≤ (n - 0) * m := by
    have wide : groups * m ≤ n * m := Nat.mul_le_mul_right m (by omega)
    have covers := plan.covers
    simp only [Nat.sub_zero] at covers wide ⊢
    omega
  obtain ⟨⟨grouped, i, idx⟩, looped⟩ := groupLoop_runs maxsessions n (nds.length + 1) 0 0
    plan.positive stopLe created room (by omega)
  obtain ⟨rfl, counted, _, _, enough, tight⟩ :=
    groupLoop_some plan.positive (Nat.zero_le _) looped
  have exact : grouped.length = groups := by
    rw [Nat.sub_zero] at enough tight
    exact roundUp_unique enough tight plan.covers plan.tight
  obtain ⟨singles, tailed⟩ := tailLoop_runs maxsessions n (nds.length + 1)
    (groupEnd nds.length n m) idx created (by omega) (by omega)
  exact ⟨grouped ++ singles, by simp [looped, tailed]⟩

end Levels

/-- An entry `address/session/passkey` without commas, blanks or quotes. -/
structure ValidNode (entry : CStr) : Prop where
  form : ∃ addr sid passkey, entry = addr ++ '/' :: (sid ++ '/' :: passkey)
  plain : Plain entry
  uncut : ',' ∉ entry

theorem nodeCreate_valid {netmount : CStr → Bool} (mounts : ∀ addr, netmount addr = true)
    {entry : CStr} (valid : ValidNode entry) : (nodeCreate netmount entry).isSome := by
  obtain ⟨addr, sid, passkey, rfl⟩ := valid.form
  simp [nodeCreate, cutAt, mounts]

theorem intercalate_ends {nodes : List CStr} (nonempty : nodes ≠ [])
    (valid : ∀ node ∈ nodes, ValidNode node) :
    ∃ front last, [','].intercalate nodes = front ++ [last] ∧ last ≠ ',' := by
  induction nodes with
  | nil => exact absurd rfl nonempty
  | cons node more ih =>
      rcases List.eq_nil_or_concat more with rfl | ⟨_, _, rfl⟩
      · have first := valid node (by simp)
        refine ⟨node.dropLast, node.getLast first.plain.nonempty, ?_, ?_⟩
        · simp [List.intercalate_singleton, List.dropLast_append_getLast]
        · rintro same
          exact first.uncut (same ▸ List.getLast_mem _)
      · obtain ⟨front, last, shape, other⟩ := ih (by simp)
          (fun entry member => valid entry (List.mem_cons_of_mem _ member))
        refine ⟨node ++ ',' :: front, last, ?_, other⟩
        rw [List.intercalate_cons_of_ne_nil (by simp), shape]
        simp

theorem getnodes_intercalate {nodes : List CStr} (nonempty : nodes ≠ [])
    (valid : ∀ node ∈ nodes, ValidNode node) (commas : Nat) :
    getnodes ([','].intercalate nodes ++ List.replicate commas ',') = some nodes := by
  obtain ⟨front, last, shape, other⟩ := intercalate_ends nonempty valid
  have trimmed : ([','].intercalate nodes ++ List.replicate commas ',').rdropWhile (· == ',') =
      [','].intercalate nodes := by
    rw [shape]
    induction commas with
    | zero => simp [other]
    | succ commas ih =>
        rw [List.replicate_succ', ← List.append_assoc, List.rdropWhile_concat_pos _ _ _ (by simp)]
        exact ih
  have split := List.splitOn_intercalate ',' (fun node member => (valid node member).uncut) nonempty
  simp only [getnodes]
  rw [trimmed, split, if_neg]
  simp [shape]

theorem clones_flatMap {clones : List CStr} (nonempty : clones ≠ []) :
    clones.flatMap (· ++ [',']) = [','].intercalate clones ++ List.replicate 1 ',' := by
  induction clones with
  | nil => exact absurd rfl nonempty
  | cons clone more ih =>
      cases more with
      | nil => simp
      | cons next more =>
          rw [List.flatMap_cons, ih (by simp), List.intercalate_cons_of_ne_nil (List.cons_ne_nil _ _)]
          simp only [List.append_assoc]

theorem clones_plain {clones : List CStr} (nonempty : clones ≠ [])
    (valid : ∀ node ∈ clones, ValidNode node) : Plain (clones.flatMap (· ++ [','])) := by
  refine ⟨?_, ?_, ?_⟩
  · cases clones with
    | nil => exact absurd rfl nonempty
    | cons clone more => simp
  · intro c member
    obtain ⟨clone, inside, letter⟩ := List.mem_flatMap.mp member
    rcases List.mem_append.mp letter with old | comma
    · exact (valid clone inside).plain.unblank c old
    · rw [List.mem_singleton.mp comma]
      decide
  · intro member
    obtain ⟨clone, inside, letter⟩ := List.mem_flatMap.mp member
    rcases List.mem_append.mp letter with old | comma
    · exact (valid clone inside).plain.unquoted old
    · exact absurd (List.mem_singleton.mp comma) (by decide)

theorem cloneArguments_cloneCommand {maxsessions : Int} {clones : List CStr}
    (sessions : 0 ≤ maxsessions) (small : maxsessions < 2 ^ 31) (nonempty : clones ≠ [])
    (valid : ∀ node ∈ clones, ValidNode node) :
    cloneArguments ((cloneCommand maxsessions clones).takeWhile (· != '\n')) =
      some (maxsessions, clones.flatMap (· ++ [','])) := by
  have verbPlain : Plain "clone".toList := ⟨by decide, by simp [isBlank], by decide⟩
  have countPlain : Plain (formatInt maxsessions) := formatInt_plain sessions
  have listPlain := clones_plain nonempty valid
  have plain : ∀ word ∈ ["clone".toList, formatInt maxsessions, clones.flatMap (· ++ [','])],
      Plain word := by
    intro word member
    simp only [List.mem_cons, List.not_mem_nil, or_false] at member
    rcases member with rfl | rfl | rfl
    · exact verbPlain
    · exact countPlain
    · exact listPlain
  have line : (cloneCommand maxsessions clones).takeWhile (· != '\n') =
      joinWords ["clone".toList, formatInt maxsessions, clones.flatMap (· ++ [','])] := by
    have whole : cloneCommand maxsessions clones =
        joinWords ["clone".toList, formatInt maxsessions, clones.flatMap (· ++ [','])] ++ ['\n'] := by
      have verb : "clone ".toList = "clone".toList ++ [' '] := by decide
      delta cloneCommand
      simp only [joinWords, verb, List.append_assoc, List.cons_append, List.nil_append]
    have kept : ∀ c ∈ joinWords ["clone".toList, formatInt maxsessions, clones.flatMap (· ++ [','])],
        (c != '\n') = true := by
      intro c member
      have other : ∀ word, Plain word → c ∈ word → (c != '\n') = true := by
        intro word fine inside
        have unblank := fine.unblank c inside
        simp only [isBlank, Bool.or_eq_false_iff] at unblank
        simp [bne, unblank.2]
      simp only [joinWords, List.mem_append, List.mem_cons] at member
      rcases member with inside | rfl | inside | rfl | inside
      · exact other _ verbPlain inside
      · decide
      · exact other _ countPlain inside
      · decide
      · exact other _ listPlain inside
    rw [whole, List.takeWhile_append_of_pos kept]
    exact List.append_nil _
  rw [line, cloneArguments, tokenize_joinWords plain (List.cons_ne_nil _ _)]
  simp only [strtol_formatInt sessions small, toInt_of_small sessions small, if_true]

section Tree

variable {netmount : CStr → Bool} {maxsessions : Int}

theorem mapM_covers (width : Nat) {grow : Setup → Option SpawnTree} {setups : List Setup}
    {trees : List SpawnTree} (grown : setups.mapM grow = some trees)
    (each : ∀ setup ∈ setups, ∀ tree, grow setup = some tree →
      tree.entries = setup.covers ∧ tree.Narrow width) :
    forestEntries trees = setups.flatMap Setup.covers ∧ trees.length = setups.length ∧
      ForestNarrow width trees := by
  induction setups generalizing trees with
  | nil =>
      simp only [List.mapM_nil, Option.pure_def, Option.some.injEq] at grown
      subst trees
      exact ⟨rfl, rfl, trivial⟩
  | cons setup more ih =>
      simp only [List.mapM_cons, Option.bind_eq_bind, Option.bind_eq_some_iff, Option.pure_def,
        Option.some.injEq] at grown
      obtain ⟨tree, first, rest, later, rfl⟩ := grown
      obtain ⟨covered, narrow⟩ := each setup (by simp) tree first
      obtain ⟨restCovered, restLength, restNarrow⟩ :=
        ih later fun one member => each one (List.mem_cons_of_mem _ member)
      refine ⟨?_, by simp [restLength], narrow, restNarrow⟩
      rw [forestEntries, covered, restCovered, List.flatMap_cons]

theorem mapM_runs {grow : Setup → Option SpawnTree} {setups : List Setup}
    (each : ∀ setup ∈ setups, ∃ tree, grow setup = some tree) :
    ∃ trees, setups.mapM grow = some trees := by
  induction setups with
  | nil => exact ⟨[], rfl⟩
  | cons setup more ih =>
      obtain ⟨tree, first⟩ := each setup (by simp)
      obtain ⟨trees, later⟩ := ih fun one member => each one (List.mem_cons_of_mem _ member)
      exact ⟨tree :: trees, by simp [List.mapM_cons, first, later]⟩

theorem group_command {setup : Setup} (made : setup.Made maxsessions) (sessions : 0 ≤ maxsessions)
    (small : maxsessions < 2 ^ 31) (valid : ∀ node ∈ setup.clones, ValidNode node) :
    (setup.clones = [] ∧ setup.command = none) ∨
      (setup.clones ≠ [] ∧ ∃ command list, setup.command = some command ∧
        cloneArguments (command.takeWhile (· != '\n')) = some (maxsessions, list) ∧
        getnodes list = some setup.clones) := by
  have command := made.command
  by_cases alone : setup.clones = []
  · exact .inl ⟨alone, by rw [command, nodeSetup, if_pos alone]⟩
  · refine .inr ⟨alone, _, _, by rw [command, nodeSetup, if_neg alone],
      cloneArguments_cloneCommand sessions small alone valid, ?_⟩
    rw [clones_flatMap alone]
    exact getnodes_intercalate alone valid 1

theorem spawnTree_some (sessions : 0 < maxsessions) (small : maxsessions < 2 ^ 31) {fuel : Nat}
    {dest : CStr} {nodes : List CStr} {trees : List SpawnTree}
    (listed : getnodes dest = some nodes) (valid : ∀ node ∈ nodes, ValidNode node)
    (ran : spawnTree netmount fuel maxsessions dest = some trees) :
    forestEntries trees = nodes ∧ trees.length ≤ maxsessions.toNat ∧
      ForestNarrow maxsessions.toNat trees := by
  induction fuel generalizing dest nodes trees with
  | zero => cases ran
  | succ fuel ih =>
      simp only [spawnTree, Option.bind_eq_bind, Option.bind_eq_some_iff] at ran
      obtain ⟨setups, spawned, grown⟩ := ran
      obtain ⟨covered, counted, made⟩ := tspawn_covers sessions listed spawned
      have inside : ∀ setup ∈ setups, ∀ node ∈ setup.covers, ValidNode node := by
        intro setup member node covers
        exact valid node (covered ▸ List.mem_flatMap.mpr ⟨setup, member, covers⟩)
      obtain ⟨entries, length, narrow⟩ := mapM_covers maxsessions.toNat grown (by
        intro setup member tree grew
        have clonesValid : ∀ node ∈ setup.clones, ValidNode node := fun node clone =>
          inside setup member node (List.mem_cons_of_mem _ clone)
        rcases group_command (made setup member) sessions.le small clonesValid with
          ⟨alone, silent⟩ | ⟨_, command, list, written, read, back⟩
        · simp only [silent, Option.bind_some, Option.some.injEq] at grew
          subst tree
          simp [SpawnTree.entries, forestEntries, Setup.covers, alone, SpawnTree.Narrow,
            ForestNarrow]
        · simp only [written, read, Option.bind_some, Option.bind_eq_some_iff,
            Option.some.injEq] at grew
          obtain ⟨children, level, rfl⟩ := grew
          obtain ⟨below, few, thin⟩ := ih back clonesValid level
          exact ⟨by rw [SpawnTree.entries, below, Setup.covers], few, thin⟩)
      exact ⟨by rw [entries, covered], by omega, narrow⟩

theorem spawnTree_runs (sessions : 0 < maxsessions) (small : maxsessions < 2 ^ 31)
    (mounts : ∀ addr, netmount addr = true) {fuel : Nat} {dest : CStr} {nodes : List CStr}
    (listed : getnodes dest = some nodes) (valid : ∀ node ∈ nodes, ValidNode node)
    (enough : nodes.length ≤ fuel) :
    ∃ trees, spawnTree netmount fuel maxsessions dest = some trees := by
  induction fuel generalizing dest nodes with
  | zero =>
      have nonempty := List.length_pos_iff.mpr (getnodes_ne_nil listed)
      omega
  | succ fuel ih =>
      obtain ⟨setups, spawned⟩ := tspawn_runs sessions listed fun entry member =>
        nodeCreate_valid mounts (valid entry member)
      obtain ⟨covered, _, made⟩ := tspawn_covers sessions listed spawned
      simp only [spawnTree, spawned, Option.bind_eq_bind, Option.bind_some]
      refine mapM_runs fun setup member => ?_
      have clonesValid : ∀ node ∈ setup.clones, ValidNode node := fun node clone =>
        valid node (covered ▸ List.mem_flatMap.mpr ⟨setup, member, List.mem_cons_of_mem _ clone⟩)
      have fewer : setup.clones.length < nodes.length := by
        have part : setup.covers.length ≤ (setups.flatMap Setup.covers).length :=
          (List.sublist_flatten_of_mem (List.mem_map_of_mem member)).length_le
        rw [covered, Setup.covers, List.length_cons] at part
        exact part
      rcases group_command (made setup member) sessions.le small clonesValid with
        ⟨_, silent⟩ | ⟨_, command, list, written, read, back⟩
      · exact ⟨.node setup.entry [], by simp [silent]⟩
      · obtain ⟨children, level⟩ := ih back clonesValid (by omega)
        exact ⟨.node setup.entry children, by simp [written, read, level]⟩

end Tree

/-- Whatever levels come up, the tree holds the nodes of the list, each once and in its
order, and no level is wider than `maxsessions`; when every address mounts, all levels
come up, so that no index of the cut left its array. -/
theorem spawnTree_covers (netmount : CStr → Bool) (maxsessions : Int) (dest : CStr)
    (nodes : List CStr) (sessions : 1 ≤ maxsessions) (small : maxsessions < 2 ^ 31)
    (listed : getnodes dest = some nodes) (valid : ∀ node ∈ nodes, ValidNode node) :
    (∀ fuel trees, spawnTree netmount fuel maxsessions dest = some trees →
      forestEntries trees = nodes ∧ trees.length ≤ maxsessions.toNat ∧
        ForestNarrow maxsessions.toNat trees) ∧
    ((∀ addr, netmount addr = true) →
      ∃ trees, spawnTree netmount nodes.length maxsessions dest = some trees) :=
  ⟨fun _ _ ran => spawnTree_some sessions small listed valid ran,
    fun mounts => spawnTree_runs sessions small mounts listed valid (Nat.le_refl _)⟩

/-- Three nodes and one session per level: a chain, since a lone child passes the rest on. -/
theorem spawnTree_covers_chain :
    ∃ trees, spawnTree (fun _ => true) 3 1 "a/1/p,b/2/q,c/3/r".toList = some trees ∧
      forestEntries trees = ["a/1/p".toList, "b/2/q".toList, "c/3/r".toList] := by
  have valid : ∀ node ∈ ["a/1/p".toList, "b/2/q".toList, "c/3/r".toList], ValidNode node := by
    intro node member
    simp only [List.mem_cons, List.not_mem_nil, or_false] at member
    rcases member with rfl | rfl | rfl
    · exact ⟨⟨['a'], ['1'], ['p'], by decide⟩, ⟨by decide, by simp [isBlank], by decide⟩, by decide⟩
    · exact ⟨⟨['b'], ['2'], ['q'], by decide⟩, ⟨by decide, by simp [isBlank], by decide⟩, by decide⟩
    · exact ⟨⟨['c'], ['3'], ['r'], by decide⟩, ⟨by decide, by simp [isBlank], by decide⟩, by decide⟩
  have covers := spawnTree_covers (fun _ => true) 1 "a/1/p,b/2/q,c/3/r".toList
    ["a/1/p".toList, "b/2/q".toList, "c/3/r".toList] (by decide) (by decide) (by decide) valid
  obtain ⟨trees, ran⟩ := covers.2 fun _ => rfl
  exact ⟨trees, ran, (covers.1 _ _ ran).1⟩

end Xcpu.Xcpufs
