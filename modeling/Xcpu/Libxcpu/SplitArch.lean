import Mathlib.Data.List.Sort
import Xcpu.Lib.Runs

/-!
Sessions by the architecture of their nodes. `xp_sessionset_split_by_arch` sorts the sessions, counts the runs
of one architecture, and cuts the sorted array into a set for each run. A result `none` stands for `strcmp` of a
null pointer, or a set written after the memory for the sets.
-/

namespace Xcpu.Libxcpu.SplitArch

open Xcpu.Runs

/-- What the split reads of a node: an `arch` that is not there is a null pointer. -/
structure Xpnode where
  name : List UInt8
  arch : Option (List UInt8)
  deriving DecidableEq

structure Xpsession where
  node : Xpnode
  sid : List UInt8
  jid : Option (List UInt8)
  deriving DecidableEq

def strcmp : List UInt8 → List UInt8 → Int
  | [], [] => 0
  | [], _ :: _ => -1
  | _ :: _, [] => 1
  | x :: xs, y :: ys => if x = y then strcmp xs ys else (x.toNat : Int) - y.toNat

/-- The elements of the array are pointers to sessions, and `qsort` gives their addresses: `s1->node` is the
session itself. As a node its third pointer, which would be `arch`, is `jid`. -/
def nodeArch (s : Xpsession) : Option (List UInt8) := s.jid

def xpSessionCmpArch (s1 s2 : Xpsession) : Int :=
  match nodeArch s1, nodeArch s2 with
  | some _, none => 1
  | none, some _ => -1
  | none, none => 0
  | some arch1, some arch2 => strcmp arch1 arch2

/-- What `qsort` may leave: elements that compare equal stand in any order. -/
structure Qsort (sessions sorted : List Xpsession) : Prop where
  perm : sorted.Perm sessions
  ordered : sorted.Pairwise fun s1 s2 => xpSessionCmpArch s1 s2 ≤ 0

/-- The condition of both passes, with the `arch` of the session before. -/
def newRun (arch : Option (List UInt8)) (s : Xpsession) : Option Bool :=
  match arch, s.node.arch with
  | none, _ => some true
  | some _, none => none
  | some arch, some nodeArch => some (strcmp nodeArch arch != 0)

/-- The first pass: how many sets there will be. -/
def countSets (arch : Option (List UInt8)) : List Xpsession → Option Nat
  | [] => some 0
  | s :: rest =>
      match newRun arch s with
      | none => none
      | some true => (countSets s.node.arch rest).map (· + 1)
      | some false => countSets arch rest

/-- A set with the sessions from `m` to `i`, where there are any. -/
def putSet (n : Nat) (ret : List (List Xpsession)) (run : List Xpsession) : Option (List (List Xpsession)) :=
  if run = [] then some ret
  else if ret.length < n then some (ret ++ [run])
  else none

/-- The second pass: `run` has the sessions from `m` on. -/
def cutSets (n : Nat) (arch : Option (List UInt8)) (run : List Xpsession) (ret : List (List Xpsession)) :
    List Xpsession → Option (List (List Xpsession))
  | [] => putSet n ret run
  | s :: rest =>
      match newRun arch s with
      | none => none
      | some true => (putSet n ret run).bind fun ret => cutSets n s.node.arch [s] ret rest
      | some false => cutSets n arch (run ++ [s]) ret rest

/-- The sets, and how many of them the memory has room for. -/
structure Split where
  allocated : Nat
  sets : List (List Xpsession)
  deriving DecidableEq

/-- The call with the array as `qsort` leaves it; `some none` where it returns -1. -/
def xpSessionsetSplitByArch (sessions sorted : List Xpsession) : Option (Option Split) :=
  if sessions = [] then some none
  else
    match countSets none sorted with
    | none => none
    | some n => (cutSets n none [] [] sorted).map fun sets => some { allocated := n, sets := sets }

def arch (s : Xpsession) : Option (List UInt8) := s.node.arch

/-- The sets are a partition of the sessions by architecture. -/
structure Split.Partition (split : Split) (sessions : List Xpsession) : Prop where
  nonempty : [] ∉ split.sets
  once : split.sets.flatten.Perm sessions
  uniform : ∀ set ∈ split.sets, Uniform arch set
  apart : split.sets.Pairwise (Apart arch)
  fits : split.sets.length ≤ split.allocated

theorem strcmp_eq_zero {s t : List UInt8} : strcmp s t = 0 ↔ s = t := by
  induction s generalizing t with
  | nil => cases t <;> simp [strcmp]
  | cons x xs ih =>
      cases t with
      | nil => simp [strcmp]
      | cons y ys =>
          rw [strcmp]
          by_cases same : x = y
          · simp [same, ih]
          · have : x.toNat ≠ y.toNat := fun h => same (UInt8.toNat_inj.mp h)
            simp only [same, ↓reduceIte, List.cons.injEq, false_and, iff_false]
            omega

theorem strcmp_trans {s t u : List UInt8} (first : strcmp s t ≤ 0) (second : strcmp t u ≤ 0) : strcmp s u ≤ 0 := by
  induction s generalizing t u with
  | nil => cases u <;> simp [strcmp]
  | cons x xs ih =>
      rcases t with _ | ⟨y, ys⟩
      · simp [strcmp] at first
      · rcases u with _ | ⟨z, zs⟩
        · simp [strcmp] at second
        · rw [strcmp] at first second ⊢
          by_cases xy : x = y
          · subst xy
            by_cases xz : x = z
            · simp only [xz, ↓reduceIte] at first second ⊢
              exact ih first second
            · simpa only [xz, ↓reduceIte] using second
          · simp only [xy, ↓reduceIte] at first
            have : x.toNat ≠ y.toNat := fun h => xy (UInt8.toNat_inj.mp h)
            by_cases yz : y = z
            · subst yz
              simpa only [xy, ↓reduceIte] using first
            · simp only [yz, ↓reduceIte] at second
              by_cases xz : x = z
              · subst xz
                omega
              · simp only [xz, ↓reduceIte]
                omega

theorem strcmp_total (s t : List UInt8) : strcmp s t ≤ 0 ∨ strcmp t s ≤ 0 := by
  induction s generalizing t with
  | nil => cases t <;> simp [strcmp]
  | cons x xs ih =>
      cases t with
      | nil => simp [strcmp]
      | cons y ys =>
          rw [strcmp, strcmp]
          by_cases same : x = y
          · simpa [same] using ih ys
          · simp only [same, ↓reduceIte, Ne.symm same]
            omega

theorem xpSessionCmpArch_trans {a b c : Xpsession} (first : xpSessionCmpArch a b ≤ 0)
    (second : xpSessionCmpArch b c ≤ 0) : xpSessionCmpArch a c ≤ 0 := by
  rw [xpSessionCmpArch] at first second ⊢
  cases ha : nodeArch a <;> cases hb : nodeArch b <;> cases hc : nodeArch c <;>
    simp only [ha, hb, hc] at first second ⊢ <;> first | omega | exact strcmp_trans first second

theorem xpSessionCmpArch_total (a b : Xpsession) : xpSessionCmpArch a b ≤ 0 ∨ xpSessionCmpArch b a ≤ 0 := by
  rw [xpSessionCmpArch, xpSessionCmpArch]
  cases ha : nodeArch a <;> cases hb : nodeArch b <;> simp only [] <;> first | omega | exact strcmp_total _ _

/-- Sessions in an order that the comparator allows may keep it. -/
theorem Qsort.exists_before {kept rest sessions : List Xpsession}
    (ordered : kept.Pairwise fun s1 s2 => xpSessionCmpArch s1 s2 ≤ 0) (perm : sessions.Perm (kept ++ rest)) :
    ∃ sorted, Qsort sessions sorted ∧ kept.Sublist sorted := by
  have trans : ∀ a b c : Xpsession, decide (xpSessionCmpArch a b ≤ 0) = true →
      decide (xpSessionCmpArch b c ≤ 0) = true → decide (xpSessionCmpArch a c ≤ 0) = true := by
    intro a b c ab bc
    simp only [decide_eq_true_eq] at ab bc ⊢
    exact xpSessionCmpArch_trans ab bc
  have total : ∀ a b : Xpsession,
      (decide (xpSessionCmpArch a b ≤ 0) || decide (xpSessionCmpArch b a ≤ 0)) = true := by
    intro a b
    simpa using xpSessionCmpArch_total a b
  refine ⟨(kept ++ rest).mergeSort fun s1 s2 => decide (xpSessionCmpArch s1 s2 ≤ 0), ⟨?_, ?_⟩, ?_⟩
  · exact (List.mergeSort_perm _ _).trans perm.symm
  · exact (List.pairwise_mergeSort trans total _).imp fun h => by simpa using h
  · exact List.sublist_mergeSort trans total (ordered.imp fun h => by simpa using h) (List.sublist_append_left _ _)

/-- Two neighbours belong to one run. -/
def same (a b : Xpsession) : Bool :=
  (arch a).isSome && arch a == arch b

theorem newRun_same {a s : Xpsession} (named : (arch s).isSome) : newRun (arch a) s = some (!same a s) := by
  obtain ⟨name, found⟩ := Option.isSome_iff_exists.mp named
  have nodeName : s.node.arch = some name := found
  cases ha : arch a with
  | none => simp [newRun, same, ha]
  | some before =>
      simp only [newRun, nodeName, same, ha, found, Option.isSome_some, Bool.true_and, Option.some.injEq]
      by_cases equal : name = before
      · simp [equal, strcmp_eq_zero]
      · have differ : strcmp name before ≠ 0 := fun h => equal (strcmp_eq_zero.mp h)
        have unequal : (some before == some name) = false := by simpa using Ne.symm equal
        have nonzero : (strcmp name before != 0) = true := by simpa using differ
        rw [unequal, nonzero]
        rfl

/-- Both passes find the runs where every later session has an architecture. -/
theorem passes_loop {l : List Xpsession} (named : ∀ s ∈ l, (arch s).isSome) (a : Xpsession) (g : List Xpsession)
    (gs : List (List Xpsession)) :
    ∃ k, countSets (arch a) l = some k ∧ (List.splitBy.loop same l a g gs).length = gs.length + 1 + k ∧
      ∀ n, gs.length + 1 + k ≤ n →
        cutSets n (arch a) (g.reverse ++ [a]) gs.reverse l = some (List.splitBy.loop same l a g gs) := by
  induction l generalizing a g gs with
  | nil =>
      refine ⟨0, rfl, by simp [List.splitBy.loop], ?_⟩
      intro n room
      have : gs.length < n := by omega
      simp [cutSets, putSet, List.splitBy.loop, this]
  | cons s rest ih =>
      have later : ∀ t ∈ rest, (arch t).isSome := fun t here => named t (List.mem_cons_of_mem s here)
      have found := newRun_same (a := a) (named s List.mem_cons_self)
      cases run : same a s with
      | true =>
          obtain ⟨k, counted, length, cut⟩ := ih later s (a :: g) gs
          have archs : arch a = arch s := by
            simp only [same, Bool.and_eq_true, beq_iff_eq] at run
            exact run.2
          rw [run] at found
          refine ⟨k, ?_, ?_, ?_⟩
          · rw [countSets, found]
            simpa [archs] using counted
          · simpa [List.splitBy.loop, run] using length
          · intro n room
            rw [cutSets, found]
            simpa [List.splitBy.loop, run, archs] using cut n room
      | false =>
          obtain ⟨k, counted, length, cut⟩ := ih later s [] ((a :: g).reverse :: gs)
          rw [run] at found
          refine ⟨k + 1, ?_, ?_, ?_⟩
          · rw [countSets, found]
            rw [arch] at counted
            simp [counted]
          · simp only [List.splitBy.loop, run, length, List.length_cons]
            omega
          · intro n room
            have fits : gs.length < n := by omega
            have := cut n (by simpa using by omega)
            rw [cutSets, found]
            rw [arch] at this
            simpa [putSet, fits, List.splitBy.loop, run] using this

/-- A second session without an architecture after one that has it makes `strcmp` read a null pointer. -/
theorem countSets_named {l : List Xpsession} {before : List UInt8} {k : Nat}
    (counted : countSets (some before) l = some k) : ∀ s ∈ l, (arch s).isSome := by
  induction l generalizing before k with
  | nil => simp
  | cons s rest ih =>
      rw [countSets] at counted
      cases named : s.node.arch with
      | none => simp [newRun, named] at counted
      | some name =>
          have here : (arch s).isSome := by simp [arch, named]
          refine List.forall_mem_cons.mpr ⟨here, ?_⟩
          cases differ : newRun (some before) s with
          | none => simp [differ] at counted
          | some run =>
              cases run with
              | false =>
                  simp only [differ] at counted
                  exact ih counted
              | true =>
                  simp only [differ, named, Option.map_eq_some_iff] at counted
                  obtain ⟨k, rest, -⟩ := counted
                  exact ih rest

theorem putSet_flatten {n : Nat} {run : List Xpsession} {ret after : List (List Xpsession)}
    (put : putSet n ret run = some after) : ∃ more, after = ret ++ more ∧ more.flatten = run := by
  rw [putSet] at put
  split at put
  · rename_i empty
    exact ⟨[], by simpa using (Option.some.inj put).symm, by simp [empty]⟩
  · split at put
    · exact ⟨[run], (Option.some.inj put).symm, by simp⟩
    · cases put

/-- The sets hold the sessions in the order of the array. -/
theorem cutSets_flatten {l run : List Xpsession} {n : Nat} {before : Option (List UInt8)}
    {ret sets : List (List Xpsession)} (cut : cutSets n before run ret l = some sets) :
    ∃ more, sets = ret ++ more ∧ more.flatten = run ++ l := by
  induction l generalizing before run ret with
  | nil =>
      obtain ⟨more, rfl, flat⟩ := putSet_flatten cut
      exact ⟨more, rfl, by simpa using flat⟩
  | cons s rest ih =>
      rw [cutSets] at cut
      split at cut
      · cases cut
      · obtain ⟨stored, put, cut⟩ := Option.bind_eq_some_iff.mp cut
        obtain ⟨first, rfl, firstFlat⟩ := putSet_flatten put
        obtain ⟨more, rfl, flat⟩ := ih cut
        exact ⟨first ++ more, by simp, by simp [firstFlat, flat]⟩
      · obtain ⟨more, rfl, flat⟩ := ih cut
        exact ⟨more, rfl, by simpa using flat⟩

/-- On this order the passes end, and the sets are runs of the architectures. -/
structure Orderly (sorted : List Xpsession) : Prop where
  named : ∀ s ∈ sorted.tail, (arch s).isSome
  together : Together arch sorted

theorem uniform_of_chain {set : List Xpsession} (chain : set.IsChain fun a b => same a b) : Uniform arch set := by
  have pairs : set.Pairwise fun a b => arch a = arch b := by
    have steps : set.IsChain fun a b => arch a = arch b := chain.imp fun a b run => by
      simp only [same, Bool.and_eq_true, beq_iff_eq] at run
      exact run.2
    exact List.isChain_iff_pairwise.mp steps
  cases set with
  | nil => simp [Uniform]
  | cons a rest =>
      have first : ∀ z ∈ a :: rest, arch z = arch a := by
        intro z here
        rcases List.mem_cons.mp here with rfl | later
        · rfl
        · exact ((List.pairwise_cons.mp pairs).1 z later).symm
      intro x hx y hy
      exact (first x hx).trans (first y hy).symm

/-- What the call returns on an orderly array: the runs, in memory that holds just as many. -/
theorem xpSessionsetSplitByArch_runs {sessions : List Xpsession} {s : Xpsession} {rest : List Xpsession}
    (nonempty : sessions ≠ []) (named : ∀ t ∈ rest, (arch t).isSome) :
    xpSessionsetSplitByArch sessions (s :: rest) =
      some (some ⟨((s :: rest).splitBy same).length, (s :: rest).splitBy same⟩) := by
  obtain ⟨k, counted, length, cut⟩ := passes_loop named s [] []
  have first : ∀ t, newRun none t = some true := fun t => by simp [newRun]
  have cutAll := cut (k + 1) (by simp; omega)
  rw [arch] at counted cutAll
  have total : k + 1 = ((s :: rest).splitBy same).length := by
    rw [List.splitBy, length, List.length_nil]
    omega
  rw [xpSessionsetSplitByArch, if_neg nonempty, countSets, first]
  simp only [counted, Option.map_some]
  rw [cutSets, first]
  simp only [putSet, ↓reduceIte, Option.bind_some]
  simp only [List.reverse_nil, List.nil_append] at cutAll
  rw [cutAll, total]
  rfl

/-- A session that starts a later run has another architecture than the one before it. -/
theorem runs_differ {sorted : List Xpsession} (orderly : Orderly sorted) :
    (sorted.splitBy same).IsChain fun p q => ∃ hp hq, arch (p.getLast hp) ≠ arch (q.head hq) := by
  have edges := List.isChain_getLast_head_splitBy same sorted
  have flat := List.flatten_splitBy same sorted
  have nonempty := List.nil_notMem_splitBy same sorted
  refine edges.imp_of_mem_tail_imp fun p q here later edge => ?_
  obtain ⟨hp, hq, edge⟩ := edge
  refine ⟨hp, hq, fun archs => ?_⟩
  have named : (arch (q.head hq)).isSome := by
    apply orderly.named
    rcases pieces : sorted.splitBy same with _ | ⟨first, rest⟩
    · simp [pieces] at here
    · rw [pieces] at flat later nonempty
      obtain ⟨s, front, rfl⟩ : ∃ s front, first = s :: front := by
        cases first with
        | nil => simp at nonempty
        | cons s front => exact ⟨s, front, rfl⟩
      rw [← flat]
      have : q.head hq ∈ rest.flatten := List.mem_flatten.mpr ⟨q, later, List.head_mem hq⟩
      simp [this]
  rw [same, archs, named] at edge
  simp at edge

theorem partition_runs {sessions sorted : List Xpsession} (perm : sorted.Perm sessions) (orderly : Orderly sorted)
    (n : Nat) (room : (sorted.splitBy same).length ≤ n) :
    Split.Partition ⟨n, sorted.splitBy same⟩ sessions where
  nonempty := List.nil_notMem_splitBy _ _
  once := by simpa using perm
  uniform := fun set here => uniform_of_chain (List.isChain_of_mem_splitBy here)
  apart := by
    apply apart_of_together
    · intro set here
      exact uniform_of_chain (List.isChain_of_mem_splitBy here)
    · exact runs_differ orderly
    · simpa using orderly.together
  fits := room

/-- Two sessions without an architecture at the front are cut into two sets. -/
theorem cutSets_unnamed {s t : Xpsession} {rest : List Xpsession} {n : Nat} {sets : List (List Xpsession)}
    (unnamed : s.node.arch = none) (cut : cutSets n none [] [] (s :: t :: rest) = some sets) :
    ∃ more, sets = [s] :: more ∧ more.flatten = t :: rest := by
  have first : ∀ x, newRun none x = some true := fun x => by simp [newRun]
  rw [cutSets, first] at cut
  simp only [putSet, ↓reduceIte, Option.bind_some] at cut
  rw [cutSets, unnamed, first] at cut
  obtain ⟨stored, put, cut⟩ := Option.bind_eq_some_iff.mp cut
  have one : stored = [[s]] := by
    simp only [putSet, List.cons_ne_self, ↓reduceIte, List.length_nil, List.nil_append] at put
    split at put
    · exact (Option.some.inj put).symm
    · cases put
  subst one
  obtain ⟨more, rfl, flat⟩ := cutSets_flatten cut
  exact ⟨more, rfl, by simpa using flat⟩

/-- Sets that are a partition come from an orderly array only. -/
theorem orderly_of_partition {sessions sorted : List Xpsession} {split : Split}
    (returned : xpSessionsetSplitByArch sessions sorted = some (some split))
    (partition : split.Partition sessions) : Orderly sorted := by
  rw [xpSessionsetSplitByArch] at returned
  split at returned
  · simp at returned
  · split at returned
    · cases returned
    · rename_i n counted
      simp only [Option.map_eq_some_iff, Option.some.injEq] at returned
      obtain ⟨sets, cut, rfl⟩ := returned
      obtain ⟨more, rfl, flat⟩ := cutSets_flatten cut
      simp only [List.nil_append] at flat partition cut
      have together : Together arch sorted := by
        rw [← flat]
        exact together_of_apart arch partition.uniform partition.apart
      refine ⟨?_, together⟩
      rcases sorted with _ | ⟨s, rest⟩
      · simp
      have first : ∀ x, newRun none x = some true := fun x => by simp [newRun]
      rw [countSets, first] at counted
      simp only [Option.map_eq_some_iff] at counted
      obtain ⟨k, counted, rfl⟩ := counted
      cases named : s.node.arch with
      | some name =>
          rw [named] at counted
          exact countSets_named counted
      | none =>
          rcases rest with _ | ⟨t, rest⟩
          · simp
          rw [named, countSets, first] at counted
          simp only [Option.map_eq_some_iff] at counted
          obtain ⟨k, counted, -⟩ := counted
          cases tNamed : t.node.arch with
          | some name =>
              rw [tNamed] at counted
              have tHere : (arch t).isSome := by simp [arch, tNamed]
              exact List.forall_mem_cons.mpr ⟨tHere, countSets_named counted⟩
          | none =>
              obtain ⟨later, rfl, flatLater⟩ := cutSets_unnamed named cut
              have tIn : t ∈ later.flatten := by simp [flatLater]
              obtain ⟨set, here, tIn⟩ := List.mem_flatten.mp tIn
              have apart := (List.pairwise_cons.mp partition.apart).1 set here s (by simp) t tIn
              exact absurd (show arch s = arch t by simp [arch, named, tNamed]) apart

theorem partition_iff_orderly {sessions sorted : List Xpsession} (sort : Qsort sessions sorted) :
    (∃ split, xpSessionsetSplitByArch sessions sorted = some (some split) ∧ split.Partition sessions) ↔
      sessions ≠ [] ∧ Orderly sorted := by
  constructor
  · rintro ⟨split, returned, partition⟩
    refine ⟨fun empty => ?_, orderly_of_partition returned partition⟩
    simp [xpSessionsetSplitByArch, empty] at returned
  · rintro ⟨nonempty, orderly⟩
    rcases sorted with _ | ⟨s, rest⟩
    · exact absurd sort.perm.symm.eq_nil nonempty
    · exact ⟨_, xpSessionsetSplitByArch_runs nonempty orderly.named, partition_runs sort.perm orderly _ le_rfl⟩

/-- The job ids keep the architectures apart. Between two sessions of one architecture there is a place for
sessions of it only, and a session without an architecture has the first place for itself. -/
structure Separable (sessions : List Xpsession) : Prop where
  between : ∀ first middle last rest, sessions.Perm (first :: middle :: last :: rest) →
    xpSessionCmpArch first middle ≤ 0 → xpSessionCmpArch middle last ≤ 0 → arch first = arch last →
      arch middle = arch first
  front : ∀ other unnamed rest, sessions.Perm (other :: unnamed :: rest) → arch unnamed = none →
    0 < xpSessionCmpArch other unnamed

theorem Separable.orderly {sessions sorted : List Xpsession} (separable : Separable sessions)
    (sort : Qsort sessions sorted) : Orderly sorted where
  named := by
    rcases sorted with _ | ⟨s, rest⟩
    · simp
    intro t here
    by_contra unnamed
    have sub : [s, t].Sublist (s :: rest) := (List.singleton_sublist.mpr here).cons_cons s
    obtain ⟨others, perm⟩ := sub.exists_perm_append
    have after := separable.front s t others (sort.perm.symm.trans perm) (by simpa using unnamed)
    have ordered := (List.pairwise_cons.mp sort.ordered).1 t here
    omega
  together := by
    intro first middle last sub archs
    obtain ⟨others, perm⟩ := sub.exists_perm_append
    have ordered := sort.ordered.sublist sub
    simp only [List.pairwise_cons] at ordered
    exact separable.between first middle last others (sort.perm.symm.trans perm)
      (ordered.1 middle (by simp)) (ordered.2.1 last (by simp)) archs

theorem Separable.of_orderly {sessions : List Xpsession}
    (orderly : ∀ sorted, Qsort sessions sorted → Orderly sorted) : Separable sessions where
  between := by
    intro first middle last rest perm before after archs
    have ordered : [first, middle, last].Pairwise fun s1 s2 => xpSessionCmpArch s1 s2 ≤ 0 := by
      simp [before, after, xpSessionCmpArch_trans before after]
    obtain ⟨sorted, sort, sub⟩ := Qsort.exists_before ordered (by simpa using perm)
    exact (orderly sorted sort).together first middle last sub archs
  front := by
    intro other unnamed rest perm none
    by_contra notAfter
    have ordered : [other, unnamed].Pairwise fun s1 s2 => xpSessionCmpArch s1 s2 ≤ 0 := by
      simp
      omega
    obtain ⟨sorted, sort, sub⟩ := Qsort.exists_before ordered (by simpa using perm)
    have here : unnamed ∈ sorted.tail := sub.tail.subset (by simp)
    have named := (orderly sorted sort).named unnamed here
    simp [none] at named

/-- The sets are a partition by architecture, whatever order `qsort` gives to equal elements, exactly where the
job ids, which the comparator compares, keep the architectures apart. -/
theorem xpSessionsetSplitByArch_partition_iff (sessions : List Xpsession) :
    (∀ sorted, Qsort sessions sorted →
      ∃ split, xpSessionsetSplitByArch sessions sorted = some (some split) ∧ split.Partition sessions) ↔
    sessions ≠ [] ∧ Separable sessions := by
  constructor
  · intro partition
    have orderly : ∀ sorted, Qsort sessions sorted → sessions ≠ [] ∧ Orderly sorted :=
      fun sorted sort => (partition_iff_orderly sort).mp (partition sorted sort)
    obtain ⟨sorted, sort, -⟩ : ∃ sorted, Qsort sessions sorted ∧ [].Sublist sorted :=
      Qsort.exists_before List.Pairwise.nil (List.Perm.refl _)
    exact ⟨(orderly sorted sort).1, Separable.of_orderly fun sorted sort => (orderly sorted sort).2⟩
  · rintro ⟨nonempty, separable⟩ sorted sort
    exact (partition_iff_orderly sort).mpr ⟨nonempty, separable.orderly sort⟩

def session (name arch : UInt8) : Xpsession :=
  { node := { name := [name], arch := some [arch] }, sid := [name], jid := none }

/-- Three sessions without job ids, the first and the last of one architecture. -/
theorem threeSessions_mixed : ¬ ∀ sessions sorted : List Xpsession, sessions ≠ [] → Qsort sessions sorted →
    ∃ split, xpSessionsetSplitByArch sessions sorted = some (some split) ∧ split.Partition sessions := by
  intro claim
  let sessions := [session 1 65, session 2 66, session 3 65]
  have sort : Qsort sessions sessions := ⟨List.Perm.refl _, by decide⟩
  obtain ⟨split, returned, partition⟩ := claim sessions sessions (by decide) sort
  have ran : xpSessionsetSplitByArch sessions sessions =
      some (some ⟨3, [[session 1 65], [session 2 66], [session 3 65]]⟩) := by decide
  rw [ran] at returned
  obtain rfl := Option.some.inj (Option.some.inj returned)
  have apart := (List.pairwise_cons.mp partition.apart).1 [session 3 65] (by simp)
  exact apart (session 1 65) (by simp) (session 3 65) (by simp) rfl

end Xcpu.Libxcpu.SplitArch
