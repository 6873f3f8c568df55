import Mathlib.Data.List.Nodup
import Mathlib.Data.List.Perm.Basic
import Mathlib.Data.List.Flatten

/-!
Singly linked lists among nodes that are numbers: `link` is the pointer a node holds.
A `Forest` takes every node in exactly one chain, which follows the pointers to their end.
-/

namespace Xcpu.Chains

def Threaded (link : Nat → Option Nat) : List Nat → Prop
  | [] => True
  | node :: rest => link node = rest.head? ∧ Threaded link rest

structure Forest (link : Nat → Option Nat) (chains : List (List Nat)) (nodes : List Nat) : Prop where
  covers : chains.flatten.Perm nodes
  distinct : nodes.Nodup
  threaded : ∀ chain ∈ chains, Threaded link chain

/-- The pointers after `new` has been put in behind `node`. -/
def insertBehind (link : Nat → Option Nat) (node new : Nat) : Nat → Option Nat := fun other =>
  if other = node then some new else if other = new then link node else link other

variable {link link' : Nat → Option Nat} {chain before after : List Nat} {chains : List (List Nat)}
  {nodes : List Nat} {node new : Nat}

theorem Threaded.congr (threaded : Threaded link chain) (same : ∀ node ∈ chain, link' node = link node) :
    Threaded link' chain := by
  induction chain with
  | nil => trivial
  | cons first rest ih =>
      refine ⟨?_, ih threaded.2 fun node member => same node (List.mem_cons_of_mem _ member)⟩
      rw [same first List.mem_cons_self]
      exact threaded.1

theorem Threaded.insert (threaded : Threaded link (before ++ node :: after))
    (distinct : (before ++ node :: after).Nodup) (fresh : new ∉ before ++ node :: after) :
    Threaded (insertBehind link node new) (before ++ node :: new :: after) := by
  induction before with
  | nil =>
      simp only [List.nil_append, List.mem_cons, not_or, List.nodup_cons] at fresh distinct
      have different : new ≠ node := fresh.1
      refine ⟨by simp [insertBehind], ?_, ?_⟩
      · simpa [insertBehind, different] using threaded.1
      · refine threaded.2.congr ?_
        intro other member
        have here : other ≠ node := fun same => distinct.1 (same ▸ member)
        have there : other ≠ new := fun same => fresh.2 (same ▸ member)
        simp [insertBehind, here, there]
  | cons first rest ih =>
      simp only [List.cons_append, List.mem_cons, not_or, List.nodup_cons] at fresh distinct
      refine ⟨?_, ih threaded.2 distinct.2 fresh.2⟩
      have here : first ≠ node := fun same => distinct.1 (by simp [same])
      have there : first ≠ new := fun same => fresh.1 same.symm
      have next : link first = (rest ++ node :: after).head? := threaded.1
      simp only [insertBehind, here, there, if_false, next]
      cases rest <;> rfl

theorem Forest.mem_nodes (forest : Forest link chains nodes) (inside : chain ∈ chains)
    (member : node ∈ chain) : node ∈ nodes :=
  forest.covers.mem_iff.mp (List.mem_flatten_of_mem inside member)

theorem Forest.exists_chain (forest : Forest link chains nodes) (member : node ∈ nodes) :
    ∃ chain ∈ chains, node ∈ chain :=
  List.mem_flatten.mp (forest.covers.mem_iff.mpr member)

theorem Forest.distinct_flatten (forest : Forest link chains nodes) : chains.flatten.Nodup :=
  forest.covers.nodup_iff.mpr forest.distinct

theorem Forest.nodup_chain (forest : Forest link chains nodes) (inside : chain ∈ chains) : chain.Nodup :=
  (List.nodup_flatten.mp forest.distinct_flatten).1 chain inside

theorem Forest.split (forest : Forest link chains nodes) (inside : chain ∈ chains) :
    ∃ front back, chains = front ++ chain :: back ∧
      ∀ other ∈ front ++ back, ∀ node ∈ other, node ∉ chain := by
  obtain ⟨front, back, same⟩ := List.append_of_mem inside
  refine ⟨front, back, same, ?_⟩
  have distinct := forest.distinct_flatten
  have moved : (chain ++ (front ++ back).flatten).Perm chains.flatten := by
    rw [same, List.flatten_append, List.flatten_append, List.flatten_cons]
    exact List.perm_append_comm_assoc _ _ _
  have apart := (List.nodup_append.mp (moved.nodup_iff.mpr distinct)).2.2
  intro other member node held here
  exact apart node here node (List.mem_flatten_of_mem member held) rfl

theorem Forest.congr (forest : Forest link chains nodes) (same : ∀ node ∈ nodes, link' node = link node) :
    Forest link' chains nodes where
  covers := forest.covers
  distinct := forest.distinct
  threaded chain inside := (forest.threaded chain inside).congr fun node member =>
    same node (forest.mem_nodes inside member)

theorem Forest.root (forest : Forest link chains nodes) (fresh : new ∉ nodes) (free : link' new = none)
    (same : ∀ node ∈ nodes, link' node = link node) : Forest link' ([new] :: chains) (new :: nodes) where
  covers := by simpa using forest.covers
  distinct := List.nodup_cons.mpr ⟨fresh, forest.distinct⟩
  threaded := by
    intro chain member
    rcases List.mem_cons.mp member with here | there
    · subst chain
      exact ⟨free, trivial⟩
    · exact (forest.threaded chain there).congr fun node held => same node (forest.mem_nodes there held)

theorem Forest.remove (forest : Forest link chains nodes) (inside : chain ∈ chains)
    (same : ∀ node ∈ nodes, node ∉ chain → link' node = link node) :
    ∃ rest, Forest link' rest (nodes.filter (· ∉ chain)) ∧ rest.Sublist chains ∧
      (∀ other ∈ chains, other = chain ∨ other ∈ rest) := by
  obtain ⟨front, back, split, apart⟩ := forest.split inside
  refine ⟨front ++ back, ⟨?_, forest.distinct.filter _, ?_⟩, ?_, ?_⟩
  · have kept := forest.covers.filter (· ∉ chain)
    refine List.Perm.trans (List.Perm.of_eq ?_) kept
    have parts : chains.flatten = front.flatten ++ (chain ++ back.flatten) := by
      rw [split, List.flatten_append, List.flatten_cons]
    have gone : chain.filter (· ∉ chain) = [] := by
      rw [List.filter_eq_nil_iff]
      intro node member
      simpa using member
    have whole (part : List (List Nat)) (sub : ∀ other ∈ part, other ∈ front ++ back) :
        part.flatten.filter (· ∉ chain) = part.flatten := by
      rw [List.filter_eq_self]
      intro node member
      obtain ⟨other, listed, held⟩ := List.mem_flatten.mp member
      simpa using apart other (sub other listed) node held
    rw [parts, List.filter_append, List.filter_append, gone, whole front fun other => List.mem_append_left back,
      whole back fun other => List.mem_append_right front, List.flatten_append, List.nil_append]
  · intro other member
    have listed : other ∈ chains := by
      rw [split]
      rcases List.mem_append.mp member with first | second
      · exact List.mem_append_left _ first
      · exact List.mem_append_right _ (List.mem_cons_of_mem _ second)
    refine (forest.threaded other listed).congr ?_
    intro node held
    exact same node (forest.mem_nodes listed held) (apart other member node held)
  · rw [split]
    exact (List.Sublist.refl front).append (List.sublist_cons_self chain back)
  · intro other member
    rw [split] at member
    rcases List.mem_append.mp member with first | second
    · exact .inr (List.mem_append_left _ first)
    · rcases List.mem_cons.mp second with here | third
      · exact .inl here
      · exact .inr (List.mem_append_right _ third)

theorem Forest.insert (forest : Forest link chains nodes) (member : node ∈ nodes) (fresh : new ∉ nodes) :
    ∃ front back before after, chains = front ++ (before ++ node :: after) :: back ∧
      Forest (insertBehind link node new) (front ++ (before ++ node :: new :: after) :: back)
        (new :: nodes) := by
  obtain ⟨chain, inside, held⟩ := forest.exists_chain member
  obtain ⟨front, back, split, apart⟩ := forest.split inside
  obtain ⟨before, after, same⟩ := List.append_of_mem held
  subst chain
  refine ⟨front, back, before, after, split, ?_, List.nodup_cons.mpr ⟨fresh, forest.distinct⟩, ?_⟩
  · refine List.Perm.trans ?_ (forest.covers.cons new)
    have old : chains.flatten = (front.flatten ++ before ++ [node]) ++ (after ++ back.flatten) := by
      simp [split]
    have moved : (front ++ (before ++ node :: new :: after) :: back).flatten =
        (front.flatten ++ before ++ [node]) ++ new :: (after ++ back.flatten) := by
      simp
    rw [old, moved]
    exact List.perm_middle
  · intro other listed
    have old_chain : (before ++ node :: after) ∈ chains := inside
    rcases List.mem_append.mp listed with first | second
    · have there : other ∈ chains := by
        rw [split]
        exact List.mem_append_left _ first
      refine (forest.threaded other there).congr ?_
      intro x inside_other
      have here : x ≠ node := fun equal =>
        apart other (List.mem_append_left _ first) x inside_other (equal ▸ held)
      have elsewhere : x ≠ new := fun equal => fresh (equal ▸ forest.mem_nodes there inside_other)
      simp [insertBehind, here, elsewhere]
    · rcases List.mem_cons.mp second with here | third
      · subst other
        exact (forest.threaded _ old_chain).insert (forest.nodup_chain old_chain)
          fun inside_chain => fresh (forest.mem_nodes old_chain inside_chain)
      · have there : other ∈ chains := by
          rw [split]
          exact List.mem_append_right _ (List.mem_cons_of_mem _ third)
        refine (forest.threaded other there).congr ?_
        intro x inside_other
        have here : x ≠ node := fun equal =>
          apart other (List.mem_append_right _ third) x inside_other (equal ▸ held)
        have elsewhere : x ≠ new := fun equal => fresh (equal ▸ forest.mem_nodes there inside_other)
        simp [insertBehind, here, elsewhere]

end Xcpu.Chains
