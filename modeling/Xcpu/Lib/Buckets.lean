import Xcpu.Lib.Circular

/-!
Entries in memory that each hang in the circular list of their key. All lists are in the order in which the
entries were added, so one list of entries says what is in every one of them.
-/

namespace Xcpu.Buckets

open Circular

variable {Addr Key Entry : Type} [DecidableEq Key]

/-- The entries of a key. -/
def bucket (key : Entry → Key) (entries : List Entry) (k : Key) : List Entry :=
  entries.filter fun entry => decide (key entry = k)

/-- The heads of all live keys are in memory with the entries of each. -/
structure Hung (head : Key → Addr) (element : Entry → Addr) (key : Entry → Key) (heap : Heap Addr)
    (live : Key → Prop) (entries : List Entry) : Prop where
  distinct : (entries.map element).Nodup
  placed : ∀ entry ∈ entries, live (key entry)
  lists : ∀ k, live k → ListAt heap (head k) ((bucket key entries k).map element)

variable {head : Key → Addr} {element : Entry → Addr} {key : Entry → Key} {heap heap' : Heap Addr}
  {live live' : Key → Prop} {entries before after : List Entry} {entry : Entry} {k : Key}

theorem bucket_append : bucket key (before ++ after) k = bucket key before k ++ bucket key after k :=
  List.filter_append ..

theorem bucket_isEmpty (entries : List Entry) (k : Key) :
    (bucket key entries k).isEmpty = entries.all fun entry => decide (key entry ≠ k) := by
  rw [Bool.eq_iff_iff, List.isEmpty_iff, bucket, List.filter_eq_nil_iff, List.all_eq_true]
  simp only [decide_eq_true_eq]

theorem bucket_here : bucket key (entry :: after) (key entry) = entry :: bucket key after (key entry) :=
  List.filter_cons_of_pos (decide_eq_true rfl)

theorem bucket_elsewhere (other : key entry ≠ k) : bucket key (entry :: after) k = bucket key after k :=
  List.filter_cons_of_neg fun here => other (of_decide_eq_true here)

theorem mem_bucket (member : entry ∈ bucket key entries k) : entry ∈ entries ∧ key entry = k :=
  ⟨(List.mem_filter.mp member).1, of_decide_eq_true (List.mem_filter.mp member).2⟩

theorem mem_bucket_map {place : Addr} (member : place ∈ (bucket key entries k).map element) :
    ∃ entry ∈ entries, key entry = k ∧ element entry = place := by
  obtain ⟨entry, inside, same⟩ := List.mem_map.mp member
  exact ⟨entry, (mem_bucket inside).1, (mem_bucket inside).2, same⟩

theorem Hung.congr (hung : Hung head element key heap live entries)
    (heads : ∀ k, live k → heap' (head k) = heap (head k))
    (elements : ∀ entry ∈ entries, heap' (element entry) = heap (element entry)) :
    Hung head element key heap' live entries := by
  refine ⟨hung.distinct, hung.placed, fun k alive => (hung.lists k alive).congr ?_⟩
  rintro place (_ | ⟨_, member⟩)
  · exact heads k alive
  · obtain ⟨entry, inside, -, rfl⟩ := mem_bucket_map member
    exact elements entry inside

/-- A key without entries may go. -/
theorem Hung.restrict (hung : Hung head element key heap live entries) (fewer : ∀ k, live' k → live k)
    (placed : ∀ entry ∈ entries, live' (key entry)) : Hung head element key heap live' entries :=
  ⟨hung.distinct, placed, fun k alive => hung.lists k (fewer k alive)⟩

theorem Hung.elements {fuel : Nat} [DecidableEq Addr] (hung : Hung head element key heap live entries) (alive : live k)
    (enough : entries.length ≤ fuel) :
    Circular.elements fuel heap (head k) = some ((bucket key entries k).map element) := by
  refine (hung.lists k alive).elements ?_
  rw [List.length_map]
  exact Nat.le_trans (List.length_filter_le _ _) enough

theorem Hung.listEmpty [DecidableEq Addr] (hung : Hung head element key heap live entries) (alive : live k) :
    Circular.listEmpty heap (head k) = some (bucket key entries k).isEmpty := by
  rw [(hung.lists k alive).listEmpty, List.isEmpty_map]

/-- Only the list of one key changes. -/
theorem Hung.replace {all : List Entry} (hung : Hung head element key heap live entries)
    (distinct : (all.map element).Nodup) (before : entries ⊆ all) (after_all : after.Sublist all)
    (placed : ∀ entry ∈ after, live (key entry)) (others : ∀ k' ≠ k, bucket key after k' = bucket key entries k')
    (list : ListAt heap' (head k) ((bucket key after k).map element))
    (heads : ∀ k' ≠ k, heap' (head k') = heap (head k'))
    (elements : ∀ entry ∈ all, key entry ≠ k → heap' (element entry) = heap (element entry)) :
    Hung head element key heap' live after := by
  refine ⟨distinct.sublist (after_all.map element), placed, fun k' alive => ?_⟩
  by_cases same : k' = k
  · rw [same]
    exact list
  · rw [others k' same]
    refine (hung.lists k' alive).congr fun place member => ?_
    rcases List.mem_cons.mp member with rfl | member
    · exact heads k' same
    · obtain ⟨entry, inside, here, rfl⟩ := mem_bucket_map member
      exact elements entry (before inside) fun equal => same (here.symm.trans equal)

section Changes

variable [DecidableEq Addr] (heads : Function.Injective head) (apart : ∀ k entry, head k ≠ element entry)

include heads apart

/-- A new entry goes to the end of the list of its key. -/
theorem Hung.add (hung : Hung head element key heap live entries) (alive : live (key entry))
    (fresh : element entry ∉ entries.map element) :
    ∃ heap', listAddTail heap (element entry) (head (key entry)) = some heap' ∧
      Hung head element key heap' live (entries ++ [entry]) ∧
      ∀ other, (∀ k, other ≠ head k) → (∀ e ∈ entries ++ [entry], other ≠ element e) → heap' other = heap other := by
  have outside : element entry ∉ head (key entry) :: (bucket key entries (key entry)).map element := by
    intro member
    rcases List.mem_cons.mp member with same | member
    · exact apart _ entry same.symm
    · obtain ⟨other, inside, -, same⟩ := mem_bucket_map member
      exact fresh (same ▸ List.mem_map_of_mem inside)
  obtain ⟨heap', added, grown, frame⟩ := (hung.lists _ alive).listAddTail outside
  have distinct : ((entries ++ [entry]).map element).Nodup := by
    have turned : ([element entry] ++ entries.map element).Nodup := List.nodup_cons.mpr ⟨fresh, hung.distinct⟩
    rw [List.map_append]
    exact List.nodup_append_comm.mp turned
  have still : ∀ other, other ≠ head (key entry) → (∀ e ∈ entries ++ [entry], key e = key entry → other ≠ element e) →
      heap' other = heap other := by
    intro other offHead offElement
    refine frame other fun member => ?_
    rcases List.mem_cons.mp member with same | member
    · exact offElement entry (List.mem_append_right _ List.mem_cons_self) rfl same
    rcases List.mem_cons.mp member with same | member
    · exact offHead same
    · obtain ⟨there, inside, here, same⟩ := mem_bucket_map member
      exact offElement there (List.mem_append_left _ inside) here same.symm
  refine ⟨heap', added, hung.replace (k := key entry) distinct (List.subset_append_left _ _) (List.Sublist.refl _)
    ?_ ?_ ?_ ?_ ?_, fun other offHead offElement => still other (offHead _) fun e inside _ => offElement e inside⟩
  · intro other member
    rcases List.mem_append.mp member with inside | inside
    · exact hung.placed other inside
    · rw [List.mem_singleton.mp inside]
      exact alive
  · intro k other
    rw [bucket_append, bucket_elsewhere (Ne.symm other)]
    exact List.append_nil _
  · rw [bucket_append, bucket_here, List.map_append]
    exact grown
  · exact fun k other => still _ (fun same => other (heads same)) fun e _ _ => apart k e
  · exact fun e inside other => still _ (fun same => apart _ e same.symm) fun e' inside' here same =>
      other (List.inj_on_of_nodup_map distinct inside inside' same ▸ here)

/-- An entry leaves the list it is in. -/
theorem Hung.remove (hung : Hung head element key heap live (before ++ entry :: after)) :
    ∃ heap', listDel heap (element entry) = some heap' ∧
      Hung head element key heap' live (before ++ after) ∧
      ∀ other, (∀ k, other ≠ head k) → (∀ e ∈ before ++ after, other ≠ element e) → heap' other = heap other := by
  have alive := hung.placed entry (List.mem_append_right _ List.mem_cons_self)
  have list := hung.lists _ alive
  rw [bucket_append, bucket_here, List.map_append, List.map_cons] at list
  obtain ⟨heap', deleted, left, frame⟩ := list.listDel
  rw [← List.map_append, ← bucket_append] at left frame
  have fewer : (before ++ after).Sublist (before ++ entry :: after) :=
    (List.Sublist.refl before).append (List.sublist_cons_self entry after)
  have still : ∀ other, other ≠ head (key entry) → (∀ e ∈ before ++ after, key e = key entry → other ≠ element e) →
      heap' other = heap other := by
    intro other offHead offElement
    refine frame other fun member => ?_
    rcases List.mem_cons.mp member with same | member
    · exact offHead same
    · obtain ⟨there, inside, here, same⟩ := mem_bucket_map member
      exact offElement there inside here same.symm
  refine ⟨heap', deleted, hung.replace (k := key entry) hung.distinct (fun _ => id) fewer
    (fun other member => hung.placed other (fewer.subset member)) ?_ left ?_ ?_,
    fun other offHead offElement => still other (offHead _) fun e inside _ => offElement e inside⟩
  · intro k other
    rw [bucket_append, bucket_append, bucket_elsewhere (Ne.symm other)]
  · exact fun k other => still _ (fun same => other (heads same)) fun e _ _ => apart k e
  · exact fun e inside other => still _ (fun same => apart _ e same.symm) fun e' inside' here same =>
      other (List.inj_on_of_nodup_map hung.distinct inside (fewer.subset inside') same ▸ here)

/-- The head of the list of a new key is set up. -/
theorem Hung.newKey (hung : Hung head element key heap live entries) (unused : ¬ live k) :
    Hung head element key (initListHead heap (head k)) (fun other => other = k ∨ live other) entries := by
  refine ⟨hung.distinct, fun entry inside => Or.inr (hung.placed entry inside), fun other alive => ?_⟩
  by_cases same : other = k
  · subst same
    have nothing : bucket key entries other = [] :=
      List.filter_eq_nil_iff.mpr fun entry inside here => unused (of_decide_eq_true here ▸ hung.placed entry inside)
    rw [nothing]
    exact ListAt.initListHead
  · refine (hung.lists other (alive.resolve_left same)).congr fun place member => Function.update_of_ne ?_ _ _
    rcases List.mem_cons.mp member with rfl | member
    · exact fun equal => same (heads equal)
    · obtain ⟨there, -, -, rfl⟩ := mem_bucket_map member
      exact fun equal => apart k there equal.symm

end Changes

end Xcpu.Buckets
