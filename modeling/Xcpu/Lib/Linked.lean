import Mathlib.Data.List.Basic
import Mathlib.Data.List.Nodup
import Mathlib.Logic.Function.Basic

/-!
Doubly linked lists among records in memory. An address that has no record was never given out or has been
released; to follow one is a fault, which is `none`, and so is a loop that does not end.
-/

namespace Xcpu.Linked

/-- The two pointers of a record. -/
structure Pointers (Rec : Type) where
  next : Rec → Option Nat
  prev : Rec → Option Nat
  setNext : Option Nat → Rec → Rec
  setPrev : Option Nat → Rec → Rec
  next_setNext : ∀ link record, next (setNext link record) = link
  prev_setNext : ∀ link record, prev (setNext link record) = prev record
  next_setPrev : ∀ link record, next (setPrev link record) = next record
  prev_setPrev : ∀ link record, prev (setPrev link record) = link

variable {Rec : Type}

def Pointers.flip (ptr : Pointers Rec) : Pointers Rec where
  next := ptr.prev
  prev := ptr.next
  setNext := ptr.setPrev
  setPrev := ptr.setNext
  next_setNext := ptr.prev_setPrev
  prev_setNext := ptr.next_setPrev
  next_setPrev := ptr.prev_setNext
  prev_setPrev := ptr.next_setNext

abbrev Heap (Rec : Type) := Nat → Option Rec

/-- The record behind a pointer is changed if the pointer is not null. -/
def modify (heap : Heap Rec) (change : Rec → Rec) : Option Nat → Option (Heap Rec)
  | none => some heap
  | some node => (heap node).map fun record => Function.update heap node (some (change record))

variable (ptr : Pointers Rec)

/-- The neighbours of a record are joined. -/
def unlink (heap : Heap Rec) (record : Rec) : Option (Heap Rec) := do
  let heap ← modify heap (ptr.setPrev (ptr.prev record)) (ptr.next record)
  modify heap (ptr.setNext (ptr.next record)) (ptr.prev record)

/-- A new record goes behind the last one. -/
def append (heap : Heap Rec) (last : Option Nat) (new : Nat) (record : Rec) : Option (Heap Rec) :=
  modify (Function.update heap new (some (ptr.setPrev last (ptr.setNext none record)))) (ptr.setNext (some new)) last

/-- The first address from a pointer on whose record passes a test. -/
def find (heap : Heap Rec) (test : Nat → Rec → Option Bool) : Nat → Option Nat → Option (Option Nat)
  | _, none => some none
  | 0, some _ => none
  | fuel + 1, some node => do
      let record ← heap node
      if ← test node record then return some node
      find heap test fuel (ptr.next record)

/-- All records from a pointer on are changed. -/
def forEach (change : Nat → Rec → Rec) : Nat → Heap Rec → Option Nat → Option (Heap Rec)
  | _, heap, none => some heap
  | 0, _, some _ => none
  | fuel + 1, heap, some node => do
      let record ← heap node
      forEach change fuel (Function.update heap node (some (change node record))) (ptr.next record)

/-- The list from a pointer on. -/
def nodesFrom (heap : Heap Rec) : Nat → Option Nat → List Nat
  | fuel + 1, some node => node :: nodesFrom heap fuel ((heap node).bind ptr.next)
  | _, _ => []

/-- Each node points to the next one, and the last one to `stop`. -/
def Path (link : Nat → Option Nat) (stop : Option Nat) : List Nat → Prop
  | [] => True
  | node :: rest => link node = rest.head?.or stop ∧ Path link stop rest

/-- The list is in memory with both pointers of each record. -/
structure Doubly (heap : Heap Rec) (nodes : List Nat) : Prop where
  distinct : nodes.Nodup
  live : ∀ node ∈ nodes, ∃ record, heap node = some record
  forward : Path (fun node => (heap node).bind ptr.next) none nodes
  backward : Path (fun node => (heap node).bind ptr.prev) none nodes.reverse

section Path

variable {link link' : Nat → Option Nat} {stop stop' : Option Nat} {nodes before after : List Nat} {node new : Nat}

theorem path_append : Path link stop (before ++ after) ↔ Path link (after.head?.or stop) before ∧ Path link stop after := by
  induction before with
  | nil => simp [Path]
  | cons first rest ih =>
      rw [List.cons_append, Path, Path, ih, List.head?_append, Option.or_assoc, and_assoc]

theorem Path.congr (path : Path link stop nodes) (same : ∀ node ∈ nodes, link' node = link node) :
    Path link' stop nodes := by
  induction nodes with
  | nil => trivial
  | cons first rest ih =>
      refine ⟨?_, ih path.2 fun node member => same node (List.mem_cons_of_mem _ member)⟩
      rw [same first List.mem_cons_self]
      exact path.1

theorem Path.retarget (path : Path link stop nodes) (distinct : nodes.Nodup)
    (same : ∀ node ∈ nodes, nodes.getLast? ≠ some node → link' node = link node)
    (last : ∀ node, nodes.getLast? = some node → link' node = stop') : Path link' stop' nodes := by
  induction nodes with
  | nil => trivial
  | cons first rest ih =>
      obtain ⟨single, distinct⟩ := List.nodup_cons.mp distinct
      cases rest with
      | nil => exact ⟨last first rfl, trivial⟩
      | cons second rest =>
          have tail : (first :: second :: rest).getLast? = (second :: rest).getLast? := List.getLast?_cons_cons
          rw [tail] at same last
          refine ⟨?_, ih path.2 distinct (fun node member => same node (List.mem_cons_of_mem _ member)) last⟩
          have inner : (second :: rest).getLast? ≠ some first := fun here => single (List.mem_of_getLast? here)
          rw [same first List.mem_cons_self inner]
          exact path.1

theorem Path.remove (path : Path link none (before ++ node :: after)) (distinct : (before ++ node :: after).Nodup)
    (same : ∀ other ∈ before ++ after, before.getLast? ≠ some other → link' other = link other)
    (last : ∀ other, before.getLast? = some other → link' other = link node) : Path link' none (before ++ after) := by
  obtain ⟨front, here, back⟩ := path_append.mp path
  obtain ⟨first, second, apart⟩ := List.nodup_append.mp distinct
  rw [Option.or_none] at here
  refine path_append.mpr ⟨?_, ?_⟩
  · refine front.retarget first (fun other member => same other (List.mem_append_left _ member)) ?_
    intro other ends
    rw [last other ends, here, Option.or_none]
  · refine back.congr fun other member => same other (List.mem_append_right _ member) ?_
    intro ends
    exact apart other (List.mem_of_getLast? ends) other (List.mem_cons_of_mem _ member) rfl

theorem Path.append (path : Path link none nodes) (distinct : nodes.Nodup)
    (same : ∀ node ∈ nodes, nodes.getLast? ≠ some node → link' node = link node)
    (last : ∀ node, nodes.getLast? = some node → link' node = some new) (ends : link' new = none) :
    Path link' none (nodes ++ [new]) :=
  path_append.mpr ⟨path.retarget distinct same last, ends, trivial⟩

end Path

section Records

variable {ptr} {heap heap' : Heap Rec} {nodes before after : List Nat} {node new : Nat} {record : Rec}
  {change : Rec → Rec} {link : Option Nat}

theorem Doubly.congr (linked : Doubly ptr heap nodes) (same : ∀ node ∈ nodes, heap' node = heap node) :
    Doubly ptr heap' nodes where
  distinct := linked.distinct
  live node member := same node member ▸ linked.live node member
  forward := linked.forward.congr fun node member => by rw [same node member]
  backward := linked.backward.congr fun node member => by rw [same node (List.mem_reverse.mp member)]

theorem bind_congr {first second : Option Rec} {tag : Rec → Option Nat} (same : first.map tag = second.map tag) :
    first.bind tag = second.bind tag := by
  cases first with
  | none =>
      cases second with
      | none => rfl
      | some record => cases same
  | some record =>
      cases second with
      | none => cases same
      | some other => exact Option.some.inj same

theorem Doubly.same (linked : Doubly ptr heap nodes)
    (next : ∀ node ∈ nodes, (heap' node).map ptr.next = (heap node).map ptr.next)
    (prev : ∀ node ∈ nodes, (heap' node).map ptr.prev = (heap node).map ptr.prev) : Doubly ptr heap' nodes where
  distinct := linked.distinct
  live node member := by
    obtain ⟨record, there⟩ := linked.live node member
    have same := next node member
    rw [there, Option.map_some, Option.map_eq_some_iff] at same
    obtain ⟨other, found, -⟩ := same
    exact ⟨other, found⟩
  forward := linked.forward.congr fun node member => bind_congr (next node member)
  backward := linked.backward.congr fun node member =>
    bind_congr (prev node (List.mem_reverse.mp member))

theorem Doubly.flip (linked : Doubly ptr heap nodes) : Doubly ptr.flip heap nodes.reverse where
  distinct := List.nodup_reverse.mpr linked.distinct
  live node member := linked.live node (List.mem_reverse.mp member)
  forward := linked.backward
  backward := (List.reverse_reverse nodes).symm ▸ linked.forward

theorem Doubly.next (linked : Doubly ptr heap (before ++ node :: after)) (there : heap node = some record) :
    ptr.next record = after.head? := by
  have next : (heap node).bind ptr.next = after.head?.or none := (path_append.mp linked.forward).2.1
  rw [there, Option.or_none] at next
  exact next

theorem Doubly.prev (linked : Doubly ptr heap (before ++ node :: after)) (there : heap node = some record) :
    ptr.prev record = before.getLast? := by
  have flipped := linked.flip
  rw [List.reverse_append, List.reverse_cons, List.append_assoc, List.singleton_append] at flipped
  rw [← List.head?_reverse]
  exact flipped.next there

/-- The change of the record behind a pointer. -/
def changed (heap : Heap Rec) (change : Rec → Rec) (link : Option Nat) : Heap Rec := fun other =>
  if link = some other then (heap other).map change else heap other

theorem modify_eq (live : ∀ node, link = some node → ∃ record, heap node = some record) :
    modify heap change link = some (changed heap change link) := by
  cases link with
  | none => rfl
  | some node =>
      obtain ⟨record, there⟩ := live node rfl
      rw [modify, there, Option.map_some, Option.some.injEq]
      funext other
      by_cases here : node = other
      · subst here
        rw [changed, if_pos rfl, there, Function.update_self, Option.map_some]
      · rw [changed, if_neg (fun same => here (Option.some.inj same)), Function.update_of_ne (Ne.symm here)]

theorem changed_other (other : link ≠ some node) : changed heap change link node = heap node := if_neg other

/-- A change leaves what it does not concern as it is. -/
theorem changed_map {Label : Type*} (tag : Rec → Label) (same : ∀ record, tag (change record) = tag record) :
    (changed heap change link node).map tag = (heap node).map tag := by
  rw [changed]
  split
  · cases heap node with
    | none => rfl
    | some record => rw [Option.map_some, Option.map_some, Option.map_some, same]
  · rfl

theorem changed_bind (tag : Rec → Option Nat) (same : ∀ record, tag (change record) = tag record) :
    (changed heap change link node).bind tag = (heap node).bind tag :=
  bind_congr (changed_map tag same)

theorem changed_self (here : link = some node) (there : ∃ record, heap node = some record) {value : Option Nat}
    (tag : Rec → Option Nat) (sets : ∀ record, tag (change record) = value) :
    (changed heap change link node).bind tag = value := by
  obtain ⟨record, same⟩ := there
  rw [changed, if_pos here, same]
  exact sets record

theorem changed_live (there : ∃ record, heap node = some record) :
    ∃ record, changed heap change link node = some record := by
  obtain ⟨record, same⟩ := there
  rw [changed, same]
  split
  · exact ⟨_, rfl⟩
  · exact ⟨_, rfl⟩

/-- To join the neighbours of a record takes it out of its list, and changes nothing but pointers there. -/
theorem Doubly.unlink (linked : Doubly ptr heap (before ++ node :: after)) (there : heap node = some record) :
    ∃ heap', unlink ptr heap record = some heap' ∧ Doubly ptr heap' (before ++ after) ∧
      (∀ other ∉ before ++ after, heap' other = heap other) ∧
      ∀ {Label : Type} (tag : Rec → Label), (∀ link record, tag (ptr.setNext link record) = tag record) →
        (∀ link record, tag (ptr.setPrev link record) = tag record) →
        ∀ other, (heap' other).map tag = (heap other).map tag := by
  have next := linked.next there
  have prev := linked.prev there
  have distinct := linked.distinct
  obtain ⟨-, second, apart⟩ := List.nodup_append.mp distinct
  have rest : (before ++ after).Nodup := distinct.sublist ((List.sublist_cons_self node after).append_left before)
  have live : ∀ other ∈ before ++ after, ∃ record, heap other = some record := by
    intro other member
    rcases List.mem_append.mp member with front | back
    · exact linked.live other (List.mem_append_left _ front)
    · exact linked.live other (List.mem_append_right _ (List.mem_cons_of_mem _ back))
  have first : ∀ other, after.head? = some other → other ∈ before ++ after := fun other head =>
    List.mem_append_right _ (List.mem_of_head? head)
  have last : ∀ other, before.getLast? = some other → other ∈ before ++ after := fun other ends =>
    List.mem_append_left _ (List.mem_of_getLast? ends)
  refine ⟨changed (changed heap (ptr.setPrev before.getLast?) after.head?) (ptr.setNext after.head?) before.getLast?,
    ?_, ⟨rest, ?_, ?_, ?_⟩, ?_, ?_⟩
  · rw [Linked.unlink, next, prev, modify_eq fun other head => live other (first other head)]
    exact modify_eq fun other ends => changed_live (live other (last other ends))
  · exact fun other member => changed_live (changed_live (live other member))
  · refine linked.forward.remove distinct ?_ ?_
    · intro other _ apart
      rw [changed_other apart, changed_bind ptr.next (ptr.next_setPrev _)]
    · intro other ends
      rw [changed_self ends (changed_live (live other (last other ends))) ptr.next (ptr.next_setNext _), there]
      exact next.symm
  · have backward := linked.backward
    rw [List.reverse_append, List.reverse_cons, List.append_assoc, List.singleton_append] at backward
    have turned := distinct
    rw [← List.nodup_reverse, List.reverse_append, List.reverse_cons, List.append_assoc,
      List.singleton_append] at turned
    rw [List.reverse_append]
    refine backward.remove turned ?_ ?_
    · intro other _ apart
      rw [List.getLast?_reverse] at apart
      rw [changed_bind ptr.prev (ptr.prev_setNext _), changed_other apart]
    · intro other head
      rw [List.getLast?_reverse] at head
      rw [changed_bind ptr.prev (ptr.prev_setNext _),
        changed_self head (live other (first other head)) ptr.prev (ptr.prev_setPrev _), there]
      exact prev.symm
  · intro other outside
    rw [changed_other fun ends => outside (last other ends), changed_other fun head => outside (first other head)]
  · intro Label tag setNext setPrev other
    rw [changed_map tag (setNext _), changed_map tag (setPrev _)]

theorem head_without (distinct : (before ++ node :: after).Nodup) :
    (if (before ++ node :: after).head? = some node then after.head? else (before ++ node :: after).head?) =
      (before ++ after).head? := by
  cases before with
  | nil => exact if_pos rfl
  | cons first rest =>
      refine if_neg fun same => ?_
      exact (List.nodup_append.mp distinct).2.2 first List.mem_cons_self node List.mem_cons_self (Option.some.inj same)

theorem Doubly.append (linked : Doubly ptr heap nodes) (fresh : new ∉ nodes) (record : Rec) :
    ∃ heap', append ptr heap nodes.getLast? new record = some heap' ∧ Doubly ptr heap' (nodes ++ [new]) ∧
      heap' new = some (ptr.setPrev nodes.getLast? (ptr.setNext none record)) ∧
      (∀ other ∉ nodes ++ [new], heap' other = heap other) ∧
      ∀ {Label : Type} (tag : Rec → Label), (∀ link record, tag (ptr.setNext link record) = tag record) →
        ∀ other, other ≠ new → (heap' other).map tag = (heap other).map tag := by
  have last : ∀ other, nodes.getLast? = some other → other ∈ nodes := fun other ends => List.mem_of_getLast? ends
  have apart : ∀ other ∈ nodes, other ≠ new := fun other member same => fresh (same ▸ member)
  have here : nodes.getLast? ≠ some new := fun ends => fresh (last new ends)
  have old : ∀ other, other ≠ new →
      Function.update heap new (some (ptr.setPrev nodes.getLast? (ptr.setNext none record))) other = heap other :=
    fun other different => Function.update_of_ne different _ _
  have live : ∀ other ∈ nodes, ∃ found,
      Function.update heap new (some (ptr.setPrev nodes.getLast? (ptr.setNext none record))) other = some found := by
    intro other member
    rw [old other (apart other member)]
    exact linked.live other member
  refine ⟨_, modify_eq fun other ends => live other (last other ends), ⟨?_, ?_, ?_, ?_⟩, ?_, ?_, ?_⟩
  · exact List.nodup_append.mpr ⟨linked.distinct, List.nodup_singleton new, fun other member only single =>
      List.mem_singleton.mp single ▸ apart other member⟩
  · intro other member
    rcases List.mem_append.mp member with inside | single
    · exact changed_live (live other inside)
    · rw [List.mem_singleton.mp single]
      exact changed_live ⟨_, Function.update_self _ _ _⟩
  · refine linked.forward.append linked.distinct ?_ ?_ ?_
    · intro other member different
      rw [changed_other different, old other (apart other member)]
    · intro other ends
      exact changed_self ends (live other (last other ends)) ptr.next (ptr.next_setNext _)
    · rw [changed_other here, Function.update_self]
      exact (ptr.next_setPrev _ _).trans (ptr.next_setNext _ _)
  · rw [List.reverse_append, List.reverse_singleton, List.singleton_append]
    constructor
    · dsimp only
      rw [changed_other here, Function.update_self, List.head?_reverse, Option.or_none]
      exact ptr.prev_setPrev _ _
    · refine linked.backward.congr fun other member => ?_
      rw [changed_bind ptr.prev (ptr.prev_setNext _), old other (apart other (List.mem_reverse.mp member))]
  · rw [changed_other here, Function.update_self]
  · intro other outside
    rw [List.mem_append, List.mem_singleton, not_or] at outside
    rw [changed_other fun ends => outside.1 (last other ends), old other outside.2]
  · intro Label tag setNext other different
    rw [changed_map tag (setNext _), old other different]

theorem Doubly.push (linked : Doubly ptr heap nodes) (fresh : new ∉ nodes) (record : Rec) :
    ∃ heap', Linked.append ptr.flip heap nodes.head? new record = some heap' ∧ Doubly ptr heap' (new :: nodes) ∧
      heap' new = some (ptr.setNext nodes.head? (ptr.setPrev none record)) ∧
      (∀ other ∉ new :: nodes, heap' other = heap other) ∧
      ∀ {Label : Type} (tag : Rec → Label), (∀ link record, tag (ptr.setPrev link record) = tag record) →
        ∀ other, other ≠ new → (heap' other).map tag = (heap other).map tag := by
  obtain ⟨heap', put, after, here, outside, kept⟩ :=
    linked.flip.append (fun member => fresh (List.mem_reverse.mp member)) record
  rw [List.getLast?_reverse] at put here
  have turned := after.flip
  rw [List.reverse_append, List.reverse_reverse, List.reverse_singleton, List.singleton_append] at turned
  refine ⟨heap', put, turned, here, ?_, kept⟩
  intro other absent
  refine outside other fun member => absent ?_
  rcases List.mem_append.mp member with inside | single
  · exact List.mem_cons_of_mem _ (List.mem_reverse.mp inside)
  · exact List.mem_cons.mpr (.inl (List.mem_singleton.mp single))

/-- A record that is taken out of its list and put before the first one. -/
theorem Doubly.toFront (linked : Doubly ptr heap (before ++ node :: after)) (there : heap node = some record) :
    ∃ apart heap', Linked.unlink ptr heap record = some apart ∧
      Linked.append ptr.flip apart (before ++ after).head? node record = some heap' ∧
      Doubly ptr heap' (node :: (before ++ after)) ∧
      (∀ other ∉ before ++ node :: after, heap' other = heap other) ∧
      ∀ {Label : Type} (tag : Rec → Label), (∀ link record, tag (ptr.setNext link record) = tag record) →
        (∀ link record, tag (ptr.setPrev link record) = tag record) →
        ∀ other, (heap' other).map tag = (heap other).map tag := by
  have alone : node ∉ before ++ after := by
    have distinct := linked.distinct
    rw [List.nodup_middle, List.nodup_cons] at distinct
    exact distinct.1
  obtain ⟨apart, unlinked, shorter, outside, kept⟩ := linked.unlink there
  obtain ⟨heap', pushed, joined, moved, beyond, label⟩ := shorter.push alone record
  refine ⟨apart, heap', unlinked, pushed, joined, ?_, ?_⟩
  · intro other absent
    have absent' : other ∉ node :: (before ++ after) := fun among => absent (List.perm_middle.mem_iff.mpr among)
    rw [beyond other absent', outside other fun among => absent' (List.mem_cons_of_mem _ among)]
  · intro Label tag setNext setPrev other
    by_cases this : other = node
    · rw [this, moved, there, Option.map_some, Option.map_some, setNext, setPrev]
    · rw [label tag setPrev other this, kept tag setNext setPrev]

theorem find_eq {test : Nat → Rec → Option Bool} {passes : Nat → Bool} {fuel : Nat}
    (path : Path (fun node => (heap node).bind ptr.next) none nodes) (enough : nodes.length ≤ fuel)
    (tested : ∀ node ∈ nodes, ∃ record, heap node = some record ∧ test node record = some (passes node)) :
    find ptr heap test fuel nodes.head? = some (nodes.find? passes) := by
  induction nodes generalizing fuel with
  | nil => rw [List.head?_nil, find.eq_def]; rfl
  | cons node rest ih =>
      obtain ⟨record, there, passed⟩ := tested node List.mem_cons_self
      have next : (heap node).bind ptr.next = rest.head?.or none := path.1
      rw [there, Option.or_none] at next
      cases fuel with
      | zero => cases enough
      | succ fuel =>
          have later := ih path.2 (Nat.le_of_succ_le_succ enough) fun other member =>
            tested other (List.mem_cons_of_mem _ member)
          rw [← next] at later
          rw [List.head?_cons, find, there, Option.bind_eq_bind, Option.bind_some, passed, Option.bind_eq_bind,
            Option.bind_some, List.find?_cons]
          cases passes node with
          | true => rfl
          | false => exact later

theorem nodesFrom_eq {fuel : Nat} (path : Path (fun node => (heap node).bind ptr.next) none nodes)
    (enough : nodes.length ≤ fuel) : nodesFrom ptr heap fuel nodes.head? = nodes := by
  induction nodes generalizing fuel with
  | nil => cases fuel <;> rfl
  | cons node rest ih =>
      have next : (heap node).bind ptr.next = rest.head?.or none := path.1
      cases fuel with
      | zero => cases enough
      | succ fuel =>
          rw [List.head?_cons, nodesFrom, next, Option.or_none, ih path.2 (Nat.le_of_succ_le_succ enough)]

theorem forEach_eq {change : Nat → Rec → Rec} {fuel : Nat}
    (path : Path (fun node => (heap node).bind ptr.next) none nodes) (distinct : nodes.Nodup)
    (live : ∀ node ∈ nodes, ∃ record, heap node = some record) (enough : nodes.length ≤ fuel) :
    forEach ptr change fuel heap nodes.head? =
      some fun other => if other ∈ nodes then (heap other).map (change other) else heap other := by
  induction nodes generalizing fuel heap with
  | nil => rw [List.head?_nil, forEach.eq_def]; simp
  | cons node rest ih =>
      obtain ⟨record, there⟩ := live node List.mem_cons_self
      obtain ⟨single, distinct⟩ := List.nodup_cons.mp distinct
      have next : (heap node).bind ptr.next = rest.head?.or none := path.1
      rw [there, Option.or_none, Option.bind_some] at next
      have others : ∀ other ∈ rest, Function.update heap node (some (change node record)) other = heap other := by
        intro other member
        refine Function.update_of_ne ?_ _ _
        rintro rfl
        exact single member
      cases fuel with
      | zero => cases enough
      | succ fuel =>
          have later := @ih (Function.update heap node (some (change node record))) fuel
            (path.2.congr fun other member => by rw [others other member]) distinct
            (fun other member => by
              rw [others other member]
              exact live other (List.mem_cons_of_mem _ member))
            (Nat.le_of_succ_le_succ enough)
          rw [← next] at later
          rw [List.head?_cons, forEach, there, Option.bind_eq_bind, Option.bind_some, later, Option.some.injEq]
          funext other
          by_cases here : other = node
          · subst here
            rw [if_neg single, if_pos List.mem_cons_self, Function.update_self, there, Option.map_some]
          · rw [Function.update_of_ne here]
            by_cases member : other ∈ rest
            · rw [if_pos member, if_pos (List.mem_cons_of_mem _ member)]
            · rw [if_neg member, if_neg (List.not_mem_cons_of_ne_of_not_mem here member)]

end Records

end Xcpu.Linked
