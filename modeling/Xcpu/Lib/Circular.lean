import Mathlib.Data.List.Basic
import Mathlib.Data.List.Nodup
import Mathlib.Logic.Function.Basic

/-!
Circular lists with two pointers in every element, one element of which is the head. An address that has no
pointers is not in memory any more; to follow or to change it is a fault, which is `none`.
-/

namespace Xcpu.Circular

structure Links (Addr : Type) where
  next : Addr
  prev : Addr
  deriving DecidableEq

abbrev Heap (Addr : Type) := Addr → Option (Links Addr)

variable {Addr : Type}

def nextOf (heap : Heap Addr) (entry : Addr) : Option Addr := (heap entry).map Links.next

def prevOf (heap : Heap Addr) (entry : Addr) : Option Addr := (heap entry).map Links.prev

/-- One address points to the other and back. -/
def Joined (heap : Heap Addr) (first second : Addr) : Prop :=
  nextOf heap first = some second ∧ prevOf heap second = some first

/-- From one address over some others to a last one. -/
def Segment (heap : Heap Addr) : Addr → List Addr → Addr → Prop
  | first, [], last => Joined heap first last
  | first, entry :: rest, last => Joined heap first entry ∧ Segment heap entry rest last

/-- The list with this head has these elements. -/
structure ListAt (heap : Heap Addr) (head : Addr) (entries : List Addr) : Prop where
  distinct : (head :: entries).Nodup
  closed : Segment heap head entries head

section Segment

variable {heap heap' : Heap Addr} {first last final new : Addr} {entries before after : List Addr}

theorem segment_append {middle : Addr} : Segment heap first (before ++ middle :: after) last ↔
    Segment heap first before middle ∧ Segment heap middle after last := by
  induction before generalizing first with
  | nil => rfl
  | cons entry rest ih => rw [List.cons_append, Segment, Segment, ih, and_assoc]

theorem Segment.congr (segment : Segment heap first entries last)
    (next : ∀ entry ∈ first :: entries, nextOf heap' entry = nextOf heap entry)
    (prev : ∀ entry ∈ last :: entries, prevOf heap' entry = prevOf heap entry) : Segment heap' first entries last := by
  induction entries generalizing first with
  | nil => exact ⟨(next first List.mem_cons_self).trans segment.1, (prev last List.mem_cons_self).trans segment.2⟩
  | cons entry rest ih =>
      refine ⟨⟨(next first List.mem_cons_self).trans segment.1.1, ?_⟩, ih segment.2 ?_ ?_⟩
      · exact (prev entry (List.mem_cons_of_mem _ List.mem_cons_self)).trans segment.1.2
      · exact fun other member => next other (List.mem_cons_of_mem _ member)
      · rintro other (_ | ⟨_, member⟩)
        · exact prev _ List.mem_cons_self
        · exact prev other (List.mem_cons_of_mem _ (List.mem_cons_of_mem _ member))

theorem Segment.joined_last (segment : Segment heap first entries last) :
    Joined heap (entries.getLastD first) last := by
  induction entries generalizing first with
  | nil => exact segment
  | cons entry rest ih =>
      rw [List.getLastD_cons]
      exact ih segment.2

/-- The last element comes to point elsewhere, and every other one keeps its pointers. -/
theorem Segment.retarget (segment : Segment heap first entries last) (distinct : (first :: entries).Nodup)
    (next : ∀ entry ≠ entries.getLastD first, entry ∈ first :: entries → nextOf heap' entry = nextOf heap entry)
    (prev : ∀ entry ∈ entries, prevOf heap' entry = prevOf heap entry)
    (joined : Joined heap' (entries.getLastD first) final) : Segment heap' first entries final := by
  induction entries generalizing first with
  | nil => exact joined
  | cons entry rest ih =>
      obtain ⟨outside, inner⟩ := List.nodup_cons.mp distinct
      rw [List.getLastD_cons] at next joined
      have apart : first ≠ rest.getLastD entry := by
        rintro rfl
        exact outside (List.getLastD_mem_cons)
      refine ⟨⟨(next first apart List.mem_cons_self).trans segment.1.1, ?_⟩, ih segment.2 inner ?_ ?_ joined⟩
      · exact (prev entry List.mem_cons_self).trans segment.1.2
      · exact fun other away member => next other away (List.mem_cons_of_mem _ member)
      · exact fun other member => prev other (List.mem_cons_of_mem _ member)

end Segment

section ListAt

variable {heap heap' : Heap Addr} {head entry : Addr} {entries before after : List Addr}

/-- Every element of a circular list is the head of the others. -/
theorem ListAt.rotate (list : ListAt heap head (before ++ entry :: after)) :
    ListAt heap entry (after ++ head :: before) := by
  obtain ⟨front, back⟩ := segment_append.mp list.closed
  refine ⟨?_, segment_append.mpr ⟨back, front⟩⟩
  have same : head :: (before ++ entry :: after) = (head :: before) ++ (entry :: after) := rfl
  have turned : (entry :: after) ++ (head :: before) = entry :: (after ++ head :: before) := rfl
  rw [← turned]
  exact List.nodup_append_comm.mp (same ▸ list.distinct)

theorem ListAt.congr (list : ListAt heap head entries) (same : ∀ entry ∈ head :: entries, heap' entry = heap entry) :
    ListAt heap' head entries :=
  ⟨list.distinct, list.closed.congr (fun entry member => by rw [nextOf, nextOf, same entry member])
    fun entry member => by rw [prevOf, prevOf, same entry member]⟩

theorem ListAt.next_head (list : ListAt heap head entries) : nextOf heap head = some (entries.headD head) := by
  cases entries with
  | nil => exact list.closed.1
  | cons entry rest => exact list.closed.1.1

theorem ListAt.next_of (before : List Addr) (list : ListAt heap head (before ++ entry :: after)) :
    nextOf heap entry = some (after.headD head) := by
  rw [list.rotate.next_head]
  cases after <;> rfl

theorem ListAt.prev_head (list : ListAt heap head entries) : prevOf heap head = some (entries.getLastD head) :=
  list.closed.joined_last.2

theorem ListAt.links_head (list : ListAt heap head entries) :
    heap head = some ⟨entries.headD head, entries.getLastD head⟩ := by
  obtain ⟨links, found, next⟩ := Option.map_eq_some_iff.mp list.next_head
  obtain ⟨links', found', prev⟩ := Option.map_eq_some_iff.mp list.prev_head
  rw [found] at found'
  obtain rfl := Option.some.inj found'
  rw [found, ← next, ← prev]

end ListAt

variable [DecidableEq Addr]

def setNext (heap : Heap Addr) (ptr next : Addr) : Option (Heap Addr) :=
  (heap ptr).map fun links => Function.update heap ptr (some { links with next })

def setPrev (heap : Heap Addr) (ptr prev : Addr) : Option (Heap Addr) :=
  (heap ptr).map fun links => Function.update heap ptr (some { links with prev })

def initListHead (heap : Heap Addr) (ptr : Addr) : Heap Addr := Function.update heap ptr (some ⟨ptr, ptr⟩)

/-- A new element, whose own pointers are not set yet, goes between two that follow each other. -/
def listAddBetween (heap : Heap Addr) (new prev next : Addr) : Option (Heap Addr) :=
  (setPrev heap next new).bind fun heap => setNext (Function.update heap new (some ⟨next, prev⟩)) prev new

def listAddTail (heap : Heap Addr) (new head : Addr) : Option (Heap Addr) :=
  (heap head).bind fun links => listAddBetween heap new links.prev head

def listDel (heap : Heap Addr) (entry : Addr) : Option (Heap Addr) :=
  (heap entry).bind fun links =>
    (setPrev heap links.next links.prev).bind fun heap => setNext heap links.prev links.next

def listEmpty (heap : Heap Addr) (head : Addr) : Option Bool := (heap head).map fun links => links.next = head

/-- The elements from a pointer on until the head comes. -/
def elementsFrom (heap : Heap Addr) (head : Addr) : Nat → Addr → Option (List Addr)
  | 0, entry => if entry = head then some [] else none
  | fuel + 1, entry =>
      if entry = head then some []
      else (heap entry).bind fun links => (elementsFrom heap head fuel links.next).map (entry :: ·)

/-- The elements of a list from the first one on. -/
def elements (fuel : Nat) (heap : Heap Addr) (head : Addr) : Option (List Addr) :=
  (heap head).bind fun links => elementsFrom heap head fuel links.next

section Pointers

variable {heap : Heap Addr} {ptr : Addr} {links : Links Addr}

theorem nextOf_update :
    nextOf (Function.update heap ptr (some links)) = Function.update (nextOf heap) ptr links.next := by
  funext other
  by_cases here : other = ptr
  · rw [here, nextOf, Function.update_self, Function.update_self]
    rfl
  · rw [nextOf, Function.update_of_ne here, Function.update_of_ne here, nextOf]

theorem prevOf_update :
    prevOf (Function.update heap ptr (some links)) = Function.update (prevOf heap) ptr links.prev := by
  funext other
  by_cases here : other = ptr
  · rw [here, prevOf, Function.update_self, Function.update_self]
    rfl
  · rw [prevOf, Function.update_of_ne here, Function.update_of_ne here, prevOf]

theorem setNext_effect (next : Addr) (there : (heap ptr).isSome) : ∃ heap', setNext heap ptr next = some heap' ∧
    nextOf heap' = Function.update (nextOf heap) ptr next ∧ prevOf heap' = prevOf heap ∧
    ∀ other ≠ ptr, heap' other = heap other := by
  obtain ⟨links, found⟩ := Option.isSome_iff_exists.mp there
  refine ⟨_, by rw [setNext, found, Option.map_some], nextOf_update, ?_,
    fun other away => Function.update_of_ne away _ _⟩
  have same : prevOf heap ptr = some links.prev := by rw [prevOf, found, Option.map_some]
  rw [prevOf_update, ← same, Function.update_eq_self]

theorem setPrev_effect (prev : Addr) (there : (heap ptr).isSome) : ∃ heap', setPrev heap ptr prev = some heap' ∧
    nextOf heap' = nextOf heap ∧ prevOf heap' = Function.update (prevOf heap) ptr prev ∧
    ∀ other ≠ ptr, heap' other = heap other := by
  obtain ⟨links, found⟩ := Option.isSome_iff_exists.mp there
  refine ⟨_, by rw [setPrev, found, Option.map_some], ?_, prevOf_update,
    fun other away => Function.update_of_ne away _ _⟩
  have same : nextOf heap ptr = some links.next := by rw [nextOf, found, Option.map_some]
  rw [nextOf_update, ← same, Function.update_eq_self]

end Pointers

section Operations

variable {heap : Heap Addr} {head new entry : Addr} {entries before after : List Addr}

omit [DecidableEq Addr] in
theorem ListAt.alone (self : heap head = some ⟨head, head⟩) : ListAt heap head [] :=
  ⟨List.nodup_singleton head, by rw [nextOf, self, Option.map_some], by rw [prevOf, self, Option.map_some]⟩

theorem ListAt.initListHead : ListAt (initListHead heap head) head [] := ListAt.alone (Function.update_self _ _ _)

/-- Many heads are set up, and some of them may have been before. -/
theorem initListHeads_self {heads : List Addr} (there : heap head = some ⟨head, head⟩ ∨ head ∈ heads) :
    heads.foldl Circular.initListHead heap head = some ⟨head, head⟩ := by
  induction heads generalizing heap with
  | nil => exact there.resolve_right List.not_mem_nil
  | cons first rest ih =>
      refine ih ?_
      by_cases here : head = first
      · exact Or.inl (here ▸ Function.update_self _ _ _)
      · exact there.imp (Function.update_of_ne here _ _).trans fun inside => (List.mem_cons.mp inside).resolve_left here

theorem ListAt.listEmpty (list : ListAt heap head entries) : listEmpty heap head = some entries.isEmpty := by
  rw [Circular.listEmpty, list.links_head, Option.map_some]
  cases entries with
  | nil => simp
  | cons entry rest =>
      have apart : entry ≠ head := fun same => (List.nodup_cons.mp list.distinct).1 (same ▸ List.mem_cons_self)
      simp [apart]

/-- The new element becomes the last one. -/
theorem ListAt.listAddTail (list : ListAt heap head entries) (fresh : new ∉ head :: entries) :
    ∃ heap', listAddTail heap new head = some heap' ∧ ListAt heap' head (entries ++ [new]) ∧
      ∀ other ∉ new :: head :: entries, heap' other = heap other := by
  obtain ⟨joined, back⟩ := list.closed.joined_last
  have member : entries.getLastD head ∈ head :: entries := List.getLastD_mem_cons
  have away : entries.getLastD head ≠ new := fun same => fresh (same ▸ member)
  have apart : head ≠ new := fun same => fresh (same ▸ List.mem_cons_self)
  obtain ⟨heap₁, first, next₁, prev₁, rest₁⟩ := setPrev_effect new (Option.isSome_of_eq_some list.links_head)
  have still : (Function.update heap₁ new (some ⟨head, entries.getLastD head⟩) (entries.getLastD head)).isSome := by
    rw [Function.update_of_ne away, ← Option.isSome_map (f := Links.next)]
    exact Option.isSome_of_eq_some ((congrFun next₁ _).trans joined)
  obtain ⟨heap₂, second, next₂, prev₂, rest₂⟩ := setNext_effect new still
  rw [nextOf_update, next₁] at next₂
  rw [prevOf_update, prev₁] at prev₂
  refine ⟨heap₂, ?_, ⟨?_, segment_append.mpr ⟨list.closed.retarget list.distinct ?_ ?_ ⟨?_, ?_⟩, ?_, ?_⟩⟩, ?_⟩
  · rw [Circular.listAddTail, list.links_head, Option.bind_some, listAddBetween, first, Option.bind_some, second]
  · have turned : ([new] ++ head :: entries).Nodup := List.nodup_cons.mpr ⟨fresh, list.distinct⟩
    exact List.nodup_append_comm.mp turned
  · intro other off inside
    have old : other ≠ new := fun same => fresh (same ▸ inside)
    rw [next₂, Function.update_of_ne off, Function.update_of_ne old]
  · intro other inside
    have off : other ≠ head := fun same => (List.nodup_cons.mp list.distinct).1 (same ▸ inside)
    have old : other ≠ new := fun same => fresh (same ▸ List.mem_cons_of_mem _ inside)
    rw [prev₂, Function.update_of_ne old, Function.update_of_ne off]
  · rw [next₂, Function.update_self]
  · rw [prev₂, Function.update_self]
  · rw [next₂, Function.update_of_ne away.symm, Function.update_self]
  · rw [prev₂, Function.update_of_ne apart, Function.update_self]
  · intro other off
    rw [List.mem_cons, List.mem_cons, not_or, not_or] at off
    have old : other ≠ entries.getLastD head := by
      rintro rfl
      exact (List.mem_cons.mp member).elim off.2.1 off.2.2
    rw [rest₂ other old, Function.update_of_ne off.1, rest₁ other off.2.1]

/-- The head of a list leaves it to the first element. -/
theorem ListAt.listDel_head {rest : List Addr} (list : ListAt heap head (entry :: rest)) :
    ∃ heap', listDel heap head = some heap' ∧ ListAt heap' entry rest ∧
      ∀ other ∉ entry :: rest, heap' other = heap other := by
  obtain ⟨outside, distinct⟩ := List.nodup_cons.mp list.distinct
  have segment : Segment heap entry rest head := list.closed.2
  obtain ⟨joined, back⟩ := segment.joined_last
  have member : rest.getLastD entry ∈ entry :: rest := List.getLastD_mem_cons
  obtain ⟨links, found, -⟩ := Option.map_eq_some_iff.mp list.closed.1.2
  obtain ⟨heap₁, first, next₁, prev₁, rest₁⟩ := setPrev_effect (rest.getLastD entry)
    (Option.isSome_of_eq_some found)
  have still : (heap₁ (rest.getLastD entry)).isSome := by
    rw [← Option.isSome_map (f := Links.next)]
    exact Option.isSome_of_eq_some ((congrFun next₁ _).trans joined)
  obtain ⟨heap₂, second, next₂, prev₂, rest₂⟩ := setNext_effect entry still
  rw [next₁] at next₂
  rw [prev₁] at prev₂
  refine ⟨heap₂, ?_, ⟨distinct, segment.retarget distinct ?_ ?_ ⟨?_, ?_⟩⟩, ?_⟩
  · rw [listDel, list.links_head, Option.bind_some, List.headD_cons, List.getLastD_cons, first, Option.bind_some,
      second]
  · intro other off inside
    rw [next₂, Function.update_of_ne off]
  · intro other inside
    have off : other ≠ entry := fun same => (List.nodup_cons.mp distinct).1 (same ▸ inside)
    rw [prev₂, Function.update_of_ne off]
  · rw [next₂, Function.update_self]
  · rw [prev₂, Function.update_self]
  · intro other off
    have old : other ≠ rest.getLastD entry := fun same => off (same ▸ member)
    rw [rest₂ other old, rest₁ other fun same => off (same ▸ List.mem_cons_self)]

theorem ListAt.listDel (list : ListAt heap head (before ++ entry :: after)) :
    ∃ heap', listDel heap entry = some heap' ∧ ListAt heap' head (before ++ after) ∧
      ∀ other ∉ head :: (before ++ after), heap' other = heap other := by
  have turned := list.rotate
  cases after with
  | nil =>
      rw [List.append_nil]
      exact turned.listDel_head
  | cons second rest =>
      rw [List.cons_append] at turned
      obtain ⟨heap', deleted, left, frame⟩ := turned.listDel_head
      refine ⟨heap', deleted, left.rotate, fun other off => frame other fun inside => off ?_⟩
      simp only [List.mem_cons, List.mem_append] at inside ⊢
      tauto

theorem elementsFrom_segment {fuel : Nat} (segment : Segment heap entry entries head)
    (distinct : (head :: entry :: entries).Nodup) (enough : entries.length < fuel) :
    elementsFrom heap head fuel entry = some (entry :: entries) := by
  induction fuel generalizing entry entries with
  | zero => exact absurd enough (Nat.not_lt_zero _)
  | succ fuel ih =>
      obtain ⟨outside, inner⟩ := List.nodup_cons.mp distinct
      have apart : entry ≠ head := fun same => outside (same ▸ List.mem_cons_self)
      rw [elementsFrom, if_neg apart]
      cases entries with
      | nil =>
          obtain ⟨links, found, next⟩ := Option.map_eq_some_iff.mp segment.1
          rw [found, Option.bind_some, next]
          cases fuel <;> rw [elementsFrom, if_pos rfl] <;> rfl
      | cons second rest =>
          obtain ⟨links, found, next⟩ := Option.map_eq_some_iff.mp segment.1.1
          have shorter : (head :: second :: rest).Nodup :=
            List.nodup_cons.mpr ⟨fun inside => outside (List.mem_cons_of_mem _ inside), (List.nodup_cons.mp inner).2⟩
          rw [found, Option.bind_some, next, ih segment.2 shorter (Nat.lt_of_succ_lt_succ enough), Option.map_some]

/-- A walk through the list visits its elements. -/
theorem ListAt.elements {fuel : Nat} (list : ListAt heap head entries) (enough : entries.length ≤ fuel) :
    elements fuel heap head = some entries := by
  rw [Circular.elements, list.links_head, Option.bind_some]
  cases entries with
  | nil => cases fuel <;> rw [elementsFrom] <;> exact if_pos rfl
  | cons entry rest => exact elementsFrom_segment list.closed.2 list.distinct enough

end Operations

end Xcpu.Circular
