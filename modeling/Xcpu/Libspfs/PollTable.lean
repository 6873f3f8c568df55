import Mathlib.Data.List.ReduceOption
import Xcpu.Lib.Cells
import Xcpu.Lib.Linked
import Xcpu.Lib.Transition

/-!
The table of the poll loop: two arrays side by side, the descriptors and what `poll` is told of them, and a queue of
descriptors that wait for a place. An update frees the removed ones, fills their places from the queue, moves others
down and makes the arrays larger, and each descriptor points to its place.
-/

namespace Xcpu.Libspfs.PollTable

open Xcpu.Cells (store)
open Xcpu.Linked (Path)
open Xcpu.Transition (Guarded EachStep eachStep_of_progress)

variable {Notify Aux : Type}

/-- `struct pollfd`; what was never written is `none`. -/
structure Pollfd where
  fd : Option Int32 := none
  events : Option UInt16 := none
  revents : Option UInt16 := none
  deriving DecidableEq

/-- A descriptor. `removed` is the bit `Removed` of its flags, and `pfd` is the array that it points into with the
place there. -/
structure Spfd (Notify Aux : Type) where
  fd : Int32
  removed : Bool
  aux : Aux
  notify : Notify
  pfd : Option (Nat × Nat)
  next : Option Nat

abbrev Heap (Notify Aux : Type) := Nat → Option (Spfd Notify Aux)

/-- The table, with the address of the array `fds`, and the descriptors in memory. `made` is the number of
descriptors that there have been, which the queue is never longer than, and `freed` are the calls of `free`. -/
structure Spolltbl (Notify Aux : Type) where
  fdnum : Nat := 0
  fdsize : Nat := 0
  spfds : List (Option Nat) := []
  block : Nat := 0
  fds : List Pollfd := []
  pend : Option Nat := none
  modified : Bool := false
  heap : Heap Notify Aux := fun _ => none
  made : Nat := 0
  freed : List Nat := []

def chunkSize : Nat := 4

/-- `POLLIN | POLLOUT` -/
def pollInOut : UInt16 := 5

/-- `spfd_add` with what the allocation gives: an address that is not in use, or none. -/
def spfdAdd (ptbl : Spolltbl Notify Aux) (fd : Int32) (notify : Notify) (aux : Aux) (malloc : Option Nat) :
    Spolltbl Notify Aux × Option Nat :=
  match malloc.filter fun spfd => (ptbl.heap spfd).isNone with
  | none => (ptbl, none)
  | some spfd =>
      ({ ptbl with
          heap := Function.update ptbl.heap spfd (some ⟨fd, false, aux, notify, none, ptbl.pend⟩)
          pend := some spfd
          modified := true
          made := ptbl.made + 1 }, some spfd)

/-- The flag is set in a descriptor, which must be in memory. -/
def markRemoved (heap : Heap Notify Aux) (spfd : Nat) : Option (Heap Notify Aux) :=
  (heap spfd).map fun record => Function.update heap spfd (some { record with removed := true })

def spfdRemove (ptbl : Spolltbl Notify Aux) (spfd : Nat) : Option (Spolltbl Notify Aux) :=
  (markRemoved ptbl.heap spfd).map fun heap => { ptbl with heap, modified := true }

/-- The loop of `spfd_remove_all`; a null pointer is followed too. -/
def markAll : Nat → List (Option Nat) → Heap Notify Aux → Option (Heap Notify Aux)
  | 0, _, heap => some heap
  | n + 1, some spfd :: slots, heap => (markRemoved heap spfd).bind (markAll n slots)
  | _, _, _ => none

/-- The descriptors in the table, but not those in the queue. -/
def spfdRemoveAll (ptbl : Spolltbl Notify Aux) : Option (Spolltbl Notify Aux) :=
  (markAll ptbl.fdnum ptbl.spfds ptbl.heap).map fun heap => { ptbl with heap, modified := true }

/-- The removed descriptors in the table are freed. -/
@[simp]
def sweep : Nat → List (Option Nat) → Heap Notify Aux → Option (List (Option Nat) × Heap Notify Aux × List Nat)
  | 0, slots, heap => some (slots, heap, [])
  | _ + 1, [], _ => none
  | n + 1, none :: slots, heap => (sweep n slots heap).map fun (slots, heap, freed) => (none :: slots, heap, freed)
  | n + 1, some spfd :: slots, heap =>
      match heap spfd with
      | none => none
      | some record =>
          if record.removed then
            (sweep n slots (Function.update heap spfd none)).map fun (slots, heap, freed) =>
              (none :: slots, heap, spfd :: freed)
          else (sweep n slots heap).map fun (slots, heap, freed) => (some spfd :: slots, heap, freed)

/-- The removed descriptors in the queue are freed, with `pspfd` and `spfd` of the loop. -/
@[simp]
def prune : Nat → Heap Notify Aux → Option Nat → Option Nat → Option Nat →
    Option (Heap Notify Aux × Option Nat × List Nat)
  | _, heap, pend, _, none => some (heap, pend, [])
  | 0, _, _, _, some _ => none
  | fuel + 1, heap, pend, pspfd, some spfd =>
      match heap spfd with
      | none => none
      | some record =>
          if record.removed then
            match pspfd with
            | none =>
                (prune fuel (Function.update heap spfd none) record.next none record.next).map
                  fun (heap, pend, freed) => (heap, pend, spfd :: freed)
            | some before =>
                match heap before with
                | none => none
                | some previous =>
                    (prune fuel
                      (Function.update (Function.update heap before (some { previous with next := record.next })) spfd
                        none)
                      pend (some before) record.next).map fun (heap, pend, freed) => (heap, pend, spfd :: freed)
          else prune fuel heap pend (some spfd) record.next

/-- A descriptor of the queue gets a place: what is written for it, and what is behind it in the queue. -/
def put (block i : Nat) (pollfd : Pollfd) (heap : Heap Notify Aux) (pspfd : Nat) :
    Option (Pollfd × Heap Notify Aux × Option Nat) :=
  (heap pspfd).map fun record =>
    ({ pollfd with fd := some record.fd, events := some pollInOut },
      Function.update heap pspfd (some { record with pfd := some (block, i) }), record.next)

/-- The holes from a place on are filled from the queue; the place where that stops comes last. -/
@[simp]
def fill (block : Nat) : Nat → Nat → List (Option Nat) → List Pollfd → Heap Notify Aux → Option Nat →
    Option (List (Option Nat) × List Pollfd × Heap Notify Aux × Option Nat × Nat)
  | _, i, slots, fds, heap, none => some (slots, fds, heap, none, i)
  | 0, i, slots, fds, heap, some pspfd => some (slots, fds, heap, some pspfd, i)
  | left + 1, i, none :: slots, pollfd :: fds, heap, some pspfd =>
      (put block i pollfd heap pspfd).bind fun (pollfd, heap, next) =>
        (fill block left (i + 1) slots fds heap next).map fun (slots, fds, rest) =>
          (some pspfd :: slots, pollfd :: fds, rest)
  | left + 1, i, some spfd :: slots, pollfd :: fds, heap, some pspfd =>
      (fill block left (i + 1) slots fds heap (some pspfd)).map fun (slots, fds, rest) =>
        (some spfd :: slots, pollfd :: fds, rest)
  | _, _, _, _, _, some _ => none

/-- What is left is moved down over the holes. -/
@[simp]
def compact (block : Nat) : Nat → Nat → Nat → List (Option Nat) → List Pollfd → Heap Notify Aux →
    Option (List (Option Nat) × List Pollfd × Heap Notify Aux × Nat)
  | 0, _, n, spfds, fds, heap => some (spfds, fds, heap, n)
  | left + 1, i, n, spfds, fds, heap =>
      match spfds[i]? with
      | none => none
      | some none => compact block left (i + 1) n spfds fds heap
      | some (some spfd) =>
          if i = n then compact block left (i + 1) (n + 1) spfds fds heap
          else
            match store spfds n (some spfd), heap spfd, fds[i]? with
            | some spfds, some record, some pollfd =>
                match store fds n pollfd, store spfds i none with
                | some fds, some spfds =>
                    compact block left (i + 1) (n + 1) spfds fds
                      (Function.update heap spfd (some { record with pfd := some (block, n) }))
                | _, _ => none
            | _, _, _ => none

/-- The length of the queue. -/
@[simp]
def countPending (heap : Heap Notify Aux) : Nat → Option Nat → Option Nat
  | _, none => some 0
  | 0, some _ => none
  | fuel + 1, some spfd =>
      match heap spfd with
      | none => none
      | some record => (countPending heap fuel record.next).map (· + 1)

/-- The first descriptors point into the array at its new address. -/
@[simp]
def relink (block : Nat) : Nat → Nat → List (Option Nat) → Heap Notify Aux → Option (Heap Notify Aux)
  | 0, _, _, heap => some heap
  | left + 1, i, some spfd :: slots, heap =>
      match heap spfd with
      | none => none
      | some record =>
          relink block left (i + 1) slots (Function.update heap spfd (some { record with pfd := some (block, i) }))
  | _, _, _, _ => none

/-- The rest of the queue goes behind, over whatever is there. -/
@[simp]
def place (block : Nat) : Nat → Nat → List (Option Nat) → List Pollfd → Heap Notify Aux → Option Nat →
    Option (List (Option Nat) × List Pollfd × Heap Notify Aux × Option Nat × Nat)
  | _, i, slots, fds, heap, none => some (slots, fds, heap, none, i)
  | 0, i, slots, fds, heap, some pspfd => some (slots, fds, heap, some pspfd, i)
  | left + 1, i, _ :: slots, pollfd :: fds, heap, some pspfd =>
      (put block i pollfd heap pspfd).bind fun (pollfd, heap, next) =>
        (place block left (i + 1) slots fds heap next).map fun (slots, fds, rest) =>
          (some pspfd :: slots, pollfd :: fds, rest)
  | _, _, _, _, _, some _ => none

/-- The arrays where they are, or larger and `fds` at the address that `realloc` gives. -/
def grow (realloc m n : Nat) (ptbl : Spolltbl Notify Aux) : Option (Spolltbl Notify Aux) :=
  if ptbl.fdsize < m then
    (relink realloc n 0 ptbl.spfds ptbl.heap).map fun heap =>
      { ptbl with
        block := realloc
        fds := ptbl.fds ++ List.replicate (m - ptbl.fdsize) {}
        spfds := ptbl.spfds ++ List.replicate (m - ptbl.fdsize) none
        heap
        fdsize := m }
  else some ptbl

/-- `sp_poll_update_table`; the allocations succeed. -/
def updateTable (ptbl : Spolltbl Notify Aux) (realloc : Nat) : Option (Spolltbl Notify Aux) := do
  let (spfds, heap, freed) ← sweep ptbl.fdnum ptbl.spfds ptbl.heap
  let (heap, pend, pruned) ← prune ptbl.made heap ptbl.pend none ptbl.pend
  let (spfds, fds, heap, pspfd, i) ← fill ptbl.block ptbl.fdsize 0 spfds ptbl.fds heap pend
  let (spfds, fds, heap, n) ← compact ptbl.block (ptbl.fdnum - i) i i spfds fds heap
  let left ← countPending heap ptbl.made pspfd
  let ptbl ← grow realloc (n + left + chunkSize - (n + left) % chunkSize) n
    { ptbl with spfds, fds, heap, freed := ptbl.freed ++ freed ++ pruned }
  let (slots, pollfds, heap, pspfd, i) ←
    place ptbl.block (ptbl.fdsize - n) n (ptbl.spfds.drop n) (ptbl.fds.drop n) ptbl.heap pspfd
  return { ptbl with
    spfds := ptbl.spfds.take n ++ slots
    fds := ptbl.fds.take n ++ pollfds
    heap
    pend := pspfd
    fdnum := i
    modified := false }

/-- The descriptors in memory are those in the slots, which point to their places, and those in the queue. -/
structure Mid (block : Nat) (heap : Heap Notify Aux) (slots : List (Option Nat)) (fds : List Pollfd)
    (pending : List Nat) : Prop where
  sizes : fds.length = slots.length
  place : ∀ i spfd, slots[i]? = some (some spfd) → ∃ record, heap spfd = some record ∧
    record.pfd = some (block, i) ∧ (fds[i]?).bind Pollfd.fd = some record.fd
  queue : Path (fun spfd => (heap spfd).bind Spfd.next) none pending
  distinct : pending.Nodup
  exact : ∀ spfd, (heap spfd).isSome ↔ some spfd ∈ slots ∨ spfd ∈ pending
  apart : ∀ spfd, some spfd ∈ slots → spfd ∉ pending

theorem getElem?_around {Cell : Type} (front back : List Cell) (x y : Cell) {i : Nat} (other : i ≠ front.length) :
    (front ++ x :: back)[i]? = (front ++ y :: back)[i]? := by
  have set : (front ++ y :: back).set front.length x = front ++ x :: back := by simp
  rw [← set, List.getElem?_set_ne other.symm]

section Mid

variable {block spfd p : Nat} {heap : Heap Notify Aux} {slots front : List (Option Nat)} {fds ffront : List Pollfd}
  {pollfd : Pollfd} {pending : List Nat} {slot : Option Nat}

/-- A descriptor is in one slot only. -/
theorem Mid.unique (mid : Mid block heap slots fds pending) {i j : Nat} (first : slots[i]? = some (some spfd))
    (second : slots[j]? = some (some spfd)) : i = j := by
  obtain ⟨record, there, here, -⟩ := mid.place i spfd first
  obtain ⟨other, there', here', -⟩ := mid.place j spfd second
  rw [there, Option.some.injEq] at there'
  rw [← there', here, Option.some.injEq, Prod.mk.injEq] at here'
  exact here'.2

theorem Mid.pending_live (mid : Mid block heap slots fds (p :: pending)) :
    ∃ record, heap p = some record ∧ record.next = pending.head? := by
  obtain ⟨record, there⟩ := Option.isSome_iff_exists.mp ((mid.exact p).mpr (.inr List.mem_cons_self))
  refine ⟨record, there, ?_⟩
  have next : (heap p).bind Spfd.next = pending.head?.or none := mid.queue.1
  rwa [there, Option.or_none] at next

/-- The first descriptor of the queue gets an empty slot. -/
theorem Mid.put (mid : Mid block heap (front ++ none :: slots) (ffront ++ pollfd :: fds) (p :: pending))
    (same : ffront.length = front.length) :
    ∃ pollfd' heap', put block front.length pollfd heap p = some (pollfd', heap', pending.head?) ∧
      Mid block heap' (front ++ some p :: slots) (ffront ++ pollfd' :: fds) pending ∧
      ∀ {Label : Type} (tag : Spfd Notify Aux → Label), (∀ record pfd, tag { record with pfd } = tag record) →
        ∀ other, (heap' other).map tag = (heap other).map tag := by
  obtain ⟨record, there, next⟩ := mid.pending_live
  have outside : some p ∉ front ++ none :: slots := fun among => mid.apart p among List.mem_cons_self
  obtain ⟨alone, distinct⟩ := List.nodup_cons.mp mid.distinct
  have others : ∀ other, other ≠ p →
      Function.update heap p (some { record with pfd := some (block, front.length) }) other = heap other :=
    fun other different => Function.update_of_ne different _ _
  refine ⟨{ pollfd with fd := some record.fd, events := some pollInOut },
    Function.update heap p (some { record with pfd := some (block, front.length) }), ?_,
    ⟨?_, ?_, ?_, distinct, ?_, ?_⟩, ?_⟩
  · rw [PollTable.put, there, Option.map_some, next]
  · have sizes := mid.sizes
    rw [List.length_append, List.length_cons, List.length_append, List.length_cons] at sizes ⊢
    exact sizes
  · intro i spfd here
    by_cases this : i = front.length
    · rw [this, List.getElem?_append_right (Nat.le_refl _), Nat.sub_self, List.getElem?_cons_zero, Option.some.injEq,
        Option.some.injEq] at here
      subst here
      refine ⟨_, Function.update_self _ _ _, by rw [this], ?_⟩
      rw [this, ← same, List.getElem?_append_right (Nat.le_refl _), Nat.sub_self, List.getElem?_cons_zero]
      rfl
    · rw [getElem?_around front slots (some p) none this] at here
      obtain ⟨other, there', pfd, fd⟩ := mid.place i spfd here
      refine ⟨other, ?_, pfd, ?_⟩
      · rw [others spfd fun equal => outside (equal ▸ List.mem_of_getElem? here), there']
      · rw [getElem?_around ffront fds _ pollfd (same ▸ this)]
        exact fd
  · refine mid.queue.2.congr fun other among => ?_
    rw [others other fun equal => alone (equal ▸ among)]
  · intro other
    by_cases this : other = p
    · subst this
      rw [Function.update_self]
      exact iff_of_true rfl (.inl (List.mem_append_right _ List.mem_cons_self))
    · rw [others other this, mid.exact other]
      simp [this]
  · intro other among inside
    have different : other ≠ p := fun equal => alone (equal ▸ inside)
    refine mid.apart other ?_ (List.mem_cons_of_mem p inside)
    simpa [different] using among
  · intro Label tag blind other
    by_cases this : other = p
    · rw [this, Function.update_self, there, Option.map_some, Option.map_some, blind]
    · rw [others other this]

/-- The loop over the holes: it stops behind the last slot or when the queue is empty, with no hole before. -/
theorem Mid.fill (mid : Mid block heap (front ++ slots) (ffront ++ fds) pending) (same : ffront.length = front.length)
    (full : none ∉ front) :
    ∃ slots' fds' heap' pending' i, fill block slots.length front.length slots fds heap pending.head? =
        some (slots', fds', heap', pending'.head?, i) ∧
      Mid block heap' (front ++ slots') (ffront ++ fds') pending' ∧ slots'.length = slots.length ∧
      none ∉ (front ++ slots').take i ∧ (front ++ slots').drop i = (front ++ slots).drop i ∧
      (pending' = [] ∨ i = front.length + slots.length) ∧ front.length ≤ i ∧ i ≤ front.length + slots.length ∧
      pending' <:+ pending ∧
      ∀ {Label : Type} (tag : Spfd Notify Aux → Label), (∀ record pfd, tag { record with pfd } = tag record) →
        ∀ other, (heap' other).map tag = (heap other).map tag := by
  induction slots generalizing front ffront fds heap pending with
  | nil =>
      refine ⟨[], fds, heap, pending, front.length, ?_, mid, rfl, ?_, rfl, .inr rfl, Nat.le_refl _,
        Nat.le_refl _, List.suffix_rfl, fun _ _ _ => rfl⟩
      · cases pending <;> simp
      · rw [List.append_nil, List.take_length]
        exact full
  | cons slot slots ih =>
      cases pending with
      | nil =>
          refine ⟨slot :: slots, fds, heap, [], front.length, by simp, mid, rfl, ?_, rfl, .inl rfl,
            Nat.le_refl _, by omega, List.suffix_rfl, fun _ _ _ => rfl⟩
          rw [List.take_left]
          exact full
      | cons p pending =>
          have sizes := mid.sizes
          rw [List.length_append, List.length_append, List.length_cons, same] at sizes
          obtain ⟨pollfd, fds, rfl⟩ : ∃ pollfd rest, fds = pollfd :: rest :=
            List.exists_cons_of_length_pos (by omega)
          have more : ∀ q, none ∉ front ++ [some q] := fun q among => by simp [full] at among
          have longer : ∀ q : Option Nat, (front ++ [q]).length = front.length + 1 := fun q => by simp
          cases slot with
          | none =>
              obtain ⟨pollfd', heap₁, putted, mid', kept'⟩ := mid.put same
              rw [← List.singleton_append, ← List.append_assoc, ← List.singleton_append (l := fds),
                ← List.append_assoc] at mid'
              obtain ⟨slots', fds', heap', pending', i, filled, mid'', size, none, drop, stops, low, high, suffix,
                kept⟩ := ih mid' (by simp [same]) (more p)
              rw [longer] at filled stops low high
              refine ⟨some p :: slots', pollfd' :: fds', heap', pending', i, ?_, ?_, by simp [size], ?_, ?_, ?_,
                by omega, by rw [List.length_cons]; omega, suffix.trans (List.suffix_cons p pending), ?_⟩
              · rw [List.length_cons, List.head?_cons, PollTable.fill, putted, Option.bind_some]
                dsimp only
                rw [filled, Option.map_some]
              · simpa using mid''
              · simpa using none
              · rw [List.append_assoc, List.singleton_append, List.append_assoc, List.singleton_append] at drop
                rw [drop, List.drop_append, List.drop_append, ← Nat.sub_add_cancel (Nat.sub_pos_of_lt low),
                  List.drop_succ_cons, List.drop_succ_cons]
              · exact stops.imp_right fun equal => by rw [equal, List.length_cons, Nat.add_assoc, Nat.add_comm 1]
              · intro Label tag blind other
                rw [kept tag blind, kept' tag blind]
          | some spfd =>
              rw [← List.singleton_append, ← List.append_assoc, ← List.singleton_append (l := fds),
                ← List.append_assoc] at mid
              obtain ⟨slots', fds', heap', pending', i, filled, mid', size, none, drop, stops, low, high, suffix,
                kept⟩ := ih mid (by simp [same]) (more spfd)
              rw [longer] at filled stops low high
              refine ⟨some spfd :: slots', pollfd :: fds', heap', pending', i, ?_, ?_, by simp [size], ?_, ?_, ?_,
                by omega, by rw [List.length_cons]; omega, suffix, kept⟩
              · rw [List.length_cons, List.head?_cons, PollTable.fill]
                rw [List.head?_cons] at filled
                rw [filled, Option.map_some]
              · simpa using mid'
              · simpa using none
              · simpa using drop
              · exact stops.imp_right fun equal => by rw [equal, List.length_cons, Nat.add_assoc, Nat.add_comm 1]

/-- A descriptor moves to an empty slot. -/
theorem Mid.move (mid : Mid block heap slots fds pending) {i n : Nat} (hole : slots[n]? = some none)
    (here : slots[i]? = some (some spfd)) :
    ∃ record pollfd, heap spfd = some record ∧ fds[i]? = some pollfd ∧
      Mid block (Function.update heap spfd (some { record with pfd := some (block, n) }))
        ((slots.set n (some spfd)).set i none) (fds.set n pollfd) pending := by
  obtain ⟨record, there, pfd, fd⟩ := mid.place i spfd here
  obtain ⟨pollfd, told, number⟩ := Option.bind_eq_some_iff.mp fd
  have apart : i ≠ n := by
    rintro rfl
    rw [hole] at here
    cases here
  have low : n < slots.length := (List.getElem?_eq_some_iff.mp hole).1
  have others : ∀ other, other ≠ spfd →
      Function.update heap spfd (some { record with pfd := some (block, n) }) other = heap other :=
    fun other different => Function.update_of_ne different _ _
  have moved : ∀ j, ((slots.set n (some spfd)).set i none)[j]? =
      if j = n then some (some spfd) else if j = i then some none else slots[j]? := by
    intro j
    have size := (List.getElem?_eq_some_iff.mp here).1
    rw [List.getElem?_set, List.length_set, List.getElem?_set]
    by_cases first : j = n
    · subst first
      simp [apart, low]
    · by_cases second : j = i
      · subst second
        simp [first, size]
      · simp [first, second, Ne.symm first, Ne.symm second]
  have among : ∀ other, some other ∈ (slots.set n (some spfd)).set i none ↔ some other ∈ slots := by
    intro other
    simp only [List.mem_iff_getElem?, moved]
    constructor
    · rintro ⟨j, found⟩
      split at found
      · exact ⟨i, by rw [here]; exact found⟩
      · split at found
        · cases found
        · exact ⟨j, found⟩
    · rintro ⟨j, found⟩
      by_cases this : j = i
      · refine ⟨n, ?_⟩
        rw [if_pos rfl, ← found, this, here]
      · refine ⟨j, ?_⟩
        rw [if_neg, if_neg this, found]
        rintro rfl
        rw [hole] at found
        cases found
  refine ⟨record, pollfd, there, told, ?_, ?_, ?_, mid.distinct, ?_, ?_⟩
  · rw [List.length_set, List.length_set, List.length_set, mid.sizes]
  · intro j other found
    rw [moved] at found
    by_cases first : j = n
    · rw [if_pos first, Option.some.injEq, Option.some.injEq] at found
      subst found
      refine ⟨_, Function.update_self _ _ _, by rw [first], ?_⟩
      rw [first, List.getElem?_set_self (mid.sizes ▸ low), Option.bind_some]
      exact number
    · rw [if_neg first] at found
      split at found
      · cases found
      · rename_i second
        obtain ⟨record', there', pfd', fd'⟩ := mid.place j other found
        refine ⟨record', ?_, pfd', ?_⟩
        · rw [others other fun equal => second (mid.unique (equal ▸ found) here), there']
        · rw [List.getElem?_set_ne (Ne.symm first)]
          exact fd'
  · refine mid.queue.congr fun other inside => ?_
    rw [others other fun equal => mid.apart spfd (List.mem_of_getElem? here) (equal ▸ inside)]
  · intro other
    rw [among]
    by_cases this : other = spfd
    · subst this
      rw [Function.update_self]
      exact iff_of_true rfl (.inl (List.mem_of_getElem? here))
    · rw [others other this, mid.exact other]
  · intro other inside
    exact mid.apart other ((among other).mp inside)

theorem set_moved (kept : List Nat) (gap : Nat) (rest : List (Option Nat)) :
    ((kept.map some ++ (List.replicate (gap + 1) none ++ some spfd :: rest)).set kept.length (some spfd)).set
        (kept.length + (gap + 1)) none =
      (kept ++ [spfd]).map some ++ (List.replicate (gap + 1) none ++ rest) := by
  have first : (kept.map some ++ (List.replicate (gap + 1) none ++ some spfd :: rest)).set kept.length (some spfd) =
      (kept.map some ++ some spfd :: List.replicate gap none) ++ some spfd :: rest := by
    rw [List.replicate_succ, List.set_append_right _ _ (by simp), List.length_map, Nat.sub_self, List.cons_append,
      List.set_cons_zero, List.append_assoc, List.cons_append]
  have place : kept.length + (gap + 1) = (kept.map some ++ some spfd :: List.replicate gap none).length := by simp
  rw [first, place, List.set_append_right _ _ (Nat.le_refl _), Nat.sub_self, List.set_cons_zero,
    List.replicate_succ']
  simp

theorem Mid.compact {kept : List Nat} {gap : Nat} {rest tail : List (Option Nat)}
    (mid : Mid block heap (kept.map some ++ (List.replicate gap none ++ (rest ++ tail))) fds pending) :
    ∃ fds' heap' gap', compact block rest.length (kept.length + gap) kept.length
        (kept.map some ++ (List.replicate gap none ++ (rest ++ tail))) fds heap =
          some ((kept ++ rest.reduceOption).map some ++ (List.replicate gap' none ++ tail), fds', heap',
            (kept ++ rest.reduceOption).length) ∧
      Mid block heap' ((kept ++ rest.reduceOption).map some ++ (List.replicate gap' none ++ tail)) fds' pending ∧
      fds'.length = fds.length ∧
      ∀ {Label : Type} (tag : Spfd Notify Aux → Label), (∀ record pfd, tag { record with pfd } = tag record) →
        ∀ other, (heap' other).map tag = (heap other).map tag := by
  induction rest generalizing kept gap fds heap with
  | nil => exact ⟨fds, heap, gap, by simp, by simpa using mid, rfl, fun _ _ _ => rfl⟩
  | cons slot rest ih =>
      have slot_at : (kept.map some ++ (List.replicate gap none ++ (slot :: rest ++ tail)))[kept.length + gap]? =
          some slot := by
        rw [List.getElem?_append_right (by simp), List.getElem?_append_right (by simp)]
        simp
      cases slot with
      | none =>
          have same : List.replicate gap none ++ (none :: rest ++ tail) =
              List.replicate (gap + 1) (none : Option Nat) ++ (rest ++ tail) := by
            rw [List.replicate_succ', List.append_assoc, List.singleton_append, List.cons_append]
          rw [same] at mid slot_at ⊢
          obtain ⟨fds', heap', gap', compacted, mid', size, kept'⟩ := ih mid
          refine ⟨fds', heap', gap', ?_, by simpa using mid', size, kept'⟩
          rw [List.length_cons, PollTable.compact, slot_at, List.reduceOption_cons_of_none]
          exact compacted
      | some spfd =>
          have entries : kept ++ (some spfd :: rest).reduceOption = (kept ++ [spfd]) ++ rest.reduceOption := by simp
          have longer : (kept ++ [spfd]).length = kept.length + 1 := by simp
          rw [List.length_cons, PollTable.compact, slot_at, entries]
          dsimp only
          cases gap with
          | zero =>
              have same : kept.map some ++ (List.replicate 0 none ++ (some spfd :: rest ++ tail)) =
                  (kept ++ [spfd]).map some ++ (List.replicate 0 none ++ (rest ++ tail)) := by simp
              rw [same] at mid ⊢
              obtain ⟨fds', heap', gap', compacted, mid', size, kept'⟩ := ih mid
              refine ⟨fds', heap', gap', ?_, mid', size, kept'⟩
              rw [if_pos (Nat.add_zero _)]
              rwa [longer, Nat.add_right_comm] at compacted
          | succ gap =>
              have hole :
                  (kept.map some ++ (List.replicate (gap + 1) none ++ (some spfd :: rest ++ tail)))[kept.length]? =
                    some none := by
                rw [List.getElem?_append_right (by simp), List.length_map, Nat.sub_self]
                rfl
              obtain ⟨record, pollfd, there, told, moved⟩ := mid.move hole slot_at
              have low : kept.length <
                  (kept.map some ++ (List.replicate (gap + 1) none ++ (some spfd :: rest ++ tail))).length :=
                (List.getElem?_eq_some_iff.mp hole).1
              have high : kept.length + (gap + 1) <
                  (kept.map some ++ (List.replicate (gap + 1) none ++ (some spfd :: rest ++ tail))).length :=
                (List.getElem?_eq_some_iff.mp slot_at).1
              have stored := @set_moved spfd kept gap (rest ++ tail)
              rw [List.cons_append] at moved hole slot_at low high ⊢
              rw [stored] at moved
              obtain ⟨fds', heap', gap', compacted, mid', size, kept'⟩ := ih moved
              refine ⟨fds', heap', gap', ?_, mid', ?_, ?_⟩
              · rw [if_neg (by omega), store, if_pos low, there, told]
                dsimp only
                rw [store, if_pos (mid.sizes ▸ low), store, if_pos (by rw [List.length_set]; exact high), stored]
                dsimp only
                rw [longer, Nat.add_right_comm] at compacted
                rw [← compacted, Nat.add_assoc]
              · rw [size, List.length_set]
              · intro Label tag blind other
                rw [kept' tag blind]
                by_cases this : other = spfd
                · rw [this, Function.update_self, there, Option.map_some, Option.map_some, blind]
                · rw [Function.update_of_ne this]

theorem countPending_eq {fuel : Nat} (path : Path (fun spfd => (heap spfd).bind Spfd.next) none pending)
    (live : ∀ spfd ∈ pending, (heap spfd).isSome) (enough : pending.length ≤ fuel) :
    countPending heap fuel pending.head? = some pending.length := by
  induction pending generalizing fuel with
  | nil => cases fuel <;> rfl
  | cons p pending ih =>
      obtain ⟨fuel, rfl⟩ : ∃ n, fuel = n + 1 := ⟨fuel - 1, by rw [List.length_cons] at enough; omega⟩
      obtain ⟨record, there⟩ := Option.isSome_iff_exists.mp (live p List.mem_cons_self)
      have next : (heap p).bind Spfd.next = pending.head?.or none := path.1
      rw [there, Option.or_none, Option.bind_some] at next
      rw [List.head?_cons, countPending, there]
      dsimp only
      rw [next, ih path.2 (fun spfd among => live spfd (List.mem_cons_of_mem p among)) (Nat.le_of_succ_le_succ enough)]
      rfl

theorem packed_getElem? {tabled : List Nat} {gap i : Nat} :
    (tabled.map some ++ List.replicate gap none)[i]? = some (some spfd) ↔ tabled[i]? = some spfd := by
  by_cases inside : i < tabled.length
  · rw [List.getElem?_append_left (by simpa using inside)]
    simp
  · rw [List.getElem?_append_right (by simpa using inside), List.getElem?_replicate, List.length_map,
      List.getElem?_eq_none (by omega)]
    split <;> simp

theorem mem_packed {tabled : List Nat} {gap : Nat} :
    some spfd ∈ tabled.map some ++ List.replicate gap none ↔ spfd ∈ tabled := by simp

/-- The descriptors of a table without holes are distinct. -/
theorem Mid.tabled_nodup {tabled : List Nat} {gap : Nat}
    (mid : Mid block heap (tabled.map some ++ List.replicate gap none) fds pending) : tabled.Nodup := by
  refine List.nodup_iff_getElem?_ne_getElem?.mpr fun i j before low same => ?_
  have first : tabled[i]? = some (tabled.get ⟨i, by omega⟩) := List.getElem?_eq_getElem _
  have second := same ▸ first
  have equal := mid.unique (packed_getElem?.mpr first) (packed_getElem?.mpr second)
  omega

theorem relink_eq {tabled : List Nat} {tail : List (Option Nat)} (i : Nat) (live : ∀ spfd ∈ tabled, (heap spfd).isSome)
    (distinct : tabled.Nodup) :
    ∃ heap', relink block tabled.length i (tabled.map some ++ tail) heap = some heap' ∧
      (∀ other ∉ tabled, heap' other = heap other) ∧
      ∀ j spfd, tabled[j]? = some spfd →
        heap' spfd = (heap spfd).map fun record => { record with pfd := some (block, i + j) } := by
  induction tabled generalizing heap i with
  | nil => exact ⟨heap, rfl, fun _ _ => rfl, fun j spfd found => by simp at found⟩
  | cons first tabled ih =>
      obtain ⟨record, there⟩ := Option.isSome_iff_exists.mp (live first List.mem_cons_self)
      obtain ⟨alone, distinct⟩ := List.nodup_cons.mp distinct
      have others : ∀ other, other ≠ first →
          Function.update heap first (some { record with pfd := some (block, i) }) other = heap other :=
        fun other different => Function.update_of_ne different _ _
      have apart : ∀ other ∈ tabled, other ≠ first := fun other among equal => alone (equal ▸ among)
      obtain ⟨heap', linked, outside, placed⟩ := @ih (Function.update heap first (some { record with
        pfd := some (block, i) })) (i + 1) (fun other among => by
          rw [others other (apart other among)]
          exact live other (List.mem_cons_of_mem first among)) distinct
      refine ⟨heap', ?_, ?_, ?_⟩
      · rw [List.length_cons, List.map_cons, List.cons_append, relink, there]
        exact linked
      · intro other absent
        rw [outside other fun among => absent (List.mem_cons_of_mem first among),
          others other fun equal => absent (equal ▸ List.mem_cons_self)]
      · intro j spfd found
        cases j with
        | zero =>
            rw [List.getElem?_cons_zero, Option.some.injEq] at found
            subst found
            rw [outside first alone, Function.update_self, there]
            rfl
        | succ j =>
            rw [List.getElem?_cons_succ] at found
            rw [placed j spfd found, others spfd (apart spfd (List.mem_of_getElem? found)), Nat.add_right_comm,
              Nat.add_assoc]

/-- A descriptor in the table is freed. -/
theorem Mid.freeSlot (mid : Mid block heap (front ++ some spfd :: slots) fds pending) :
    Mid block (Function.update heap spfd none) (front ++ none :: slots) fds pending := by
  have here : (front ++ some spfd :: slots)[front.length]? = some (some spfd) := by simp
  have others : ∀ other, other ≠ spfd → Function.update heap spfd none other = heap other :=
    fun other different => Function.update_of_ne different _ _
  have left : ∀ i other : Nat, (front ++ none :: slots)[i]? = some (some other) →
      (front ++ some spfd :: slots)[i]? = some (some other) ∧ other ≠ spfd := by
    intro i other found
    by_cases this : i = front.length
    · rw [this, List.getElem?_append_right (Nat.le_refl _), Nat.sub_self, List.getElem?_cons_zero] at found
      simp at found
    · rw [getElem?_around front slots none (some spfd) this] at found
      exact ⟨found, fun equal => this (mid.unique (equal ▸ found) here)⟩
  have among : ∀ other : Nat,
      some other ∈ front ++ none :: slots ↔ some other ∈ front ++ some spfd :: slots ∧ other ≠ spfd := by
    refine fun other => ⟨fun inside => ?_, fun ⟨inside, different⟩ => ?_⟩
    · obtain ⟨i, found⟩ := List.mem_iff_getElem?.mp inside
      exact ⟨List.mem_of_getElem? (left i other found).1, (left i other found).2⟩
    · simpa [different] using inside
  have queued : spfd ∉ pending := mid.apart spfd (List.mem_of_getElem? here)
  refine ⟨?_, ?_, ?_, mid.distinct, ?_, ?_⟩
  · rw [mid.sizes, List.length_append, List.length_append, List.length_cons, List.length_cons]
  · intro i other found
    obtain ⟨found, different⟩ := left i other found
    obtain ⟨record, there, rest⟩ := mid.place i other found
    exact ⟨record, (others other different).trans there, rest⟩
  · refine mid.queue.congr fun other inside => ?_
    rw [others other fun equal => queued (equal ▸ inside)]
  · intro other
    by_cases this : other = spfd
    · subst this
      rw [Function.update_self, among]
      exact iff_of_false (by simp) fun either => either.elim (fun inside => inside.2 rfl) queued
    · rw [others other this, mid.exact other, among]
      simp [this]
  · exact fun other inside => mid.apart other ((among other).mp inside).1

/-- Whether a descriptor is marked. -/
def flagged (heap : Heap Notify Aux) (spfd : Nat) : Bool := (heap spfd).any Spfd.removed

theorem flagged_congr {heap' : Heap Notify Aux} {spfd : Nat}
    (same : (heap' spfd).map Spfd.removed = (heap spfd).map Spfd.removed) : flagged heap' spfd = flagged heap spfd := by
  have marks : ∀ heap : Heap Notify Aux, flagged heap spfd = ((heap spfd).map Spfd.removed).any id := fun heap => by
    rw [Option.any_map]
    rfl
  rw [marks, marks, same]

theorem Mid.sweep {bad : Nat → Bool} {tabled : List Nat} {tail : List (Option Nat)}
    (mid : Mid block heap (front ++ (tabled.map some ++ tail)) fds pending)
    (marks : ∀ spfd ∈ tabled, flagged heap spfd = bad spfd) :
    ∃ heap', PollTable.sweep tabled.length (tabled.map some ++ tail) heap =
        some (tabled.map (fun spfd => if bad spfd then none else some spfd) ++ tail, heap', tabled.filter bad) ∧
      Mid block heap' (front ++ (tabled.map (fun spfd => if bad spfd then none else some spfd) ++ tail)) fds pending ∧
      ∀ other ∉ tabled.filter bad, heap' other = heap other := by
  induction tabled generalizing heap front with
  | nil => exact ⟨heap, rfl, mid, fun _ _ => rfl⟩
  | cons spfd tabled ih =>
      rw [List.map_cons, List.cons_append] at mid
      obtain ⟨record, there, -, -⟩ := mid.place front.length spfd (by simp)
      have mark : record.removed = bad spfd := by
        rw [← marks spfd List.mem_cons_self, flagged, there]
        rfl
      have later := fun other among => marks other (List.mem_cons_of_mem spfd among)
      rw [List.length_cons, List.map_cons, List.cons_append, PollTable.sweep, there]
      dsimp only
      rw [mark, List.map_cons, List.cons_append]
      cases is : bad spfd with
      | false =>
          rw [List.append_cons] at mid
          obtain ⟨heap', swept, mid', same⟩ := ih mid later
          refine ⟨heap', ?_, by simpa using mid', ?_⟩
          · rw [if_neg Bool.false_ne_true, swept, List.filter_cons_of_neg (by simp [is])]
            rfl
          · rw [List.filter_cons_of_neg (by simp [is])]
            exact same
      | true =>
          have twice : spfd ∉ tabled := by
            intro among
            obtain ⟨j, found⟩ := List.mem_iff_getElem?.mp among
            have low := (List.getElem?_eq_some_iff.mp found).1
            have again : (front ++ some spfd :: (tabled.map some ++ tail))[front.length + (j + 1)]? =
                some (some spfd) := by
              rw [List.getElem?_append_right (by omega), Nat.add_sub_cancel_left, List.getElem?_cons_succ,
                List.getElem?_append_left (by simpa using low), List.getElem?_map, found]
              rfl
            have equal := mid.unique (i := front.length) (j := front.length + (j + 1)) (by simp) again
            omega
          have after := mid.freeSlot
          rw [List.append_cons] at after
          obtain ⟨heap', swept, mid', same⟩ := ih after fun other among => by
            have different : other ≠ spfd := fun equal => twice (equal ▸ among)
            rw [← later other among, flagged, Function.update_of_ne different, flagged]
          refine ⟨heap', ?_, by simpa using mid', ?_⟩
          · rw [if_pos rfl, swept, List.filter_cons_of_pos is]
            rfl
          · rw [List.filter_cons_of_pos is]
            intro other absent
            obtain ⟨different, absent⟩ := not_or.mp (fun either => absent (List.mem_cons.mpr either))
            rw [same other absent, Function.update_of_ne different]

/-- A descriptor in the queue is freed, and the one before it is joined with what is behind. -/
theorem Mid.dequeue {before : List Nat} (mid : Mid block heap slots fds (before ++ p :: pending)) :
    ∃ record joined, heap p = some record ∧ record.next = pending.head? ∧
      Linked.modify heap (fun previous => { previous with next := record.next }) before.getLast? = some joined ∧
      Mid block (Function.update joined p none) slots fds (before ++ pending) ∧
      ∀ {Label : Type} (tag : Spfd Notify Aux → Label), (∀ record next, tag { record with next } = tag record) →
        ∀ other, other ≠ p → (Function.update joined p none other).map tag = (heap other).map tag := by
  obtain ⟨record, there⟩ :=
    Option.isSome_iff_exists.mp ((mid.exact p).mpr (.inr (List.mem_append_right _ List.mem_cons_self)))
  have next : record.next = pending.head? := by
    have link : (heap p).bind Spfd.next = pending.head?.or none := (Linked.path_append.mp mid.queue).2.1
    rwa [there, Option.or_none] at link
  obtain ⟨-, back, apart⟩ := List.nodup_append.mp mid.distinct
  obtain ⟨alone, -⟩ := List.nodup_cons.mp back
  have unequal : p ∉ before := fun among => apart p among p List.mem_cons_self rfl
  obtain ⟨joined, join, last, same⟩ : ∃ joined,
      Linked.modify heap (fun previous => { previous with next := record.next }) before.getLast? = some joined ∧
      (∀ other, before.getLast? = some other → ∃ previous, heap other = some previous ∧
        joined other = some { previous with next := record.next }) ∧
      ∀ other, before.getLast? ≠ some other → joined other = heap other := by
    cases ends : before.getLast? with
    | none => exact ⟨heap, rfl, fun _ none => by simp at none, fun _ _ => rfl⟩
    | some last =>
        have among : last ∈ before ++ p :: pending := List.mem_append_left _ (List.mem_of_getLast? ends)
        obtain ⟨previous, held⟩ := Option.isSome_iff_exists.mp ((mid.exact last).mpr (.inr among))
        refine ⟨_, by rw [Linked.modify, held]; rfl, ?_, ?_⟩
        · rintro other ⟨⟩
          exact ⟨previous, held, Function.update_self _ _ _⟩
        · exact fun other different => Function.update_of_ne (fun equal => different (by rw [equal])) _ _
  have tags : ∀ {Label : Type} (tag : Spfd Notify Aux → Label), (∀ record next, tag { record with next } = tag record) →
      ∀ other, other ≠ p → (Function.update joined p none other).map tag = (heap other).map tag := by
    intro Label tag blind other different
    rw [Function.update_of_ne different]
    by_cases is : before.getLast? = some other
    · obtain ⟨previous, held, now⟩ := last other is
      rw [now, held, Option.map_some, Option.map_some, blind]
    · rw [same other is]
  have links : ∀ other, other ≠ p → before.getLast? ≠ some other →
      ((Function.update joined p none) other).bind Spfd.next = (heap other).bind Spfd.next := by
    intro other different inner
    rw [Function.update_of_ne different, same other inner]
  have tabled : ∀ other, some other ∈ slots → other ≠ p := by
    rintro other among rfl
    exact mid.apart other among (List.mem_append_right _ List.mem_cons_self)
  have sub : ∀ other, other ∈ before ++ p :: pending ↔ other = p ∨ other ∈ before ++ pending := by
    intro other
    rw [List.mem_append, List.mem_cons, List.mem_append]
    exact or_left_comm
  refine ⟨record, joined, there, next, join, ⟨mid.sizes, ?_, ?_, ?_, ?_, ?_⟩, tags⟩
  · intro i other found
    obtain ⟨old, held, pfd, fd⟩ := mid.place i other found
    have kept := tags (fun record => (record.pfd, record.fd)) (fun _ _ => rfl) other
      (tabled other (List.mem_of_getElem? found))
    rw [held, Option.map_some, Option.map_eq_some_iff] at kept
    obtain ⟨new, now, equal⟩ := kept
    rw [Prod.mk.injEq] at equal
    exact ⟨new, now, equal.1.trans pfd, equal.2 ▸ fd⟩
  · refine mid.queue.remove mid.distinct ?_ ?_
    · intro other among inner
      refine links other ?_ inner
      rintro rfl
      exact (List.mem_append.mp among).elim unequal alone
    · intro other ends
      obtain ⟨previous, -, now⟩ := last other ends
      have different : other ≠ p := fun equal => unequal (equal ▸ List.mem_of_getLast? ends)
      rw [Function.update_of_ne different, now, there]
      rfl
  · exact mid.distinct.sublist ((List.sublist_cons_self p pending).append_left before)
  · intro other
    by_cases this : other = p
    · subst this
      rw [Function.update_self]
      refine iff_of_false (by simp) fun either => either.elim (fun inside => tabled other inside rfl) fun inside => ?_
      exact (List.mem_append.mp inside).elim unequal alone
    · rw [← Option.isSome_map (f := fun _ => ()), tags (fun _ => ()) (fun _ _ => rfl) other this, Option.isSome_map,
        mid.exact, sub]
      simp [this]
  · exact fun other inside among => mid.apart other inside ((sub other).mpr (.inr among))

theorem Mid.prune {bad : Nat → Bool} {fuel : Nat} {before : List Nat}
    (mid : Mid block heap slots fds (before ++ pending)) (marks : ∀ spfd ∈ pending, flagged heap spfd = bad spfd)
    (enough : pending.length ≤ fuel) :
    ∃ heap', PollTable.prune fuel heap (before ++ pending).head? before.getLast? pending.head? =
        some (heap', (before ++ pending.filter fun spfd => !bad spfd).head?, pending.filter bad) ∧
      Mid block heap' slots fds (before ++ pending.filter fun spfd => !bad spfd) ∧
      ∀ {Label : Type} (tag : Spfd Notify Aux → Label), (∀ record next, tag { record with next } = tag record) →
        ∀ other ∉ pending.filter bad, (heap' other).map tag = (heap other).map tag := by
  induction pending generalizing before fuel heap with
  | nil =>
      refine ⟨heap, ?_, mid, fun _ _ _ _ => rfl⟩
      cases fuel <;> rfl
  | cons p pending ih =>
      obtain ⟨fuel, rfl⟩ : ∃ n, fuel = n + 1 := ⟨fuel - 1, by rw [List.length_cons] at enough; omega⟩
      have enough : pending.length ≤ fuel := Nat.le_of_succ_le_succ enough
      obtain ⟨record, joined, there, next, join, mid', tags⟩ := mid.dequeue
      have mark : record.removed = bad p := by
        rw [← marks p List.mem_cons_self, flagged, there]
        rfl
      have alone : p ∉ pending := (List.nodup_cons.mp (List.nodup_append.mp mid.distinct).2.1).1
      rw [List.head?_cons, PollTable.prune, there]
      dsimp only
      rw [mark]
      cases is : bad p with
      | false =>
          rw [List.append_cons] at mid
          obtain ⟨heap', pruned, mid'', kept⟩ := ih mid
            (fun other among => marks other (List.mem_cons_of_mem p among)) enough
          rw [List.getLast?_append] at pruned
          refine ⟨heap', ?_, ?_, ?_⟩
          · rw [if_neg Bool.false_ne_true, next, List.filter_cons_of_pos (by simp [is]),
              List.filter_cons_of_neg (by simp [is]), List.append_cons before p pending,
              List.append_cons before p (List.filter _ pending)]
            exact pruned
          · rw [List.filter_cons_of_pos (by simp [is]), List.append_cons]
            exact mid''
          · rw [List.filter_cons_of_neg (by simp [is])]
            exact kept
      | true =>
          obtain ⟨heap', pruned, mid'', kept⟩ := ih mid' (fun other among => by
            have different : other ≠ p := fun equal => alone (equal ▸ among)
            rw [← marks other (List.mem_cons_of_mem p among),
              flagged_congr (tags Spfd.removed (fun _ _ => rfl) other different)])
            enough
          refine ⟨heap', ?_, ?_, ?_⟩
          · rw [if_pos rfl, List.filter_cons_of_neg (by simp [is]), List.filter_cons_of_pos is]
            rcases List.eq_nil_or_concat' before with rfl | ⟨front, last, rfl⟩
            · obtain rfl : heap = joined := Option.some.inj join
              rw [List.nil_append, List.getLast?_nil] at pruned
              rw [List.getLast?_nil]
              dsimp only
              rw [next, pruned]
              rfl
            · rw [List.getLast?_concat] at join pruned ⊢
              obtain ⟨previous, held, rfl⟩ := Option.map_eq_some_iff.mp join
              have head : ∀ more : List Nat, (front ++ [last] ++ more).head? = (front ++ [last]).head? := by
                intro more
                rw [List.head?_append, List.head?_append, List.head?_singleton]
                cases front.head? <;> rfl
              rw [head] at pruned ⊢
              dsimp only
              rw [held]
              dsimp only
              rw [next] at pruned ⊢
              rw [pruned]
              rfl
          · rw [List.filter_cons_of_neg (by simp [is])]
            exact mid''
          · rw [List.filter_cons_of_pos is]
            intro Label tag blind other absent
            obtain ⟨different, absent⟩ := not_or.mp (fun either => absent (List.mem_cons.mpr either))
            rw [kept tag blind other absent, tags tag blind other different]

/-- Larger arrays at another address, with the descriptors linked to their places there. -/
theorem Mid.grow {tabled : List Nat} {gap : Nat} (realloc extra : Nat)
    (mid : Mid block heap (tabled.map some ++ List.replicate gap none) fds pending) :
    ∃ heap', relink realloc tabled.length 0 (tabled.map some ++ List.replicate gap none) heap = some heap' ∧
      Mid realloc heap' (tabled.map some ++ List.replicate (gap + extra) none)
        (fds ++ List.replicate extra ({} : Pollfd)) pending ∧
      ∀ {Label : Type} (tag : Spfd Notify Aux → Label), (∀ record pfd, tag { record with pfd } = tag record) →
        ∀ other, (heap' other).map tag = (heap other).map tag := by
  have live : ∀ spfd ∈ tabled, (heap spfd).isSome := fun spfd among =>
    (mid.exact spfd).mpr (.inl (mem_packed.mpr among))
  obtain ⟨heap', linked, outside, placed⟩ :=
    @relink_eq _ _ realloc heap tabled (List.replicate gap none) 0 live mid.tabled_nodup
  have kept : ∀ {Label : Type} (tag : Spfd Notify Aux → Label), (∀ record pfd, tag { record with pfd } = tag record) →
      ∀ other, (heap' other).map tag = (heap other).map tag := by
    intro Label tag blind other
    by_cases among : other ∈ tabled
    · obtain ⟨j, found⟩ := List.mem_iff_getElem?.mp among
      rw [placed j other found, Option.map_map]
      exact congrArg (fun tag => (heap other).map tag) (funext fun record => blind record _)
    · rw [outside other among]
  refine ⟨heap', linked, ⟨?_, ?_, ?_, mid.distinct, ?_, ?_⟩, kept⟩
  · rw [List.length_append, mid.sizes]
    simp [Nat.add_assoc]
  · intro i spfd here
    have found := packed_getElem?.mp here
    obtain ⟨record, there, -, fd⟩ := mid.place i spfd (packed_getElem?.mpr found)
    refine ⟨{ record with pfd := some (realloc, i) }, ?_, rfl, ?_⟩
    · rw [placed i spfd found, there, Nat.zero_add]
      rfl
    · obtain ⟨pollfd, told, number⟩ := Option.bind_eq_some_iff.mp fd
      rw [List.getElem?_append_left (List.getElem?_eq_some_iff.mp told).1]
      exact fd
  · refine mid.queue.congr fun other among => ?_
    rw [outside other fun inside => mid.apart other (mem_packed.mpr inside) among]
  · intro other
    rw [mem_packed, ← Option.isSome_map (f := fun _ => ()), kept (fun _ => ()) (fun _ _ => rfl), Option.isSome_map,
      mid.exact, mem_packed]
  · exact fun other among => mid.apart other (mem_packed.mpr (mem_packed.mp among))

/-- The queue goes into the free slots behind the table. -/
theorem Mid.placed {tabled : List Nat} {gap : Nat}
    (mid : Mid block heap (tabled.map some ++ List.replicate gap none) (ffront ++ fds) pending)
    (same : ffront.length = tabled.length) (room : pending.length ≤ gap) :
    ∃ slots' fds' heap', PollTable.place block gap tabled.length (List.replicate gap none) fds heap pending.head? =
        some (slots', fds', heap', none, (tabled ++ pending).length) ∧
      Mid block heap' ((tabled ++ pending).map some ++ List.replicate (gap - pending.length) none) (ffront ++ fds') [] ∧
      slots' = pending.map some ++ List.replicate (gap - pending.length) none ∧
      ∀ {Label : Type} (tag : Spfd Notify Aux → Label), (∀ record pfd, tag { record with pfd } = tag record) →
        ∀ other, (heap' other).map tag = (heap other).map tag := by
  induction pending generalizing tabled gap ffront fds heap with
  | nil =>
      refine ⟨List.replicate gap none, fds, heap, ?_, by simpa using mid, rfl, fun _ _ _ => rfl⟩
      cases gap <;> simp
  | cons p pending ih =>
      obtain ⟨gap, rfl⟩ : ∃ n, gap = n + 1 := ⟨gap - 1, by rw [List.length_cons] at room; omega⟩
      have sizes := mid.sizes
      rw [List.length_append, List.length_append, List.length_map, List.length_replicate, same] at sizes
      obtain ⟨pollfd, fds, rfl⟩ : ∃ pollfd rest, fds = pollfd :: rest := List.exists_cons_of_length_pos (by omega)
      rw [List.replicate_succ] at mid
      obtain ⟨pollfd', heap₁, putted, mid', kept'⟩ := mid.put (by rw [same, List.length_map])
      have entries : (tabled ++ [p]).map some ++ List.replicate gap none =
          tabled.map some ++ some p :: List.replicate gap none := by simp
      rw [← entries, ← List.singleton_append (l := fds), ← List.append_assoc] at mid'
      rw [List.length_cons] at room
      obtain ⟨slots', fds', heap', placed, mid'', slots, kept⟩ := ih mid' (by simp [same]) (by omega)
      have longer : (tabled ++ [p]).length = tabled.length + 1 := by simp
      have all : tabled ++ p :: pending = tabled ++ [p] ++ pending := by simp
      rw [longer] at placed
      rw [List.length_map] at putted
      refine ⟨some p :: slots', pollfd' :: fds', heap', ?_, ?_, ?_, ?_⟩
      · rw [List.replicate_succ, List.head?_cons, PollTable.place, putted, Option.bind_some]
        dsimp only
        rw [placed, Option.map_some, all]
      · rw [List.length_cons, Nat.add_sub_add_right, all]
        simpa using mid''
      · rw [slots, List.length_cons, Nat.add_sub_add_right]
        rfl
      · intro Label tag blind other
        rw [kept tag blind, kept' tag blind]

/-- The first two loops: what is marked is freed. -/
theorem Mid.release {tabled : List Nat} {gap fuel : Nat}
    (mid : Mid block heap (tabled.map some ++ List.replicate gap none) fds pending) (enough : pending.length ≤ fuel) :
    ∃ holes heap₁ heap₂, PollTable.sweep tabled.length (tabled.map some ++ List.replicate gap none) heap =
        some (holes ++ List.replicate gap none, heap₁, tabled.filter (flagged heap)) ∧
      PollTable.prune fuel heap₁ pending.head? none pending.head? =
        some (heap₂, (pending.filter fun spfd => !flagged heap spfd).head?, pending.filter (flagged heap)) ∧
      holes.length = tabled.length ∧
      Mid block heap₂ (holes ++ List.replicate gap none) fds (pending.filter fun spfd => !flagged heap spfd) ∧
      ∀ other, (heap₂ other).map Spfd.removed = if flagged heap other then none else (heap other).map Spfd.removed := by
  obtain ⟨heap₁, swept, mid₁, same⟩ :=
    @Mid.sweep _ _ block heap [] fds pending (flagged heap) tabled _ mid fun _ _ => rfl
  rw [List.nil_append] at mid₁
  have untouched : ∀ other ∈ pending, heap₁ other = heap other := fun other among =>
    same other fun inside => mid.apart other (mem_packed.mpr (List.mem_filter.mp inside).1) among
  obtain ⟨heap₂, pruned, mid₂, kept⟩ := @Mid.prune _ _ block heap₁ _ fds pending (flagged heap) fuel [] mid₁
    (fun other among => by rw [flagged, untouched other among, flagged]) enough
  rw [List.nil_append] at mid₂
  refine ⟨_, heap₁, heap₂, swept, pruned, by rw [List.length_map], mid₂, fun other => ?_⟩
  by_cases bad : flagged heap other = true
  · have gone : ¬ (heap₂ other).isSome := by
      rw [mid₂.exact]
      simp [bad]
    rw [if_pos bad, Option.not_isSome_iff_eq_none.mp gone]
    rfl
  · rw [if_neg bad, kept Spfd.removed (fun _ _ => rfl) other (by simp [bad]), same other (by simp [bad])]

theorem map_some_reduceOption (full : none ∉ slots) : slots.reduceOption.map some = slots := by
  induction slots with
  | nil => rfl
  | cons slot slots ih =>
      obtain ⟨first, rest⟩ := not_or.mp (fun either => full (List.mem_cons.mpr either))
      obtain ⟨spfd, rfl⟩ := Option.ne_none_iff_exists'.mp (Ne.symm first)
      rw [List.reduceOption_cons_of_some, List.map_cons, ih rest]

/-- The next two loops: the holes are filled and what is left is moved down. -/
theorem Mid.repack {holes : List (Option Nat)} {gap : Nat}
    (mid : Mid block heap (holes ++ List.replicate gap none) fds pending) :
    ∃ survivors : List Nat, ∃ slots₁ fds₁ heap₁ pending' i fds₂ heap₂ gap',
      PollTable.fill block (holes.length + gap) 0 (holes ++ List.replicate gap none) fds heap pending.head? =
        some (slots₁, fds₁, heap₁, pending'.head?, i) ∧
      PollTable.compact block (holes.length - i) i i slots₁ fds₁ heap₁ =
        some (survivors.map some ++ List.replicate gap' none, fds₂, heap₂, survivors.length) ∧
      Mid block heap₂ (survivors.map some ++ List.replicate gap' none) fds₂ pending' ∧
      survivors.length + gap' = holes.length + gap ∧ pending'.length ≤ pending.length ∧
      ∀ {Label : Type} (tag : Spfd Notify Aux → Label), (∀ record pfd, tag { record with pfd } = tag record) →
        ∀ other, (heap₂ other).map tag = (heap other).map tag := by
  obtain ⟨slots₁, fds₁, heap₁, pending', i, filled, mid₁, size₁, full, same, -, -, high, suffix, kept₁⟩ :=
    @Mid.fill _ _ block heap (holes ++ List.replicate gap none) [] fds [] pending mid rfl (by simp)
  simp only [List.nil_append, List.length_nil, Nat.zero_add] at filled mid₁ full same high
  have width : (holes ++ List.replicate gap (none : Option Nat)).length = holes.length + gap := by simp
  rw [width] at filled high size₁
  -- below the place where the loop stopped there are descriptors only
  have front := map_some_reduceOption full
  have below : (slots₁.take i).reduceOption.length = i := by
    rw [← List.length_map some, front, List.length_take]
    omega
  rw [List.drop_append, List.drop_replicate] at same
  have cut : slots₁ = (slots₁.take i).reduceOption.map some ++
      (List.replicate 0 none ++ (holes.drop i ++ List.replicate (gap - (i - holes.length)) none)) := by
    rw [front, List.replicate_zero, List.nil_append, ← same, List.take_append_drop]
  rw [cut] at mid₁
  obtain ⟨fds₂, heap₂, gap', compacted, mid₂, size₂, kept₂⟩ := mid₁.compact
  rw [← cut, below, List.length_drop, Nat.add_zero] at compacted
  have joined : ∀ more : Nat, List.replicate gap' none ++ List.replicate more none =
      List.replicate (gap' + more) (none : Option Nat) := fun more => List.replicate_append_replicate
  rw [joined] at compacted mid₂
  refine ⟨_, slots₁, fds₁, heap₁, pending', i, fds₂, heap₂, _, filled, compacted, mid₂, ?_,
    suffix.length_le, fun tag blind other => (kept₂ tag blind other).trans (kept₁ tag blind other)⟩
  have sizes := mid₂.sizes
  rw [size₂, mid₁.sizes, ← cut, size₁, List.length_append, List.length_map, List.length_replicate] at sizes
  exact sizes.symm

/-- The arrays have room afterwards. -/
theorem grow_packed {ptbl : Spolltbl Notify Aux} {tabled : List Nat} {gap : Nat} (realloc m : Nat)
    (mid : Mid ptbl.block ptbl.heap (tabled.map some ++ List.replicate gap none) ptbl.fds pending)
    (slots : ptbl.spfds = tabled.map some ++ List.replicate gap none) (size : ptbl.fdsize = tabled.length + gap) :
    ∃ block fds heap gap', grow realloc m tabled.length ptbl =
        some { ptbl with
          block, fds, heap
          spfds := tabled.map some ++ List.replicate gap' none
          fdsize := tabled.length + gap' } ∧
      Mid block heap (tabled.map some ++ List.replicate gap' none) fds pending ∧ m ≤ tabled.length + gap' ∧
      ∀ {Label : Type} (tag : Spfd Notify Aux → Label), (∀ record pfd, tag { record with pfd } = tag record) →
        ∀ other, (heap other).map tag = (ptbl.heap other).map tag := by
  by_cases small : ptbl.fdsize < m
  · obtain ⟨heap', linked, mid', kept⟩ := mid.grow realloc (m - ptbl.fdsize)
    refine ⟨realloc, _, heap', _, ?_, mid', by omega, kept⟩
    have total : tabled.length + (gap + (m - ptbl.fdsize)) = m := by omega
    rw [PollTable.grow, if_pos small, slots, linked, Option.map_some, List.append_assoc,
      List.replicate_append_replicate, total]
  · refine ⟨ptbl.block, ptbl.fds, ptbl.heap, gap, ?_, mid, by omega, fun _ _ _ => rfl⟩
    rw [PollTable.grow, if_neg small, ← slots, ← size]

end Mid

/-- The table has no hole and is as large as it says, and the queue begins where `pend` points. -/
structure Packed (ptbl : Spolltbl Notify Aux) (tabled pending : List Nat) : Prop where
  slots : ptbl.spfds = tabled.map some ++ List.replicate (ptbl.fdsize - ptbl.fdnum) none
  fdnum : ptbl.fdnum = tabled.length
  fdsize : ptbl.fdnum ≤ ptbl.fdsize
  mid : Mid ptbl.block ptbl.heap ptbl.spfds ptbl.fds pending
  pend : ptbl.pend = pending.head?
  bound : pending.length ≤ ptbl.made

/-- An update frees the marked descriptors, and the others are in the table then. -/
theorem updateTable_packed {ptbl : Spolltbl Notify Aux} {tabled pending : List Nat}
    (packed : Packed ptbl tabled pending) (realloc : Nat) :
    ∃ after entries, updateTable ptbl realloc = some after ∧ Packed after entries [] ∧
      after.freed = ptbl.freed ++ (tabled ++ pending).filter (flagged ptbl.heap) ∧
      ∀ other, (after.heap other).map Spfd.removed =
        if flagged ptbl.heap other then none else (ptbl.heap other).map Spfd.removed := by
  obtain ⟨gap, size⟩ : ∃ gap, ptbl.fdsize = tabled.length + gap :=
    ⟨ptbl.fdsize - tabled.length, by have := packed.fdsize; have := packed.fdnum; omega⟩
  have slots : ptbl.spfds = tabled.map some ++ List.replicate gap none := by
    rw [packed.slots, packed.fdnum, size, Nat.add_sub_cancel_left]
  have mid := packed.mid
  rw [slots] at mid
  obtain ⟨holes, heap₁, heap₂, swept, pruned, width, mid₂, marks⟩ := mid.release packed.bound
  obtain ⟨survivors, slots₃, fds₃, heap₃, left, i, fds₄, heap₄, gap₄, filled, compacted, mid₄, size₄, shorter, kept₄⟩ :=
    mid₂.repack
  rw [width] at filled compacted size₄
  have bound : left.length ≤ ptbl.made := shorter.trans ((List.length_filter_le _ _).trans packed.bound)
  have counted := countPending_eq mid₄.queue (fun other among => (mid₄.exact other).mpr (.inr among)) bound
  obtain ⟨block, fds₅, heap₅, gap₅, grown, mid₅, room, kept₅⟩ := @grow_packed _ _ left
    { ptbl with
      spfds := survivors.map some ++ List.replicate gap₄ none
      fds := fds₄
      heap := heap₄
      freed := ptbl.freed ++ tabled.filter (flagged ptbl.heap) ++ pending.filter (flagged ptbl.heap) }
    survivors gap₄ realloc
    (survivors.length + left.length + chunkSize - (survivors.length + left.length) % chunkSize) mid₄ rfl
    (size.trans size₄.symm)
  have enough : left.length ≤ gap₅ := by
    rw [chunkSize] at room
    omega
  have length₅ := mid₅.sizes
  rw [List.length_append, List.length_map, List.length_replicate] at length₅
  have split : fds₅ = fds₅.take survivors.length ++ fds₅.drop survivors.length := (List.take_append_drop _ _).symm
  rw [split] at mid₅
  obtain ⟨slots', fds', heap', placed, mid', rfl, kept'⟩ := mid₅.placed (by rw [List.length_take]; omega) enough
  rw [← split] at mid₅
  have rest : survivors.length + gap₅ - (survivors ++ left).length = gap₅ - left.length := by
    rw [List.length_append, Nat.add_sub_add_left]
  refine ⟨{ ptbl with
    block
    spfds := (survivors ++ left).map some ++ List.replicate (gap₅ - left.length) none
    fds := fds₅.take survivors.length ++ fds'
    heap := heap'
    fdsize := survivors.length + gap₅
    fdnum := (survivors ++ left).length
    pend := none
    modified := false
    freed := ptbl.freed ++ tabled.filter (flagged ptbl.heap) ++ pending.filter (flagged ptbl.heap) },
    survivors ++ left, ?_, ⟨?_, rfl, ?_, mid', rfl, Nat.zero_le _⟩, ?_, ?_⟩
  · dsimp only at grown
    rw [packed.fdnum, size, packed.pend] at grown
    rw [updateTable, slots, packed.fdnum, size, packed.pend, swept, Option.bind_eq_bind, Option.bind_some]
    dsimp only
    rw [pruned, Option.bind_eq_bind, Option.bind_some]
    dsimp only
    rw [filled, Option.bind_eq_bind, Option.bind_some]
    dsimp only
    rw [compacted, Option.bind_eq_bind, Option.bind_some]
    dsimp only
    rw [counted, Option.bind_eq_bind, Option.bind_some]
    rw [grown, Option.bind_eq_bind, Option.bind_some]
    dsimp only
    rw [Nat.add_sub_cancel_left, List.drop_left' (by simp), placed, Option.bind_some, List.take_left' (by simp),
      List.map_append, List.append_assoc (survivors.map some)]
    rfl
  · rw [rest]
  · have total : (survivors ++ left).length = survivors.length + left.length := List.length_append
    exact total ▸ Nat.add_le_add_left enough _
  · rw [List.filter_append, List.append_assoc]
  · intro other
    rw [← marks other, ← kept₄ Spfd.removed (fun _ _ => rfl), ← kept₅ Spfd.removed (fun _ _ => rfl)]
    exact kept' Spfd.removed (fun _ _ => rfl) other

/-- The calls on the table. -/
inductive Call (Notify Aux : Type)
  | add (fd : Int32) (notify : Notify) (aux : Aux) (malloc : Option Nat)
  | remove (spfd : Nat)
  | removeAll
  | update (realloc : Nat)

def Call.isUpdate : Call Notify Aux → Bool
  | update _ => true
  | _ => false

/-- The table after some calls, with the descriptors that were added and not removed, and all that were removed. -/
structure Calls (Notify Aux : Type) where
  ptbl : Spolltbl Notify Aux := {}
  live : List Nat := []
  removed : List Nat := []

def Calls.start : Calls Notify Aux := {}

def Calls.step (calls : Calls Notify Aux) : Call Notify Aux → Option (Calls Notify Aux)
  | .add fd notify aux malloc =>
      let (ptbl, spfd) := spfdAdd calls.ptbl fd notify aux malloc
      some { calls with ptbl, live := calls.live ++ spfd.toList }
  | .remove spfd => (spfdRemove calls.ptbl spfd).map fun ptbl =>
      { ptbl, live := calls.live.filter (· != spfd), removed := calls.removed ++ calls.live.filter (· == spfd) }
  | .removeAll => (spfdRemoveAll calls.ptbl).map fun ptbl =>
      { ptbl, live := [], removed := calls.removed ++ calls.live }
  | .update realloc => (updateTable calls.ptbl realloc).map fun ptbl => { calls with ptbl }

/-- A descriptor is removed while it is in memory, and all are removed only when none that is left waits in the
queue. -/
def Calls.Allowed (calls : Calls Notify Aux) : Call Notify Aux → Prop
  | .remove spfd => (calls.ptbl.heap spfd).isSome
  | .removeAll => ∀ spfd ∈ calls.live, some spfd ∈ calls.ptbl.spfds
  | _ => True

/-- What has to hold after an update. -/
structure Maintained (calls : Calls Notify Aux) (entries : List Nat) : Prop where
  slots : calls.ptbl.spfds = entries.map some ++ List.replicate (calls.ptbl.fdsize - calls.ptbl.fdnum) none
  fdnum : entries.length = calls.ptbl.fdnum
  distinct : entries.Nodup
  all : entries.Perm calls.live
  pend : calls.ptbl.pend = none
  linked : ∀ i spfd, entries[i]? = some spfd → ∃ record, calls.ptbl.heap spfd = some record ∧
    record.pfd = some (calls.ptbl.block, i) ∧ (calls.ptbl.fds[i]?).bind Pollfd.fd = some record.fd
  freed : calls.removed.Perm calls.ptbl.freed

/-- Between the calls: who is live, and who waits to be freed. -/
structure Between (calls : Calls Notify Aux) (tabled pending doomed : List Nat) : Prop where
  packed : Packed calls.ptbl tabled pending
  live_nodup : calls.live.Nodup
  live : ∀ spfd, spfd ∈ calls.live ↔ (calls.ptbl.heap spfd).map Spfd.removed = some false
  doomed_nodup : doomed.Nodup
  dead : ∀ spfd, spfd ∈ doomed ↔ (calls.ptbl.heap spfd).map Spfd.removed = some true
  removed : calls.removed.Perm (calls.ptbl.freed ++ doomed)

theorem flagged_iff {heap : Heap Notify Aux} {spfd : Nat} :
    flagged heap spfd = true ↔ (heap spfd).map Spfd.removed = some true := by
  rw [flagged, Option.any_eq_true, Option.map_eq_some_iff]

theorem Packed.mem_heap {ptbl : Spolltbl Notify Aux} {tabled pending : List Nat} (packed : Packed ptbl tabled pending)
    (spfd : Nat) : (ptbl.heap spfd).isSome ↔ spfd ∈ tabled ∨ spfd ∈ pending := by
  rw [packed.mid.exact, packed.slots, mem_packed]

theorem Packed.nodup {ptbl : Spolltbl Notify Aux} {tabled pending : List Nat} (packed : Packed ptbl tabled pending) :
    (tabled ++ pending).Nodup := by
  have mid := packed.mid
  rw [packed.slots] at mid
  refine List.nodup_append.mpr ⟨mid.tabled_nodup, mid.distinct, ?_⟩
  rintro spfd inside other queued rfl
  exact mid.apart spfd (mem_packed.mpr inside) queued

/-- The table does not depend on the marks. -/
theorem Mid.marked {block : Nat} {heap heap' : Heap Notify Aux} {slots : List (Option Nat)} {fds : List Pollfd}
    {pending : List Nat} {which : Nat → Bool} (mid : Mid block heap slots fds pending) (marks : ∀ other, heap' other =
      (heap other).map fun record => if which other then { record with removed := true } else record) :
    Mid block heap' slots fds pending := by
  refine ⟨mid.sizes, ?_, ?_, mid.distinct, ?_, mid.apart⟩
  · intro i spfd here
    obtain ⟨record, there, pfd, fd⟩ := mid.place i spfd here
    refine ⟨_, by rw [marks, there]; rfl, ?_, ?_⟩
    · split
      · exact pfd
      · exact pfd
    · split
      · exact fd
      · exact fd
  · refine mid.queue.congr fun spfd _ => ?_
    rw [marks]
    cases heap spfd with
    | none => rfl
    | some record =>
        rw [Option.map_some, Option.bind_some, Option.bind_some]
        split
        · rfl
        · rfl
  · intro spfd
    rw [marks, Option.isSome_map]
    exact mid.exact spfd

/-- A new descriptor goes to the front of the queue. -/
theorem Mid.enqueue {block spfd : Nat} {heap : Heap Notify Aux} {slots : List (Option Nat)} {fds : List Pollfd}
    {pending : List Nat} {record : Spfd Notify Aux} (mid : Mid block heap slots fds pending) (free : heap spfd = none)
    (next : record.next = pending.head?) :
    Mid block (Function.update heap spfd (some record)) slots fds (spfd :: pending) := by
  have unheld : spfd ∉ pending := by
    intro among
    have held := (mid.exact spfd).mpr (.inr among)
    rw [free] at held
    cases held
  have untabled : some spfd ∉ slots := by
    intro among
    have held := (mid.exact spfd).mpr (.inl among)
    rw [free] at held
    cases held
  have others : ∀ other, other ≠ spfd → Function.update heap spfd (some record) other = heap other :=
    fun other different => Function.update_of_ne different _ _
  refine ⟨mid.sizes, ?_, ⟨?_, ?_⟩, List.nodup_cons.mpr ⟨unheld, mid.distinct⟩, ?_, ?_⟩
  · intro i other here
    obtain ⟨record, there, rest⟩ := mid.place i other here
    have different : other ≠ spfd := fun equal => untabled (equal ▸ List.mem_of_getElem? here)
    exact ⟨record, (others other different).trans there, rest⟩
  · dsimp only
    rw [Function.update_self, Option.or_none, Option.bind_some, next]
  · refine mid.queue.congr fun other among => ?_
    rw [others other fun equal => unheld (equal ▸ among)]
  · intro other
    by_cases this : other = spfd
    · subst this
      rw [Function.update_self]
      exact iff_of_true rfl (.inr List.mem_cons_self)
    · rw [others other this, mid.exact other]
      simp [this]
  · intro other inside among
    rcases List.mem_cons.mp among with rfl | among
    · exact untabled inside
    · exact mid.apart other inside among

section Between

variable {calls : Calls Notify Aux} {tabled pending doomed : List Nat}

theorem Between.marked (between : Between calls tabled pending doomed) {heap : Heap Notify Aux} {which : Nat → Bool}
    (marks : ∀ other, heap other =
      (calls.ptbl.heap other).map fun record => if which other then { record with removed := true } else record) :
    Between
      { ptbl := { calls.ptbl with heap, modified := true }
        live := calls.live.filter fun spfd => !which spfd
        removed := calls.removed ++ calls.live.filter which }
      tabled pending (doomed ++ calls.live.filter which) := by
  have after : ∀ spfd, (heap spfd).map Spfd.removed =
      ((calls.ptbl.heap spfd).map Spfd.removed).map fun removed => which spfd || removed := by
    intro spfd
    rw [marks, Option.map_map, Option.map_map]
    refine congrArg (fun tag => (calls.ptbl.heap spfd).map tag) (funext fun record => ?_)
    cases is : which spfd with
    | false => simp
    | true => simp
  have packed := between.packed
  refine ⟨⟨packed.slots, packed.fdnum, packed.fdsize, packed.mid.marked marks, packed.pend, packed.bound⟩,
    between.live_nodup.filter _, ?_, ?_, ?_, ?_⟩
  · intro spfd
    dsimp only
    rw [List.mem_filter, between.live, after]
    cases (calls.ptbl.heap spfd).map Spfd.removed with
    | none => simp
    | some removed => cases removed <;> simp
  · refine List.nodup_append.mpr ⟨between.doomed_nodup, between.live_nodup.filter _, ?_⟩
    rintro spfd dead other alive rfl
    have marked := (between.dead spfd).mp dead
    rw [(between.live spfd).mp (List.mem_filter.mp alive).1] at marked
    cases marked
  · intro spfd
    dsimp only
    rw [List.mem_append, List.mem_filter, between.live, between.dead, after]
    cases (calls.ptbl.heap spfd).map Spfd.removed with
    | none => simp
    | some removed => cases removed <;> simp
  · rw [← List.append_assoc]
    exact between.removed.append_right _

theorem Between.add (between : Between calls tabled pending doomed) (fd : Int32) (notify : Notify) (aux : Aux)
    (malloc : Option Nat) :
    ∃ pending', Between { calls with
      ptbl := (spfdAdd calls.ptbl fd notify aux malloc).1
      live := calls.live ++ (spfdAdd calls.ptbl fd notify aux malloc).2.toList } tabled pending' doomed := by
  cases given : malloc.filter fun spfd => (calls.ptbl.heap spfd).isNone with
  | none =>
      refine ⟨pending, ?_⟩
      rw [spfdAdd, given, Option.toList_none, List.append_nil]
      exact between
  | some spfd =>
      have free : calls.ptbl.heap spfd = none := by
        obtain ⟨-, unused⟩ := Option.filter_eq_some_iff.mp given
        exact Option.isNone_iff_eq_none.mp unused
      have packed := between.packed
      refine ⟨spfd :: pending, ?_⟩
      rw [spfdAdd, given]
      refine ⟨⟨packed.slots, packed.fdnum, packed.fdsize, packed.mid.enqueue free packed.pend, rfl,
        Nat.succ_le_succ packed.bound⟩, ?_, ?_, between.doomed_nodup, ?_, between.removed⟩
      · refine List.nodup_append.mpr ⟨between.live_nodup, by simp, ?_⟩
        rintro other alive same among rfl
        obtain rfl : other = spfd := by simpa using among
        have held := (between.live other).mp alive
        rw [free] at held
        cases held
      · intro other
        dsimp only
        by_cases this : other = spfd
        · subst this
          rw [Function.update_self]
          exact iff_of_true (List.mem_append_right _ (by simp)) rfl
        · rw [Function.update_of_ne this, ← between.live other]
          simp [this]
      · intro other
        dsimp only
        by_cases this : other = spfd
        · subst this
          rw [Function.update_self, between.dead, free]
          simp
        · rw [Function.update_of_ne this, between.dead other]

theorem Between.remove (between : Between calls tabled pending doomed) {spfd : Nat}
    (held : (calls.ptbl.heap spfd).isSome) :
    ∃ ptbl, spfdRemove calls.ptbl spfd = some ptbl ∧
      Between { ptbl, live := calls.live.filter (· != spfd), removed := calls.removed ++ calls.live.filter (· == spfd) }
        tabled pending (doomed ++ calls.live.filter (· == spfd)) := by
  obtain ⟨record, there⟩ := Option.isSome_iff_exists.mp held
  refine ⟨_, by rw [spfdRemove, markRemoved, there]; rfl, between.marked fun other => ?_⟩
  dsimp only
  by_cases this : other = spfd
  · rw [this, Function.update_self, there]
    simp
  · rw [Function.update_of_ne this]
    simp [this]

/-- The descriptors in the table are marked. -/
theorem markAll_eq {heap : Heap Notify Aux} {tail : List (Option Nat)} (live : ∀ spfd ∈ tabled, (heap spfd).isSome) :
    ∃ heap', markAll tabled.length (tabled.map some ++ tail) heap = some heap' ∧ ∀ other, heap' other =
      (heap other).map fun record => if tabled.contains other then { record with removed := true } else record := by
  induction tabled generalizing heap with
  | nil => exact ⟨heap, rfl, fun other => by simp⟩
  | cons first tabled ih =>
      obtain ⟨record, there⟩ := Option.isSome_iff_exists.mp (live first List.mem_cons_self)
      have held : ∀ spfd ∈ tabled,
          (Function.update heap first (some { record with removed := true }) spfd).isSome := by
        intro spfd among
        by_cases this : spfd = first
        · rw [this, Function.update_self]
          rfl
        · rw [Function.update_of_ne this]
          exact live spfd (List.mem_cons_of_mem first among)
      obtain ⟨heap', marked, marks⟩ := ih held
      refine ⟨heap', ?_, fun other => ?_⟩
      · rw [List.length_cons, List.map_cons, List.cons_append, markAll, markRemoved, there]
        exact marked
      · rw [marks]
        by_cases this : other = first
        · rw [this, Function.update_self, there]
          simp
        · rw [Function.update_of_ne this]
          simp [this]

theorem Between.removeAll (between : Between calls tabled pending doomed)
    (settled : ∀ spfd ∈ calls.live, some spfd ∈ calls.ptbl.spfds) :
    ∃ ptbl, spfdRemoveAll calls.ptbl = some ptbl ∧
      Between { ptbl, live := [], removed := calls.removed ++ calls.live } tabled pending (doomed ++ calls.live) := by
  have packed := between.packed
  obtain ⟨heap', marked, marks⟩ := @markAll_eq _ _ tabled calls.ptbl.heap
    (List.replicate (calls.ptbl.fdsize - calls.ptbl.fdnum) none)
    fun spfd among => (packed.mem_heap spfd).mpr (.inl among)
  have all : ∀ spfd ∈ calls.live, tabled.contains spfd = true := by
    intro spfd alive
    have inside := settled spfd alive
    rw [packed.slots, mem_packed] at inside
    exact List.contains_iff_mem.mpr inside
  have none_left : (calls.live.filter fun spfd => !tabled.contains spfd) = [] :=
    List.filter_eq_nil_iff.mpr fun spfd alive => by rw [all spfd alive]; simp
  have after := between.marked marks
  rw [none_left, List.filter_eq_self.mpr all] at after
  rw [← packed.slots, ← packed.fdnum] at marked
  exact ⟨_, by rw [spfdRemoveAll, marked]; rfl, after⟩

/-- After an update the table is what it has to be. -/
theorem Between.update (between : Between calls tabled pending doomed) (realloc : Nat) :
    ∃ ptbl entries, updateTable calls.ptbl realloc = some ptbl ∧ Maintained { calls with ptbl } entries ∧
      Between { calls with ptbl } entries [] [] := by
  obtain ⟨after, entries, updated, packed, freed, marks⟩ := updateTable_packed between.packed realloc
  have dead : ((tabled ++ pending).filter (flagged calls.ptbl.heap)).Perm doomed := by
    refine (List.perm_ext_iff_of_nodup (between.packed.nodup.filter _) between.doomed_nodup).mpr fun spfd => ?_
    rw [List.mem_filter, flagged_iff, between.dead, List.mem_append, ← between.packed.mem_heap]
    refine and_iff_right_of_imp fun marked => ?_
    rw [← Option.isSome_map (f := Spfd.removed), marked]
    rfl
  have live : ∀ spfd, spfd ∈ calls.live ↔ (after.heap spfd).map Spfd.removed = some false := by
    intro spfd
    rw [between.live, marks]
    split
    · rename_i is
      rw [flagged_iff.mp is]
      simp
    · rfl
  have unmarked : ∀ spfd, (after.heap spfd).map Spfd.removed ≠ some true := by
    intro spfd
    rw [marks]
    split
    · simp
    · rename_i is
      exact fun marked => is (flagged_iff.mpr marked)
  have removed : calls.removed.Perm after.freed := by
    rw [freed]
    exact between.removed.trans (dead.symm.append_left _)
  have distinct : entries.Nodup := by simpa using packed.nodup
  have all : entries.Perm calls.live := by
    refine (List.perm_ext_iff_of_nodup distinct between.live_nodup).mpr fun spfd => ?_
    rw [live, ← or_iff_left (a := spfd ∈ entries) List.not_mem_nil, ← packed.mem_heap spfd]
    have unmarked := unmarked spfd
    cases held : after.heap spfd with
    | none => simp
    | some record => simpa [held] using unmarked
  refine ⟨after, entries, updated, ⟨packed.slots, packed.fdnum.symm, distinct, all, packed.pend, ?_, removed⟩,
    packed, between.live_nodup, live, List.nodup_nil, fun spfd => ?_, ?_⟩
  · intro i spfd here
    refine packed.mid.place i spfd ?_
    rw [packed.slots]
    exact packed_getElem?.mpr here
  · exact iff_of_false List.not_mem_nil (unmarked spfd)
  · rw [List.append_nil]
    exact removed

end Between

theorem between_start : Between (Calls.start : Calls Notify Aux) [] [] [] where
  packed := ⟨rfl, rfl, Nat.le_refl _, ⟨rfl, fun i spfd here => by simp [Calls.start] at here, trivial, List.nodup_nil,
    fun spfd => by simp [Calls.start], fun spfd among => by simp [Calls.start] at among⟩, rfl, Nat.zero_le _⟩
  live_nodup := List.nodup_nil
  live spfd := by simp [Calls.start]
  doomed_nodup := List.nodup_nil
  dead spfd := by simp [Calls.start]
  removed := List.Perm.refl _

theorem step_between {calls : Calls Notify Aux} {call : Call Notify Aux}
    (between : ∃ tabled pending doomed, Between calls tabled pending doomed) (allowed : calls.Allowed call) :
    ∃ next, calls.step call = some next ∧ (call.isUpdate = true → ∃ entries, Maintained next entries) ∧
      ∃ tabled pending doomed, Between next tabled pending doomed := by
  obtain ⟨tabled, pending, doomed, between⟩ := between
  cases call with
  | add fd notify aux malloc =>
      obtain ⟨pending', between'⟩ := between.add fd notify aux malloc
      exact ⟨_, rfl, fun is => absurd is Bool.false_ne_true, tabled, pending', doomed, between'⟩
  | remove spfd =>
      obtain ⟨ptbl, removed, between'⟩ := between.remove allowed
      rw [Calls.step, removed]
      exact ⟨_, rfl, fun is => absurd is Bool.false_ne_true, tabled, pending, _, between'⟩
  | removeAll =>
      obtain ⟨ptbl, removed, between'⟩ := between.removeAll allowed
      rw [Calls.step, removed]
      exact ⟨_, rfl, fun is => absurd is Bool.false_ne_true, tabled, pending, _, between'⟩
  | update realloc =>
      obtain ⟨ptbl, entries, updated, maintained, between'⟩ := between.update realloc
      rw [Calls.step, updated]
      exact ⟨_, rfl, fun _ => ⟨entries, maintained⟩, entries, [], [], between'⟩

/-- Where all are removed only while none that is left waits in the queue, each update leaves the table as it has to
be. -/
theorem updates_maintained (calls : List (Call Notify Aux))
    (allowed : Guarded Calls.step Calls.Allowed (Calls.start : Calls Notify Aux) calls) :
    EachStep Calls.step (fun _ call after => call.isUpdate = true → ∃ entries, Maintained after entries)
      (Calls.start : Calls Notify Aux) calls := by
  have start : ∃ tabled pending doomed, Between (Calls.start : Calls Notify Aux) tabled pending doomed :=
    ⟨[], [], [], between_start⟩
  exact eachStep_of_progress Calls.step (fun _ _ between allowed => step_between between allowed) start allowed

/-- One descriptor is removed with all others, and another one by itself out of the queue. -/
theorem settledRun_maintained :
    EachStep Calls.step (fun _ call after => call.isUpdate = true → ∃ entries, Maintained after entries)
      (Calls.start : Calls Unit Unit)
      [.add 5 () () (some 1), .update 0, .removeAll, .add 6 () () (some 2), .remove 2, .update 0] := by
  refine updates_maintained _ ⟨trivial, fun added made => ⟨trivial, fun updated placed => ⟨?_, fun marked removed =>
    ⟨trivial, fun again more => ⟨?_, fun last gone => ⟨trivial, fun _ _ => trivial⟩⟩⟩⟩⟩⟩
  · cases made
    cases placed
    change ∀ spfd ∈ [1], some spfd ∈ [some 1, none, none, none]
    decide
  · cases made
    cases placed
    cases removed
    cases more
    rfl

/-- The descriptor is still in the queue when all are removed, and polled after the update. -/
theorem pendingKept_unmaintained :
    ¬ EachStep Calls.step (fun _ call after => call.isUpdate = true → ∃ entries, Maintained after entries)
      (Calls.start : Calls Unit Unit) [.add 5 () () (some 1), .removeAll, .update 0] := by
  rintro ⟨added, made, -, marked, removed, -, updated, placed, maintained, -⟩
  cases made
  cases removed
  cases placed
  obtain ⟨entries, maintained⟩ := maintained rfl
  exact absurd maintained.freed.length_eq (by decide)

end Xcpu.Libspfs.PollTable
