import Mathlib.Data.List.Perm.Basic
import Mathlib.Data.List.Range

/-!
Requests that are numbered as they come and wait until they are answered or withdrawn. In a
settled book each number stands in one place, once: no request is lost, answered twice, or
still waiting when it has been answered.
-/

namespace Xcpu.Ledger

structure Book (Request : Type*) where
  waiting : List Request
  answered : List Request
  withdrawn : List Request
  next : Nat

variable {Request : Type*} {number : Request → Nat} {book later last : Book Request}

def Book.all (book : Book Request) : List Request := book.waiting ++ (book.answered ++ book.withdrawn)

def Book.Settled (number : Request → Nat) (book : Book Request) : Prop :=
  (book.all.map number).Perm (List.range book.next)

/-- Some of the waiting requests have been answered, and nothing else has changed. -/
structure Book.Moves (book later : Book Request) : Prop where
  waiting : ∃ gone, (later.waiting ++ gone).Perm book.waiting ∧ later.answered.Perm (gone ++ book.answered)
  withdrawn : later.withdrawn = book.withdrawn
  next : later.next = book.next

theorem Book.Moves.refl (book : Book Request) : book.Moves book :=
  ⟨⟨[], by rw [List.append_nil], .refl _⟩, rfl, rfl⟩

theorem Book.Moves.trans (first : book.Moves later) (second : later.Moves last) : book.Moves last := by
  obtain ⟨gone, kept, moved⟩ := first.waiting
  obtain ⟨gone', kept', moved'⟩ := second.waiting
  refine ⟨⟨gone' ++ gone, ?_, ?_⟩, second.withdrawn.trans first.withdrawn, second.next.trans first.next⟩
  · rw [← List.append_assoc]
    exact (kept'.append_right gone).trans kept
  · rw [List.append_assoc]
    exact moved'.trans (moved.append_left gone')

theorem Book.Moves.all (moves : book.Moves later) : later.all.Perm book.all := by
  obtain ⟨gone, kept, moved⟩ := moves.waiting
  rw [Book.all, Book.all, moves.withdrawn]
  have first : (later.waiting ++ (later.answered ++ book.withdrawn)).Perm
      (later.waiting ++ ((gone ++ book.answered) ++ book.withdrawn)) :=
    (moved.append_right book.withdrawn).append_left later.waiting
  rw [List.append_assoc gone, ← List.append_assoc later.waiting gone] at first
  exact first.trans (kept.append_right _)

theorem Book.Settled.moves (settled : book.Settled number) (moves : book.Moves later) : later.Settled number := by
  rw [Book.Settled, moves.next]
  exact (moves.all.map number).trans settled

theorem Book.settled_empty : (⟨[], [], [], 0⟩ : Book Request).Settled number := .refl _

theorem Book.Settled.arrives {waiting : List Request} (request : Request) (settled : book.Settled number)
    (numbered : number request = book.next) (added : waiting.Perm (request :: book.waiting)) :
    Book.Settled number { book with waiting := waiting, next := book.next + 1 } := by
  have more : (waiting ++ (book.answered ++ book.withdrawn)).Perm (request :: book.all) := added.append_right _
  have numbers := more.map number
  rw [List.map_cons, numbered] at numbers
  rw [Book.Settled, List.range_succ]
  exact numbers.trans ((settled.cons book.next).trans (List.perm_append_singleton _ _).symm)

theorem Book.Settled.withdraws {request : Request} {waiting withdrawn : List Request} (settled : book.Settled number)
    (kept : book.waiting.Perm (request :: waiting)) (added : withdrawn.Perm (request :: book.withdrawn)) :
    Book.Settled number { book with waiting := waiting, withdrawn := withdrawn } := by
  have same : (waiting ++ (book.answered ++ withdrawn)).Perm book.all := by
    have moved : (waiting ++ (book.answered ++ withdrawn)).Perm
        (waiting ++ (request :: (book.answered ++ book.withdrawn))) := by
      refine List.Perm.append_left waiting ?_
      exact (added.append_left book.answered).trans List.perm_middle
    exact moved.trans (List.perm_middle.trans (kept.symm.append_right _))
  exact (same.map number).trans settled

theorem eraseP_perm {found : Request → Bool} {requests : List Request} {request : Request}
    (first : requests.find? found = some request) : requests.Perm (request :: requests.eraseP found) := by
  induction requests with
  | nil => contradiction
  | cons head rest ih =>
      rw [List.find?_cons] at first
      cases here : found head with
      | true =>
          rw [here] at first
          cases first
          rw [List.eraseP_cons_of_pos here]
      | false =>
          rw [here] at first
          rw [List.eraseP_cons_of_neg (by rw [here]; exact Bool.false_ne_true)]
          exact ((ih first).cons head).trans (.swap request head _)

theorem Book.Settled.length_all (settled : book.Settled number) : book.all.length = book.next := by
  have length := settled.length_eq
  rwa [List.length_map, List.length_range] at length

theorem Book.not_settled (request : Request) (waits : request ∈ book.waiting) (answered : request ∈ book.answered) :
    ¬ book.Settled number := by
  intro settled
  have distinct : (book.all.map number).Nodup := settled.nodup_iff.mpr List.nodup_range
  rw [Book.all, List.map_append] at distinct
  have apart := (List.nodup_append.mp distinct).2.2 (number request) (List.mem_map_of_mem waits)
    (number request) (List.mem_map_of_mem (List.mem_append_left _ answered))
  exact apart rfl

end Xcpu.Ledger
