import Mathlib.Data.List.SplitBy
import Mathlib.Data.List.Pairwise

/-!
Runs of a list by a key. A list is cut where the key of an element is not the key of the one before it. The
pieces belong to different keys exactly when the elements of one key stand together.
-/

namespace Xcpu.Runs

variable {α κ : Type} (key : α → κ)

/-- No element of another key stands between two elements of one key. -/
def Together (l : List α) : Prop :=
  ∀ first between last, [first, between, last].Sublist l → key first = key last → key between = key first

/-- The elements of a piece have one key. -/
def Uniform (piece : List α) : Prop :=
  ∀ x ∈ piece, ∀ y ∈ piece, key x = key y

/-- No element of one piece has the key of an element of the other. -/
def Apart (p q : List α) : Prop :=
  ∀ x ∈ p, ∀ y ∈ q, key x ≠ key y

theorem Together.tail {key : α → κ} {p l : List α} (together : Together key (p ++ l)) : Together key l :=
  fun first between last sub same => together first between last (sub.trans (List.sublist_append_right p l)) same

theorem together_of_apart {pieces : List (List α)} (uniform : ∀ piece ∈ pieces, Uniform key piece)
    (apart : pieces.Pairwise (Apart key)) : Together key pieces.flatten := by
  induction pieces with
  | nil =>
      intro first between last sub
      simp at sub
  | cons p rest ih =>
      intro first between last sub same
      have later := ih (fun piece here => uniform piece (List.mem_cons_of_mem p here)) (List.pairwise_cons.mp apart).2
      have pUniform := uniform p List.mem_cons_self
      -- the last element lies in the piece that has the first
      have inLater : ∀ x, [x].Sublist rest.flatten → ∀ y ∈ p, key y ≠ key x := by
        intro x sub y here
        obtain ⟨q, qHere, xHere⟩ := List.mem_flatten.mp (sub.subset List.mem_cons_self)
        exact (List.pairwise_cons.mp apart).1 q qHere y here x xHere
      rw [List.flatten_cons, List.sublist_append_iff] at sub
      obtain ⟨front, back, split, inFront, inBack⟩ := sub
      rcases front with _ | ⟨a, _ | ⟨b, _ | ⟨c, front⟩⟩⟩
      · simp only [List.nil_append] at split
        subst split
        exact later first between last inBack same
      · simp only [List.cons_append, List.nil_append, List.cons.injEq] at split
        obtain ⟨rfl, rfl⟩ := split
        have lastIn : [last].Sublist rest.flatten := (List.sublist_cons_self _ _).trans inBack
        exact absurd same (inLater last lastIn first (inFront.subset List.mem_cons_self))
      · simp only [List.cons_append, List.nil_append, List.cons.injEq] at split
        obtain ⟨rfl, rfl, rfl⟩ := split
        exact pUniform between (inFront.subset (by simp)) first (inFront.subset (by simp))
      · simp only [List.cons_append, List.cons.injEq] at split
        obtain ⟨rfl, rfl, rfl, -⟩ := split
        exact pUniform between (inFront.subset (by simp)) first (inFront.subset (by simp))

theorem apart_of_together {pieces : List (List α)} (uniform : ∀ piece ∈ pieces, Uniform key piece)
    (differ : pieces.IsChain fun p q => ∃ hp hq, key (p.getLast hp) ≠ key (q.head hq))
    (together : Together key pieces.flatten) : pieces.Pairwise (Apart key) := by
  induction pieces with
  | nil => exact List.Pairwise.nil
  | cons p rest ih =>
      have later := ih (fun piece here => uniform piece (List.mem_cons_of_mem p here)) differ.tail
        (Together.tail (by simpa using together))
      refine List.pairwise_cons.mpr ⟨?_, later⟩
      intro q qHere x xHere y yHere same
      rcases rest with _ | ⟨next, rest⟩
      · simp at qHere
      · obtain ⟨pNe, nextNe, edge⟩ := (List.isChain_cons_cons.mp differ).1
        obtain ⟨c, tail, rfl⟩ := List.exists_cons_of_ne_nil nextNe
        have lastKey : key (p.getLast pNe) = key x :=
          uniform p List.mem_cons_self _ (List.getLast_mem pNe) _ xHere
        have yLater : y ∈ c :: (tail ++ rest.flatten) := by
          have : y ∈ ((c :: tail) :: rest).flatten := List.mem_flatten.mpr ⟨q, qHere, yHere⟩
          simpa using this
        rcases List.mem_cons.mp yLater with rfl | yTail
        · exact edge (by simpa [lastKey] using same)
        · have sub : [x, c, y].Sublist (p ++ (c :: (tail ++ rest.flatten))) :=
            (List.singleton_sublist.mpr xHere).append
              ((List.singleton_sublist.mpr yTail).cons_cons c)
          have := together x c y (by simpa using sub) same
          exact edge (by simp [lastKey, this])

end Xcpu.Runs
