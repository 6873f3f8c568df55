import Mathlib.Algebra.Order.Ring.Int
import Mathlib.Data.List.Pairwise

/-!
Functions of time that change at finitely many marks, as lists of marks in order: what the value is at a
time, and how everything from a time on is shifted.
-/

namespace Xcpu.Timeline

structure Mark (Time Value : Type*) where
  time : Time
  value : Value
  deriving DecidableEq

section Functions

variable {Time Value : Type*} [LinearOrder Time] [AddCommGroup Value]

/-- The value of the last mark up to the time, or `before` when there is none. -/
def valueFrom (before : Value) (marks : List (Mark Time Value)) (time : Time) : Value :=
  marks.foldl (fun value mark => if mark.time ≤ time then mark.value else value) before

def valueAt (marks : List (Mark Time Value)) (time : Time) : Value := valueFrom 0 marks time

def shift (by_ : Value) (marks : List (Mark Time Value)) : List (Mark Time Value) :=
  marks.map fun mark => { mark with value := mark.value + by_ }

/-- Everything from the time on is shifted; a mark is put behind the last one up to the time when that one
is earlier. -/
def adjust (time : Time) (by_ : Value) : List (Mark Time Value) → List (Mark Time Value)
  | [] => []
  | mark :: rest =>
      if rest.head?.any (·.time ≤ time) then mark :: adjust time by_ rest
      else if mark.time = time then shift by_ (mark :: rest)
      else mark :: { time, value := mark.value + by_ } :: shift by_ rest

/-- The marks are in order, and the first one is at the time. -/
structure Starts (first : Time) (marks : List (Mark Time Value)) : Prop where
  sorted : marks.Pairwise fun earlier later => earlier.time < later.time
  head : marks.head?.map Mark.time = some first

variable {before by_ : Value} {first time : Time} {mark : Mark Time Value} {marks rest : List (Mark Time Value)}

theorem Starts.cons_iff : Starts first (mark :: rest) ↔
    mark.time = first ∧ (rest.Pairwise fun earlier later => earlier.time < later.time) ∧
      ∀ later ∈ rest, mark.time < later.time := by
  constructor
  · rintro ⟨sorted, head⟩
    rw [List.pairwise_cons] at sorted
    exact ⟨Option.some.inj head, sorted.2, sorted.1⟩
  · rintro ⟨same, sorted, above⟩
    exact ⟨List.pairwise_cons.mpr ⟨above, sorted⟩, congrArg some same⟩

theorem shift_later (later : ∀ mark ∈ marks, time < mark.time) : ∀ mark ∈ shift by_ marks, time < mark.time := by
  intro mark member
  obtain ⟨old, inside, rfl⟩ := List.mem_map.mp member
  exact later old inside

theorem beyond_last (sorted : marks.Pairwise fun earlier later => earlier.time < later.time)
    (last : ¬marks.head?.any (·.time ≤ time) = true) : ∀ later ∈ marks, time < later.time := by
  cases marks with
  | nil => exact fun later member => absurd member List.not_mem_nil
  | cons next rest =>
      have far : time < next.time := by simpa using last
      intro later member
      rcases List.mem_cons.mp member with rfl | member
      · exact far
      · exact far.trans (List.rel_of_pairwise_cons sorted member)

theorem adjust_mem (member : mark ∈ adjust time by_ marks) :
    mark.time = time ∨ ∃ old ∈ marks, mark.time = old.time := by
  induction marks with
  | nil => exact absurd member List.not_mem_nil
  | cons first rest ih =>
      have shifted : ∀ {marks : List (Mark Time Value)}, mark ∈ shift by_ marks →
          ∃ old ∈ marks, mark.time = old.time := by
        intro marks member
        obtain ⟨old, inside, rfl⟩ := List.mem_map.mp member
        exact ⟨old, inside, rfl⟩
      rw [adjust] at member
      split at member
      · rcases List.mem_cons.mp member with rfl | member
        · exact .inr ⟨mark, List.mem_cons_self, rfl⟩
        · rcases ih member with same | ⟨old, inside, same⟩
          · exact .inl same
          · exact .inr ⟨old, List.mem_cons_of_mem _ inside, same⟩
      · split at member
        · exact .inr (shifted member)
        · rcases List.mem_cons.mp member with rfl | member
          · exact .inr ⟨mark, List.mem_cons_self, rfl⟩
          · rcases List.mem_cons.mp member with rfl | member
            · exact .inl rfl
            · obtain ⟨old, inside, same⟩ := shifted member
              exact .inr ⟨old, List.mem_cons_of_mem _ inside, same⟩

theorem shift_sorted (sorted : marks.Pairwise fun earlier later => earlier.time < later.time) :
    (shift by_ marks).Pairwise fun earlier later => earlier.time < later.time :=
  List.pairwise_map.mpr sorted

theorem adjust_starts (starts : Starts first marks) (inside : first ≤ time) :
    Starts first (adjust time by_ marks) := by
  induction marks generalizing first with
  | nil => cases starts.head
  | cons mark rest ih =>
      obtain ⟨rfl, sorted, above⟩ := Starts.cons_iff.mp starts
      rw [adjust]
      split
      · rename_i goes_on
        cases rest with
        | nil => cases goes_on
        | cons next rest =>
            have reached : next.time ≤ time := by simpa using goes_on
            have onward : Starts next.time (next :: rest) := ⟨sorted, rfl⟩
            refine Starts.cons_iff.mpr ⟨rfl, (ih onward reached).sorted, fun later member => ?_⟩
            rcases adjust_mem member with same | ⟨old, inside, same⟩
            · rw [same]
              exact (above next List.mem_cons_self).trans_le reached
            · rw [same]
              exact above old inside
      · rename_i last
        split
        · rename_i same
          exact Starts.cons_iff.mpr ⟨rfl, shift_sorted sorted, shift_later above⟩
        · rename_i different
          have earlier : mark.time < time := lt_of_le_of_ne inside different
          have beyond := beyond_last sorted last
          refine Starts.cons_iff.mpr ⟨rfl, List.pairwise_cons.mpr ⟨shift_later beyond, shift_sorted sorted⟩, ?_⟩
          exact fun later member => (List.mem_cons.mp member).elim (fun same => same ▸ earlier)
            (shift_later above later)

end Functions

end Xcpu.Timeline
