import Mathlib.Data.List.Basic

/-!
File names as strings of bytes: their parts between the slashes, the directory of a name, and
the names that stay below a directory.
-/

namespace Xcpu.Paths

abbrev Path := List UInt8

/-- Everything before the last slash; `none` if there is no slash. -/
def beforeLast : Path → Option Path
  | [] => none
  | c :: rest =>
      match beforeLast rest with
      | some dir => some (c :: dir)
      | none => if c = 47 then some [] else none

/-- No part between the slashes is empty, `.` or `..`. -/
def Proper (text : Path) : Prop := ∀ part ∈ text.splitOn 47, part ≠ [] ∧ part ≠ [46] ∧ part ≠ [46, 46]

instance (text : Path) : Decidable (Proper text) := List.decidableBAll _ _

/-- The directory itself, or proper parts after it. -/
def Below (root path : Path) : Prop := path = root ∨ ∃ rest, path = root ++ 47 :: rest ∧ Proper rest

variable {root path name dir base : Path}

theorem proper_append : Proper (dir ++ 47 :: base) ↔ Proper dir ∧ Proper base := by
  rw [Proper, List.splitOn_append_cons_self]
  constructor
  · intro proper
    exact ⟨fun part member => proper part (List.mem_append_left _ member),
      fun part member => proper part (List.mem_append_right _ member)⟩
  · rintro ⟨first, second⟩ part member
    rcases List.mem_append.mp member with before | after
    · exact first part before
    · exact second part after

theorem beforeLast_eq_none : beforeLast path = none ↔ 47 ∉ path := by
  induction path with
  | nil => simp [beforeLast]
  | cons c rest ih =>
      rw [beforeLast, List.mem_cons, not_or, ← ih]
      cases beforeLast rest with
      | some dir => simp
      | none =>
          by_cases here : c = 47
          · simp [here]
          · simp [here, Ne.symm here]

theorem beforeLast_append (plain : 47 ∉ base) : beforeLast (dir ++ 47 :: base) = some dir := by
  induction dir with
  | nil => simp [beforeLast, beforeLast_eq_none.mpr plain]
  | cons c rest ih => simp [beforeLast, ih]

theorem beforeLast_some (cut : beforeLast path = some dir) : ∃ base, path = dir ++ 47 :: base ∧ 47 ∉ base := by
  induction path generalizing dir with
  | nil => simp [beforeLast] at cut
  | cons c rest ih =>
      rw [beforeLast] at cut
      cases later : beforeLast rest with
      | some inner =>
          rw [later] at cut
          obtain rfl := Option.some.inj cut
          obtain ⟨base, rfl, plain⟩ := ih later
          exact ⟨base, rfl, plain⟩
      | none =>
          rw [later] at cut
          simp only [Option.ite_none_right_eq_some, Option.some.injEq] at cut
          obtain ⟨rfl, rfl⟩ := cut
          exact ⟨rest, rfl, beforeLast_eq_none.mp later⟩

theorem below_join_iff (below : Below root path) : Below root (path ++ 47 :: name) ↔ Proper name := by
  have longer : ∀ inner : Path, path = root ++ inner → path ++ 47 :: name ≠ root := by
    rintro inner rfl same
    have length := congrArg List.length same
    simp only [List.length_append, List.length_cons] at length
    omega
  rcases below with rfl | ⟨rest, rfl, proper⟩
  · constructor
    · rintro (same | ⟨rest, same, proper⟩)
      · exact absurd same (longer [] (List.append_nil _).symm)
      · obtain rfl := (List.cons.inj (List.append_cancel_left same)).2
        exact proper
    · intro proper
      exact .inr ⟨name, rfl, proper⟩
  · constructor
    · rintro (same | ⟨whole, same, parts⟩)
      · exact absurd same (longer _ rfl)
      · rw [List.append_assoc] at same
        obtain rfl := (List.cons.inj (List.append_cancel_left same)).2
        exact (proper_append.mp parts).2
    · intro parts
      exact .inr ⟨rest ++ 47 :: name, by simp, proper_append.mpr ⟨proper, parts⟩⟩

theorem below_beforeLast (below : Below root path) (inside : path ≠ root) :
    ∃ dir, beforeLast path = some dir ∧ Below root dir := by
  rcases below with same | ⟨rest, rfl, proper⟩
  · exact absurd same inside
  · cases cut : beforeLast rest with
    | none => exact ⟨root, beforeLast_append (beforeLast_eq_none.mp cut), .inl rfl⟩
    | some dir =>
        obtain ⟨base, rfl, plain⟩ := beforeLast_some cut
        refine ⟨root ++ 47 :: dir, ?_, .inr ⟨dir, rfl, (proper_append.mp proper).1⟩⟩
        have cut : beforeLast ((root ++ 47 :: dir) ++ 47 :: base) = some (root ++ 47 :: dir) :=
          beforeLast_append plain
        rw [List.append_assoc] at cut
        exact cut

end Xcpu.Paths
