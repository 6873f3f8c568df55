import Xcpu.Lib.Lines

/-!
A stream cut into pieces, after each separator and wherever a piece is full. The stream may arrive in
parts, so the cut carries the piece that is already begun. A separator stays in its piece.
-/

namespace Xcpu.Pieces

open Xcpu.Lines

variable {Letter : Type*} [DecidableEq Letter] (sep : Letter) (room : Nat)

def pieces (begun : List Letter) : List Letter → List (List Letter)
  | [] => []
  | c :: rest =>
      if c = sep ∨ begun.length + 1 = room then (begun ++ [c]) :: pieces [] rest else pieces (begun ++ [c]) rest

@[simp]
def remainder (begun : List Letter) : List Letter → List Letter
  | [] => begun
  | c :: rest => if c = sep ∨ begun.length + 1 = room then remainder [] rest else remainder (begun ++ [c]) rest

theorem pieces_append (begun first second : List Letter) :
    pieces sep room begun (first ++ second) =
      pieces sep room begun first ++ pieces sep room (remainder sep room begun first) second := by
  induction first generalizing begun with
  | nil => rfl
  | cons c rest ih =>
      rw [List.cons_append, pieces, pieces, remainder]
      split
      · rw [ih, List.cons_append]
      · exact ih _

theorem remainder_append (begun first second : List Letter) :
    remainder sep room begun (first ++ second) = remainder sep room (remainder sep room begun first) second := by
  induction first generalizing begun with
  | nil => rfl
  | cons c rest ih =>
      rw [List.cons_append, remainder, remainder]
      split <;> exact ih _

theorem pieces_flatten (begun text : List Letter) :
    (pieces sep room begun text).flatten ++ remainder sep room begun text = begun ++ text := by
  induction text generalizing begun with
  | nil => rw [pieces, remainder, List.flatten_nil, List.nil_append, List.append_nil]
  | cons c rest ih =>
      rw [pieces, remainder]
      split
      · rw [List.flatten_cons, List.append_assoc, ih, List.nil_append, List.append_assoc, List.singleton_append]
      · rw [ih, List.append_assoc, List.singleton_append]

theorem mem_pieces {begun text piece : List Letter} (plain : sep ∉ begun)
    (member : piece ∈ pieces sep room begun text) :
    (∃ line, sep ∉ line ∧ piece = line ++ [sep]) ∨ piece.length = room := by
  induction text generalizing begun with
  | nil => cases member
  | cons c rest ih =>
      rw [pieces] at member
      split at member
      · rename_i cut
        rcases List.mem_cons.mp member with rfl | later
        · rcases cut with rfl | full
          · exact .inl ⟨begun, plain, rfl⟩
          · right
            rw [List.length_append, List.length_singleton]
            exact full
        · exact ih List.not_mem_nil later
      · rename_i uncut
        refine ih ?_ member
        intro inside
        rcases List.mem_append.mp inside with before | here
        · exact plain before
        · exact uncut (.inl (List.mem_singleton.mp here).symm)

theorem remainder_plain {begun text : List Letter} (plain : sep ∉ begun) : sep ∉ remainder sep room begun text := by
  induction text generalizing begun with
  | nil => exact plain
  | cons c rest ih =>
      rw [remainder]
      split
      · exact ih List.not_mem_nil
      · rename_i uncut
        refine ih fun inside => ?_
        rcases List.mem_append.mp inside with before | here
        · exact plain before
        · exact uncut (.inl (List.mem_singleton.mp here).symm)

theorem remainder_length {begun text : List Letter} (short : begun.length < room) :
    (remainder sep room begun text).length < room := by
  induction text generalizing begun with
  | nil => exact short
  | cons c rest ih =>
      rw [remainder]
      split
      · exact ih (by rw [List.length_nil]; omega)
      · rename_i uncut
        refine ih ?_
        rw [List.length_append, List.length_singleton]
        omega

theorem remainder_mod {begun line text : List Letter} (short : begun.length < room)
    (same : begun.length = line.length % room) :
    (remainder sep room begun text).length = (unfinished sep line text).length % room := by
  induction text generalizing begun line with
  | nil => exact same
  | cons c rest ih =>
      rw [remainder, unfinished]
      by_cases here : c = sep
      · rw [if_pos (.inl here), if_pos here]
        exact ih (by rw [List.length_nil]; omega) (by simp)
      · have grown : (line ++ [c]).length % room = (begun.length + 1) % room := by
          rw [List.length_append, List.length_singleton, same, Nat.mod_add_mod]
        rw [if_neg here]
        by_cases full : begun.length + 1 = room
        · rw [if_pos (.inr full)]
          refine ih (by rw [List.length_nil]; omega) ?_
          rw [grown, full, Nat.mod_self, List.length_nil]
        · have inside : begun.length + 1 < room := by omega
          rw [if_neg fun cut => cut.elim here full]
          refine ih (by rw [List.length_append, List.length_singleton]; exact inside) ?_
          rw [grown, Nat.mod_eq_of_lt inside, List.length_append, List.length_singleton]

theorem pieces_lines {begun text : List Letter} (short : begun.length < room)
    (fits : begun.length + text.length ≤ room) :
    pieces sep room begun text = (splitLines sep begun text).map (· ++ [sep]) ++
        (if (unfinished sep begun text).length = room then [unfinished sep begun text] else []) ∧
      remainder sep room begun text =
        if (unfinished sep begun text).length = room then [] else unfinished sep begun text := by
  induction text generalizing begun with
  | nil =>
      rw [pieces, remainder, splitLines_nil, unfinished_nil, if_neg (by omega), if_neg (by omega)]
      exact ⟨rfl, rfl⟩
  | cons c rest ih =>
      rw [List.length_cons] at fits
      rw [pieces, remainder, splitLines, unfinished]
      by_cases here : c = sep
      · subst c
        obtain ⟨cut, left⟩ := @ih [] (by rw [List.length_nil]; omega) (by rw [List.length_nil]; omega)
        simp only [true_or, if_true, cut, left, List.map_cons, List.cons_append, and_self]
      · rw [if_neg here, if_neg here]
        have grown : (begun ++ [c]).length = begun.length + 1 := by rw [List.length_append, List.length_singleton]
        by_cases full : begun.length + 1 = room
        · obtain rfl : rest = [] := List.eq_nil_of_length_eq_zero (by omega)
          have cuts : c = sep ∨ begun.length + 1 = room := .inr full
          simp only [if_pos cuts, pieces, remainder, splitLines_nil, unfinished_nil, grown, if_pos full, List.map_nil,
            List.nil_append, and_self]
        · have uncut : ¬(c = sep ∨ begun.length + 1 = room) := fun cut => cut.elim here full
          simp only [if_neg uncut]
          exact ih (by omega) (by omega)

end Xcpu.Pieces
