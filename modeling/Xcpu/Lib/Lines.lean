import Mathlib.Data.List.TakeWhile

/-!
Streams of lines that each end in a separator, and the line that the stream leaves
unfinished. A stream may arrive in pieces, so both carry the line that is already begun.
-/

namespace Xcpu.Lines

variable {Letter : Type*} [DecidableEq Letter] (sep : Letter)

@[simp]
def splitLines (line : List Letter) : List Letter → List (List Letter)
  | [] => []
  | c :: rest => if c = sep then line :: splitLines [] rest else splitLines (line ++ [c]) rest

@[simp]
def unfinished (line : List Letter) : List Letter → List Letter
  | [] => line
  | c :: rest => if c = sep then unfinished [] rest else unfinished (line ++ [c]) rest

@[simp] theorem splitLines_nil (line : List Letter) : splitLines sep line [] = [] := rfl

@[simp] theorem unfinished_nil (line : List Letter) : unfinished sep line [] = line := rfl

theorem splitLines_append (line first second : List Letter) :
    splitLines sep line (first ++ second) =
      splitLines sep line first ++ splitLines sep (unfinished sep line first) second := by
  induction first generalizing line with
  | nil => rfl
  | cons c rest ih =>
      rw [List.cons_append, splitLines, splitLines, unfinished]
      split
      · rw [ih, List.cons_append]
      · exact ih _

theorem unfinished_append (line first second : List Letter) :
    unfinished sep line (first ++ second) = unfinished sep (unfinished sep line first) second := by
  induction first generalizing line with
  | nil => rfl
  | cons c rest ih =>
      rw [List.cons_append, unfinished, unfinished]
      split <;> exact ih _

theorem splitLines_of_not_mem {text : List Letter} (line : List Letter) (unbroken : sep ∉ text) :
    splitLines sep line text = [] := by
  induction text generalizing line with
  | nil => rfl
  | cons c rest ih =>
      have other := List.ne_of_not_mem_cons unbroken
      have later := List.not_mem_of_not_mem_cons unbroken
      rw [splitLines, if_neg (Ne.symm other)]
      exact ih _ later

theorem unfinished_of_not_mem {text : List Letter} (line : List Letter) (unbroken : sep ∉ text) :
    unfinished sep line text = line ++ text := by
  induction text generalizing line with
  | nil => simp
  | cons c rest ih =>
      have other := List.ne_of_not_mem_cons unbroken
      have later := List.not_mem_of_not_mem_cons unbroken
      rw [unfinished, if_neg (Ne.symm other), ih _ later, List.append_assoc, List.singleton_append]

theorem splitLines_first {text : List Letter} (line : List Letter) (broken : sep ∈ text) :
    splitLines sep line text = (line ++ text.takeWhile (· != sep)) ::
      splitLines sep [] (text.drop ((text.takeWhile (· != sep)).length + 1)) := by
  induction text generalizing line with
  | nil => exact absurd broken List.not_mem_nil
  | cons c rest ih =>
      by_cases same : c = sep
      · simp [splitLines, same]
      · rcases List.mem_cons.mp broken with here | later
        · exact absurd here.symm same
        · have kept : (c :: rest).takeWhile (· != sep) = c :: rest.takeWhile (· != sep) := by
            simp [same]
          rw [splitLines, if_neg same, ih _ later, kept, List.append_assoc, List.singleton_append,
            List.length_cons, List.drop_succ_cons]

theorem splitLines_eq_nil_iff (line text : List Letter) :
    splitLines sep line text = [] ↔ sep ∉ text := by
  constructor
  · intro none broken
    rw [splitLines_first sep line broken] at none
    contradiction
  · exact splitLines_of_not_mem sep line

theorem splitLines_inj {text : List Letter} {line other : List Letter} (broken : sep ∈ text)
    (same : splitLines sep line text = splitLines sep other text) : line = other := by
  rw [splitLines_first sep line broken, splitLines_first sep other broken] at same
  exact List.append_cancel_right (List.cons.inj same).1

theorem length_splitLines (line text : List Letter) :
    (splitLines sep line text).length = text.count sep := by
  induction text generalizing line with
  | nil => rfl
  | cons c rest ih =>
      rw [splitLines]
      split
      · rename_i same
        rw [List.length_cons, ih, same, List.count_cons_self]
      · rename_i other
        rw [ih, List.count_cons_of_ne other]

theorem mem_of_mem_splitLines {line text found : List Letter} {c : Letter}
    (member : found ∈ splitLines sep line text) (letter : c ∈ found) : c ∈ line ∨ c ∈ text := by
  induction text generalizing line with
  | nil => exact absurd member List.not_mem_nil
  | cons head rest ih =>
      rw [splitLines] at member
      split at member
      · rcases List.mem_cons.mp member with first | later
        · exact .inl (first ▸ letter)
        · rcases ih later with begun | inside
          · exact absurd begun List.not_mem_nil
          · exact .inr (List.mem_cons_of_mem _ inside)
      · rcases ih member with begun | inside
        · rcases List.mem_append.mp begun with old | new
          · exact .inl old
          · exact .inr (List.mem_singleton.mp new ▸ List.mem_cons_self)
        · exact .inr (List.mem_cons_of_mem _ inside)

theorem not_mem_unfinished {line : List Letter} (text : List Letter) (unbroken : sep ∉ line) :
    sep ∉ unfinished sep line text := by
  induction text generalizing line with
  | nil => exact unbroken
  | cons c rest ih =>
      rw [unfinished]
      split
      · exact ih List.not_mem_nil
      · rename_i other
        apply ih
        intro member
        rcases List.mem_append.mp member with old | new
        · exact unbroken old
        · exact other (List.mem_singleton.mp new).symm

end Xcpu.Lines
