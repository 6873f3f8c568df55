import Mathlib.Data.List.Basic
import Mathlib.Data.List.Count

/-!
Logs of operations on handles, some of which give the handle back. A log is sound when
nothing touches a handle that was given back, so that each is given back once at most.
-/

namespace Xcpu.Handles

variable {Op Handle : Type*} (closes : Op → Prop) (handle : Op → Handle)

def Spent (log : List Op) (fd : Handle) : Prop := ∃ op ∈ log, closes op ∧ handle op = fd

def Sound (log : List Op) : Prop :=
  log.Pairwise fun earlier later => closes earlier → handle earlier ≠ handle later

variable {closes handle} {log ops : List Op}

theorem sound_append : Sound closes handle (log ++ ops) ↔
    Sound closes handle log ∧ Sound closes handle ops ∧ ∀ op ∈ ops, ¬ Spent closes handle log (handle op) := by
  rw [Sound, List.pairwise_append]
  refine and_congr_right fun _ => and_congr_right fun _ => ?_
  constructor
  · rintro apart op member ⟨earlier, inside, closing, same⟩
    exact apart earlier inside op member closing same
  · intro unspent earlier inside op member closing same
    exact unspent op member ⟨earlier, inside, closing, same⟩

theorem not_spent_of_open (opened : ∀ op ∈ log, ¬ closes op) (fd : Handle) : ¬ Spent closes handle log fd := by
  rintro ⟨op, member, closing, -⟩
  exact opened op member closing

theorem sound_append_of_open (opened : ∀ op ∈ log, ¬ closes op) (sound : Sound closes handle log) :
    Sound closes handle (log ++ ops) ↔ Sound closes handle ops := by
  rw [sound_append]
  constructor
  · exact fun all => all.2.1
  · exact fun added => ⟨sound, added, fun op _ => not_spent_of_open opened (handle op)⟩

theorem sound_append_of_spent (sound : Sound closes handle log)
    (spent : ∀ op ∈ ops, Spent closes handle log (handle op)) :
    Sound closes handle (log ++ ops) ↔ ops = [] := by
  rw [sound_append]
  constructor
  · intro all
    cases ops with
    | nil => rfl
    | cons op rest => exact absurd (spent op List.mem_cons_self) (all.2.2 op List.mem_cons_self)
  · rintro rfl
    exact ⟨sound, List.Pairwise.nil, by simp⟩

theorem sound_of_open (opened : ∀ op ∈ ops, ¬ closes op) : Sound closes handle ops := by
  rw [Sound, List.pairwise_iff_forall_sublist]
  intro earlier later part closing
  exact absurd closing (opened earlier (part.subset List.mem_cons_self))

theorem Sound.count_le [DecidableEq Op] (sound : Sound closes handle log) {op : Op} (closing : closes op) :
    log.count op ≤ 1 := by
  induction log with
  | nil => simp
  | cons first rest ih =>
      obtain ⟨apart, later⟩ := List.pairwise_cons.mp sound
      rw [List.count_cons]
      split
      · rename_i same
        have here : first = op := by simpa using same
        subst here
        have gone : first ∉ rest := fun member => apart first member closing rfl
        have none := List.count_eq_zero.mpr gone
        omega
      · exact ih later

end Xcpu.Handles
