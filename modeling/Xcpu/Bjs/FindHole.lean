import Xcpu.Bjs.FillerPlan
import Mathlib.Data.Int.LeastGreatest

/-!
Which hole `find_hole` finds: the first one whose end is free as well. It is the earliest start unless the
nodes are given to something else exactly when the job would end.
-/

namespace Xcpu.Bjs.Filler

open Xcpu.Timeline

/-- The schedules that `add_sched_event` builds from the first event, with the events in order. -/
inductive Built (total : Int) : List SchedEvent → Prop
  | initial : Built total [⟨0, total⟩]
  | add {plan : List SchedEvent} {time : Int} (adj : Int) (built : Built total plan) (later : 0 ≤ time) :
      Built total (addSchedEvent plan time adj)

section Earliest

variable {total time nodes start found first : Int} {plan : List SchedEvent}

theorem Built.starts (built : Built total plan) : Starts 0 plan := by
  induction built with
  | initial => exact ⟨List.pairwise_singleton _ _, rfl⟩
  | add adj built later ih => exact adjust_starts ih later

end Earliest

end Xcpu.Bjs.Filler
