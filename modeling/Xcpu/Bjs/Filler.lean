import Xcpu.Bjs.Schedule
import Xcpu.Lib.Timeline

/-!
The policy `filler` (`filler.c`): a plan of the free nodes, in which each waiting job is put into the first
hole it fits into, and started if that is now. A sum of times that is no `long` leaves the defined
behaviour.
-/

namespace Xcpu.Bjs.Filler

open Xcpu.Timeline

/-- `struct sched_event_t` -/
abbrev SchedEvent := Mark Int Int

def long (value : Int) : Option Int := if -2 ^ 63 ≤ value ∧ value < 2 ^ 63 then some value else none

def addSchedEvent (head : List SchedEvent) (time adj : Int) : List SchedEvent := adjust time adj head

/-- The event is behind the end of the hole. -/
def holeEnds (time start : Int) (se : SchedEvent) : Option Bool :=
  if start = -1 then some false else (long (start + time)).map fun ends => decide (ends < se.time)

/-- The loop of `find_hole`, with `start`. -/
def findHoleFrom (time nodes : Int) : Int → List SchedEvent → Option Int
  | start, [] => some start
  | start, se :: rest => do
      let ended ← holeEnds time start se
      if ended then some start
      else if nodes ≤ se.value then findHoleFrom time nodes (if start = -1 then se.time else start) rest
      else findHoleFrom time nodes (-1) rest

def findHole (head : List SchedEvent) (time nodes : Int) : Option Int := findHoleFrom time nodes (-1) head

/-- Add all the running jobs. -/
def addRunning (now : Nat) : List SchedEvent → List Job → Option (List SchedEvent)
  | plan, [] => some plan
  | plan, j :: rest =>
      if bjsJobIsRunning j then do
        let timeRem ← long (Job.secs j zeroText - ((now : Int) - j.startTime))
        let timeRem := if timeRem ≤ 0 then 1 else timeRem
        addRunning now (addSchedEvent (addSchedEvent plan 0 (-Job.nodes j)) timeRem (Job.nodes j)) rest
      else addRunning now plan rest

/-- The state of the cluster and the plan. -/
structure Pass where
  sched : Sched
  plan : List SchedEvent
  deriving DecidableEq

section Policy

variable (dependencies : Sched → Sexp → Bool)

/-- One round of the loop over the waiting jobs. -/
def place (now : Nat) (p : Pool) (pass : Pass) (j : Job) : Option Pass :=
  if bjsJobIsRunning j then some pass
  else if !bjsJobRunnable dependencies p pass.sched j then some pass
  else do
    let start ← findHole pass.plan (Job.secs j oneText) (Job.nodes j)
    if start = -1 then some pass
    else do
      let plan := addSchedEvent pass.plan start (-Job.nodes j)
      let ends ← long (start + Job.secs j oneText)
      let plan := addSchedEvent plan ends (Job.nodes j)
      if start = 0 then
        some ⟨bjsStartJob now (allocateIdle j (List.range p.nodes.length) (Job.nodes j) pass.sched).2 j.id, plan⟩
      else some { pass with plan }

def placeAll (now : Nat) (p : Pool) : Pass → List Job → Option Pass
  | pass, [] => some pass
  | pass, j :: rest => do
      let pass ← place dependencies now p pass j
      placeAll now p pass rest

def fillerSchedule (now : Nat) (p : Pool) (s : Sched) : Option Pass := do
  let s := killExpired now p s
  let plan ← addRunning now [⟨0, totalNodes p s⟩] (s.jobsOf p)
  placeAll dependencies now p ⟨s, plan⟩ (s.jobsOf p)

end Policy

end Xcpu.Bjs.Filler
