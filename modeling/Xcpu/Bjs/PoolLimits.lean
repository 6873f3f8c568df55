import Xcpu.Bjs.Pool

/-!
The limits of a pool, as the policies read the requirements of the jobs that it accepted. They hold but for
seconds that do not fit an `int`, of which only the low half is checked, and for shared pools that may be
given more nodes than they have.
-/

namespace Xcpu.Bjs

open Xcpu.Numerals

/-- The numbers that the policies read are within the limits of the pool. -/
structure WithinLimits (p : Pool) (reqs : Sexp) : Prop where
  minNodes : p.minNodes ≠ -1 → p.minNodes ≤ nodesRequired reqs
  maxNodes : p.maxNodes ≠ -1 → nodesRequired reqs ≤ p.maxNodes
  nnodes : nodesRequired reqs ≤ p.nnodes
  minSecs : p.minSecs ≠ -1 → ∀ dfl, p.minSecs.toInt ≤ (timeRequired reqs dfl).toInt
  maxSecs : p.maxSecs ≠ -1 → ∀ dfl, (timeRequired reqs dfl).toInt ≤ p.maxSecs.toInt

/-- The seconds fit an `int`, or there is no limit on the side on which they do not. -/
def SecsFit (p : Pool) (reqs : Sexp) : Prop :=
  ((strtol0 (bjsJobReq reqs secsKey zeroText)).1 < -2 ^ 31 → p.minSecs = -1) ∧
    (2 ^ 31 ≤ (strtol0 (bjsJobReq reqs secsKey zeroText)).1 → p.maxSecs = -1)

/-- A shared pool is not asked for more nodes than it has. -/
def NodesFit (p : Pool) (reqs : Sexp) : Prop :=
  p.policy = .shared → p.maxNodes ≠ -1 → nodesRequired reqs ≤ p.nnodes

variable {p : Pool} {reqs : Sexp}

theorem clampLong_bounds (value : Int) : -2 ^ 63 ≤ clampLong value ∧ clampLong value < 2 ^ 63 := by
  rw [clampLong]
  omega

theorem strtol0_bounds (s : Bytes) : -2 ^ 63 ≤ (strtol0 s).1 ∧ (strtol0 s).1 < 2 ^ 63 := by
  simp only [strtol0]
  split
  all_goals
    split
    · norm_num
    · exact clampLong_bounds _

theorem timeRequired_toInt (dfl : Bytes) :
    (timeRequired reqs dfl).toInt = (strtol0 (bjsJobReq reqs secsKey dfl)).1 := by
  obtain ⟨low, high⟩ := strtol0_bounds (bjsJobReq reqs secsKey dfl)
  exact Int64.toInt_ofInt_of_le low high

theorem bjsJobReq_default {key dfl : Bytes} (given : bjsJobReq reqs key dfl ≠ dfl) (other : Bytes) :
    bjsJobReq reqs key other = bjsJobReq reqs key dfl := by
  unfold bjsJobReq at given ⊢
  split at given
  · rfl
  · contradiction

theorem submitToPool_checked {pools : List Pool} {creds : Creds} {str : Bytes} {given : Sexp}
    (submitted : submitToPool pools creds str given = .ok (p, reqs)) :
    submitCheckNodes p reqs = .ok () ∧ submitCheckSecs p reqs = .ok () ∧ p.policy.submit p reqs = .ok () := by
  rw [submitToPool] at submitted
  split at submitted
  · cases submitted
  · rename_i pool found
    split at submitted
    · rw [submitCheckBuiltin] at submitted
      cases nodes : submitCheckNodes pool given with
      | error told => simp [nodes, bind, Except.bind] at submitted
      | ok _ =>
          cases secs : submitCheckSecs pool given with
          | error told => simp [nodes, secs, bind, Except.bind] at submitted
          | ok _ =>
              cases policy : pool.policy.submit pool given with
              | error told => simp [nodes, secs, policy, bind, Except.bind] at submitted
              | ok _ =>
                  simp only [nodes, secs, policy, bind, Except.bind, pure, Except.pure, Except.ok.injEq,
                    Prod.mk.injEq] at submitted
                  obtain ⟨rfl, rfl⟩ := submitted
                  exact ⟨nodes, secs, policy⟩
    · cases submitted

theorem submitJob_checked {pools : List Pool} {creds : Creds} {jobsx : Sexp}
    (submitted : submitJob pools creds jobsx = .ok (p, reqs)) :
    submitCheckNodes p reqs = .ok () ∧ submitCheckSecs p reqs = .ok () ∧ p.policy.submit p reqs = .ok () := by
  rw [submitJob] at submitted
  by_cases formed : jobsx.elements.hasFormat
        (if (sexpNth jobsx 0).val? ≠ some jobAtom then interactiveFormat else jobFormat) = true ∧
      ((sexpNth jobsx 0).val? ≠ some jobAtom ∨ (sexpNth jobsx 6).elements.vals.isSome = true) ∧
      (sexpNth jobsx (if (sexpNth jobsx 0).val? ≠ some jobAtom then 2 else 7)).elements.areReqs = true
  · rw [if_pos formed] at submitted
    exact submitToPool_checked submitted
  · rw [if_neg formed] at submitted
    cases submitted

theorem submitCheckNodes_ok (checked : submitCheckNodes p reqs = .ok ()) :
    (p.minNodes ≠ -1 → p.minNodes ≤ nodesRequired reqs) ∧ (p.maxNodes ≠ -1 → nodesRequired reqs ≤ p.maxNodes) ∧
      (p.maxNodes = -1 → nodesRequired reqs ≤ p.nnodes) := by
  rw [nodesRequired]
  simp only [submitCheckNodes] at checked
  split at checked
  · cases checked
  · split at checked
    · cases checked
    · rename_i above
      split at checked
      · rename_i limited
        split at checked
        · cases checked
        · rename_i below
          exact ⟨fun configured => Int32.not_lt.mp fun less => above ⟨configured, less⟩,
            fun _ => Int32.not_lt.mp below, fun unlimited => absurd unlimited limited⟩
      · rename_i unlimited
        split at checked
        · cases checked
        · rename_i below
          exact ⟨fun configured => Int32.not_lt.mp fun less => above ⟨configured, less⟩,
            fun limited => absurd limited unlimited, fun _ => Int32.not_lt.mp below⟩

theorem submitCheckSecs_ok (checked : submitCheckSecs p reqs = .ok ()) :
    0 < Int32.ofInt (strtol0 (bjsJobReq reqs secsKey zeroText)).1 ∧
      (p.minSecs ≠ -1 → p.minSecs ≤ Int32.ofInt (strtol0 (bjsJobReq reqs secsKey zeroText)).1) ∧
      (p.maxSecs ≠ -1 → Int32.ofInt (strtol0 (bjsJobReq reqs secsKey zeroText)).1 ≤ p.maxSecs) := by
  simp only [submitCheckSecs] at checked
  split at checked
  · cases checked
  · rename_i valid
    split at checked
    · cases checked
    · rename_i above
      split at checked
      · cases checked
      · rename_i below
        exact ⟨Int32.not_le.mp fun none => valid (.inr none),
          fun configured => Int32.not_lt.mp fun less => above ⟨configured, less⟩,
          fun configured => Int32.not_lt.mp fun less => below ⟨configured, less⟩⟩

theorem exclusiveSubmit_ok (checked : exclusiveSubmit p reqs = .ok ()) : nodesRequired reqs ≤ p.nnodes := by
  simp only [exclusiveSubmit] at checked
  split at checked
  · cases checked
  · split at checked
    · cases checked
    · rename_i below
      exact Int32.not_lt.mp below

/-- The pool has the nodes that the policy reads, unless it is shared and has another limit. -/
theorem nodesRequired_le_iff (checked : submitCheckNodes p reqs = .ok ())
    (submitted : p.policy.submit p reqs = .ok ()) : nodesRequired reqs ≤ p.nnodes ↔ NodesFit p reqs := by
  constructor
  · exact fun inside _ _ => inside
  · intro fits
    cases policy : p.policy with
    | simple =>
        rw [policy] at submitted
        exact exclusiveSubmit_ok submitted
    | filler =>
        rw [policy] at submitted
        exact exclusiveSubmit_ok submitted
    | shared =>
        by_cases limited : p.maxNodes = -1
        · exact (submitCheckNodes_ok checked).2.2 limited
        · exact fits policy limited

theorem timeRequired_eq (checked : submitCheckSecs p reqs = .ok ()) (dfl : Bytes) :
    (timeRequired reqs dfl).toInt = (strtol0 (bjsJobReq reqs secsKey zeroText)).1 := by
  have given : bjsJobReq reqs secsKey zeroText ≠ zeroText := by
    intro missing
    have positive := (submitCheckSecs_ok checked).1
    rw [missing] at positive
    exact absurd positive (by decide)
  rw [timeRequired_toInt, bjsJobReq_default given]

theorem secs_limits_iff (checked : submitCheckSecs p reqs = .ok ()) :
    ((p.minSecs ≠ -1 → ∀ dfl, p.minSecs.toInt ≤ (timeRequired reqs dfl).toInt) ∧
      (p.maxSecs ≠ -1 → ∀ dfl, (timeRequired reqs dfl).toInt ≤ p.maxSecs.toInt)) ↔ SecsFit p reqs := by
  obtain ⟨-, above, below⟩ := submitCheckSecs_ok checked
  simp only [timeRequired_eq checked, forall_const, SecsFit]
  have minimum := p.minSecs.le_toInt
  have maximum := p.maxSecs.toInt_lt
  generalize (strtol0 (bjsJobReq reqs secsKey zeroText)).1 = secs at above below ⊢
  rw [Int32.le_iff_toInt_le] at above below
  by_cases low : secs < -2 ^ 31
  · have least := p.maxSecs.le_toInt
    constructor
    · rintro ⟨fits, -⟩
      refine ⟨fun _ => ?_, fun high => by omega⟩
      by_contra configured
      have inside := fits configured
      omega
    · rintro ⟨fits, -⟩
      exact ⟨fun configured => absurd (fits low) configured, fun _ => by omega⟩
  · by_cases high : 2 ^ 31 ≤ secs
    · have most := p.minSecs.toInt_lt
      constructor
      · rintro ⟨-, fits⟩
        refine ⟨fun low => by omega, fun _ => ?_⟩
        by_contra configured
        have inside := fits configured
        omega
      · rintro ⟨-, fits⟩
        exact ⟨fun _ => by omega, fun configured => absurd (fits high) configured⟩
    · rw [Int32.toInt_ofInt_of_le (not_lt.mp low) (not_le.mp high)] at above below
      exact iff_of_true ⟨above, below⟩ ⟨fun less => absurd less low, fun more => absurd more high⟩

/-- What is accepted into a pool is within its limits, as the policies read it. -/
theorem limits_hold (pools : List Pool) (creds : Creds) (jobsx : Sexp) (p : Pool) (reqs : Sexp)
    (submitted : submitJob pools creds jobsx = .ok (p, reqs)) :
    WithinLimits p reqs ↔ SecsFit p reqs ∧ NodesFit p reqs := by
  obtain ⟨nodes, secs, policy⟩ := submitJob_checked submitted
  obtain ⟨minNodes, maxNodes, -⟩ := submitCheckNodes_ok nodes
  constructor
  · rintro ⟨-, -, inside, minSecs, maxSecs⟩
    exact ⟨(secs_limits_iff secs).mp ⟨minSecs, maxSecs⟩, (nodesRequired_le_iff nodes policy).mp inside⟩
  · rintro ⟨fits, shared⟩
    obtain ⟨minSecs, maxSecs⟩ := (secs_limits_iff secs).mpr fits
    exact ⟨minNodes, maxNodes, (nodesRequired_le_iff nodes policy).mpr shared, minSecs, maxSecs⟩

/-- A pool of one node for jobs of ten seconds, and an interactive job. -/
def tenSeconds : Pool := { name := [112], policy := .filler, nodes := [[110]], maxSecs := 10 }

def secsReqs (secs : Bytes) : Sexp := .list (.list (.value secsKey (.value secs .null)) .null) .null

def interactiveJob (reqs : Sexp) : Sexp :=
  .list (.value [106, 111, 98, 105] (.value tenSeconds.name reqs)) .null

/-- `"8"` and `"0x100000001"` -/
def eightText : Bytes := [56]
def wrappedText : Bytes := [48, 120, 49, 48, 48, 48, 48, 48, 48, 48, 49]

theorem limits_hold_eight : WithinLimits tenSeconds (secsReqs eightText) ↔
    SecsFit tenSeconds (secsReqs eightText) ∧ NodesFit tenSeconds (secsReqs eightText) :=
  limits_hold [tenSeconds] ⟨1, 1⟩ (interactiveJob (secsReqs eightText)) _ _ (by decide)

/-- Only the low half of the seconds is checked. -/
theorem wrapped_accepted : submitJob [tenSeconds] ⟨1, 1⟩ (interactiveJob (secsReqs wrappedText)) =
      .ok (tenSeconds, secsReqs wrappedText) ∧
    ¬WithinLimits tenSeconds (secsReqs wrappedText) := by
  constructor
  · decide
  · intro within
    have short := within.maxSecs (by decide) zeroText
    exact absurd short (by decide)

end Xcpu.Bjs
