import Mathlib.Algebra.Order.Ring.Int
import Mathlib.Data.List.Basic

/-!
Finite runs of a partial step function. A step that returns `none` has left the
defined behaviour of the program (a dangling pointer, a loop that never ends),
and no run continues through it. The rules below carry an invariant, and a
property of each single step, along every run whose steps a guard allows.
-/

namespace Xcpu.Transition

section Runs

variable {State Event : Type*} (step : State → Event → Option State)

def run : State → List Event → Option State
  | state, [] => some state
  | state, event :: events => (step state event).bind fun next => run next events

/-- Every step the run takes starts in a state where the guard allows it. -/
def Guarded (allowed : State → Event → Prop) : State → List Event → Prop
  | _, [] => True
  | state, event :: events => allowed state event ∧
      ∀ next, step state event = some next → Guarded allowed next events

/-- The property holds of each step the run takes. -/
def EveryStep (property : State → Event → State → Prop) : State → List Event → Prop
  | _, [] => True
  | state, event :: events => ∀ next, step state event = some next →
      property state event next ∧ EveryStep property next events

/-- Every step of the run is defined and comes to a state with the property. -/
def Throughout (property : State → Prop) : State → List Event → Prop
  | _, [] => True
  | state, event :: events => ∃ next, step state event = some next ∧ property next ∧ Throughout property next events

/-- Every step of the run is defined and has the property. -/
def EachStep (property : State → Event → State → Prop) : State → List Event → Prop
  | _, [] => True
  | state, event :: events => ∃ next, step state event = some next ∧ property state event next ∧
      EachStep property next events

@[simp] theorem run_nil (state : State) : run step state [] = some state := rfl

theorem run_cons (state : State) (event : Event) (events : List Event) :
    run step state (event :: events) = (step state event).bind fun next => run step next events :=
  rfl

theorem run_cons_some {state final : State} {event : Event} {events : List Event}
    (ran : run step state (event :: events) = some final) :
    ∃ next, step state event = some next ∧ run step next events = some final :=
  Option.bind_eq_some_iff.mp ran

theorem guarded_append {allowed : State → Event → Prop} {state middle : State}
    {first second : List Event} (guarded : Guarded step allowed state (first ++ second))
    (ran : run step state first = some middle) : Guarded step allowed middle second := by
  induction first generalizing state with
  | nil =>
      simp only [run_nil, Option.some.injEq] at ran
      subst middle
      exact guarded
  | cons event events ih =>
      obtain ⟨next, stepped, rest⟩ := run_cons_some step ran
      exact ih (guarded.2 next stepped) rest

theorem guarded_prefix {allowed : State → Event → Prop} {state : State}
    {first second : List Event} (guarded : Guarded step allowed state (first ++ second)) :
    Guarded step allowed state first := by
  induction first generalizing state with
  | nil => trivial
  | cons event events ih =>
      exact ⟨guarded.1, fun next stepped => ih (guarded.2 next stepped)⟩

theorem exists_final {state : State} {events : List Event} {property : State → Prop}
    (defined : (run step state events).isSome = true)
    (holds : ∀ final, run step state events = some final → property final) :
    ∃ final, run step state events = some final ∧ property final := by
  obtain ⟨final, ran⟩ := Option.isSome_iff_exists.mp defined
  exact ⟨final, ran, holds final ran⟩

theorem throughout_final {property : State → Prop} {state : State} {event : Event} {events : List Event}
    (all : Throughout step property state (event :: events)) :
    ∃ final, run step state (event :: events) = some final ∧ property final := by
  induction events generalizing state event with
  | nil =>
      obtain ⟨next, stepped, holds, -⟩ := all
      exact ⟨next, by rw [run_cons, stepped]; rfl, holds⟩
  | cons second events ih =>
      obtain ⟨next, stepped, -, later⟩ := all
      obtain ⟨final, ran, holds⟩ := ih later
      exact ⟨final, by rw [run_cons, stepped]; exact ran, holds⟩

/-- An invariant that every allowed step keeps holds wherever an allowed run ends. -/
theorem run_invariant {allowed : State → Event → Prop} {invariant : State → Prop}
    (preserved : ∀ state event next, invariant state → allowed state event →
      step state event = some next → invariant next)
    {state final : State} {events : List Event} (holds : invariant state)
    (guarded : Guarded step allowed state events) (ran : run step state events = some final) :
    invariant final := by
  induction events generalizing state with
  | nil =>
      simp only [run_nil, Option.some.injEq] at ran
      subst final
      exact holds
  | cons event events ih =>
      obtain ⟨next, stepped, rest⟩ := run_cons_some step ran
      exact ih (preserved state event next holds guarded.1 stepped) (guarded.2 next stepped) rest

/-- Where every allowed step from an invariant state is defined, so is every allowed run. -/
theorem run_defined {allowed : State → Event → Prop} {invariant : State → Prop}
    (progress : ∀ state event, invariant state → allowed state event →
      ∃ next, step state event = some next ∧ invariant next)
    {state : State} {events : List Event} (holds : invariant state)
    (guarded : Guarded step allowed state events) :
    ∃ final, run step state events = some final ∧ invariant final := by
  induction events generalizing state with
  | nil => exact ⟨state, rfl, holds⟩
  | cons event events ih =>
      obtain ⟨next, stepped, kept⟩ := progress state event holds guarded.1
      obtain ⟨final, ran, reached⟩ := ih kept (guarded.2 next stepped)
      refine ⟨final, ?_, reached⟩
      rw [run_cons, stepped, Option.bind_some, ran]

/-- What an allowed step from an invariant state guarantees holds of each step of an allowed run. -/
theorem everyStep_of_invariant {allowed : State → Event → Prop} {invariant : State → Prop}
    {property : State → Event → State → Prop}
    (preserved : ∀ state event next, invariant state → allowed state event →
      step state event = some next → invariant next)
    (ensured : ∀ state event next, invariant state → allowed state event →
      step state event = some next → property state event next)
    {state : State} {events : List Event} (holds : invariant state)
    (guarded : Guarded step allowed state events) : EveryStep step property state events := by
  induction events generalizing state with
  | nil => trivial
  | cons event events ih =>
      intro next stepped
      exact ⟨ensured state event next holds guarded.1 stepped,
        ih (preserved state event next holds guarded.1 stepped) (guarded.2 next stepped)⟩

theorem everyStep_iff_guarded {allowed : State → Event → Prop} {invariant : State → Prop}
    {property : State → Event → State → Prop}
    (preserved : ∀ state event next, invariant state → allowed state event →
      step state event = some next → invariant next)
    (exact : ∀ state event next, invariant state → step state event = some next →
      (property state event next ↔ allowed state event))
    (undefined : ∀ state event, step state event = none → allowed state event)
    {state : State} (events : List Event) (holds : invariant state) :
    EveryStep step property state events ↔ Guarded step allowed state events := by
  induction events generalizing state with
  | nil => exact Iff.rfl
  | cons event events ih =>
      cases stepped : step state event with
      | none =>
          simp only [EveryStep, Guarded, stepped, reduceCtorEq, false_implies, implies_true, and_true,
            true_iff]
          exact undefined state event stepped
      | some next =>
          have same := exact state event next holds stepped
          simp only [EveryStep, Guarded, stepped, Option.some.injEq, forall_eq', same]
          constructor
          · intro ⟨allowed, every⟩
            exact ⟨allowed, (ih (preserved state event next holds allowed stepped)).mp every⟩
          · intro ⟨allowed, guarded⟩
            exact ⟨allowed, (ih (preserved state event next holds allowed stepped)).mpr guarded⟩

/-- Where every allowed step from an invariant state is defined and has a property, so has each step of a run. -/
theorem eachStep_of_progress {allowed : State → Event → Prop} {invariant : State → Prop}
    {property : State → Event → State → Prop}
    (progress : ∀ state event, invariant state → allowed state event →
      ∃ next, step state event = some next ∧ property state event next ∧ invariant next)
    {state : State} {events : List Event} (holds : invariant state) (guarded : Guarded step allowed state events) :
    EachStep step property state events := by
  induction events generalizing state with
  | nil => trivial
  | cons event events ih =>
      obtain ⟨next, stepped, proper, kept⟩ := progress state event holds guarded.1
      exact ⟨next, stepped, proper, ih kept (guarded.2 next stepped)⟩

theorem eachStep_iff_guarded {allowed : State → Event → Prop} {invariant : State → Prop}
    {property : State → Event → State → Prop}
    (exact : ∀ state event, invariant state →
      ((∃ next, step state event = some next ∧ property state event next) ↔ allowed state event))
    (preserved : ∀ state event next, invariant state → step state event = some next →
      property state event next → invariant next)
    {state : State} (events : List Event) (holds : invariant state) :
    EachStep step property state events ↔ Guarded step allowed state events := by
  induction events generalizing state with
  | nil => exact Iff.rfl
  | cons event events ih =>
      constructor
      · rintro ⟨next, stepped, proper, later⟩
        have kept := preserved state event next holds stepped proper
        refine ⟨(exact state event holds).mp ⟨next, stepped, proper⟩, fun other same => ?_⟩
        rw [stepped, Option.some.injEq] at same
        subst other
        exact (ih kept).mp later
      · rintro ⟨allowed, later⟩
        obtain ⟨next, stepped, proper⟩ := (exact state event holds).mpr allowed
        have kept := preserved state event next holds stepped proper
        exact ⟨next, stepped, proper, (ih kept).mpr (later next stepped)⟩

theorem throughout_iff_eachStep {property : State → Prop} {state : State} (events : List Event) :
    Throughout step property state events ↔ EachStep step (fun _ _ next => property next) state events := by
  induction events generalizing state with
  | nil => exact Iff.rfl
  | cons event events ih => exact exists_congr fun _ => and_congr_right fun _ => and_congr_right fun _ => ih

theorem throughout_iff_guarded {allowed : State → Event → Prop} {invariant property : State → Prop}
    (exact : ∀ state event, invariant state →
      ((∃ next, step state event = some next ∧ property next) ↔ allowed state event))
    (preserved : ∀ state event next, invariant state → step state event = some next → property next →
      invariant next)
    {state : State} (events : List Event) (holds : invariant state) :
    Throughout step property state events ↔ Guarded step allowed state events :=
  (throughout_iff_eachStep step events).trans (eachStep_iff_guarded step exact preserved events holds)

/-- A guard that is exact up to states in which something is left open, and stays open, is exact for the
runs that leave nothing open. -/
theorem throughout_iff_guarded_of_closed {allowed : State → Event → Prop} {invariant property left : State → Prop}
    (enough : ∀ state event, invariant state → allowed state event →
      ∃ next, step state event = some next ∧ property next ∧ invariant next)
    (needed : ∀ state event next, invariant state → step state event = some next → property next →
      allowed state event ∨ left next)
    (stays : ∀ state event next, left state → step state event = some next → property next → left next)
    {state : State} (events : List Event) (holds : invariant state)
    (closed : ∀ final, run step state events = some final → ¬left final) :
    Throughout step property state events ↔ Guarded step allowed state events := by
  have remains : ∀ (events : List Event) (state : State), left state → Throughout step property state events →
      ∃ final, run step state events = some final ∧ left final := by
    intro events
    induction events with
    | nil => exact fun state there _ => ⟨state, rfl, there⟩
    | cons event events ih =>
        rintro state there ⟨next, stepped, proper, later⟩
        obtain ⟨final, ran, last⟩ := ih next (stays state event next there stepped proper) later
        refine ⟨final, ?_, last⟩
        rw [run_cons, stepped, Option.bind_some, ran]
  induction events generalizing state with
  | nil => exact Iff.rfl
  | cons event events ih =>
      have closed_later : ∀ next, step state event = some next →
          ∀ final, run step next events = some final → ¬left final := by
        intro next stepped final ran
        apply closed
        rw [run_cons, stepped, Option.bind_some, ran]
      constructor
      · rintro ⟨next, stepped, proper, later⟩
        rcases needed state event next holds stepped proper with allowed | opened
        · obtain ⟨other, same, -, kept⟩ := enough state event holds allowed
          rw [stepped, Option.some.injEq] at same
          subst other
          refine ⟨allowed, fun other same => ?_⟩
          rw [stepped, Option.some.injEq] at same
          subst other
          exact (ih kept (closed_later next stepped)).mp later
        · obtain ⟨final, ran, last⟩ := remains events next opened later
          exact absurd last (closed_later next stepped final ran)
      · rintro ⟨allowed, later⟩
        obtain ⟨next, stepped, proper, kept⟩ := enough state event holds allowed
        exact ⟨next, stepped, proper, (ih kept (closed_later next stepped)).mpr (later next stepped)⟩

theorem everyStep_append {property : State → Event → State → Prop} {state middle : State}
    {first second : List Event} (every : EveryStep step property state (first ++ second))
    (ran : run step state first = some middle) : EveryStep step property middle second := by
  induction first generalizing state with
  | nil =>
      simp only [run_nil, Option.some.injEq] at ran
      subst middle
      exact every
  | cons event events ih =>
      obtain ⟨next, stepped, rest⟩ := run_cons_some step ran
      exact ih (every next stepped).2 rest

theorem guarded_cons {allowed : State → Event → Prop} {state next : State} {event : Event}
    {events : List Event} (stepped : step state event = some next) (now : allowed state event)
    (later : Guarded step allowed next events) : Guarded step allowed state (event :: events) := by
  refine ⟨now, fun other same => ?_⟩
  rw [stepped] at same
  exact Option.some.inj same ▸ later

theorem guarded_true (state : State) (events : List Event) :
    Guarded step (fun _ _ => True) state events := by
  induction events generalizing state with
  | nil => trivial
  | cons event events ih => exact ⟨trivial, fun next _ => ih next⟩

end Runs

end Xcpu.Transition
