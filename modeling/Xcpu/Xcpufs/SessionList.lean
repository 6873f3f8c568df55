import Mathlib.Algebra.Order.Ring.Int
import Mathlib.Data.List.Pairwise

/-!
The list `sessions` of xcpufs and the numbers of its sessions. `session_create` gives a new
session the number in `session_next_id`, and links it before the first session whose number is
not smaller.
-/

namespace Xcpu.Xcpufs.SessionList

variable {Data : Type}

/-- A session, by its number and whatever else it holds. -/
structure Xsession (Data : Type) where
  sid : Int32
  data : Data

/-- `session_next_id` goes around as the machine's integers do. -/
structure Sessions (Data : Type) where
  sessions : List (Xsession Data)
  nextId : Int32

/-- The `while` loop of `session_create`. The sessions before `s` end with `ps`. -/
def nextFree (sessions : List (Xsession Data)) :
    Nat → Int32 → List (Xsession Data) → List (Xsession Data) → Option (Int32 × List (Xsession Data) × List (Xsession Data))
  | 0, _, _, _ => none
  | _ + 1, sid, before, [] => some (sid, before, [])
  | fuel + 1, sid, before, s :: after =>
      if sid = s.sid then
        let sid := sid + 1
        if sid = Int32.maxValue then nextFree sessions fuel 0 [] sessions
        else nextFree sessions fuel sid (before ++ [s]) after
      else some (sid, before, s :: after)

/-- The search loop and what follows it: the number, the sessions before `s`, and those from `s` on. -/
def place (sessions : List (Xsession Data)) (sid : Int32) :
    Option (Int32 × List (Xsession Data) × List (Xsession Data)) :=
  let before := sessions.takeWhile fun s => decide (s.sid < sid)
  match sessions.dropWhile fun s => decide (s.sid < sid) with
  | [] => some (sid, before, [])
  | s :: after =>
      if s.sid = sid then nextFree sessions (sessions.length + 1) (sid + 1) before (s :: after)
      else some (sid, before, s :: after)

/-- The new session, or none where its memory, its directory or its pipes could not be had. The whole
is `none` only if the loop does not end. -/
def sessionCreate (made : Bool) (data : Data) (state : Sessions Data) :
    Option (Option (Xsession Data) × Sessions Data) :=
  if made then
    (place state.sessions state.nextId).map fun (sid, before, after) =>
      (some ⟨sid, data⟩, { sessions := before ++ ⟨sid, data⟩ :: after, nextId := state.nextId + 1 })
  else some (none, state)

def Sorted (sessions : List (Xsession Data)) : Prop := sessions.Pairwise fun s t => s.sid.toInt < t.sid.toInt

/-- The number of the new session is its own, the list is sorted, and every session that was in it still is. -/
structure Linked (sessions : List (Xsession Data)) (xs : Xsession Data) (next : List (Xsession Data)) : Prop where
  other : ∀ s ∈ sessions, s.sid ≠ xs.sid
  sorted : Sorted next
  kept : ∃ before after, sessions = before ++ after ∧ next = before ++ xs :: after

def Keeps (made : Bool) (data : Data) (state : Sessions Data) : Prop :=
  ∃ created next, sessionCreate made data state = some (created, next) ∧
    match created with
    | none => next = state
    | some xs => Linked state.sessions xs next.sessions

theorem toInt_succ (sid : Int32) :
    (sid + 1).toInt = if sid = Int32.maxValue then -2 ^ 31 else sid.toInt + 1 := by
  have low := sid.le_toInt
  have high := sid.toInt_lt
  rw [Int32.toInt_add, show (1 : Int32).toInt = 1 from rfl, Int.bmod_def]
  by_cases top : sid = Int32.maxValue
  · rw [if_pos top, top]
    decide
  · rw [if_neg top]
    have apart : sid.toInt ≠ 2147483647 := fun same => top (Int32.toInt_inj.mp same)
    split_ifs with positive
    · omega
    · omega

/-- The sessions before `s` have smaller numbers, and all from `s` on do not. -/
theorem search_sorted {sessions : List (Xsession Data)} (sorted : Sorted sessions) (sid : Int32) :
    (∀ s ∈ sessions.takeWhile fun s => decide (s.sid < sid), s.sid.toInt < sid.toInt) ∧
      ∀ s ∈ sessions.dropWhile fun s => decide (s.sid < sid), sid.toInt ≤ s.sid.toInt := by
  induction sessions with
  | nil => simp
  | cons first rest ih =>
      obtain ⟨least, later⟩ := List.pairwise_cons.mp sorted
      by_cases below : first.sid < sid
      · rw [List.takeWhile_cons_of_pos (by simpa using below), List.dropWhile_cons_of_pos (by simpa using below)]
        refine ⟨fun s member => ?_, (ih later).2⟩
        rcases List.mem_cons.mp member with rfl | member
        · exact Int32.lt_iff_toInt_lt.mp below
        · exact (ih later).1 s member
      · rw [List.takeWhile_cons_of_neg (by simpa using below), List.dropWhile_cons_of_neg (by simpa using below)]
        rw [Int32.lt_iff_toInt_lt] at below
        refine ⟨by simp, fun s member => ?_⟩
        rcases List.mem_cons.mp member with rfl | member
        · omega
        · have larger := least s member
          omega

/-- A session between those with smaller and those with larger numbers. -/
theorem sorted_insert {before after : List (Xsession Data)} {xs : Xsession Data} (sorted : Sorted (before ++ after)) :
    Sorted (before ++ xs :: after) ↔
      (∀ s ∈ before, s.sid.toInt < xs.sid.toInt) ∧ ∀ s ∈ after, xs.sid.toInt < s.sid.toInt := by
  obtain ⟨front, back, apart⟩ := List.pairwise_append.mp sorted
  rw [Sorted, List.pairwise_append, List.pairwise_cons]
  constructor
  · rintro ⟨-, ⟨larger, -⟩, all⟩
    exact ⟨fun s member => all s member xs List.mem_cons_self, larger⟩
  · rintro ⟨smaller, larger⟩
    refine ⟨front, ⟨larger, back⟩, fun s first t second => ?_⟩
    rcases List.mem_cons.mp second with rfl | second
    · exact smaller s first
    · exact apart s first t second

section Create

variable {state : Sessions Data} (data : Data)

/-- A number that is not in use is given, and the session is linked at its place. -/
theorem sessionCreate_unused (sorted : Sorted state.sessions) (unused : ∀ s ∈ state.sessions, s.sid ≠ state.nextId) :
    ∃ next, sessionCreate true data state = some (some ⟨state.nextId, data⟩, next) ∧
      Linked state.sessions ⟨state.nextId, data⟩ next.sessions := by
  obtain ⟨smaller, larger⟩ := search_sorted sorted state.nextId
  have split := @List.takeWhile_append_dropWhile _ (fun s => decide (s.sid < state.nextId)) state.sessions
  have placed : place state.sessions state.nextId = some (state.nextId,
      state.sessions.takeWhile (fun s => decide (s.sid < state.nextId)),
      state.sessions.dropWhile fun s => decide (s.sid < state.nextId)) := by
    rw [place]
    split
    · rename_i ended
      rw [ended]
    · rename_i s after found
      have apart := unused s (by rw [← split, found]; simp)
      rw [if_neg apart, found]
  refine ⟨_, by rw [sessionCreate, if_pos rfl, placed]; rfl, unused, ?_, _, _, split.symm, rfl⟩
  rw [← split] at sorted
  refine (sorted_insert sorted).mpr ⟨smaller, fun s member => ?_⟩
  have least := larger s member
  have apart := unused s (by rw [← split]; exact List.mem_append_right _ member)
  rw [ne_eq, ← Int32.toInt_inj] at apart
  dsimp only
  omega

/-- A number in use is left for the next one, and the session is linked before the one that has it. -/
theorem sessionCreate_used (sorted : Sorted state.sessions) {s : Xsession Data} (member : s ∈ state.sessions)
    (used : s.sid = state.nextId) :
    ∃ before after, state.sessions = before ++ s :: after ∧
      sessionCreate true data state = some (some ⟨state.nextId + 1, data⟩,
        { sessions := before ++ ⟨state.nextId + 1, data⟩ :: s :: after, nextId := state.nextId + 1 }) := by
  obtain ⟨smaller, larger⟩ := search_sorted sorted state.nextId
  have split := @List.takeWhile_append_dropWhile _ (fun s => decide (s.sid < state.nextId)) state.sessions
  rw [← split] at sorted member
  obtain ⟨-, back, -⟩ := List.pairwise_append.mp sorted
  have behind := (List.mem_append.mp member).resolve_left fun inside => by
    have less := smaller s inside
    rw [used] at less
    exact Int.lt_irrefl _ less
  cases found : state.sessions.dropWhile fun s => decide (s.sid < state.nextId) with
  | nil =>
      rw [found] at behind
      cases behind
  | cons first rest =>
      rw [found] at behind back larger
      have same : first = s := by
        rcases List.mem_cons.mp behind with same | behind
        · exact same.symm
        · have least := larger first List.mem_cons_self
          have less := (List.pairwise_cons.mp back).1 s behind
          rw [used] at less
          omega
      subst same
      -- the loop ends where it starts: the number was raised, and that of `s` was not
      have apart : state.nextId + 1 ≠ first.sid := by
        rw [used, ne_eq, ← Int32.toInt_inj, toInt_succ]
        split
        · rename_i top
          rw [top]
          decide
        · omega
      refine ⟨_, rest, (found ▸ split).symm, ?_⟩
      rw [sessionCreate, if_pos rfl, place, found]
      simp only [used, if_true, nextFree, used ▸ apart, if_false]
      rfl

end Create

/-- The list is kept as it should be unless the number in `session_next_id` is in use. (With a single session
that has the largest number the next one goes around to the smallest, which comes before it.) -/
theorem sessionCreate_keeps_iff (made : Bool) (data : Data) (state : Sessions Data) (sorted : Sorted state.sessions) :
    Keeps made data state ↔ made = false ∨ (∀ s ∈ state.sessions, s.sid ≠ state.nextId) ∨
      state.nextId = Int32.maxValue ∧ state.sessions.map (·.sid) = [Int32.maxValue] := by
  cases made with
  | false => exact iff_of_true ⟨none, state, rfl, rfl⟩ (.inl rfl)
  | true =>
      by_cases unused : ∀ s ∈ state.sessions, s.sid ≠ state.nextId
      · obtain ⟨next, created, linked⟩ := sessionCreate_unused data sorted unused
        exact iff_of_true ⟨_, next, created, linked⟩ (.inr (.inl unused))
      · obtain ⟨s, member, used⟩ : ∃ s ∈ state.sessions, s.sid = state.nextId := by
          simpa using unused
        obtain ⟨before, after, split, created⟩ := sessionCreate_used data sorted member used
        have placed := @sorted_insert _ before (s :: after) ⟨state.nextId + 1, data⟩ (split ▸ sorted)
        dsimp only at placed
        rw [toInt_succ] at placed
        rw [or_iff_right (by simp), or_iff_right unused]
        constructor
        · rintro ⟨xs, next, made, kept⟩
          rw [created, Option.some.injEq, Prod.mk.injEq] at made
          obtain ⟨rfl, rfl⟩ := made
          obtain ⟨smaller, larger⟩ := placed.mp kept.sorted
          have here := larger s List.mem_cons_self
          rw [used] at here
          split_ifs at here smaller with top
          · have front : before = [] := by
              refine List.eq_nil_iff_forall_not_mem.mpr fun t member => ?_
              have less := smaller t member
              have low := t.sid.le_toInt
              omega
            have back : after = [] := by
              refine List.eq_nil_iff_forall_not_mem.mpr fun t member => ?_
              have ordered : Sorted (before ++ s :: after) := split ▸ sorted
              have less := (List.pairwise_cons.mp (List.pairwise_append.mp ordered).2.1).1 t member
              have high := t.sid.toInt_lt
              rw [used, top, show Int32.maxValue.toInt = 2 ^ 31 - 1 from rfl] at less
              omega
            refine ⟨top, ?_⟩
            rw [split, front, back, ← top, ← used]
            rfl
          · omega
        · rintro ⟨top, single⟩
          rw [split, List.map_append, List.map_cons] at single
          have sizes := congrArg List.length single
          simp only [List.length_append, List.length_cons, List.length_map, List.length_nil] at sizes
          obtain rfl : before = [] := List.length_eq_zero_iff.mp (by omega)
          obtain rfl : after = [] := List.length_eq_zero_iff.mp (by omega)
          have number : s.sid = Int32.maxValue := used.trans top
          refine ⟨_, _, created, fun t listed => ?_, placed.mpr ⟨by simp, fun t listed => ?_⟩, [], [s], split, rfl⟩
          · rw [split, List.nil_append, List.mem_singleton] at listed
            rw [listed, number, top]
            show Int32.maxValue ≠ Int32.maxValue + 1
            decide
          · rw [List.mem_singleton.mp listed, number, if_pos top]
            decide

theorem sessionCreate_keeps_two :
    Keeps true () ⟨[⟨3, ()⟩, ⟨5, ()⟩], 4⟩ ↔ true = false ∨ (∀ s ∈ [⟨3, ()⟩, (⟨5, ()⟩ : Xsession Unit)], s.sid ≠ 4) ∨
      (4 : Int32) = Int32.maxValue ∧ [(⟨3, ()⟩ : Xsession Unit), ⟨5, ()⟩].map (·.sid) = [Int32.maxValue] :=
  sessionCreate_keeps_iff true () ⟨[⟨3, ()⟩, ⟨5, ()⟩], 4⟩ (by simp [Sorted])

/-- With the counter back at 3 a session between 3 and 4 gets the number 4 as well. -/
theorem sessionCreate_repeats : Sorted [(⟨3, ()⟩ : Xsession Unit), ⟨4, ()⟩] ∧
    ¬Keeps true () ⟨[⟨3, ()⟩, ⟨4, ()⟩], 3⟩ ∧
    (sessionCreate true () ⟨[⟨3, ()⟩, ⟨4, ()⟩], 3⟩).map (fun created => created.2.sessions.map (·.sid)) =
      some [4, 3, 4] := by
  refine ⟨by simp [Sorted], ?_, by decide⟩
  rintro ⟨xs, next, created, kept⟩
  have made : sessionCreate true () ⟨[⟨3, ()⟩, ⟨4, ()⟩], 3⟩ =
      some (some ⟨4, ()⟩, ⟨[⟨4, ()⟩, ⟨3, ()⟩, ⟨4, ()⟩], 4⟩) := rfl
  rw [made, Option.some.injEq, Prod.mk.injEq] at created
  obtain ⟨rfl, rfl⟩ := created
  exact kept.other ⟨4, ()⟩ (by simp) rfl

end Xcpu.Xcpufs.SessionList
