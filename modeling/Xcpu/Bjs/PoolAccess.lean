import Xcpu.Bjs.Pool

/-!
Who may submit to a pool: the `users` and `groups` lines of the configuration, the arrays of ids that end with
-1, and the check of a client. The groups go to the list of users, so the check compares them with user ids.
-/

namespace Xcpu.Bjs.PoolAccess

open Xcpu.Numerals

/-- The part of `struct bjs_pool_t` that decides who may submit, with the arrays as they are in memory. -/
structure PoolIds where
  users : Option (List Int32) := none
  groups : Option (List Int32) := none
  deriving DecidableEq

/-- The ids before the first -1; without one the loop leaves the array. -/
def countIds : List Int32 → Option Nat
  | [] => none
  | id :: rest => if id = -1 then some 0 else (countIds rest).map (· + 1)

def addId (idList : Option (List Int32)) (newId : Int32) : Option (List Int32) :=
  match idList with
  | none => some [newId, -1]
  | some p => (countIds p).map fun ct => p.take ct ++ [newId, -1]

/-- Whether the loop over an array stops before its -1. -/
def scanIds (id : Int32) : List Int32 → Option Bool
  | [] => none
  | first :: rest => if first = -1 then some false else if first = id then some true else scanIds id rest

/-- One of the two tests; a list that was never set does not restrict. -/
def checkIds (id : Int32) : Option (List Int32) → Option Bool
  | none => some true
  | some ids => scanIds id ids

def submitCheckPerm (creds : Creds) (p : PoolIds) : Option Bool :=
  if creds.euid = 0 then some true
  else
    match checkIds creds.euid p.users with
    | none => none
    | some false => some false
    | some true => checkIds creds.egid p.groups

inductive ConfigError where
  | unknown (word : Bytes)
  | fault
  deriving DecidableEq

/-- The passwd and group databases: names and their numbers, stored as `int`. -/
structure Databases where
  getpwnam : Bytes → Option Int32
  getgrnam : Bytes → Option Int32

/-- A word that is not a number as a whole is a name. -/
def wordId (lookup : Bytes → Option Int32) (word : Bytes) : Option Int32 :=
  let (id, check) := strtol0 word
  if check ≠ [] then lookup word else some (Int32.ofInt id)

/-- The loop of both callbacks. -/
def addWords (lookup : Bytes → Option Int32) : List Bytes → Option (List Int32) →
    Except ConfigError (Option (List Int32))
  | [], idList => .ok idList
  | word :: args, idList =>
      match wordId lookup word with
      | none => .error (.unknown word)
      | some id =>
          match addId idList id with
          | none => .error .fault
          | some p => addWords lookup args (some p)

def configUsersCallback (sys : Databases) (p : PoolIds) (args : List Bytes) : Except ConfigError PoolIds :=
  (addWords sys.getpwnam args p.users).map fun users => { p with users }

/-- The groups are added to the users. -/
def configGroupsCallback (sys : Databases) (p : PoolIds) (args : List Bytes) : Except ConfigError PoolIds :=
  (addWords sys.getgrnam args p.users).map fun users => { p with users }

inductive Line where
  | users (args : List Bytes)
  | groups (args : List Bytes)
  deriving DecidableEq

def Line.callback (sys : Databases) (p : PoolIds) : Line → Except ConfigError PoolIds
  | .users args => configUsersCallback sys p args
  | .groups args => configGroupsCallback sys p args

/-- The lines of a pool; the configuration is thrown away when one fails. -/
def configure (sys : Databases) : List Line → PoolIds → Except ConfigError PoolIds
  | [], p => .ok p
  | line :: more, p =>
      match line.callback sys p with
      | .error told => .error told
      | .ok p => configure sys more p

/-- The users that the lines configure. -/
def configuredUsers (sys : Databases) (lines : List Line) : List Int32 :=
  lines.flatMap fun
    | .users args => args.filterMap (wordId sys.getpwnam)
    | .groups _ => []

/-- The groups that the lines configure. -/
def configuredGroups (sys : Databases) (lines : List Line) : List Int32 :=
  lines.flatMap fun
    | .users _ => []
    | .groups args => args.filterMap (wordId sys.getgrnam)

/-- The access control that the two options are for. -/
def Admissible (creds : Creds) (users groups : List Int32) : Prop :=
  creds.euid = 0 ∨ (users = [] ∨ creds.euid ∈ users) ∧ (groups = [] ∨ creds.egid ∈ groups)

/-- An array has its ids and a -1 behind them. A -1 that was added is overwritten by the next id, or ends the
array itself. -/
def Holds (ids : List Int32) : Option (List Int32) → Prop
  | none => ids = []
  | some p => ids ≠ [] ∧ ∃ rest, p = ids.filter (· ≠ -1) ++ -1 :: rest

/-- What the lines add to an array, in order. -/
def Line.ids (sys : Databases) : Line → List Int32
  | .users args => args.filterMap (wordId sys.getpwnam)
  | .groups args => args.filterMap (wordId sys.getgrnam)

variable {sys : Databases} {creds : Creds} {p p' : PoolIds} {front ids : List Int32} {id : Int32}
  {array array' : Option (List Int32)}

theorem countIds_append (plain : ∀ id ∈ front, id ≠ -1) (rest : List Int32) :
    countIds (front ++ -1 :: rest) = some front.length := by
  induction front with
  | nil => rfl
  | cons first front ih =>
      obtain ⟨here, plain⟩ := List.forall_mem_cons.mp plain
      rw [List.cons_append, countIds, if_neg here, ih plain, Option.map_some, List.length_cons]

theorem scanIds_append (plain : ∀ id ∈ front, id ≠ -1) (rest : List Int32) :
    scanIds id (front ++ -1 :: rest) = some (decide (id ∈ front)) := by
  induction front with
  | nil => simp [scanIds]
  | cons first front ih =>
      obtain ⟨here, plain⟩ := List.forall_mem_cons.mp plain
      rw [List.cons_append, scanIds, if_neg here, ih plain]
      by_cases same : first = id
      · simp [same]
      · rw [if_neg same]
        simp [Ne.symm same]

theorem filter_plain : ∀ id ∈ ids.filter (· ≠ -1), id ≠ -1 := by
  intro id member
  simpa using (List.mem_filter.mp member).2

theorem addId_holds (holds : Holds ids array) (id : Int32) :
    ∃ cells, addId array id = some cells ∧ Holds (ids ++ [id]) (some cells) := by
  have some_id : ids ++ [id] ≠ [] := List.append_ne_nil_of_right_ne_nil ids (List.cons_ne_nil id [])
  have ends : ∃ rest, ids.filter (· ≠ -1) ++ [id, -1] = (ids ++ [id]).filter (· ≠ -1) ++ -1 :: rest := by
    by_cases sentinel : id = -1
    · exact ⟨[-1], by simp [sentinel]⟩
    · exact ⟨[], by simp [sentinel]⟩
  cases array with
  | none =>
      obtain rfl : ids = [] := holds
      exact ⟨_, rfl, some_id, ends⟩
  | some cells =>
      obtain ⟨-, rest, rfl⟩ := holds
      refine ⟨ids.filter (· ≠ -1) ++ [id, -1], ?_, some_id, ends⟩
      rw [addId, countIds_append filter_plain, Option.map_some, List.take_left]

/-- The words of a line that was accepted are all ids, and they are added. -/
theorem addWords_holds {lookup : Bytes → Option Int32} {args : List Bytes} (holds : Holds ids array)
    (added : addWords lookup args array = .ok array') : Holds (ids ++ args.filterMap (wordId lookup)) array' := by
  induction args generalizing ids array with
  | nil =>
      cases added
      rwa [List.filterMap_nil, List.append_nil]
  | cons word args ih =>
      rw [addWords] at added
      cases known : wordId lookup word with
      | none => simp [known] at added
      | some id =>
          obtain ⟨cells, one, longer⟩ := addId_holds holds id
          simp only [known, one] at added
          have more := ih longer added
          rwa [List.append_assoc, List.singleton_append, ← List.filterMap_cons_some known] at more

/-- No line ever leaves the array. -/
theorem addWords_fault {lookup : Bytes → Option Int32} {args : List Bytes} (holds : Holds ids array) :
    addWords lookup args array ≠ .error .fault := by
  induction args generalizing ids array with
  | nil => simp [addWords]
  | cons word args ih =>
      rw [addWords]
      cases known : wordId lookup word with
      | none => simp
      | some id =>
          obtain ⟨cells, one, longer⟩ := addId_holds holds id
          simp only [one]
          exact ih longer

/-- Both callbacks add the ids of their words to the users. -/
theorem callback_eq (line : Line) :
    ∃ lookup args, line.ids sys = args.filterMap (wordId lookup) ∧
      line.callback sys p = (addWords lookup args p.users).map fun users => { p with users } := by
  cases line with
  | users args => exact ⟨sys.getpwnam, args, rfl, rfl⟩
  | groups args => exact ⟨sys.getgrnam, args, rfl, rfl⟩

theorem callback_holds {line : Line} (holds : Holds ids p.users) (called : line.callback sys p = .ok p') :
    Holds (ids ++ line.ids sys) p'.users ∧ p'.groups = p.groups := by
  obtain ⟨lookup, args, words, callback⟩ := @callback_eq sys p line
  rw [callback] at called
  cases added : addWords lookup args p.users with
  | error told => simp [added, Except.map] at called
  | ok users =>
      simp only [added, Except.map, Except.ok.injEq] at called
      subst called
      rw [words]
      exact ⟨addWords_holds holds added, rfl⟩

theorem configure_holds {lines : List Line} (holds : Holds ids p.users) (built : configure sys lines p = .ok p') :
    Holds (ids ++ lines.flatMap (Line.ids sys)) p'.users ∧ p'.groups = p.groups := by
  induction lines generalizing ids p with
  | nil =>
      cases built
      rw [List.flatMap_nil, List.append_nil]
      exact ⟨holds, rfl⟩
  | cons line more ih =>
      rw [configure] at built
      cases called : line.callback sys p with
      | error told => simp [called] at built
      | ok between =>
          simp only [called] at built
          obtain ⟨longer, kept⟩ := callback_holds holds called
          obtain ⟨all, same⟩ := ih longer built
          rw [List.append_assoc, ← List.flatMap_cons] at all
          exact ⟨all, same.trans kept⟩

/-- No configuration leaves an array: a failing line names a word. -/
theorem configure_fault {lines : List Line} (holds : Holds ids p.users) :
    configure sys lines p ≠ .error .fault := by
  induction lines generalizing ids p with
  | nil => simp [configure]
  | cons line more ih =>
      rw [configure]
      cases called : line.callback sys p with
      | error told =>
          obtain ⟨lookup, args, -, callback⟩ := @callback_eq sys p line
          rw [callback] at called
          cases added : addWords lookup args p.users with
          | error word =>
              simp only [added, Except.map, Except.error.injEq] at called
              have stays : addWords lookup args p.users ≠ .error .fault := addWords_fault holds
              rw [added, called] at stays
              exact fun fault => stays (congrArg Except.error (Except.error.inj fault))
          | ok users => simp [added, Except.map] at called
      | ok between => exact ih (callback_holds holds called).1

/-- The words of both kinds of line are in one list. -/
theorem mem_lineIds (lines : List Line) :
    id ∈ lines.flatMap (Line.ids sys) ↔ id ∈ configuredUsers sys lines ∨ id ∈ configuredGroups sys lines := by
  simp only [configuredUsers, configuredGroups, List.mem_flatMap]
  constructor
  · rintro ⟨line, among, member⟩
    cases line with
    | users args => exact .inl ⟨_, among, member⟩
    | groups args => exact .inr ⟨_, among, member⟩
  · rintro (⟨line, among, member⟩ | ⟨line, among, member⟩)
    · cases line with
      | users args => exact ⟨_, among, member⟩
      | groups args => cases member
    · cases line with
      | users args => cases member
      | groups args => exact ⟨_, among, member⟩

theorem checkIds_holds (holds : Holds ids array) :
    checkIds id array = some (decide (ids = [] ∨ id ∈ ids ∧ id ≠ -1)) := by
  cases array with
  | none =>
      obtain rfl : ids = [] := holds
      simp [checkIds]
  | some cells =>
      obtain ⟨some_id, rest, rfl⟩ := holds
      rw [checkIds, scanIds_append filter_plain]
      simp [some_id]

theorem checkIds_all (holds : Holds ids array) :
    checkIds id array = some ((array.map fun _ => ids.filter (· ≠ -1)).all (id ∈ ·)) := by
  cases array with
  | none => rfl
  | some cells =>
      obtain ⟨-, rest, rfl⟩ := holds
      rw [checkIds, scanIds_append filter_plain, Option.map_some, Option.all_some]

/-- The check of the pool as the policies' model has it, where a list has the ids before the -1 of an array. -/
theorem submitCheckPerm_eq {users groups : List Int32} (usersHold : Holds users p.users)
    (groupsHold : Holds groups p.groups) {pool : Pool}
    (sameUsers : pool.users = p.users.map fun _ => users.filter (· ≠ -1))
    (sameGroups : pool.groups = p.groups.map fun _ => groups.filter (· ≠ -1)) :
    submitCheckPerm creds p = some (Bjs.submitCheckPerm creds pool) := by
  rw [submitCheckPerm, Bjs.submitCheckPerm, checkIds_all usersHold, checkIds_all groupsHold, sameUsers, sameGroups]
  by_cases root : creds.euid = 0
  · rw [if_pos root, decide_eq_true root, Bool.true_or]
  · rw [if_neg root, decide_eq_false root, Bool.false_or]
    split
    · contradiction
    · rename_i refused
      rw [Option.some.inj refused, Bool.false_and]
    · rename_i passed
      rw [Option.some.inj passed, Bool.true_and]

theorem submitCheckPerm_built {lines : List Line} (built : configure sys lines {} = .ok p) :
    submitCheckPerm creds p = some true ↔ creds.euid = 0 ∨
      (configuredUsers sys lines = [] ∧ configuredGroups sys lines = []) ∨
      (creds.euid ∈ configuredUsers sys lines ∨ creds.euid ∈ configuredGroups sys lines) ∧ creds.euid ≠ -1 := by
  have empty : Holds [] ({} : PoolIds).users := rfl
  obtain ⟨holds, groups⟩ := configure_holds empty built
  rw [List.nil_append] at holds
  have none : lines.flatMap (Line.ids sys) = [] ↔
      configuredUsers sys lines = [] ∧ configuredGroups sys lines = [] := by
    simp only [List.eq_nil_iff_forall_not_mem, mem_lineIds, not_or, forall_and]
  rw [submitCheckPerm, checkIds_holds holds, groups, ← none, ← mem_lineIds]
  by_cases root : creds.euid = 0
  · rw [if_pos root]
    exact iff_of_true rfl (.inl root)
  · rw [if_neg root]
    by_cases listed : lines.flatMap (Line.ids sys) = [] ∨
        creds.euid ∈ lines.flatMap (Line.ids sys) ∧ creds.euid ≠ -1
    · rw [decide_eq_true listed]
      exact iff_of_true rfl (.inr listed)
    · rw [decide_eq_false listed]
      exact iff_of_false (fun refused => nomatch refused) (not_or.mpr ⟨root, listed⟩)

/-- What has to be so of a client when groups were configured: a configured user has one of the groups; where no
users were configured, the user id is numerically one of the groups just when the group id is; and where others
were, the user id is none of the groups. An id of -1 is never found. -/
def GroupsAgree (creds : Creds) (users groups : List Int32) : Prop :=
  (creds.euid ∈ users → (creds.egid ∈ groups ↔ creds.euid ≠ -1)) ∧
    (users = [] → (creds.egid ∈ groups ↔ creds.euid ∈ groups ∧ creds.euid ≠ -1)) ∧
    (users ≠ [] → creds.euid ∉ users → creds.euid ∈ groups → creds.euid = -1)

/-- When the check does what the options are for. -/
def AccessAgrees (creds : Creds) (users groups : List Int32) : Prop :=
  creds.euid = 0 ∨ (groups = [] ∧ (creds.euid ∈ users → creds.euid ≠ -1)) ∨
    (groups ≠ [] ∧ GroupsAgree creds users groups)

/-- A client is let in as the users and the groups of the pool ask for exactly when the condition holds. -/
theorem submitCheckPerm_iff {lines : List Line} (built : configure sys lines {} = .ok p) (creds : Creds) :
    (submitCheckPerm creds p = some true ↔
        Admissible creds (configuredUsers sys lines) (configuredGroups sys lines)) ↔
      AccessAgrees creds (configuredUsers sys lines) (configuredGroups sys lines) := by
  rw [submitCheckPerm_built built, Admissible, AccessAgrees, GroupsAgree]
  generalize configuredUsers sys lines = users
  generalize configuredGroups sys lines = groups
  by_cases root : creds.euid = 0
  · simp only [root, true_or]
  by_cases noGroups : groups = []
  · subst noGroups
    by_cases noUsers : users = []
    · simp [noUsers]
    · by_cases listed : creds.euid ∈ users
      · simp [root, noUsers, listed]
      · simp [root, noUsers, listed]
  · by_cases noUsers : users = []
    · subst noUsers
      simp [root, noGroups, iff_comm]
    · by_cases listed : creds.euid ∈ users
      · simp [root, noGroups, noUsers, listed, iff_comm]
      · simp [root, noGroups, noUsers, listed]

def namesUnknown : Databases := ⟨fun _ => none, fun _ => none⟩

/-- A configured user without the configured group is let in: `users 7` and `groups 8`, and a client with user id 7
and group id 9. -/
theorem userWithoutGroup_admitted :
    ¬ ∀ sys lines p creds, configure sys lines {} = .ok p →
      (submitCheckPerm creds p = some true ↔
        Admissible creds (configuredUsers sys lines) (configuredGroups sys lines)) := by
  intro right
  have built : configure namesUnknown [.users [[55]], .groups [[56]]] {} = .ok ⟨some [7, 8, -1], none⟩ := by
    with_unfolding_all decide
  have users : configuredUsers namesUnknown [.users [[55]], .groups [[56]]] = [7] := by with_unfolding_all decide
  have groups : configuredGroups namesUnknown [.users [[55]], .groups [[56]]] = [8] := by with_unfolding_all decide
  have admitted := (right _ _ _ ⟨7, 9⟩ built).mp (by decide)
  rw [users, groups, Admissible] at admitted
  exact absurd admitted (by decide)

/-- Only users are configured: the check of a client with the number of one of them. -/
theorem userOnly_agrees :
    (submitCheckPerm ⟨7, 9⟩ ⟨some [7, -1], none⟩ = some true ↔
        Admissible ⟨7, 9⟩ (configuredUsers namesUnknown [.users [[55]]])
          (configuredGroups namesUnknown [.users [[55]]])) ↔
      AccessAgrees ⟨7, 9⟩ (configuredUsers namesUnknown [.users [[55]]])
        (configuredGroups namesUnknown [.users [[55]]]) :=
  submitCheckPerm_iff (by with_unfolding_all decide) ⟨7, 9⟩

end Xcpu.Bjs.PoolAccess
