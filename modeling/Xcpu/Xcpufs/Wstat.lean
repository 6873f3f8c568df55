import Mathlib.Algebra.GroupWithZero.Nat
import Mathlib.Data.List.Basic
import Xcpu.Lib.Counted

/-!
`clone_wstat` and `session_wstat`, over a user pool whose users and groups are freed with their last
reference. A `none` result is a call that reads freed memory or follows a null pointer: it reports nothing.
-/

namespace Xcpu.Xcpufs.Wstat

open Xcpu.Counted

structure Group where
  gname : List UInt8
  gid : UInt32

structure User where
  uname : List UInt8
  uid : UInt32
  dfltgroup : Option Nat
  groups : List Nat

structure Upool where
  users : Heap User
  groups : Heap Group
  userList : List Nat
  groupList : List Nat

/-- The fields of `Spfile` that belong to somebody. -/
structure File where
  uid : Option Nat
  muid : Option Nat
  gid : Option Nat
  mode : UInt32
deriving DecidableEq

structure Stat where
  uid : List UInt8
  nUid : UInt32
  gid : List UInt8
  nGid : UInt32
  mode : UInt32

def allOnes : UInt32 := 0xffffffff

namespace Upool

def groupDecref (up : Upool) : Option Nat → Option Upool
  | none => some up
  | some g => (release up.groups g).map fun (groups, _) => { up with groups }

def groupIncref (up : Upool) : Option Nat → Option Upool
  | none => some up
  | some g => (take up.groups g).map fun groups => { up with groups }

/-- The last reference to a user gives up the user's groups. -/
def userDecref (up : Upool) : Option Nat → Option Upool
  | none => some up
  | some a => do
      let (users, last) ← release up.users a
      match last with
      | none => some { up with users }
      | some user => (user.groups.map some ++ [user.dfltgroup]).foldlM groupDecref { up with users }

def userIncref (up : Upool) (a : Nat) : Option Upool := (take up.users a).map fun users => { up with users }

def findUser (up : Upool) (test : User → Bool) : Option (Upool × Option Nat) := do
  match ← find up.users test up.userList with
  | none => some (up, none)
  | some a => (up.userIncref a).map (·, some a)

def findGroup (up : Upool) (test : Group → Bool) : Option (Upool × Option Nat) := do
  match ← find up.groups test up.groupList with
  | none => some (up, none)
  | some g => (up.groupIncref (some g)).map (·, some g)

def uid2user (up : Upool) (uid : UInt32) : Option (Upool × Option Nat) := up.findUser fun user => user.uid == uid

def gid2group (up : Upool) (gid : UInt32) : Option (Upool × Option Nat) := up.findGroup fun group => group.gid == gid

/-- `uname2user` of a `sp_strdup`: a null pointer is compared with the name of the first user. -/
def uname2user (up : Upool) (copied : Bool) (uname : List UInt8) : Option (Upool × Option Nat) :=
  if copied then up.findUser fun user => user.uname == uname.takeWhile (· != 0)
  else if up.userList = [] then some (up, none) else none

def gname2group (up : Upool) (copied : Bool) (gname : List UInt8) : Option (Upool × Option Nat) :=
  if copied then up.findGroup fun group => group.gname == gname.takeWhile (· != 0)
  else if up.groupList = [] then some (up, none) else none

end Upool

/-- `clone_wstat` down to the owner of the file. -/
def cloneOwner (copied : Bool) (up : Upool) (f : File) (st : Stat) : Option (Upool × File × Bool) := do
  let (up, user) ← (if st.uid = [] then some (up, none) else up.uname2user copied st.uid)
  if st.uid ≠ [] ∧ user = none then some (up, f, false)
  else do
    -- The reference that is given up here is the file's, not the one just taken.
    let up ← (if st.nUid ≠ allOnes ∧ user ≠ none then up.userDecref f.uid else some up)
    let (up, user) ← (if st.nUid = allOnes then some (up, user) else up.uid2user st.nUid)
    if st.nUid ≠ allOnes ∧ user = none then some (up, f, false)
    else
      match user with
      | none => some (up, f, true)
      | some a => (up.userDecref f.uid).map fun up => (up, { f with uid := some a }, true)

def cloneGroup (copied : Bool) (up : Upool) (f : File) (st : Stat) : Option (Upool × File × Bool) := do
  let (up, group) ← (if st.gid = [] then some (up, none) else up.gname2group copied st.gid)
  if st.gid ≠ [] ∧ group = none then some (up, f, false)
  else do
    let up ← (if st.nGid ≠ allOnes then up.groupDecref group else some up)
    let (up, group) ← (if st.nGid = allOnes then some (up, group) else up.gid2group st.nGid)
    if st.nGid ≠ allOnes ∧ group = none then some (up, f, false)
    else
      match group with
      | none => some (up, f, true)
      | some g => (up.groupDecref f.gid).map fun up => (up, { f with gid := some g }, true)

/-- The pool, the file and whether the call returns 1; the two flags tell whether `sp_strdup` finds memory. -/
def cloneWstat (copiedUser copiedGroup : Bool) (up : Upool) (f : File) (st : Stat) : Option (Upool × File × Bool) := do
  let (up, f, ok) ← cloneOwner copiedUser up f st
  if ok = false then some (up, f, false)
  else do
    let (up, f, ok) ← cloneGroup copiedGroup up f st
    if ok = false then some (up, f, false)
    else if st.mode = allOnes then some (up, f, true)
    else some (up, { f with mode := st.mode &&& 0o777 }, true)

/-- A session directory. -/
structure Dir where
  file : File
  children : List File
deriving DecidableEq

/-- One round of the loop over the children: two references are given up for the owner, and one is taken. -/
def chownChild (up : Upool) (a : Nat) (c : File) : Option (Upool × File) := do
  let up ← up.userDecref c.uid
  let up ← up.userDecref c.muid
  let up ← up.groupDecref c.gid
  let up ← up.userIncref a
  let user ← up.users a
  let up ← up.groupIncref user.value.dfltgroup
  some (up, { c with uid := some a, muid := some a, gid := user.value.dfltgroup })

def chownChildren (up : Upool) (a : Nat) : List File → Option (Upool × List File)
  | [] => some (up, [])
  | c :: more => do
      let (up, c) ← chownChild up a c
      let (up, more) ← chownChildren up a more
      some (up, c :: more)

/-- `copied` tells whether `sp_strdup` finds memory, `privileged` whether `rchown` is reached, and `chowned`
what it makes of the files on disk. -/
def sessionWstat (copied privileged chowned : Bool) (up : Upool) (dir : Dir) (st : Stat) :
    Option (Upool × Dir × Bool) := do
  -- The test for the copy is the wrong way around.
  let (up, user) ← (
    if st.uid ≠ [] then if copied then some (up, none) else up.uname2user copied st.uid
    else if st.nUid ≠ allOnes then up.uid2user st.nUid
    else some (up, none))
  match user with
  | none => some (up, dir, false)
  | some a => do
      let user ← up.users a
      let (up, children) ← chownChildren up a dir.children
      let dir : Dir := ⟨{ dir.file with uid := some a, gid := user.value.dfltgroup }, children⟩
      if privileged then do
        let user ← up.users a
        let g ← user.value.dfltgroup
        let _ ← up.groups g
        some (up, dir, chowned)
      else some (up, dir, false)

namespace Upool

/-- The user that the list has under a name, read at once. -/
def userNamed (up : Upool) (uname : List UInt8) : Option Nat :=
  up.userList.find? fun a => (up.users a).any fun r => r.value.uname == uname.takeWhile (· != 0)

def userNumbered (up : Upool) (uid : UInt32) : Option Nat :=
  up.userList.find? fun a => (up.users a).any fun r => r.value.uid == uid

def groupNamed (up : Upool) (gname : List UInt8) : Option Nat :=
  up.groupList.find? fun g => (up.groups g).any fun r => r.value.gname == gname.takeWhile (· != 0)

def groupNumbered (up : Upool) (gid : UInt32) : Option Nat :=
  up.groupList.find? fun g => (up.groups g).any fun r => r.value.gid == gid

def dfltgroup (up : Upool) (a : Nat) : Option Nat := (up.users a).bind fun r => r.value.dfltgroup

/-- Every reference count is the same. -/
def SameCounts (up up' : Upool) : Prop :=
  (∀ a, count up'.users a = count up.users a) ∧ ∀ g, count up'.groups g = count up.groups g

/-- What a call can have done to the pool up to some step. -/
structure Since (up up' : Upool) : Prop where
  users : Counted.Since up.users up'.users
  groups : Counted.Since up.groups up'.groups
  userList : up'.userList = up.userList
  groupList : up'.groupList = up.groupList

variable {up up' : Upool} {a : Nat}

theorem SameCounts.refl (up : Upool) : SameCounts up up := ⟨fun _ => rfl, fun _ => rfl⟩

theorem Since.refl (up : Upool) : Since up up := ⟨.refl _, .refl _, rfl, rfl⟩

theorem Since.trans {later : Upool} (first : Since up up') (second : Since up' later) : Since up later :=
  ⟨first.users.trans second.users, first.groups.trans second.groups, second.userList.trans first.userList,
    second.groupList.trans first.groupList⟩

theorem groupDecref_since {group : Option Nat} (run : up.groupDecref group = some up') :
    Since up up' ∧ up'.users = up.users := by
  cases group with
  | none =>
      cases run
      exact ⟨.refl _, rfl⟩
  | some g =>
      obtain ⟨⟨groups, last⟩, released, rfl⟩ := Option.map_eq_some_iff.mp run
      exact ⟨⟨.refl _, release_since released, rfl, rfl⟩, rfl⟩

theorem groupIncref_since {group : Option Nat} (run : up.groupIncref group = some up') :
    Since up up' ∧ up'.users = up.users := by
  cases group with
  | none =>
      cases run
      exact ⟨.refl _, rfl⟩
  | some g =>
      obtain ⟨groups, taken, rfl⟩ := Option.map_eq_some_iff.mp run
      exact ⟨⟨.refl _, take_since taken, rfl, rfl⟩, rfl⟩

theorem groupDecrefs_since {groups : List (Option Nat)} (run : groups.foldlM groupDecref up = some up') :
    Since up up' ∧ up'.users = up.users := by
  induction groups generalizing up with
  | nil =>
      cases run
      exact ⟨.refl _, rfl⟩
  | cons group more ih =>
      rw [List.foldlM_cons] at run
      obtain ⟨next, first, rest⟩ := Option.bind_eq_some_iff.mp run
      obtain ⟨since, users⟩ := groupDecref_since first
      obtain ⟨since', users'⟩ := ih rest
      exact ⟨since.trans since', users'.trans users⟩

theorem userDecref_since {user : Option Nat} (run : up.userDecref user = some up') :
    Since up up' ∧ ∀ b, count up'.users b + (if user = some b then 1 else 0) = count up.users b := by
  cases user with
  | none =>
      cases run
      exact ⟨.refl _, fun _ => rfl⟩
  | some a =>
      obtain ⟨⟨users, last⟩, released, run⟩ := Option.bind_eq_some_iff.mp run
      have since : Since up { up with users } := ⟨release_since released, .refl _, rfl, rfl⟩
      have counted (b : Nat) : count users b + (if some a = some b then 1 else 0) = count up.users b := by
        rw [← count_release released]
        simp only [Option.some_inj, eq_comm]
      cases last with
      | none =>
          cases run
          exact ⟨since, counted⟩
      | some user =>
          obtain ⟨since', same⟩ := groupDecrefs_since run
          refine ⟨since.trans since', fun b => ?_⟩
          rw [same]
          exact counted b

theorem userIncref_since (run : up.userIncref a = some up') :
    Since up up' ∧ ∀ b, count up'.users b = count up.users b + if a = b then 1 else 0 := by
  obtain ⟨users, taken, rfl⟩ := Option.map_eq_some_iff.mp run
  refine ⟨⟨take_since taken, .refl _, rfl, rfl⟩, fun b => ?_⟩
  rw [count_take taken]
  simp only [eq_comm]

theorem userDecref_userIncref (run : up.userIncref a = some up') : up'.userDecref (some a) = some up := by
  obtain ⟨users, taken, rfl⟩ := Option.map_eq_some_iff.mp run
  rw [userDecref, release_take taken]
  rfl

theorem groupDecref_groupIncref {group : Option Nat} (run : up.groupIncref group = some up') :
    up'.groupDecref group = some up := by
  cases group with
  | none =>
      cases run
      rfl
  | some g =>
      obtain ⟨groups, taken, rfl⟩ := Option.map_eq_some_iff.mp run
      rw [groupDecref, release_take taken]
      rfl

/-- A lookup in the course of a call finds what one at its beginning finds. -/
theorem findUser_eq {start : Upool} (since : Since start up) {test : User → Bool} {found : Option Nat}
    (run : up.findUser test = some (up', found)) :
    found = (start.userList.find? fun a => (start.users a).any fun r => test r.value) ∧ Since up up' ∧
      (found = none → up' = up) ∧ ∀ a, found = some a → up.userIncref a = some up' := by
  obtain ⟨result, search, run⟩ := Option.bind_eq_some_iff.mp run
  have same := find_since since.users search
  rw [since.userList] at same
  cases result with
  | none =>
      cases run
      exact ⟨same, .refl _, fun _ => rfl, nofun⟩
  | some a =>
      obtain ⟨next, taken, pair⟩ := Option.map_eq_some_iff.mp run
      cases pair
      refine ⟨same, (userIncref_since taken).1, nofun, fun b here => ?_⟩
      cases here
      exact taken

theorem findGroup_eq {start : Upool} (since : Since start up) {test : Group → Bool} {found : Option Nat}
    (run : up.findGroup test = some (up', found)) :
    found = (start.groupList.find? fun g => (start.groups g).any fun r => test r.value) ∧ Since up up' ∧
      (found = none → up' = up) ∧ ∀ g, found = some g → up.groupIncref (some g) = some up' := by
  obtain ⟨result, search, run⟩ := Option.bind_eq_some_iff.mp run
  have same := find_since since.groups search
  rw [since.groupList] at same
  cases result with
  | none =>
      cases run
      exact ⟨same, .refl _, fun _ => rfl, nofun⟩
  | some g =>
      obtain ⟨next, taken, pair⟩ := Option.map_eq_some_iff.mp run
      cases pair
      refine ⟨same, (groupIncref_since taken).1, nofun, fun b here => ?_⟩
      cases here
      exact taken

theorem uname2user_eq {start : Upool} (since : Since start up) {copied : Bool} {uname : List UInt8}
    {found : Option Nat} (run : up.uname2user copied uname = some (up', found)) :
    found = start.userNamed uname ∧ Since up up' ∧ (found = none → up' = up) ∧
      ∀ a, found = some a → up.userIncref a = some up' := by
  rw [uname2user] at run
  split at run
  · exact findUser_eq since run
  · split at run
    · rename_i empty
      cases run
      rw [since.userList] at empty
      refine ⟨?_, .refl _, fun _ => rfl, nofun⟩
      rw [userNamed, empty]
      rfl
    · cases run

theorem gname2group_eq {start : Upool} (since : Since start up) {copied : Bool} {gname : List UInt8}
    {found : Option Nat} (run : up.gname2group copied gname = some (up', found)) :
    found = start.groupNamed gname ∧ Since up up' ∧ (found = none → up' = up) ∧
      ∀ g, found = some g → up.groupIncref (some g) = some up' := by
  rw [gname2group] at run
  split at run
  · exact findGroup_eq since run
  · split at run
    · rename_i empty
      cases run
      rw [since.groupList] at empty
      refine ⟨?_, .refl _, fun _ => rfl, nofun⟩
      rw [groupNamed, empty]
      rfl
    · cases run

end Upool

section Clone

/-- The user that the stat names, if it names one, is in the pool. -/
def UserKnown (up : Upool) (st : Stat) : Prop :=
  (st.uid ≠ [] → up.userNamed st.uid ≠ none) ∧ (st.nUid ≠ allOnes → up.userNumbered st.nUid ≠ none)

def GroupKnown (up : Upool) (st : Stat) : Prop :=
  (st.gid ≠ [] → up.groupNamed st.gid ≠ none) ∧ (st.nGid ≠ allOnes → up.groupNumbered st.nGid ≠ none)

/-- The file has the owner that the stat names. -/
def Owned (up : Upool) (f : File) (st : Stat) : Prop :=
  (st.uid ≠ [] → f.uid = up.userNamed st.uid) ∧ (st.nUid ≠ allOnes → f.uid = up.userNumbered st.nUid)

/-- The fields that the stat specifies are set to what it names, and the others are left. -/
structure Sets (up : Upool) (st : Stat) (f f' : File) : Prop where
  sameUser : st.uid = [] → st.nUid = allOnes → f'.uid = f.uid
  namedUser : st.uid ≠ [] → up.userNamed st.uid ≠ none ∧ f'.uid = up.userNamed st.uid
  numberedUser : st.nUid ≠ allOnes → up.userNumbered st.nUid ≠ none ∧ f'.uid = up.userNumbered st.nUid
  sameGroup : st.gid = [] → st.nGid = allOnes → f'.gid = f.gid
  namedGroup : st.gid ≠ [] → up.groupNamed st.gid ≠ none ∧ f'.gid = up.groupNamed st.gid
  numberedGroup : st.nGid ≠ allOnes → up.groupNumbered st.nGid ≠ none ∧ f'.gid = up.groupNumbered st.nGid
  sameMode : st.mode = allOnes → f'.mode = f.mode
  permissions : st.mode ≠ allOnes → f'.mode &&& 0o777 = st.mode &&& 0o777

/-- A call that fails has changed nothing, and one that succeeds has set what the stat specifies. -/
def CloneAtomic (up : Upool) (f : File) (st : Stat) (result : Upool × File × Bool) : Prop :=
  (result.2.2 = false → result.2.1 = f ∧ up.SameCounts result.1) ∧
    (result.2.2 = true → Sets up st f result.2.1)

variable {copied : Bool} {up up' : Upool} {f f' : File} {st : Stat} {ok : Bool}

/-- The owner after the first half of the call. -/
def newOwner (up : Upool) (f : File) (st : Stat) : Option Nat :=
  if st.nUid ≠ allOnes then up.userNumbered st.nUid else if st.uid ≠ [] then up.userNamed st.uid else f.uid

def newGroup (up : Upool) (f : File) (st : Stat) : Option Nat :=
  if st.nGid ≠ allOnes then up.groupNumbered st.nGid else if st.gid ≠ [] then up.groupNamed st.gid else f.gid

def newMode (f : File) (st : Stat) : UInt32 := if st.mode = allOnes then f.mode else st.mode &&& 0o777

theorem owner_self {owner : Option Nat} : { f with uid := owner } = f ↔ f.uid = owner := by
  constructor
  · intro same
    exact (congrArg File.uid same).symm
  · rintro rfl
    rfl

/-- Taking a reference to the new owner and giving the old one's up changes nothing exactly if it is the same. -/
theorem chown_same {next later : Upool} {a : Nat} (taken : up.userIncref a = some next)
    (dropped : next.userDecref f.uid = some later) :
    ({ f with uid := some a } = f ∧ up.SameCounts later) ↔ f.uid = some a := by
  rw [owner_self]
  constructor
  · exact And.left
  · intro same
    rw [same, Upool.userDecref_userIncref taken] at dropped
    cases dropped
    exact ⟨same, .refl _⟩

theorem cloneOwner_eq (run : cloneOwner copied up f st = some (up', f', ok)) :
    up.Since up' ∧
    (ok = false → ¬UserKnown up st ∧ f' = f ∧
      (up.SameCounts up' ↔ (st.uid ≠ [] → up.userNamed st.uid ≠ none → f.uid = up.userNamed st.uid))) ∧
    (ok = true → UserKnown up st ∧ f' = { f with uid := newOwner up f st } ∧
      ((f' = f ∧ up.SameCounts up') ↔ Owned up f st)) := by
  rw [cloneOwner] at run
  obtain ⟨⟨named, user⟩, first, run⟩ := Option.bind_eq_some_iff.mp run
  by_cases byName : st.uid = []
  · rw [if_pos byName] at first
    cases first
    dsimp only at run
    rw [if_neg (fun both => both.1 byName)] at run
    rw [if_neg (fun both => both.2 rfl)] at run
    simp only [Option.bind_eq_bind, Option.bind_some] at run
    by_cases byNumber : st.nUid = allOnes
    · rw [if_pos byNumber, Option.bind_some] at run
      rw [if_neg (fun both => both.1 byNumber)] at run
      cases run
      refine ⟨.refl _, fun wrong => Bool.noConfusion wrong, fun _ => ⟨⟨fun given => absurd byName given, fun given => absurd byNumber given⟩, ?_, ?_⟩⟩
      · rw [newOwner, if_neg (not_not.mpr byNumber), if_neg (not_not.mpr byName)]
      · exact ⟨fun _ => ⟨fun given => absurd byName given, fun given => absurd byNumber given⟩,
          fun _ => ⟨rfl, .refl _⟩⟩
    · rw [if_neg byNumber] at run
      obtain ⟨⟨numbered, owner⟩, second, run⟩ := Option.bind_eq_some_iff.mp run
      obtain ⟨found, since, unchanged, taken⟩ := Upool.findUser_eq (.refl up) second
      dsimp only at run
      cases owner with
      | none =>
          rw [if_pos ⟨byNumber, rfl⟩] at run
          cases run
          obtain rfl := unchanged rfl
          refine ⟨.refl _, fun _ => ⟨fun known => known.2 byNumber found.symm, rfl, ?_⟩, fun wrong => Bool.noConfusion wrong⟩
          exact ⟨fun _ given => absurd byName given, fun _ => .refl _⟩
      | some b =>
          rw [if_neg (fun both => Option.some_ne_none _ both.2)] at run
          obtain ⟨final, dropped, pair⟩ := Option.map_eq_some_iff.mp run
          cases pair
          have owner : up.userNumbered st.nUid = some b := found.symm
          refine ⟨since.trans (Upool.userDecref_since dropped).1, fun wrong => Bool.noConfusion wrong, fun _ => ⟨⟨fun given => absurd byName given,
            fun _ => by rw [owner]; exact Option.some_ne_none _⟩, ?_, ?_⟩⟩
          · rw [newOwner, if_pos byNumber, owner]
          · rw [chown_same (taken b rfl) dropped, Owned, owner]
            exact ⟨fun same => ⟨fun given => absurd byName given, fun _ => same⟩, fun owned => owned.2 byNumber⟩
  · rw [if_neg byName] at first
    obtain ⟨found, since, unchanged, taken⟩ := Upool.uname2user_eq (.refl up) first
    dsimp only at run
    cases user with
    | none =>
        rw [if_pos ⟨byName, rfl⟩] at run
        cases run
        obtain rfl := unchanged rfl
        refine ⟨.refl _, fun _ => ⟨fun known => known.1 byName found.symm, rfl, ?_⟩, fun wrong => Bool.noConfusion wrong⟩
        exact ⟨fun _ _ known => absurd found.symm known, fun _ => .refl _⟩
    | some a =>
        have name : up.userNamed st.uid = some a := found.symm
        have known : up.userNamed st.uid ≠ none := by
          rw [name]
          exact Option.some_ne_none _
        rw [if_neg (fun both => Option.some_ne_none _ both.2)] at run
        by_cases byNumber : st.nUid = allOnes
        · rw [if_neg (fun both => both.1 byNumber)] at run
          simp only [Option.bind_eq_bind, Option.bind_some] at run
          rw [if_pos byNumber, Option.bind_some] at run
          dsimp only at run
          rw [if_neg (fun both => both.1 byNumber)] at run
          obtain ⟨final, dropped, pair⟩ := Option.map_eq_some_iff.mp run
          cases pair
          refine ⟨since.trans (Upool.userDecref_since dropped).1, fun wrong => Bool.noConfusion wrong,
            fun _ => ⟨⟨fun _ => known, fun given => absurd byNumber given⟩, ?_, ?_⟩⟩
          · rw [newOwner, if_neg (not_not.mpr byNumber), if_pos byName, name]
          · rw [chown_same (taken a rfl) dropped, Owned, name]
            exact ⟨fun same => ⟨fun _ => same, fun given => absurd byNumber given⟩, fun owned => owned.1 byName⟩
        · rw [if_pos ⟨byNumber, Option.some_ne_none _⟩] at run
          obtain ⟨lost, dropped, run⟩ := Option.bind_eq_some_iff.mp run
          rw [if_neg byNumber] at run
          obtain ⟨⟨numbered, owner⟩, second, run⟩ := Option.bind_eq_some_iff.mp run
          dsimp only at run
          have sinceLost := since.trans (Upool.userDecref_since dropped).1
          obtain ⟨found', since', unchanged', taken'⟩ := Upool.findUser_eq sinceLost second
          have countTaken := (Upool.userIncref_since (taken a rfl)).2 a
          have countDropped := (Upool.userDecref_since dropped).2 a
          rw [if_pos rfl] at countTaken
          cases owner with
          | none =>
              rw [if_pos ⟨byNumber, rfl⟩] at run
              cases run
              obtain rfl := unchanged' rfl
              refine ⟨sinceLost, fun _ => ⟨fun both => both.2 byNumber found'.symm, rfl, ?_⟩, fun wrong => Bool.noConfusion wrong⟩
              constructor
              · intro same _ _
                have counts := same.1 a
                rw [name]
                by_contra other
                rw [if_neg other] at countDropped
                omega
              · intro owned
                have same : f.uid = some a := (owned byName known).trans name
                rw [same, Upool.userDecref_userIncref (taken a rfl)] at dropped
                cases dropped
                exact .refl _
          | some b =>
              rw [if_neg (fun both => Option.some_ne_none _ both.2)] at run
              obtain ⟨final, dropped', pair⟩ := Option.map_eq_some_iff.mp run
              cases pair
              have number : up.userNumbered st.nUid = some b := found'.symm
              refine ⟨(sinceLost.trans since').trans (Upool.userDecref_since dropped').1, fun wrong => Bool.noConfusion wrong,
                fun _ => ⟨⟨fun _ => known, fun _ => by rw [number]; exact Option.some_ne_none _⟩, ?_, ?_⟩⟩
              · rw [newOwner, if_pos byNumber, number]
              · rw [owner_self, Owned, name, number]
                constructor
                · rintro ⟨same, counts⟩
                  refine ⟨fun _ => ?_, fun _ => same⟩
                  have atA := counts.1 a
                  have countTaken' := (Upool.userIncref_since (taken' b rfl)).2 a
                  have countDropped' := (Upool.userDecref_since dropped').2 a
                  rw [same] at countDropped countDropped' ⊢
                  by_contra other
                  have apart : b ≠ a := fun equal => other (by rw [equal])
                  simp only [Option.some_inj, if_neg apart] at countDropped countDropped' countTaken'
                  omega
                · rintro ⟨sameName, sameNumber⟩
                  have here : f.uid = some a := sameName byName
                  have there : f.uid = some b := sameNumber byNumber
                  obtain rfl : a = b := Option.some.inj (here.symm.trans there)
                  rw [here, Upool.userDecref_userIncref (taken a rfl)] at dropped
                  cases dropped
                  rw [here, Upool.userDecref_userIncref (taken' a rfl)] at dropped'
                  cases dropped'
                  exact ⟨here, .refl _⟩

/-- The second half fails without a trace; its lookups are those at the beginning of the call. -/
theorem cloneGroup_eq {start : Upool} (since : start.Since up) (run : cloneGroup copied up f st = some (up', f', ok)) :
    (ok = false → ¬GroupKnown start st ∧ f' = f ∧ up' = up) ∧
    (ok = true → GroupKnown start st ∧ f' = { f with gid := newGroup start f st }) := by
  rw [cloneGroup] at run
  obtain ⟨⟨named, group⟩, first, run⟩ := Option.bind_eq_some_iff.mp run
  by_cases byName : st.gid = []
  · rw [if_pos byName] at first
    cases first
    dsimp only at run
    rw [if_neg (fun both => both.1 byName)] at run
    have dropped : (if st.nGid ≠ allOnes then up.groupDecref none else some up) = some up := by
      split <;> rfl
    rw [dropped] at run
    simp only [Option.bind_eq_bind, Option.bind_some] at run
    by_cases byNumber : st.nGid = allOnes
    · rw [if_pos byNumber, Option.bind_some] at run
      dsimp only at run
      rw [if_neg (fun both => both.1 byNumber)] at run
      cases run
      refine ⟨fun wrong => Bool.noConfusion wrong, fun _ => ⟨⟨fun given => absurd byName given, fun given => absurd byNumber given⟩, ?_⟩⟩
      rw [newGroup, if_neg (not_not.mpr byNumber), if_neg (not_not.mpr byName)]
    · rw [if_neg byNumber] at run
      obtain ⟨⟨numbered, owner⟩, second, run⟩ := Option.bind_eq_some_iff.mp run
      obtain ⟨found, -, unchanged, -⟩ := Upool.findGroup_eq since second
      dsimp only at run
      cases owner with
      | none =>
          rw [if_pos ⟨byNumber, rfl⟩] at run
          cases run
          exact ⟨fun _ => ⟨fun known => known.2 byNumber found.symm, rfl, unchanged rfl⟩, fun wrong => Bool.noConfusion wrong⟩
      | some b =>
          rw [if_neg (fun both => Option.some_ne_none _ both.2)] at run
          obtain ⟨final, -, pair⟩ := Option.map_eq_some_iff.mp run
          cases pair
          have owner : start.groupNumbered st.nGid = some b := found.symm
          refine ⟨fun wrong => Bool.noConfusion wrong, fun _ => ⟨⟨fun given => absurd byName given,
            fun _ => by rw [owner]; exact Option.some_ne_none _⟩, ?_⟩⟩
          rw [newGroup, if_pos byNumber, owner]
  · rw [if_neg byName] at first
    obtain ⟨found, sinceNamed, unchanged, taken⟩ := Upool.gname2group_eq since first
    dsimp only at run
    cases group with
    | none =>
        rw [if_pos ⟨byName, rfl⟩] at run
        cases run
        exact ⟨fun _ => ⟨fun known => known.1 byName found.symm, rfl, unchanged rfl⟩, fun wrong => Bool.noConfusion wrong⟩
    | some g =>
        have name : start.groupNamed st.gid = some g := found.symm
        have known : start.groupNamed st.gid ≠ none := by
          rw [name]
          exact Option.some_ne_none _
        rw [if_neg (fun both => Option.some_ne_none _ both.2)] at run
        by_cases byNumber : st.nGid = allOnes
        · rw [if_neg (not_not.mpr byNumber)] at run
          simp only [Option.bind_eq_bind, Option.bind_some] at run
          rw [if_pos byNumber, Option.bind_some] at run
          dsimp only at run
          rw [if_neg (fun both => both.1 byNumber)] at run
          obtain ⟨final, -, pair⟩ := Option.map_eq_some_iff.mp run
          cases pair
          refine ⟨fun wrong => Bool.noConfusion wrong, fun _ => ⟨⟨fun _ => known, fun given => absurd byNumber given⟩, ?_⟩⟩
          rw [newGroup, if_neg (not_not.mpr byNumber), if_pos byName, name]
        · rw [if_pos byNumber, Upool.groupDecref_groupIncref (taken g rfl)] at run
          simp only [Option.bind_eq_bind, Option.bind_some] at run
          rw [if_neg byNumber] at run
          obtain ⟨⟨numbered, owner⟩, second, run⟩ := Option.bind_eq_some_iff.mp run
          obtain ⟨found', -, unchanged', -⟩ := Upool.findGroup_eq since second
          dsimp only at run
          cases owner with
          | none =>
              rw [if_pos ⟨byNumber, rfl⟩] at run
              cases run
              exact ⟨fun _ => ⟨fun both => both.2 byNumber found'.symm, rfl, unchanged' rfl⟩, fun wrong => Bool.noConfusion wrong⟩
          | some b =>
              rw [if_neg (fun both => Option.some_ne_none _ both.2)] at run
              obtain ⟨final, -, pair⟩ := Option.map_eq_some_iff.mp run
              cases pair
              have number : start.groupNumbered st.nGid = some b := found'.symm
              refine ⟨fun wrong => Bool.noConfusion wrong, fun _ => ⟨⟨fun _ => known, fun _ => by rw [number]; exact Option.some_ne_none _⟩, ?_⟩⟩
              rw [newGroup, if_pos byNumber, number]

/-- The calls of `clone_wstat` that are atomic. -/
structure CloneMeets (up : Upool) (f : File) (st : Stat) : Prop where
  unknownNumber : ¬UserKnown up st → st.uid ≠ [] → up.userNamed st.uid ≠ none → f.uid = up.userNamed st.uid
  unknownGroup : UserKnown up st → ¬GroupKnown up st → Owned up f st
  sameUser : UserKnown up st → GroupKnown up st → st.uid ≠ [] → st.nUid ≠ allOnes →
    up.userNamed st.uid = up.userNumbered st.nUid
  sameGroup : UserKnown up st → GroupKnown up st → st.gid ≠ [] → st.nGid ≠ allOnes →
    up.groupNamed st.gid = up.groupNumbered st.nGid

theorem permissions_idem (mode : UInt32) : mode &&& 0o777 &&& 0o777 = mode &&& 0o777 := by
  rw [UInt32.and_assoc, UInt32.and_self]

/-- Setting the fields reaches what the stat names exactly if names and numbers agree. -/
theorem sets_iff (userKnown : UserKnown up st) (groupKnown : GroupKnown up st) :
    Sets up st f { f with uid := newOwner up f st, gid := newGroup up f st, mode := newMode f st } ↔
      (st.uid ≠ [] → st.nUid ≠ allOnes → up.userNamed st.uid = up.userNumbered st.nUid) ∧
        (st.gid ≠ [] → st.nGid ≠ allOnes → up.groupNamed st.gid = up.groupNumbered st.nGid) := by
  constructor
  · intro sets
    exact ⟨fun byName byNumber => (sets.namedUser byName).2.symm.trans (sets.numberedUser byNumber).2,
      fun byName byNumber => (sets.namedGroup byName).2.symm.trans (sets.numberedGroup byNumber).2⟩
  · rintro ⟨sameUser, sameGroup⟩
    exact {
      sameUser := fun noName noNumber => by simp [newOwner, noName, noNumber]
      namedUser := fun byName => by
        refine ⟨userKnown.1 byName, ?_⟩
        by_cases byNumber : st.nUid = allOnes
        · simp [newOwner, byNumber, byName]
        · simp [newOwner, byNumber, sameUser byName byNumber]
      numberedUser := fun byNumber => ⟨userKnown.2 byNumber, by simp [newOwner, byNumber]⟩
      sameGroup := fun noName noNumber => by simp [newGroup, noName, noNumber]
      namedGroup := fun byName => by
        refine ⟨groupKnown.1 byName, ?_⟩
        by_cases byNumber : st.nGid = allOnes
        · simp [newGroup, byNumber, byName]
        · simp [newGroup, byNumber, sameGroup byName byNumber]
      numberedGroup := fun byNumber => ⟨groupKnown.2 byNumber, by simp [newGroup, byNumber]⟩
      sameMode := fun given => by rw [newMode, if_pos given]
      permissions := fun given => by rw [newMode, if_neg given, permissions_idem] }

theorem cloneWstat_atomic_iff {copiedUser copiedGroup : Bool} {result : Upool × File × Bool}
    (run : cloneWstat copiedUser copiedGroup up f st = some result) :
    CloneAtomic up f st result ↔ CloneMeets up f st := by
  rw [cloneWstat] at run
  obtain ⟨⟨up1, f1, ok1⟩, first, rest⟩ := Option.bind_eq_some_iff.mp run
  obtain ⟨since, failed, owned⟩ := cloneOwner_eq first
  dsimp only at rest
  cases ok1 with
  | false =>
      obtain ⟨unknown, file, counts⟩ := failed rfl
      rw [if_pos rfl] at rest
      cases rest
      constructor
      · intro atomic
        exact ⟨fun _ => counts.mp (atomic.1 rfl).2, fun known => absurd known unknown, fun known => absurd known unknown,
          fun known => absurd known unknown⟩
      · intro meets
        exact ⟨fun _ => ⟨file, counts.mpr (meets.unknownNumber unknown)⟩, nofun⟩
  | true =>
      obtain ⟨userKnown, owner, unchanged⟩ := owned rfl
      rw [if_neg Bool.noConfusion] at rest
      obtain ⟨⟨up2, f2, ok2⟩, second, last⟩ := Option.bind_eq_some_iff.mp rest
      obtain ⟨failed', grouped⟩ := cloneGroup_eq since second
      dsimp only at last
      cases ok2 with
      | false =>
          obtain ⟨unknown, file, pool⟩ := failed' rfl
          rw [if_pos rfl] at last
          cases last
          rw [CloneAtomic, file, pool]
          constructor
          · intro atomic
            exact ⟨fun other => absurd userKnown other, fun _ _ => unchanged.mp (atomic.1 rfl),
              fun _ known => absurd known unknown, fun _ known => absurd known unknown⟩
          · intro meets
            exact ⟨fun _ => unchanged.mpr (meets.unknownGroup userKnown unknown), nofun⟩
      | true =>
          obtain ⟨groupKnown, group⟩ := grouped rfl
          rw [if_neg Bool.noConfusion] at last
          have file : f2 = { f with uid := newOwner up f st, gid := newGroup up f st } := by
            rw [group, owner]
            rfl
          have final : result =
              (up2, { f with uid := newOwner up f st, gid := newGroup up f st, mode := newMode f st }, true) := by
            rw [newMode]
            split at last <;> cases last <;> rename_i given <;> rw [file]
            · rw [if_pos given]
            · rw [if_neg given]
          rw [CloneAtomic, final]
          have sets := @sets_iff up f st userKnown groupKnown
          constructor
          · rintro ⟨-, success⟩
            obtain ⟨sameUser, sameGroup⟩ := sets.mp (success rfl)
            exact ⟨fun other => absurd userKnown other, fun _ other => absurd groupKnown other, fun _ _ => sameUser,
              fun _ _ => sameGroup⟩
          · intro meets
            exact ⟨nofun, fun _ => sets.mpr ⟨meets.sameUser userKnown groupKnown, meets.sameGroup userKnown groupKnown⟩⟩

end Clone

section Session

/-- As for a file; the children are to be as they were after a failure. -/
def SessionAtomic (up : Upool) (dir : Dir) (st : Stat) (result : Upool × Dir × Bool) : Prop :=
  (result.2.2 = false → result.2.1 = dir ∧ up.SameCounts result.1) ∧
    (result.2.2 = true → Sets up st dir.file result.2.1.file)

/-- A child that is given to a user. -/
def chowned (up : Upool) (a : Nat) (c : File) : File :=
  { c with uid := some a, muid := some a, gid := up.dfltgroup a }

/-- How many references a child has to a user. -/
def references (a : Nat) (c : File) : Nat :=
  (if c.uid = some a then 1 else 0) + if c.muid = some a then 1 else 0

variable {up up' : Upool} {a : Nat}

theorem dfltgroup_since {r : Record User} (since : up.Since up') (found : up'.users a = some r) :
    up.dfltgroup a = r.value.dfltgroup := by
  obtain ⟨r', before, same⟩ := since.users a r found
  rw [Upool.dfltgroup, before, Option.bind_some, same]

theorem chownChild_eq {start : Upool} (since : start.Since up) {c c' : File}
    (run : chownChild up a c = some (up', c')) :
    start.Since up' ∧ c' = chowned start a c ∧
      count up'.users a + references a c = count up.users a + 1 := by
  rw [chownChild] at run
  obtain ⟨up1, dropUid, run⟩ := Option.bind_eq_some_iff.mp run
  obtain ⟨up2, dropMuid, run⟩ := Option.bind_eq_some_iff.mp run
  obtain ⟨up3, dropGid, run⟩ := Option.bind_eq_some_iff.mp run
  obtain ⟨up4, takeUser, run⟩ := Option.bind_eq_some_iff.mp run
  obtain ⟨r, found, run⟩ := Option.bind_eq_some_iff.mp run
  obtain ⟨up5, takeGroup, run⟩ := Option.bind_eq_some_iff.mp run
  cases run
  obtain ⟨since1, count1⟩ := Upool.userDecref_since dropUid
  obtain ⟨since2, count2⟩ := Upool.userDecref_since dropMuid
  obtain ⟨since3, users3⟩ := Upool.groupDecref_since dropGid
  obtain ⟨since4, count4⟩ := Upool.userIncref_since takeUser
  obtain ⟨since5, users5⟩ := Upool.groupIncref_since takeGroup
  have since' := (((since.trans since1).trans since2).trans since3).trans since4
  refine ⟨since'.trans since5, ?_, ?_⟩
  · rw [chowned, dfltgroup_since since' found]
  · have first := count1 a
    have second := count2 a
    have last := count4 a
    rw [users3, if_pos rfl] at last
    rw [users5, references, last]
    omega

theorem chownChildren_eq {start : Upool} (since : start.Since up) {children children' : List File}
    (run : chownChildren up a children = some (up', children')) :
    start.Since up' ∧ children' = children.map (chowned start a) ∧
      count up'.users a + (children.map (references a)).sum = count up.users a + children.length := by
  induction children generalizing up children' with
  | nil =>
      cases run
      exact ⟨since, rfl, rfl⟩
  | cons c more ih =>
      rw [chownChildren] at run
      obtain ⟨⟨up1, c'⟩, first, run⟩ := Option.bind_eq_some_iff.mp run
      obtain ⟨⟨up2, more'⟩, later, run⟩ := Option.bind_eq_some_iff.mp run
      cases run
      obtain ⟨since1, child, count1⟩ := chownChild_eq since first
      obtain ⟨since2, rest, count2⟩ := ih since1 later
      refine ⟨since2, by rw [child, rest, List.map_cons], ?_⟩
      rw [List.map_cons, List.sum_cons, List.length_cons]
      omega

/-- With the reference of the lookup the one round for a child that is the user's already comes out even. -/
theorem chownChild_same {next : Upool} (taken : up.userIncref a = some next) {c c' : File}
    (same : chowned up a c = c) (run : chownChild next a c = some (up', c')) : up' = up := by
  have uid : c.uid = some a := (congrArg File.uid same).symm
  have muid : c.muid = some a := (congrArg File.muid same).symm
  have gid : c.gid = up.dfltgroup a := (congrArg File.gid same).symm
  rw [chownChild, uid, muid, Upool.userDecref_userIncref taken] at run
  obtain ⟨up1, dropTaken, run⟩ := Option.bind_eq_some_iff.mp run
  cases dropTaken
  obtain ⟨up2, dropUser, run⟩ := Option.bind_eq_some_iff.mp run
  obtain ⟨up3, dropGroup, run⟩ := Option.bind_eq_some_iff.mp run
  obtain ⟨up4, takeUser, run⟩ := Option.bind_eq_some_iff.mp run
  obtain ⟨r, found, run⟩ := Option.bind_eq_some_iff.mp run
  obtain ⟨up5, takeGroup, run⟩ := Option.bind_eq_some_iff.mp run
  cases run
  have since := ((Upool.userDecref_since dropUser).1.trans (Upool.groupDecref_since dropGroup).1).trans
    (Upool.userIncref_since takeUser).1
  rw [← dfltgroup_since since found, ← gid] at takeGroup
  obtain ⟨⟨users, last⟩, released, dropUser⟩ := Option.bind_eq_some_iff.mp dropUser
  obtain ⟨users4, takenAgain, userPool⟩ := Option.map_eq_some_iff.mp takeUser
  rw [(Upool.groupDecref_since dropGroup).2] at takenAgain
  -- The record is there to be taken again, so none of the references was the last one.
  have alive : last = none ∧ users4 = up.users ∧ up2 = { up with users } := by
    cases last with
    | none =>
        cases dropUser
        exact ⟨rfl, (take_of_release released takenAgain).2, rfl⟩
    | some value =>
        rw [(Upool.groupDecrefs_since dropUser).2] at takenAgain
        exact absurd (take_of_release released takenAgain).1 (Option.some_ne_none _)
  obtain ⟨-, rfl, rfl⟩ := alive
  cases group : c.gid with
  | none =>
      rw [group] at dropGroup takeGroup
      cases dropGroup
      cases takeGroup
      rw [← userPool]
  | some g =>
      rw [group] at dropGroup takeGroup
      obtain ⟨⟨groups, lastGroup⟩, releasedGroup, rfl⟩ := Option.map_eq_some_iff.mp dropGroup
      obtain ⟨groups5, takenGroup, rfl⟩ := Option.map_eq_some_iff.mp takeGroup
      rw [← userPool] at takenGroup ⊢
      rw [(take_of_release releasedGroup takenGroup).2]

/-- The group of the user that the stat numbers is the one that the stat asks for. -/
structure GroupAgrees (up : Upool) (f : File) (st : Stat) (group : Option Nat) : Prop where
  unspecified : st.gid = [] → st.nGid = allOnes → f.gid = group
  named : st.gid ≠ [] → up.groupNamed st.gid ≠ none ∧ group = up.groupNamed st.gid
  numbered : st.nGid ≠ allOnes → up.groupNumbered st.nGid ≠ none ∧ group = up.groupNumbered st.nGid

/-- The calls of `session_wstat` that are atomic: those that name the user or a user that does not exist, and
those with the number of a user where the call succeeds and changes no more than was asked, or where it fails
with everything being the user's already and one child to make up for the reference of the lookup. -/
def SessionMeets (privileged chowned : Bool) (up : Upool) (dir : Dir) (st : Stat) : Prop :=
  st.uid = [] → st.nUid ≠ allOnes → ∀ a, up.userNumbered st.nUid = some a →
    if privileged = true ∧ chowned = true then
      GroupAgrees up dir.file st (up.dfltgroup a) ∧
        (st.mode ≠ allOnes → dir.file.mode &&& 0o777 = st.mode &&& 0o777)
    else
      dir.file.uid = some a ∧ dir.file.gid = up.dfltgroup a ∧
        dir.children.map (Wstat.chowned up a) = dir.children ∧ dir.children.length = 1

theorem references_same {c : File} (same : Wstat.chowned up a c = c) : references a c = 2 := by
  have uid : c.uid = some a := (congrArg File.uid same).symm
  have muid : c.muid = some a := (congrArg File.muid same).symm
  rw [references, if_pos uid, if_pos muid]

theorem references_sum {children : List File} (same : children.map (Wstat.chowned up a) = children) :
    (children.map (references a)).sum = 2 * children.length := by
  induction children with
  | nil => rfl
  | cons c more ih =>
      rw [List.map_cons] at same
      rw [List.map_cons, List.sum_cons, references_same (List.cons.inj same).1, ih (List.cons.inj same).2,
        List.length_cons]
      omega

theorem sessionWstat_early {copied privileged chowned : Bool} {dir : Dir} {st : Stat} {result : Upool × Dir × Bool}
    (run : sessionWstat copied privileged chowned up dir st = some result)
    (early : st.uid ≠ [] ∨ st.nUid = allOnes ∨ up.userNumbered st.nUid = none) : result = (up, dir, false) := by
  rw [sessionWstat] at run
  obtain ⟨⟨up1, user⟩, first, rest⟩ := Option.bind_eq_some_iff.mp run
  have nobody : user = none ∧ up1 = up := by
    by_cases byName : st.uid = []
    · rw [if_neg (not_not.mpr byName)] at first
      by_cases byNumber : st.nUid = allOnes
      · rw [if_neg (not_not.mpr byNumber)] at first
        cases first
        exact ⟨rfl, rfl⟩
      · rw [if_pos byNumber] at first
        obtain ⟨found, -, unchanged, -⟩ := Upool.findUser_eq (.refl up) first
        have unknown : user = none := found.trans (by
          rcases early with given | none | unknown
          · exact absurd byName given
          · exact absurd none byNumber
          · exact unknown)
        exact ⟨unknown, unchanged unknown⟩
    · rw [if_pos byName] at first
      split at first
      · cases first
        exact ⟨rfl, rfl⟩
      · rename_i missing
        rw [Upool.uname2user, if_neg missing] at first
        split at first <;> cases first
        exact ⟨rfl, rfl⟩
  obtain ⟨rfl, rfl⟩ := nobody
  cases rest
  rfl

theorem sessionWstat_known {copied privileged chowned : Bool} {dir : Dir} {st : Stat} {result : Upool × Dir × Bool}
    (run : sessionWstat copied privileged chowned up dir st = some result) (byNumber : st.uid = [])
    (given : st.nUid ≠ allOnes) (known : up.userNumbered st.nUid = some a) :
    ∃ next later, up.userIncref a = some next ∧
      chownChildren next a dir.children = some (later, dir.children.map (Wstat.chowned up a)) ∧
      result = (later,
        ⟨{ dir.file with uid := some a, gid := up.dfltgroup a }, dir.children.map (Wstat.chowned up a)⟩,
        privileged && chowned) := by
  rw [sessionWstat] at run
  obtain ⟨⟨next, user⟩, first, rest⟩ := Option.bind_eq_some_iff.mp run
  rw [if_neg (not_not.mpr byNumber), if_pos given] at first
  obtain ⟨found, -, -, taken⟩ := Upool.findUser_eq (.refl up) first
  obtain rfl : user = some a := found.trans known
  have taken := taken a rfl
  dsimp only at rest
  obtain ⟨r, record, rest⟩ := Option.bind_eq_some_iff.mp rest
  have since := (Upool.userIncref_since taken).1
  have group := dfltgroup_since since record
  obtain ⟨⟨later, children⟩, loop, rest⟩ := Option.bind_eq_some_iff.mp rest
  obtain ⟨since', childrenEq, -⟩ := chownChildren_eq since loop
  refine ⟨next, later, taken, childrenEq ▸ loop, ?_⟩
  rw [group, ← childrenEq]
  split at rest
  · rename_i privileged
    obtain ⟨_, _, rest⟩ := Option.bind_eq_some_iff.mp rest
    obtain ⟨_, _, rest⟩ := Option.bind_eq_some_iff.mp rest
    obtain ⟨_, _, rest⟩ := Option.bind_eq_some_iff.mp rest
    cases rest
    rw [privileged, Bool.true_and]
  · rename_i unprivileged
    cases rest
    rw [Bool.eq_false_iff.mpr unprivileged, Bool.false_and]

theorem sessionWstat_atomic_iff {copied privileged chowned : Bool} {dir : Dir} {st : Stat}
    {result : Upool × Dir × Bool} (run : sessionWstat copied privileged chowned up dir st = some result) :
    SessionAtomic up dir st result ↔ SessionMeets privileged chowned up dir st := by
  by_cases early : st.uid ≠ [] ∨ st.nUid = allOnes ∨ up.userNumbered st.nUid = none
  · obtain rfl := sessionWstat_early run early
    constructor
    · intro _ byNumber given a known
      rcases early with byName | none | unknown
      · exact absurd byNumber byName
      · exact absurd none given
      · rw [unknown] at known
        cases known
    · exact fun _ => ⟨fun _ => ⟨rfl, .refl _⟩, nofun⟩
  · simp only [not_or, not_not] at early
    obtain ⟨byNumber, given, known⟩ := early
    obtain ⟨a, known⟩ := Option.ne_none_iff_exists'.mp known
    obtain ⟨next, later, taken, loop, rfl⟩ := sessionWstat_known run byNumber given known
    have meets : SessionMeets privileged chowned up dir st ↔
        if privileged = true ∧ chowned = true then
          GroupAgrees up dir.file st (up.dfltgroup a) ∧
            (st.mode ≠ allOnes → dir.file.mode &&& 0o777 = st.mode &&& 0o777)
        else
          dir.file.uid = some a ∧ dir.file.gid = up.dfltgroup a ∧
            dir.children.map (Wstat.chowned up a) = dir.children ∧ dir.children.length = 1 := by
      constructor
      · exact fun all => all byNumber given a known
      · intro here _ _ b same
        rw [known] at same
        cases same
        exact here
    rw [meets, SessionAtomic]
    by_cases success : privileged = true ∧ chowned = true
    · rw [if_pos success, success.1, success.2]
      constructor
      · rintro ⟨-, sets⟩
        have sets := sets rfl
        exact ⟨⟨fun noName noNumber => (sets.sameGroup noName noNumber).symm, sets.namedGroup, sets.numberedGroup⟩,
          sets.permissions⟩
      · rintro ⟨groups, mode⟩
        exact ⟨nofun, fun _ => {
          sameUser := fun _ none => absurd none given
          namedUser := fun byName => absurd byNumber byName
          numberedUser := fun _ => ⟨by rw [known]; exact Option.some_ne_none _, known.symm⟩
          sameGroup := fun noName noNumber => (groups.unspecified noName noNumber).symm
          namedGroup := groups.named
          numberedGroup := groups.numbered
          sameMode := fun _ => rfl
          permissions := mode }⟩
    · have failed : (privileged && chowned) = false := by
        rw [Bool.eq_false_iff, ne_eq, Bool.and_eq_true]
        exact success
      rw [if_neg success, failed]
      have counted := (chownChildren_eq (Upool.userIncref_since taken).1 loop).2.2
      have more := (Upool.userIncref_since taken).2 a
      rw [if_pos rfl] at more
      constructor
      · rintro ⟨unchanged, -⟩
        obtain ⟨dirSame, counts⟩ := unchanged rfl
        have file : { dir.file with uid := some a, gid := up.dfltgroup a } = dir.file := congrArg Dir.file dirSame
        have children : dir.children.map (Wstat.chowned up a) = dir.children := congrArg Dir.children dirSame
        have same := counts.1 a
        rw [references_sum children] at counted
        refine ⟨(congrArg File.uid file).symm, (congrArg File.gid file).symm, children, ?_⟩
        dsimp only at same
        omega
      · rintro ⟨uid, gid, children, single⟩
        obtain ⟨c, only⟩ := List.length_eq_one_iff.mp single
        have childSame : Wstat.chowned up a c = c := by
          rw [only] at children
          exact (List.cons.inj children).1
        rw [only, chownChildren] at loop
        obtain ⟨⟨up1, c'⟩, round, rest⟩ := Option.bind_eq_some_iff.mp loop
        cases rest
        obtain rfl := chownChild_same taken childSame round
        refine ⟨fun _ => ⟨?_, .refl _⟩, nofun⟩
        rw [children, ← uid, ← gid]

end Session

theorem wstat_atomic_iff (up : Upool) (st : Stat) :
    (∀ (copiedUser copiedGroup : Bool) (f : File) (result : Upool × File × Bool),
      cloneWstat copiedUser copiedGroup up f st = some result →
        (CloneAtomic up f st result ↔ CloneMeets up f st)) ∧
    ∀ (copied privileged chowned : Bool) (dir : Dir) (result : Upool × Dir × Bool),
      sessionWstat copied privileged chowned up dir st = some result →
        (SessionAtomic up dir st result ↔ SessionMeets privileged chowned up dir st) :=
  ⟨fun _ _ _ _ run => cloneWstat_atomic_iff run, fun _ _ _ _ _ run => sessionWstat_atomic_iff run⟩

/-- Two users of one group. -/
def twoUsers : Upool where
  users
    | 0 => some (.shared ⟨[97], 1, some 0, []⟩ 2)
    | 1 => some (.shared ⟨[98], 2, some 0, []⟩ 2)
    | _ => none
  groups
    | 0 => some (.shared ⟨[103], 9⟩ 3)
    | _ => none
  userList := [0, 1]
  groupList := [0]

theorem wstat_atomic_owner :
    ∃ result, cloneWstat true true twoUsers ⟨some 0, some 0, some 0, 0o444⟩ ⟨[98], 2, [], allOnes, 0o400⟩ = some result ∧
      result.2 = (⟨some 1, some 0, some 0, 0o400⟩, true) ∧
      CloneAtomic twoUsers ⟨some 0, some 0, some 0, 0o444⟩ ⟨[98], 2, [], allOnes, 0o400⟩ result := by
  refine ⟨_, rfl, rfl, ((wstat_atomic_iff _ _).1 true true _ _ rfl).mpr ?_⟩
  have known : UserKnown twoUsers ⟨[98], 2, [], allOnes, 0o400⟩ :=
    ⟨fun _ => Option.some_ne_none 1, fun _ => Option.some_ne_none 1⟩
  exact ⟨fun unknown => absurd known unknown,
    fun _ unknown => absurd ⟨fun given => absurd rfl given, fun given => absurd rfl given⟩ unknown,
    fun _ _ _ _ => rfl, fun _ _ given => absurd rfl given⟩

/-- A known owner and an unknown group: the call fails, and the file has the new owner. -/
theorem failed_call_chowns :
    ∃ result, cloneWstat true true twoUsers ⟨some 0, some 0, some 0, 0o444⟩ ⟨[98], allOnes, [120], allOnes, allOnes⟩
        = some result ∧
      ¬CloneAtomic twoUsers ⟨some 0, some 0, some 0, 0o444⟩ ⟨[98], allOnes, [120], allOnes, allOnes⟩ result := by
  refine ⟨_, rfl, fun atomic => ?_⟩
  have same := (atomic.1 rfl).1
  exact absurd (congrArg File.uid same) (by decide)

end Xcpu.Xcpufs.Wstat
