import Xcpu.Libstrutil.Tokenize
import Xcpu.Xcpufs.Wstat

/-!
The user pool of xcpufs as the commands of the control file change it: the `ukey_` and `group_` functions of
`xauth.c`, over the pool operations of `pvusers.c`. As in the pool itself, a `none` result is a call that
follows a null pointer or reads freed memory.
-/

namespace Xcpu.Xcpufs.UserKeys

open Xcpu.Counted Xcpu.Libstrutil Xcpu.Xcpufs.Wstat

def bytes (s : CStr) : List UInt8 := s.map fun c => UInt8.ofNat c.toNat

/-- The pool, with the text of the last error that was reported since the call began. -/
structure Keys where
  up : Upool
  ename : Option CStr := none

def Keys.werror (keys : Keys) (text : CStr) : Keys := { keys with ename := some text }

def noMemory : CStr := "not enough memory".toList

/-- What the pool operations find in memory, and what `xauth_pubkey_create` makes of a key: the error text,
if it is none, or nothing, if the key is read past its end. -/
structure System where
  newUser : Upool → Option Nat
  newGroup : Upool → Option Nat
  realloc : Nat → Bool
  pubkeyCreate : CStr → Option (Option CStr)
  user_fresh : ∀ up a, newUser up = some a → up.users a = none ∧ a ∉ up.userList
  group_fresh : ∀ up g, newGroup up = some g → up.groups g = none ∧ g ∉ up.groupList

def named (uname : CStr) (user : User) : Bool := user.uname == bytes uname

def isAdmin (user : User) : Bool := user.uname == bytes "xcpu-admin".toList

def groupNamed (gname : CStr) (group : Group) : Bool := group.gname == bytes gname

section Pool

variable (sys : System)

def privUserAdd (keys : Keys) (uname : CStr) (uid : UInt32) : Option (Keys × Option Nat) := do
  let (up, found) ← keys.up.findUser (named uname)
  match found with
  | some a => do
      let up ← up.userDecref (some a)
      some ({ keys with up }.werror (uname ++ ":user exists".toList), none)
  | none => do
      let (up, found) ← up.uid2user uid
      match found with
      | some a => do
          let up ← up.userDecref (some a)
          some ({ keys with up }.werror (formatInt uid.toInt32.toInt ++ ":user exists".toList), none)
      | none =>
          match sys.newUser up with
          | none => some ({ keys with up }.werror noMemory, none)
          | some a =>
              -- one reference of the list, and one that is returned
              let users := Function.update up.users a (some (.shared ⟨bytes uname, uid, none, []⟩ 1))
              some ({ keys with up := { up with users, userList := a :: up.userList } }, some a)

/-- The list is followed up to the user. -/
def privUserDel (up : Upool) (a : Nat) : Option Upool :=
  if up.userList = [] then some up
  else if (up.userList.takeWhile (· != a)).all fun b => (up.users b).isSome then
    { up with userList := up.userList.erase a }.userDecref (some a)
  else none

def setUser (up : Upool) (a : Nat) (change : User → User) : Option Upool :=
  (up.users a).map fun r =>
    { up with users := Function.update up.users a (some ⟨change r.value, r.count, r.held⟩) }

/-- `sp_priv_group_adduser`, and whether it finds memory; it takes no reference to the group. -/
def privGroupAdduser (up : Upool) (g a : Nat) : Option (Upool × Bool) := do
  let user ← up.users a
  if g ∈ user.value.groups then some (up, true)
  else if sys.realloc (user.value.groups.length + 1) then
    (setUser up a fun user => { user with groups := user.groups ++ [g] }).map (·, true)
  else some (up, false)

/-- The loop that takes a user out of its groups by index, while the groups move down. -/
def leaveGroups : Nat → Nat → List Nat → List Nat
  | 0, _, groups => groups
  | fuel + 1, i, groups =>
      match groups[i]? with
      | none => groups
      | some g => leaveGroups fuel (i + 1) (groups.erase g)

def leave (user : User) : User := { user with groups := leaveGroups user.groups.length 0 user.groups }

def ukeyAdd (keys : Keys) (uname : CStr) (uid : UInt32) (dfltgname key : CStr) : Option (Keys × Int) := do
  match ← sys.pubkeyCreate key with
  | some text => some (keys.werror text, -1)
  | none => do
      let (keys, user) ← privUserAdd sys keys uname uid
      match user with
      | none => some (keys, -1)
      | some a => do
          let (up, dgrp) ← keys.up.findGroup (groupNamed dfltgname)
          match dgrp with
          | none => do
              let up ← privUserDel up a
              let up ← up.userDecref (some a)
              some ({ keys with up }.werror (dfltgname ++ ":group not found".toList), -1)
          | some g => do
              let (up, roomy) ← privGroupAdduser sys up g a
              let up ← setUser up a fun user => { user with dfltgroup := some g }
              let keys := { keys with up }
              -- the result of `sp_priv_group_adduser` is not looked at
              some (if roomy then keys else keys.werror noMemory, 0)

def ukeyDel (keys : Keys) (uname : Option CStr) : Option (Keys × Int) := do
  let uname ← uname
  let (up, user) ← keys.up.findUser (named uname)
  match user with
  | none => some ({ keys with up }.werror (uname ++ ": no such user in userpool".toList), -1)
  | some a => do
      let up ← setUser up a leave
      let up ← privUserDel up a
      let up ← up.userDecref (some a)
      some ({ keys with up }, 0)

/-- The loop of `ukey_flush`. It goes on to `user->next` after it has given the user up. -/
def flushUsers : List Nat → Upool → Option Upool
  | [], up => some up
  | a :: more, up => do
      let user ← up.users a
      if isAdmin user.value then flushUsers more up
      else do
        let up ← setUser up a leave
        let up ← privUserDel up a
        let up ← up.userDecref (some a)
        let _ ← up.users a
        flushUsers more up

def ukeyFlush (keys : Keys) : Option (Keys × Int) := do
  let up ← flushUsers keys.up.userList keys.up
  some ({ keys with up }, 0)

/-- The user and the group of a command; `none` where one is missing and the error is reported. -/
def userAndGroup (keys : Keys) (uname gname : Option CStr) : Option (Keys × Option (Nat × Nat)) := do
  let uname ← uname
  let (up, user) ← keys.up.findUser (named uname)
  match user with
  | none => some ({ keys with up }.werror (uname ++ ": no such user in userpool".toList), none)
  | some a => do
      let gname ← gname
      let (up, group) ← up.findGroup (groupNamed gname)
      match group with
      | none => some ({ keys with up }.werror (gname ++ ": no such group in userpool".toList), none)
      | some g => some ({ keys with up }, some (a, g))

def ukeyAddGroup (keys : Keys) (uname gname : Option CStr) : Option (Keys × Int) := do
  let (keys, found) ← userAndGroup keys uname gname
  match found with
  | none => some (keys, -1)
  | some (a, g) => do
      let (up, roomy) ← privGroupAdduser sys keys.up g a
      if roomy then some ({ keys with up }, 0) else some ({ keys with up }.werror noMemory, -1)

def ukeyDelGroup (keys : Keys) (uname gname : Option CStr) : Option (Keys × Int) := do
  let (keys, found) ← userAndGroup keys uname gname
  match found with
  | none => some (keys, -1)
  | some (a, g) => do
      let user ← keys.up.users a
      if g ∈ user.value.groups then do
        let up ← setUser keys.up a fun user => { user with groups := user.groups.erase g }
        some ({ keys with up }, 0)
      else do
        let uname ← uname
        let gname ← gname
        some (keys.werror ("user ".toList ++ uname ++ " not a member of group ".toList ++ gname), -1)

/-- `group_add`, with the `sp_priv_group_add` that it calls. -/
def groupAdd (keys : Keys) (groupname : CStr) (gid : UInt32) : Option (Keys × Int) := do
  let (up, found) ← keys.up.findGroup (groupNamed groupname)
  match found with
  | some g => do
      let up ← up.groupDecref (some g)
      some ({ keys with up }.werror (groupname ++ ":group exists".toList), -1)
  | none => do
      let (up, found) ← up.gid2group gid
      match found with
      | some g => do
          let up ← up.groupDecref (some g)
          some ({ keys with up }.werror (formatInt gid.toInt32.toInt ++ ":group exists".toList), -1)
      | none =>
          match sys.newGroup up with
          | none => some ({ keys with up }.werror noMemory, -1)
          | some g =>
              let groups := Function.update up.groups g (some (.shared ⟨bytes groupname, gid⟩ 1))
              some ({ keys with up := { up with groups, groupList := g :: up.groupList } }, 0)

/-- Whether a user but the administrator is in the group. -/
def busy (up : Upool) (g : Nat) : List Nat → Option Bool
  | [] => some false
  | a :: more => do
      let user ← up.users a
      if isAdmin user.value then busy up g more
      else if g ∈ user.value.groups then some true
      else busy up g more

/-- A busy group stays, and only the text tells. -/
def privGroupDel (keys : Keys) (g : Nat) : Option Keys := do
  let up := keys.up
  if up.groupList = [] then some keys
  else if (up.groupList.takeWhile (· != g)).all fun h => (up.groups h).isSome then do
    let group ← up.groups g
    if ← busy up g up.userList then
      some (keys.werror (group.value.gname.map (fun b => Char.ofNat b.toNat) ++ ":group not empty".toList))
    else do
      let up ← { up with groupList := up.groupList.erase g }.groupDecref (some g)
      some { keys with up }
  else none

def groupDel (keys : Keys) (groupname : Option CStr) : Option (Keys × Int) := do
  let groupname ← groupname
  let (up, group) ← keys.up.findGroup (groupNamed groupname)
  match group with
  | none => some ({ keys with up }.werror (groupname ++ ": no such group in userpool".toList), -1)
  | some g => (privGroupDel { keys with up } g).map (·, 0)

def flushGroups : List Nat → Keys → Option Keys
  | [], keys => some keys
  | g :: more, keys => do
      let group ← keys.up.groups g
      if group.value.gname == bytes "xcpu-admin".toList then flushGroups more keys
      else do
        let keys ← privGroupDel keys g
        let up ← keys.up.groupDecref (some g)
        let _ ← up.groups g
        flushGroups more { keys with up }

def groupFlush (keys : Keys) : Option (Keys × Int) := do
  let (keys, _) ← ukeyFlush keys
  let keys ← flushGroups keys.up.groupList keys
  some (keys, 0)

end Pool

section Told

variable {sys : System} {keys keys' : Keys} {result : Keys × Int}

end Told

end Xcpu.Xcpufs.UserKeys
