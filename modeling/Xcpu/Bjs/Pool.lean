import Xcpu.Bjs.Persistent

/-!
Pools and the requirements of jobs: `client_submit_job` with the checks of permissions and limits, the
`submit` of the policies, and how the policies read the numbers again when they schedule.
-/

namespace Xcpu.Bjs

open Xcpu.Numerals

inductive Policy where
  | simple
  | filler
  | shared
  deriving DecidableEq

/-- `struct bjs_pool_t` without its jobs; `nodes` are the names of its nodes. A limit of -1 is none. -/
structure Pool where
  name : Bytes
  policy : Policy
  nodes : List Bytes
  users : Option (List Int32) := none
  groups : Option (List Int32) := none
  maxSecs : Int32 := -1
  minSecs : Int32 := -1
  maxNodes : Int32 := -1
  minNodes : Int32 := -1
  deriving DecidableEq

def Pool.nnodes (p : Pool) : Int32 := Int32.ofNat p.nodes.length

/-- `sexp_find_list` from an element on: the elements of the first list that begins with the atom. -/
def sexpFindList (atom : Bytes) : Sexp → Option Sexp
  | .null => none
  | .value _ next => sexpFindList atom next
  | .list elts next =>
      match elts with
      | .value val rest => if val = atom then some (.value val rest) else sexpFindList atom next
      | _ => sexpFindList atom next

def bjsJobReq (reqs : Sexp) (key dfl : Bytes) : Bytes :=
  match sexpFindList key reqs.elements with
  | some (.value _ (.value val _)) => val
  | _ => dfl

/-- `"nodes"` and `"secs"` -/
def nodesKey : Bytes := [110, 111, 100, 101, 115]
def secsKey : Bytes := [115, 101, 99, 115]

/-- `"0"` and `"1"` -/
def zeroText : Bytes := [48]
def oneText : Bytes := [49]

/-- What a client is told. -/
inductive SubmitError where
  | invalidSubmission
  | noPool (name : Bytes)
  | noPermission (pool : Bytes)
  | invalidNodes (str : Bytes)
  | minimumNodes (pool : Bytes) (limit : Int32)
  | maximumNodes (pool : Bytes) (limit : Int32)
  | invalidSecs (str : Bytes)
  | minimumSecs (pool : Bytes) (limit : Int32)
  | maximumSecs (pool : Bytes) (limit : Int32)
  | exceedsPool
  deriving DecidableEq

def submitCheckPerm (creds : Creds) (p : Pool) : Bool :=
  creds.euid = 0 || (p.users.all (creds.euid ∈ ·) && p.groups.all (creds.egid ∈ ·))

/-- The number of nodes, which is an `int` here and in the policies. -/
def submitCheckNodes (p : Pool) (reqs : Sexp) : Except SubmitError Unit :=
  let str := bjsJobReq reqs nodesKey oneText
  let nodes := Int32.ofInt (strtol0 str).1
  if (strtol0 str).2 ≠ [] ∨ nodes < 1 then .error (.invalidNodes str)
  else if p.minNodes ≠ -1 ∧ nodes < p.minNodes then .error (.minimumNodes p.name p.minNodes)
  else if p.maxNodes ≠ -1 then
    if p.maxNodes < nodes then .error (.maximumNodes p.name p.maxNodes) else .ok ()
  else if p.nnodes < nodes then .error (.maximumNodes p.name p.nnodes)
  else .ok ()

/-- The number of seconds, which is an `int` here. -/
def submitCheckSecs (p : Pool) (reqs : Sexp) : Except SubmitError Unit :=
  let str := bjsJobReq reqs secsKey zeroText
  let secs := Int32.ofInt (strtol0 str).1
  if (strtol0 str).2 ≠ [] ∨ secs ≤ 0 then .error (.invalidSecs str)
  else if p.minSecs ≠ -1 ∧ secs < p.minSecs then .error (.minimumSecs p.name p.minSecs)
  else if p.maxSecs ≠ -1 ∧ p.maxSecs < secs then .error (.maximumSecs p.name p.maxSecs)
  else .ok ()

def submitCheckBuiltin (p : Pool) (reqs : Sexp) : Except SubmitError Unit := do
  submitCheckNodes p reqs
  submitCheckSecs p reqs

/-- The `submit` of the policies that give each node to one job. -/
def exclusiveSubmit (p : Pool) (reqs : Sexp) : Except SubmitError Unit :=
  let str := bjsJobReq reqs nodesKey oneText
  let nodes := Int32.ofInt (strtol0 str).1
  if (strtol0 str).2 ≠ [] ∨ nodes ≤ 0 then .error (.invalidNodes str)
  else if p.nnodes < nodes then .error .exceedsPool
  else .ok ()

def simpleSubmit (p : Pool) (reqs : Sexp) : Except SubmitError Unit := exclusiveSubmit p reqs

def fillerSubmit (p : Pool) (reqs : Sexp) : Except SubmitError Unit := exclusiveSubmit p reqs

/-- Anything is ok in a shared pool. -/
def sharedSubmit (_ : Pool) (_ : Sexp) : Except SubmitError Unit := .ok ()

def Policy.submit : Policy → Pool → Sexp → Except SubmitError Unit
  | .simple => simpleSubmit
  | .filler => fillerSubmit
  | .shared => sharedSubmit

/-- `VVL` -/
def interactiveFormat : List Bool := [true, true, false]

/-- `client_submit_job` from where it looks for the pool: the pool and the requirements of the new job. -/
def submitToPool (pools : List Pool) (creds : Creds) (str : Bytes) (reqs : Sexp) :
    Except SubmitError (Pool × Sexp) :=
  match pools.find? (·.name = str) with
  | none => .error (.noPool str)
  | some p =>
      if submitCheckPerm creds p then do
        submitCheckBuiltin p reqs
        p.policy.submit p reqs
        return (p, reqs)
      else .error (.noPermission p.name)

/-- `client_submit_job` of a batch job, or of an interactive one, which has no environment. -/
def submitJob (pools : List Pool) (creds : Creds) (jobsx : Sexp) : Except SubmitError (Pool × Sexp) :=
  let inter := (sexpNth jobsx 0).val? ≠ some jobAtom
  let reqs := sexpNth jobsx (if inter then 2 else 7)
  if jobsx.elements.hasFormat (if inter then interactiveFormat else jobFormat) ∧
      (inter ∨ (sexpNth jobsx 6).elements.vals.isSome) ∧ reqs.elements.areReqs then
    submitToPool pools creds ((sexpNth jobsx 1).val?.getD []) reqs
  else .error .invalidSubmission

/-- The number of nodes as `bjs_job_runnable` and the `schedule` of every policy read it. -/
def nodesRequired (reqs : Sexp) : Int32 := Int32.ofInt (strtol0 (bjsJobReq reqs nodesKey oneText)).1

/-- The number of seconds, a `long`, as `schedule` and `timeout` of the policies read it: the default is
"1" for a job that waits in `filler_schedule` and "0" elsewhere. -/
def timeRequired (reqs : Sexp) (dfl : Bytes) : Int64 := Int64.ofInt (strtol0 (bjsJobReq reqs secsKey dfl)).1

end Xcpu.Bjs
