import Mathlib.Algebra.Order.Ring.Int
import Mathlib.Data.List.DropRight
import Xcpu.Libstrutil.Tokenize

/-!
`tspawn.c` of xcpufs: the node list of a `clone` command is cut into groups, the head
of each group is set up as a direct child, and the rest of the group is written as a
`clone` command to the child's own control file. `spawnTree` follows that recursion.
-/

namespace Xcpu.Xcpufs

open Xcpu.Libstrutil

/-- `strchr`: the text before the first occurrence and the text after it. -/
def cutAt (c : Char) (s : CStr) : Option (CStr × CStr) :=
  if c ∈ s then some (s.takeWhile (· != c), (s.dropWhile (· != c)).tail) else none

/-- `getnodes`. A list without any other character than commas sends the scan for the
trailing commas before the buffer. -/
def getnodes (nodelist : CStr) : Option (List CStr) :=
  let trimmed := nodelist.rdropWhile (· == ',')
  if trimmed = [] then none else some (trimmed.splitOn ',')

/-- The fields of `struct Node` that `node_create` takes from the address. -/
structure Node where
  addr : CStr
  sid : CStr
  passkey : Option CStr
  deriving DecidableEq, Repr

section Spawning

-- `spc_netmount` of a node's address succeeds.
variable (netmount : CStr → Bool)

def nodeCreate (entry : CStr) : Option Node := do
  let (addr, rest) ← cutAt '/' entry
  let node : Node := match cutAt '/' rest with
    | some (sid, passkey) => ⟨addr, sid, some passkey⟩
    | none => ⟨addr, rest, none⟩
  if netmount addr then some node else none

/-- The text `node_setup` writes to the child's control file. -/
def cloneCommand (maxsessions : Int) (clones : List CStr) : CStr :=
  "clone ".toList ++ formatInt maxsessions ++ ' ' :: (clones.flatMap (· ++ [',']) ++ ['\n'])

def nodeSetup (maxsessions : Int) (clones : List CStr) : Option CStr :=
  if clones = [] then none else some (cloneCommand maxsessions clones)

/-- One direct child: its list entry, the node made of it, and what is written to its `ctl`. -/
structure Setup where
  entry : CStr
  node : Node
  clones : List CStr
  command : Option CStr
  deriving DecidableEq, Repr

def Setup.covers (setup : Setup) : List CStr := setup.entry :: setup.clones

/-- `&nds[first]` up to `last`; `none` when the range leaves the array. -/
def slice? (nds : List CStr) (first last : Nat) : Option (List CStr) :=
  if last ≤ nds.length then some ((nds.drop first).take (last - first)) else none

/-- `ts->nodes[idx] = node_create(ts, nds[i])` and the `node_setup` after it. -/
def spawnNode (maxsessions : Int) (nnodes : Nat) (nds : List CStr) (i idx : Nat)
    (clones : List CStr) : Option Setup :=
  if idx < nnodes then do
    let entry ← nds[i]?
    let node ← nodeCreate netmount entry
    some ⟨entry, node, clones, nodeSetup maxsessions clones⟩
  else none

/-- `while (i < ce)`: each round takes a head and the up to `m - 1` entries after it. -/
def groupLoop (maxsessions : Int) (nnodes : Nat) (nds : List CStr) (m ce : Nat) :
    Nat → Nat → Nat → Option (List Setup × Nat × Nat)
  | 0, _, _ => none
  | fuel + 1, i, idx =>
      if i < ce then do
        let b := i + 1
        let e := min (i + m) ce
        let clones ← slice? nds b e
        let setup ← spawnNode netmount maxsessions nnodes nds i idx clones
        let (setups, last) ← groupLoop maxsessions nnodes nds m ce fuel e (idx + 1)
        some (setup :: setups, last)
      else some ([], i, idx)

/-- `while (i < ns)`: the remaining entries become children without clones. -/
def tailLoop (maxsessions : Int) (nnodes : Nat) (nds : List CStr) :
    Nat → Nat → Nat → Option (List Setup)
  | 0, _, _ => none
  | fuel + 1, i, idx =>
      if i < nds.length then do
        let setup ← spawnNode netmount maxsessions nnodes nds i idx []
        let setups ← tailLoop maxsessions nnodes nds fuel (i + 1) (idx + 1)
        some (setup :: setups)
      else some []

/-- The number of direct children `n` and the largest group `m`. -/
def groupSizes (maxsessions : Int) (ns : Nat) : Nat × Nat :=
  if maxsessions > 0 then
    let n := min maxsessions.toNat ns
    (n, ns / n + (if ns % n ≠ 0 then 1 else 0))
  else (ns, 1)

/-- How many of the entries go into groups with clones. -/
def groupEnd (ns n m : Nat) : Nat :=
  let cn := if m > 1 then (ns - n) / (m - 1) + (if (ns - n) % (m - 1) ≠ 0 then 1 else 0) else 0
  ns - n + cn

def tspawn (maxsessions : Int) (dest : CStr) : Option (List Setup) := do
  let nds ← getnodes dest
  let (n, m) := groupSizes maxsessions nds.length
  let (groups, i, idx) ← groupLoop netmount maxsessions n nds m (groupEnd nds.length n m)
    (nds.length + 1) 0 0
  let singles ← tailLoop netmount maxsessions n nds (nds.length + 1) i idx
  some (groups ++ singles)

/-- The `clone` branch of `execute_session_command`: the arguments it hands to `tspawn`. -/
def cloneArguments (line : CStr) : Option (Int × CStr) :=
  match (tokenize line).2 with
  | some (cmd :: count :: dest :: _) =>
      if cmd = "clone".toList then
        let (value, buf) := strtol count
        if buf = [] then some (toInt value, dest) else none
      else none
  | _ => none

inductive SpawnTree where
  | node (entry : CStr) (children : List SpawnTree)

/-- The children of one level, each with the level its own `clone` command starts. -/
def spawnTree : Nat → Int → CStr → Option (List SpawnTree)
  | 0, _, _ => none
  | fuel + 1, maxsessions, dest => do
      let setups ← tspawn netmount maxsessions dest
      setups.mapM fun setup => do
        let children ← match setup.command with
          | none => some []
          | some command => do
              let (count, list) ← cloneArguments (command.takeWhile (· != '\n'))
              spawnTree fuel count list
        some (.node setup.entry children)

end Spawning

mutual

/-- The entries of a subtree, each child's entry before those below it. -/
def SpawnTree.entries : SpawnTree → List CStr
  | .node entry children => entry :: forestEntries children

def forestEntries : List SpawnTree → List CStr
  | [] => []
  | tree :: trees => tree.entries ++ forestEntries trees

end

mutual

/-- Every level at and below this node has at most the given number of children. -/
def SpawnTree.Narrow (width : Nat) : SpawnTree → Prop
  | .node _ children => children.length ≤ width ∧ ForestNarrow width children

def ForestNarrow (width : Nat) : List SpawnTree → Prop
  | [] => True
  | tree :: trees => tree.Narrow width ∧ ForestNarrow width trees

end

end Xcpu.Xcpufs
