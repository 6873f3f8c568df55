import Mathlib.Data.List.Basic

/-!
The nodes of the bjs scheduler (`bjs.c`, `bjs.h`) and the allocations that hang off them. A node's
number is its place in the array `bjs_nodes`, to which `bjs_node_idx` has one entry each.
-/

namespace Xcpu.Bjs

abbrev Bytes := List UInt8

/-- `"up"` -/
def statusUp : Bytes := [117, 112]

/-- `ref` is the address of the structure. -/
structure Xpnode where
  ref : Nat
  name : Bytes
  status : Bytes
  deriving DecidableEq

/-- A `node_alloc_t` at address `ref`: the job's number and the node's. -/
structure NodeAlloc where
  ref : Nat
  job : Nat
  node : Nat
  deriving DecidableEq

structure BjsNode where
  node : Xpnode
  up : Bool := false
  jobs : List NodeAlloc := []
  deriving DecidableEq

def BjsNode.isUp (n : BjsNode) : Bool := n.node.status = statusUp

end Xcpu.Bjs
