import Xcpu.Libspfs.FileAccess
import Xcpu.Libspfs.NpDecode

/-!
The count of a Tread or Twrite on its way through `sp_read`, `sp_write` and `sp_alloc_rread`: the
check against the message size and the size of the reply are computed in 32 bits.
-/

namespace Xcpu.Libspfs.File

open Xcpu.Keyed Xcpu.Transition

-- `sizeof(Spfcall)`, in front of every packet
variable (sizeofSpfcall : Nat)

/-- What `sp_alloc_rread` asks `malloc` for: `sp_malloc` takes an `int`, and `malloc` fails for a
negative one. -/
def spAllocRread (count : Nat) : Int := int32 (sizeofSpfcall + (4 + count + 7) % 2 ^ 32)

/-- The bytes of an Rread. -/
def rreadSize (count : Nat) : Nat := 4 + 1 + 2 + 4 + count

section Counts

variable {State User Group : Type} (ops : Fileops State User Group)

/-- The fid stands at a file that has a read operation, or at a directory that is listed. -/
def Reads (tree : Files State User Group) (aux : Option Spfilefid) : Prop :=
  ∃ f file, aux = some f ∧ tree.file f.file = some file ∧ file.live = true ∧
    if file.isDir then ops.lists file = true else (ops.read file).isSome = true

/-- What a Tread leads to: the read operation is invoked only if its count and the header of a
message fit the message size, with a reply allocated for all of them, and an Rread fits it too. -/
def ReadFits (srv : Spsrv (Files State User Group) User Spfilefid)
    (conn : Spconn (Files State User Group) User Spfilefid) (tc : Spfcall) : Prop :=
  ∀ next outcome, spRead srv (conn.accept tc) conn.nextRef tc = some (next, outcome) →
    (next.tree.invoked ≠ conn.tree.invoked → tc.count + iohdrsz ≤ conn.msize ∧
      (0 ≤ spAllocRread sizeofSpfcall tc.count →
        ((sizeofSpfcall + rreadSize tc.count : Nat) : Int) ≤ spAllocRread sizeofSpfcall tc.count)) ∧
    ∀ rc, outcome = ⟨some rc, false⟩ → rreadSize rc.count ≤ conn.msize

variable {ops} {tree : Files State User Group} {aux : Option Spfilefid}

section Standing

variable {Value : Type} {body : Spfilefid → Spfile User Group → Back (Files State User Group) Spfilefid Value}

end Standing

end Counts

section Requests

variable {State User Group : Type} [DecidableEq User] {ops : Fileops State User Group} {msize : Nat}
  {finduser : State → Spfcall → Packet → Option User} {flush : State → Spreq → State × Bool}
  {conn next : Spconn (Files State User Group) User Spfilefid} {tc : Spfcall} {pkt : Packet} {outcome : Outcome}

end Requests

def tread (count : Nat) : Spfcall := { type := .tread, fid := 1, count }

end Xcpu.Libspfs.File
