import Xcpu.Lib.Cells
import Xcpu.Lib.Numerals

/-!
Sets of nodes as text: a line for each node, which `xp_nodeset_to_string` writes and
`xp_nodeset_listnet_filter` reads from the file `state` of a server. A result `none` stands for an access
outside of the memory that was allocated, or to a byte of it that was never written.
-/

namespace Xcpu.Libxcpu.Node

open Xcpu.Cells Xcpu.Numerals Xcpu.Overwrite

structure Xpnode where
  name : List UInt8
  addr : List UInt8
  arch : List UInt8
  status : List UInt8
  numjobs : Int
  deriving DecidableEq

def tab : UInt8 := 9

def newline : UInt8 := 10

/-- What `sprintf` writes, without the byte that ends the string. -/
def line (n : Xpnode) : List UInt8 :=
  n.name ++ tab :: (n.addr ++ tab :: (n.arch ++ tab :: (n.status ++ tab :: (formatInt n.numjobs ++ [newline]))))

/-- The string, or `some none` where it returns no string. -/
def xpNodeToString (n : Xpnode) : Option (Option (List UInt8)) :=
  if n.numjobs < 0 then some none
  else
    let len := n.name.length + 1 + (n.addr.length + 1) + (n.arch.length + 1) + (n.status.length + 1)
    -- less than 10 digits of numjobs
    let len := len + (9 + 2)
    if (line n).length + 1 ≤ len then some (some (line n)) else none

/-- `strcpy` or `strcat` to `size` bytes of memory. -/
def strcat (size : Nat) (ret str : List UInt8) : Option (List UInt8) :=
  if (ret ++ str).length + 1 ≤ size then some (ret ++ str) else none

/-- The loop after the first node, with the bytes that `ret` has and the count in `total`. -/
def appendNodes (size total : Nat) (ret : List UInt8) : List Xpnode → Option (Option (List UInt8))
  | [] => some (some ret)
  | n :: rest => do
      let str ← xpNodeToString n
      match str with
      | none => some none
      | some str =>
          if total < str.length + ret.length then do
            let size := ret.length + str.length
            let ret ← strcat size ret str
            appendNodes size (total + str.length) ret rest
          else do
            let ret ← strcat size ret str
            appendNodes size total ret rest

def xpNodesetToString (nodes : List Xpnode) : Option (Option (List UInt8)) :=
  match nodes with
  | [] => some none
  | n :: rest => do
      let str ← xpNodeToString n
      match str with
      | none => some none
      | some str =>
          let total := toInt (str.length * nodes.length * 2)
          -- a size below zero is more than there is
          if total < 0 then some none
          else do
            let ret ← strcat total.toNat [] str
            appendNodes total.toNat total.toNat ret rest

/-- The fid of the file: `limit` says how many bytes more than one the server gives at an offset. -/
structure Spcfid where
  iounit : Nat
  msize : Nat
  limit : Nat → Nat

def iohdrsz : Nat := 24

/-- The loop of `spc_read`; each turn but the last brings bytes. -/
def spcReadLoop (fid : Spcfid) (text : List UInt8) (count offset : Nat) : Nat → Nat → List UInt8
  | 0, _ => []
  | turns + 1, n =>
      if n < count then
        let i := min (count - n) (fid.msize - iohdrsz)
        let data := (text.drop (offset + n)).take (min i (fid.limit (offset + n) + 1))
        if data = [] then [] else data ++ spcReadLoop fid text count offset turns (n + data.length)
      else []

def spcRead (fid : Spcfid) (text : List UInt8) (count offset : Nat) : List UInt8 :=
  spcReadLoop fid text count offset count 0

/-- The loop that reads the file, and the bytes it counts. -/
def readState (fid : Spcfid) (text : List UInt8) :
    Nat → List (Option UInt8) → Nat → Nat → Option (List (Option UInt8) × Nat)
  | 0, _, _, _ => none
  | turns + 1, buf, bufsize, pos =>
      let data := spcRead fid text (fid.iounit - 1) pos
      if data = [] then some (buf, pos)
      else if data.length ≤ buf.length then
        let buf := overwrite buf 0 (data.map some)
        let pos := pos + data.length
        if bufsize - pos < fid.iounit then
          readState fid text turns (realloc buf (bufsize + fid.iounit)) (bufsize + fid.iounit) pos
        else readState fid text turns buf bufsize pos
      else none

/-- The node, and the memory behind its line unless the string ends with it. The inner `none` stands for
a bad format. -/
def xpNodeCreateFromBuf (buf : List (Option UInt8)) : Option (Option (Xpnode × Option (List (Option UInt8)))) := do
  let some (name, buf) ← strchr tab buf | some none
  let some (addr, buf) ← strchr tab buf | some none
  let some (arch, buf) ← strchr tab buf | some none
  let some (status, numjobs) ← strchr tab buf | some none
  match ← strchr newline numjobs with
  | some (digits, eol) => some (some (⟨name, addr, arch, status, toInt (strtoul0 digits)⟩, some eol))
  | none => do
      let digits ← cstring numjobs
      some (some (⟨name, addr, arch, status, toInt (strtoul0 digits)⟩, none))

/-- The filters of a list; the negative bounds are none. -/
structure Filter where
  state : Option (List UInt8) := none
  arch : Option (List UInt8) := none
  minjobs : Int := -1
  maxjobs : Int := -1

def Filter.add (filter : Filter) (node : Xpnode) : Bool :=
  (match filter.state with | none => true | some state => node.status = state) &&
    (match filter.arch with | none => true | some arch => node.arch = arch) &&
    (if 0 ≤ filter.minjobs then filter.minjobs ≤ node.numjobs else true) &&
    (if 0 ≤ filter.maxjobs then node.numjobs ≤ filter.maxjobs else true)

/-- The loop over the lines; each takes some of the memory. -/
@[simp]
def listNodes (filter : Filter) : Nat → List (Option UInt8) → Option (Option (List Xpnode))
  | _, [] => none
  | _, none :: _ => none
  | 0, _ => none
  | turns + 1, some b :: buf =>
      if b = 0 then some (some [])
      else do
        let some (node, name) ← xpNodeCreateFromBuf (some b :: buf) | some none
        let some name := name | some none
        let nodes ← listNodes filter turns name
        some (nodes.map fun nodes => if filter.add node then node :: nodes else nodes)

/-- On a server whose file `state` has the text. -/
def xpNodesetListnetFilter (fid : Spcfid) (text : List UInt8) (filter : Filter) : Option (Option (List Xpnode)) := do
  let (buf, pos) ← readState fid text (text.length + 1) (List.replicate (fid.iounit + 1) none) fid.iounit 0
  if pos < buf.length then listNodes filter buf.length (buf.set pos (some 0)) else none

end Xcpu.Libxcpu.Node
