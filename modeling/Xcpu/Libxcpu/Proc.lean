import Xcpu.Libstrutil.Tokenize

/-!
`xp_proc_parse`: one line of a node's `procs` file, a pid, a command line between parentheses and 25 tokens.
-/

namespace Xcpu.Libxcpu.Proc

open Xcpu.Libstrutil

inductive State where
  | unknown | running | sleeping | zombie | stopped | waiting | paging
  deriving DecidableEq

/-- A pointer to an entry of an array of processes. -/
structure Ptr where
  array : Nat
  index : Nat
  deriving DecidableEq

/-- A process; its node is the index of the node in the set. -/
structure Xpproc where
  node : Nat
  xcpujid : Option CStr
  xcpusid : Option CStr
  pid : Int
  cmdline : CStr
  state : State
  ppid : Int
  parent : Option Ptr
  pgrp : Int
  psid : Int
  tty : CStr
  tpgid : Int
  utime : Int
  stime : Int
  starttime : Int × Int
  priority : Int
  nice : Int
  wchan : CStr
  euid : Int
  suid : Int
  fsuid : Int
  egid : Int
  sgid : Int
  fsgid : Int
  vmsize : Int
  rssize : Int
  shsize : Int
  txtsize : Int
  datsize : Int
  deriving DecidableEq

def nul : Char := '\x00'

/-- The text before the last `c` of a string and after it. -/
def strrchr (c : Char) : CStr → Option (CStr × CStr)
  | [] => none
  | x :: rest =>
      match strrchr c rest with
      | some (front, back) => some (x :: front, back)
      | none => if x = c then some ([], rest) else none

/-- A token that is a number to its end. -/
def number (tok : CStr) : Option Int :=
  match strtol tok with
  | (value, []) => some value
  | _ => none

def int (tok : CStr) : Option Int := (number tok).map toInt

def stateOf (tok : CStr) : State :=
  match tok.head? with
  | some 'R' => .running
  | some 'S' => .sleeping
  | some 'Z' => .zombie
  | some 'W' => .paging
  | some 'D' => .waiting
  | some 'T' => .stopped
  | _ => .unknown

/-- `tv_sec` and `tv_usec` of a time in milliseconds, in the unsigned arithmetic of `st`. -/
def timeval (value : Int) : Int × Int :=
  let st := value % 2 ^ 64
  let sec := st / 1000
  (sec, (((st - sec) * 1000) % 2 ^ 64).bmod (2 ^ 64))

def optional (tok : CStr) : Option CStr := if tok = [] then none else some tok

/-- The fields of the 25 tokens. -/
def parseTokens (pid : Int) (cmdline : CStr) (toks : List CStr) : Option Xpproc := do
  let tok (i : Nat) : CStr := toks.getD i []
  let ppid ← int (tok 1)
  let pgrp ← int (tok 2)
  let psid ← int (tok 3)
  let tpgid ← int (tok 5)
  let utime ← number (tok 6)
  let stime ← number (tok 7)
  let st ← number (tok 8)
  let priority ← int (tok 9)
  let nice ← int (tok 10)
  let euid ← int (tok 12)
  let suid ← int (tok 13)
  let fsuid ← int (tok 14)
  let egid ← int (tok 15)
  let sgid ← int (tok 16)
  let fsgid ← int (tok 17)
  let vmsize ← number (tok 18)
  let rssize ← number (tok 19)
  let shsize ← number (tok 20)
  let txtsize ← number (tok 21)
  let datsize ← number (tok 22)
  some {
    node := 0
    xcpujid := optional (tok 24)
    xcpusid := optional (tok 23)
    pid := pid
    cmdline := cmdline
    state := stateOf (tok 0)
    ppid := ppid
    parent := none
    pgrp := pgrp
    psid := psid
    tty := tok 4
    tpgid := tpgid
    utime := utime
    stime := stime
    starttime := timeval st
    priority := priority
    nice := nice
    wchan := tok 11
    euid := euid
    suid := suid
    fsuid := fsuid
    egid := egid
    sgid := sgid
    fsgid := fsgid
    vmsize := vmsize
    rssize := rssize
    shsize := shsize
    txtsize := txtsize
    datsize := datsize }

/-- A line without the blanks at its end. -/
def trimmed (line : CStr) : CStr :=
  ((line.takeWhile (· ≠ nul)).reverse.dropWhile fun c => c == ' ' || c == '\t').reverse

/-- A line that is not blank. -/
def parseEntry (p : CStr) : Option Xpproc :=
  if p.head? = some '(' ∧ p.getLast? = some ')' then
    match strtol p.tail.dropLast with
    | (pid, ' ' :: '(' :: s) => do
        let (cmdline, t) ← strrchr ')' s
        match tokenize t with
        | (25, some toks) => parseTokens (toInt pid) cmdline toks
        | _ => none
    | _ => none
  else none

/-- The inner `none` is a syntax error. Before a line that is blank the byte at `p[-1]` is read, which is not there
where the line is at the start of the buffer. -/
def xpProcParse (atStart : Bool) (line : CStr) : Option (Option Xpproc) :=
  if trimmed line = [] then
    if atStart then none else some none
  else some (parseEntry (trimmed line))

/-- What the line stands for. -/
def entry (line : CStr) : Option Xpproc := if trimmed line = [] then none else parseEntry (trimmed line)

theorem xpProcParse_inside (line : CStr) : xpProcParse false line = some (entry line) := by
  rw [xpProcParse, entry]
  split <;> rfl

theorem xpProcParse_written {line : CStr} (written : trimmed line ≠ []) (atStart : Bool) :
    xpProcParse atStart line = some (entry line) := by
  rw [xpProcParse, entry, if_neg written, if_neg written]

theorem xpProcParse_blank {line : CStr} (blank : trimmed line = []) : xpProcParse true line = none := by
  rw [xpProcParse, if_pos blank, if_pos rfl]

theorem forall_bind {α β : Type} {P : β → Prop} {x : Option α} {f : α → Option β}
    (kept : ∀ a b, f a = some b → P b) : ∀ b, x >>= f = some b → P b := by
  intro b bound
  obtain ⟨a, -, last⟩ := Option.bind_eq_some_iff.mp bound
  exact kept a b last

/-- The link is set later. -/
theorem parseTokens_parent (pid : Int) (cmdline : CStr) (toks : List CStr) :
    ∀ xp, parseTokens pid cmdline toks = some xp → xp.parent = none := by
  dsimp only [parseTokens]
  iterate 20 refine forall_bind fun _ => ?_
  rintro xp ⟨⟩
  rfl

theorem entry_parent {line : CStr} {xp : Xpproc} (read : entry line = some xp) : xp.parent = none := by
  unfold entry parseEntry at read
  split at read
  · cases read
  · split at read
    · split at read
      · obtain ⟨⟨cmdline, t⟩, -, read⟩ := Option.bind_eq_some_iff.mp read
        dsimp only at read
        split at read
        · exact parseTokens_parent _ _ _ _ read
        · cases read
      · cases read
    · cases read

end Xcpu.Libxcpu.Proc
