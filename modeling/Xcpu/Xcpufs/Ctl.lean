import Xcpu.Lib.Lines
import Xcpu.Lib.Transition
import Xcpu.Libstrutil.Tokenize

/-!
The main control file of xcpufs. `ctl_write` gathers text in the one `ctlbuf` of the
server, and `execute_command` runs the lines that it completes there.
-/

namespace Xcpu.Xcpufs.Ctl

open Xcpu.Libstrutil Xcpu.Lines Xcpu.Transition

def signals : List (String × Int) := [
  ("SIGHUP", 1), ("SIGINT", 2), ("SIGQUIT", 3), ("SIGILL", 4), ("SIGTRAP", 5), ("SIGABRT", 6),
  ("SIGIOT", 6), ("SIGBUS", 7), ("SIGFPE", 8), ("SIGKILL", 9), ("SIGUSR1", 10), ("SIGSEGV", 11),
  ("SIGUSR2", 12), ("SIGPIPE", 13), ("SIGALRM", 14), ("SIGTERM", 15), ("SIGSTKFLT", 16),
  ("SIGCLD", 17), ("SIGCHLD", 17), ("SIGCONT", 18), ("SIGSTOP", 19), ("SIGTSTP", 20),
  ("SIGTTIN", 21), ("SIGTTOU", 22), ("SIGURG", 23), ("SIGXCPU", 24), ("SIGXFSZ", 25),
  ("SIGVTALRM", 26), ("SIGPROF", 27), ("SIGWINCH", 28), ("SIGPOLL", 29), ("SIGIO", 29),
  ("SIGPWR", 30), ("SIGSYS", 31), ("SIGUNUSED", 31)]

def signame2signo (sig : CStr) : Int :=
  let (n, e) := strtol sig
  if e = [] then toInt n
  else match signals.find? fun (name, _) => name.toList == sig with
    | some (_, num) => num
    | none => -1

/-- What `execute_command` calls. An argument is `none` where `toks` has no such token, and
so is the result where the callee follows that pointer. The number is the value returned. -/
structure Calls (Pool : Type) where
  ukeyAdd : Pool → CStr → Nat → CStr → CStr → Option (Pool × Int)
  ukeyDel : Pool → Option CStr → Option (Pool × Int)
  ukeyFlush : Pool → Option (Pool × Int)
  ukeyAddGroup : Pool → Option CStr → Option CStr → Option (Pool × Int)
  ukeyDelGroup : Pool → Option CStr → Option CStr → Option (Pool × Int)
  groupAdd : Pool → CStr → Nat → Option (Pool × Int)
  groupDel : Pool → Option CStr → Option (Pool × Int)
  groupFlush : Pool → Option (Pool × Int)
  -- `seteuid(0) || kill(pid, n) < 0`, with the text of the error
  kill : Pool → Int → Int → Pool × Option String

/-- The text is the one that `execute_command` sets itself. -/
structure Returned (Pool : Type) where
  upool : Pool
  ret : Int
  werror : Option String := none

section Commands

variable {Pool : Type} (calls : Calls Pool)

def token (toks : Option (List CStr)) (i : Nat) : Option CStr := toks.bind fun words => words[i]?

def uint32 (n : Int) : Nat := (n % 2 ^ 32).toNat

def invalid (up : Pool) (ename : String) : Returned Pool := ⟨up, -1, some ename⟩

-- `if (!call(..)) ret = 1;`
def retOf (call : Option (Pool × Int)) : Option (Returned Pool) :=
  call.map fun (up, value) => ⟨up, if value = 0 then 1 else -1, none⟩

/-- What `execute_command` does once the line is tokenized: `none` where it follows a pointer that is no
token. -/
def executeToks (up : Pool) (nargs : Int) (toks : Option (List CStr)) : Option (Returned Pool) := do
  if nargs < 0 then
    some (invalid up "invalid format")
  else
    let cmd ← token toks 0
    let args (i : Nat) := token toks (i + 1)
    if cmd = "user-add".toList then
      if nargs ≠ 5 then
        some (invalid up "Usage: user-add uname uid groupname key")
      else
        let (n, p) := strtol (← args 1)
        if p ≠ [] then some (invalid up "invalid user id")
        else retOf (calls.ukeyAdd up (← args 0) (uint32 (toInt n)) (← args 2) (← args 3))
    else if cmd = "user-del".toList then retOf (calls.ukeyDel up (args 0))
    else if cmd = "user-flush".toList then retOf (calls.ukeyFlush up)
    else if cmd = "user-add-group".toList then retOf (calls.ukeyAddGroup up (args 0) (args 1))
    else if cmd = "user-del-group".toList then retOf (calls.ukeyDelGroup up (args 0) (args 1))
    else if cmd = "group-add".toList then
      if nargs ≠ 3 then
        some (invalid up "Usage: group-add groupname gid")
      else
        let gid ← args 1
        let (n, p) := strtol gid
        if p ≠ [] then some (invalid up ("invalid group id " ++ String.ofList gid))
        else retOf (calls.groupAdd up (← args 0) (uint32 (toInt n)))
    else if cmd = "group-del".toList then retOf (calls.groupDel up (args 0))
    else if cmd = "group-flush".toList then retOf (calls.groupFlush up)
    else if cmd = "kill".toList then
      let n := signame2signo (← args 0)
      if n < 0 then some (invalid up "unsupported signal")
      else
        let (pid, p) := strtol (← args 1)
        if p ≠ [] then some (invalid up "invalid pid")
        else
          let (signalled, failed) := calls.kill up (toInt pid) n
          match failed with
          | some text => some (invalid signalled text)
          | none => some ⟨signalled, 1, none⟩
    else some (invalid up "unknown command")

def executeCommand (up : Pool) (s : CStr) : Option (Returned Pool) :=
  executeToks calls up (tokenize s).1 (tokenize s).2

inductive LoopEnd where
  | left (text : CStr)
  | failed
  | faulted
  deriving DecidableEq, Repr

/-- The loop of `ctl_write` from `ctlbuf + i`, with the lines it hands to `execute_command`. -/
def commandLoop : Nat → Pool → CStr → Pool × List CStr × LoopEnd
  | 0, up, _ => (up, [], .faulted)
  | fuel + 1, up, text =>
      if '\n' ∈ text then
        let line := text.takeWhile (· != '\n')
        match executeCommand calls up line with
        | none => (up, [line], .faulted)
        | some result =>
            if result.ret < 0 then (result.upool, [line], .failed)
            else
              let (up, executed, ending) :=
                commandLoop fuel result.upool (text.drop (line.length + 1))
              (up, line :: executed, ending)
      else (up, [], .left text)

end Commands

/-- `ctlbuf` is kept as the text before its terminator, the only part that is read. The two
logs name the client of each write, and of the write that executed each line. -/
structure Server (Client Pool : Type) where
  upool : Pool
  ctlbuf : Option CStr := none
  faulted : Bool := false
  written : List (Client × List Char) := []
  executed : List (Client × CStr) := []

variable {Client Pool : Type} [DecidableEq Client] (calls : Calls Pool)

/-- The server after the write, and the count or the -1 that it returns. The sizes are
`int`s; a buffer beyond their range is a fault. -/
def ctlWrite (server : Server Client Pool) (client : Client) (data : List Char) :
    Server Client Pool × Option Int :=
  let kept := server.ctlbuf.getD []
  if 2 ^ 31 ≤ kept.length + data.length + 1 then ({ server with faulted := true }, none)
  else
    let text := (kept ++ data).takeWhile (· != '\x00')
    let (up, lines, ending) := commandLoop calls (text.length + 1) server.upool text
    let ran := { server with
      upool := up
      executed := server.executed ++ lines.map fun line => (client, line) }
    match ending with
    | .left rest => ({ ran with ctlbuf := if rest = [] then none else some rest }, some data.length)
    | .failed => ({ ran with ctlbuf := none }, some (-1))
    | .faulted => ({ ran with faulted := true }, none)

/-- A Twrite on the file, by any client. After a fault there is no server to take it. -/
def step (server : Server Client Pool) : Client × List Char → Option (Server Client Pool)
  | (client, data) =>
      if server.faulted then some server
      else some (ctlWrite calls { server with written := server.written ++ [(client, data)] }
        client data).1

def Server.wrote (server : Server Client Pool) (client : Client) : List Char :=
  (server.written.filter fun entry => entry.1 = client).flatMap Prod.snd

def Server.ran (server : Server Client Pool) (client : Client) : List CStr :=
  (server.executed.filter fun entry => entry.1 = client).map Prod.snd

/-- Each client has had the lines of its own bytes executed, and no others. -/
def Independent (server : Server Client Pool) : Prop :=
  ∀ client, server.ran client = splitLines '\n' [] (server.wrote client)

/-- No line but the last fails, or follows a pointer that is no token. -/
def Succeeds : Pool → List CStr → Prop
  | up, line :: next :: rest => ∃ result, executeCommand calls up line = some result ∧
      0 ≤ result.ret ∧ Succeeds result.upool (next :: rest)
  | _, _ => True

/-- A write that completes a line finds in `ctlbuf` the line that its own client left
unfinished; its lines hold no NUL, and none but the last of them fails. -/
def ContinuesOwn (server : Server Client Pool) : Client × List Char → Prop
  | (client, data) => server.faulted = false → '\n' ∈ data →
      (server.ctlbuf.getD []).length + data.length + 1 < 2 ^ 31 ∧
      server.ctlbuf.getD [] = unfinished '\n' [] (server.wrote client) ∧
      (∀ line ∈ splitLines '\n' [] data, '\x00' ∉ line) ∧
      Succeeds calls server.upool (splitLines '\n' (unfinished '\n' [] (server.wrote client)) data)

/-- The lines that are reached when the first failure ends the run. -/
def runLines : Pool → List CStr → List CStr
  | _, [] => []
  | up, line :: rest => match executeCommand calls up line with
    | none => [line]
    | some result => if result.ret < 0 then [line] else line :: runLines result.upool rest

theorem commandLoop_runLines {fuel : Nat} {up : Pool} {text : CStr} (enough : text.length < fuel) :
    (commandLoop calls fuel up text).2.1 = runLines calls up (splitLines '\n' [] text) := by
  induction fuel generalizing up text with
  | zero => exact absurd enough (Nat.not_lt_zero _)
  | succ fuel ih =>
      by_cases broken : '\n' ∈ text
      · have some := List.length_pos_of_mem broken
        rw [splitLines_first '\n' [] broken, List.nil_append, runLines]
        simp only [commandLoop, if_pos broken]
        cases executeCommand calls up (text.takeWhile (· != '\n')) with
        | none => rfl
        | some result =>
            dsimp only
            split
            · rfl
            · rw [ih (by rw [List.length_drop]; omega)]
      · rw [splitLines_of_not_mem '\n' [] broken, runLines]
        simp only [commandLoop, if_neg broken]

theorem commandLoop_left {fuel : Nat} {up : Pool} {text rest : CStr}
    (ended : (commandLoop calls fuel up text).2.2 = .left rest) :
    '\n' ∉ rest ∧ ∀ c ∈ rest, c ∈ text := by
  induction fuel generalizing up text with
  | zero => exact absurd ended (by simp [commandLoop])
  | succ fuel ih =>
      by_cases broken : '\n' ∈ text
      · simp only [commandLoop, if_pos broken] at ended
        cases called : executeCommand calls up (text.takeWhile (· != '\n')) with
        | none =>
            rw [called] at ended
            contradiction
        | some result =>
            simp only [called] at ended
            split at ended
            · contradiction
            · obtain ⟨unbroken, inside⟩ := ih ended
              exact ⟨unbroken, fun c member => List.mem_of_mem_drop (inside c member)⟩
      · simp only [commandLoop, if_neg broken, LoopEnd.left.injEq] at ended
        subst ended
        exact ⟨broken, fun c member => member⟩

theorem length_runLines_le (up : Pool) (lines : List CStr) :
    (runLines calls up lines).length ≤ lines.length := by
  induction lines generalizing up with
  | nil => exact Nat.le_refl _
  | cons line rest ih =>
      rw [runLines]
      split
      · simp
      · rename_i result _
        split
        · simp
        · rw [List.length_cons, List.length_cons]
          exact Nat.succ_le_succ (ih result.upool)

theorem runLines_of_succeeds {up : Pool} {lines : List CStr} (succeeds : Succeeds calls up lines) :
    runLines calls up lines = lines := by
  induction lines generalizing up with
  | nil => rfl
  | cons line rest ih =>
      cases rest with
      | nil =>
          rw [runLines]
          split
          · rfl
          · split <;> rfl
      | cons next later =>
          obtain ⟨result, called, success, after⟩ := succeeds
          rw [runLines, called]
          dsimp only
          rw [if_neg (by omega), ih after]

theorem succeeds_of_length {up : Pool} {lines : List CStr}
    (reached : (runLines calls up lines).length = lines.length) : Succeeds calls up lines := by
  induction lines generalizing up with
  | nil => trivial
  | cons line rest ih =>
      cases rest with
      | nil => trivial
      | cons next later =>
          rw [runLines] at reached
          cases called : executeCommand calls up line with
          | none =>
              rw [called] at reached
              simp at reached
          | some result =>
              simp only [called] at reached
              split at reached
              · simp at reached
              · rename_i success
                refine ⟨result, called, by omega, ih ?_⟩
                simpa using reached

theorem takeWhile_append_dropWhile_nul (data : List Char) :
    data.takeWhile (· != '\x00') ++ data.dropWhile (· != '\x00') = data :=
  List.takeWhile_append_dropWhile

theorem nul_not_mem_takeWhile (data : List Char) : '\x00' ∉ data.takeWhile (· != '\x00') := by
  intro member
  have passes := List.mem_takeWhile_imp member
  simp at passes

theorem splitLines_nul (line : CStr) (data : List Char) :
    splitLines '\n' line data = splitLines '\n' line (data.takeWhile (· != '\x00')) ++
      splitLines '\n' (unfinished '\n' line (data.takeWhile (· != '\x00')))
        (data.dropWhile (· != '\x00')) := by
  rw [← splitLines_append, takeWhile_append_dropWhile_nul]

theorem plain_lines_iff (data : List Char) :
    (∀ found ∈ splitLines '\n' [] data, '\x00' ∉ found) ↔ '\n' ∉ data.dropWhile (· != '\x00') := by
  constructor
  · intro plain broken
    have first := splitLines_first '\n' (unfinished '\n' [] (data.takeWhile (· != '\x00'))) broken
    refine plain (unfinished '\n' [] (data.takeWhile (· != '\x00')) ++
      (data.dropWhile (· != '\x00')).takeWhile (· != '\n')) ?_ ?_
    · rw [splitLines_nul, first]
      exact List.mem_append_right _ List.mem_cons_self
    · apply List.mem_append_right
      cases dropped : data.dropWhile (· != '\x00') with
      | nil =>
          rw [dropped] at broken
          exact absurd broken List.not_mem_nil
      | cons c rest =>
          have stops := List.head_dropWhile_not (l := data) (· != '\x00') (by simp [dropped])
          simp only [dropped, List.head_cons, bne_eq_false_iff_eq] at stops
          subst stops
          simp
  · intro unbroken found member nul
    rw [splitLines_nul, splitLines_of_not_mem '\n' _ unbroken, List.append_nil] at member
    rcases mem_of_mem_splitLines '\n' member nul with begun | inside
    · exact absurd begun List.not_mem_nil
    · exact nul_not_mem_takeWhile data inside

theorem runLines_eq_iff {kept own : CStr} {up : Pool} {data : List Char} :
    runLines calls up (splitLines '\n' kept (data.takeWhile (· != '\x00'))) =
        splitLines '\n' own data ↔
      ('\n' ∈ data → kept = own ∧ (∀ line ∈ splitLines '\n' [] data, '\x00' ∉ line) ∧
        Succeeds calls up (splitLines '\n' own data)) := by
  constructor
  · intro same broken
    have counted := congrArg List.length same
    have reached := length_runLines_le calls up
      (splitLines '\n' kept (data.takeWhile (· != '\x00')))
    have whole := congrArg (List.count '\n') (takeWhile_append_dropWhile_nul data)
    rw [List.count_append] at whole
    rw [length_splitLines] at counted
    simp only [length_splitLines] at reached
    have unbroken : '\n' ∉ data.dropWhile (· != '\x00') := by
      rw [← List.count_eq_zero]
      omega
    have front : splitLines '\n' kept (data.takeWhile (· != '\x00')) = splitLines '\n' kept data := by
      rw [splitLines_nul kept data, splitLines_of_not_mem '\n' _ unbroken, List.append_nil]
    rw [front] at same
    have succeeds : Succeeds calls up (splitLines '\n' kept data) := by
      apply succeeds_of_length
      rw [same, length_splitLines, length_splitLines]
    rw [runLines_of_succeeds calls succeeds] at same
    exact ⟨splitLines_inj '\n' broken same, (plain_lines_iff data).mpr unbroken, same ▸ succeeds⟩
  · intro continues
    by_cases broken : '\n' ∈ data
    · obtain ⟨rfl, plain, succeeds⟩ := continues broken
      have unbroken := (plain_lines_iff data).mp plain
      rw [splitLines_nul kept data, splitLines_of_not_mem '\n' _ unbroken, List.append_nil] at succeeds ⊢
      exact runLines_of_succeeds calls succeeds
    · have front : '\n' ∉ data.takeWhile (· != '\x00') := fun member =>
        broken (List.takeWhile_subset _ member)
      rw [splitLines_of_not_mem '\n' _ front, splitLines_of_not_mem '\n' _ broken, runLines]

def Server.Clean (server : Server Client Pool) : Prop :=
  ∀ c ∈ server.ctlbuf.getD [], c ≠ '\n' ∧ c ≠ '\x00'

omit [DecidableEq Client] in
theorem buffered_lines {server : Server Client Pool} (clean : server.Clean) (data : List Char) :
    splitLines '\n' [] ((server.ctlbuf.getD [] ++ data).takeWhile (· != '\x00')) =
      splitLines '\n' (server.ctlbuf.getD []) (data.takeWhile (· != '\x00')) := by
  have plain : ∀ c ∈ server.ctlbuf.getD [], (c != '\x00') = true := by
    intro c member
    simpa using (clean c member).2
  have unbroken : '\n' ∉ server.ctlbuf.getD [] := fun member => (clean _ member).1 rfl
  rw [List.takeWhile_append_of_pos plain, splitLines_append, splitLines_of_not_mem '\n' [] unbroken,
    unfinished_of_not_mem '\n' [] unbroken, List.nil_append, List.nil_append]

theorem ran_append {server next : Server Client Pool} {client : Client} {lines : List CStr}
    (added : next.executed = server.executed ++ lines.map fun line => (client, line)) (other : Client) :
    next.ran other = server.ran other ++ if client = other then lines else [] := by
  rw [Server.ran, Server.ran, added, List.filter_append, List.map_append]
  congr 1
  split
  · rename_i same
    rw [List.filter_eq_self.mpr (by simp [same])]
    simp [Function.comp_def]
  · rename_i different
    rw [List.filter_eq_nil_iff.mpr (by simp [different])]
    rfl

theorem wrote_append {server next : Server Client Pool} {client : Client} {data : List Char}
    (added : next.written = server.written ++ [(client, data)]) (other : Client) :
    next.wrote other = server.wrote other ++ if client = other then data else [] := by
  rw [Server.wrote, Server.wrote, added, List.filter_append, List.flatMap_append]
  congr 1
  split
  · rename_i same
    simp [same]
  · rename_i different
    simp [different]

/-- A write leaves the other clients as they were, and its own client independent if it runs
what that client's stream completes. -/
theorem independent_append_iff {server next : Server Client Pool} {client : Client} {data : List Char}
    {lines : List CStr} (independent : Independent server)
    (wrote : next.written = server.written ++ [(client, data)])
    (ran : next.executed = server.executed ++ lines.map fun line => (client, line)) :
    Independent next ↔ lines = splitLines '\n' (unfinished '\n' [] (server.wrote client)) data := by
  have own : next.ran client = splitLines '\n' [] (next.wrote client) ↔
      lines = splitLines '\n' (unfinished '\n' [] (server.wrote client)) data := by
    rw [ran_append ran, wrote_append wrote, if_pos rfl, if_pos rfl, splitLines_append,
      independent client, List.append_cancel_left_eq]
  constructor
  · intro kept
    exact own.mp (kept client)
  · intro same other
    by_cases mine : client = other
    · subst mine
      exact own.mpr same
    · rw [ran_append ran, wrote_append wrote, if_neg mine, if_neg mine, List.append_nil,
        List.append_nil]
      exact independent other

theorem ctlWrite_cases (server : Server Client Pool) (clean : server.Clean) (client : Client)
    (data : List Char) :
    (ctlWrite calls server client data).1.written = server.written ∧
    (ctlWrite calls server client data).1.Clean ∧
    (ctlWrite calls server client data).1.executed = server.executed ++
      (if 2 ^ 31 ≤ (server.ctlbuf.getD []).length + data.length + 1 then []
        else runLines calls server.upool (splitLines '\n' (server.ctlbuf.getD [])
          (data.takeWhile (· != '\x00')))).map fun line => (client, line) := by
  have lines := @commandLoop_runLines _ calls _ server.upool _ (Nat.lt_succ_self
    ((server.ctlbuf.getD [] ++ data).takeWhile (· != '\x00')).length)
  rw [buffered_lines clean] at lines
  rw [← lines]
  unfold ctlWrite
  generalize looped : commandLoop calls (((server.ctlbuf.getD [] ++ data).takeWhile (· != '\x00')).length + 1)
    server.upool ((server.ctlbuf.getD [] ++ data).takeWhile (· != '\x00')) = result
  obtain ⟨up, ran, ending⟩ := result
  dsimp only
  split
  · exact ⟨rfl, clean, by simp⟩
  · rw [looped]
    cases ending with
    | left rest =>
        refine ⟨rfl, ?_, rfl⟩
        obtain ⟨unbroken, inside⟩ := commandLoop_left calls (congrArg (fun loop => loop.2.2) looped)
        have same : (if rest = [] then none else some rest).getD [] = rest := by
          split
          · rename_i empty
            exact empty.symm
          · rfl
        intro c member
        have kept : c ∈ rest := same ▸ member
        refine ⟨fun newline => unbroken (newline ▸ kept), fun nul => ?_⟩
        exact nul_not_mem_takeWhile _ (nul ▸ inside c kept)
    | failed => exact ⟨rfl, fun c member => absurd member List.not_mem_nil, rfl⟩
    | faulted => exact ⟨rfl, clean, rfl⟩

structure Sound (server : Server Client Pool) : Prop where
  clean : server.Clean
  independent : Independent server

theorem step_clean {server next : Server Client Pool} {event : Client × List Char}
    (clean : server.Clean) (stepped : step calls server event = some next) : next.Clean := by
  obtain ⟨client, data⟩ := event
  rw [step] at stepped
  split at stepped
  · exact Option.some.inj stepped ▸ clean
  · rw [← Option.some.inj stepped]
    exact (ctlWrite_cases calls { server with written := server.written ++ [(client, data)] } clean
      client data).2.1

theorem step_independent_iff {server next : Server Client Pool} {event : Client × List Char}
    (sound : Sound server) (stepped : step calls server event = some next) :
    Independent next ↔ ContinuesOwn calls server event := by
  obtain ⟨client, data⟩ := event
  rw [step] at stepped
  split at stepped
  · rename_i faulted
    rw [← Option.some.inj stepped]
    refine iff_of_true sound.independent fun running => ?_
    rw [faulted] at running
    contradiction
  · rename_i running
    obtain ⟨written, -, executed⟩ := ctlWrite_cases calls
      { server with written := server.written ++ [(client, data)] } sound.clean client data
    rw [Option.some.inj stepped] at written executed
    rw [independent_append_iff sound.independent written executed, ContinuesOwn]
    dsimp only
    split
    · rename_i large
      constructor
      · intro none _ broken
        exact absurd broken ((splitLines_eq_nil_iff '\n' _ data).mp none.symm)
      · intro continues
        refine ((splitLines_eq_nil_iff '\n' _ data).mpr fun broken => ?_).symm
        have fits := (continues (Bool.eq_false_of_not_eq_true running) broken).1
        omega
    · rename_i fits
      rw [runLines_eq_iff]
      constructor
      · intro continues _ broken
        exact ⟨by omega, continues broken⟩
      · intro continues broken
        exact (continues (Bool.eq_false_of_not_eq_true running) broken).2

/-- However the clients' writes interleave, each has its own lines executed in every state if and
only if each write that completes lines continues its own client's. -/
theorem ctlWrites_independent_iff (up : Pool) (events : List (Client × List Char)) :
    EveryStep (step calls) (fun _ _ next => Independent next) { upool := up } events ↔
      Guarded (step calls) (ContinuesOwn calls) { upool := up } events := by
  have preserved (server : Server Client Pool) (event : Client × List Char)
      (next : Server Client Pool) (sound : Sound server) (continues : ContinuesOwn calls server event)
      (stepped : step calls server event = some next) : Sound next :=
    ⟨step_clean calls sound.clean stepped, (step_independent_iff calls sound stepped).mpr continues⟩
  have initial : Sound ({ upool := up } : Server Client Pool) :=
    ⟨fun c member => absurd member List.not_mem_nil, fun client => rfl⟩
  refine everyStep_iff_guarded (step calls) preserved ?_ ?_ events initial
  · intro server event next sound stepped
    exact step_independent_iff calls sound stepped
  · rintro server ⟨client, data⟩ undefined
    rw [step] at undefined
    split at undefined <;> contradiction

def acceptAll : Calls Unit where
  ukeyAdd _ _ _ _ _ := some ((), 0)
  ukeyDel _ uname := uname.map fun _ => ((), 0)
  ukeyFlush _ := some ((), 0)
  ukeyAddGroup _ uname gname := uname.bind fun _ => gname.map fun _ => ((), 0)
  ukeyDelGroup _ uname gname := uname.bind fun _ => gname.map fun _ => ((), 0)
  groupAdd _ _ _ := some ((), 0)
  groupDel _ gname := gname.map fun _ => ((), 0)
  groupFlush _ := some ((), 0)
  kill _ _ _ := ((), none)

/-- The second client's `group-flush` completes the line that the first has begun. -/
theorem ctlWrites_mixed :
    ¬ EveryStep (step acceptAll) (fun _ _ next => Independent next) { upool := () }
      [(1, "user-del ann".toList), (2, "group-flush\n".toList)] := by
  intro every
  obtain ⟨-, rest⟩ := every _ rfl
  have last := (rest _ rfl).1
  exact absurd (last 2) (by decide)

end Xcpu.Xcpufs.Ctl
