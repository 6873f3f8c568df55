import Xcpu.Lib.Overwrite
import Xcpu.Lib.Transition
import Xcpu.Libstrutil.Tokenize

/-!
The control file of a session: `sctl_write` appends to `xs->ctl`, and
`sctl_execute_commands` runs the lines in it and answers the pending Twrite. The buffer
is kept as memory, with the terminators that the code writes over the newlines.
-/

namespace Xcpu.Xcpufs.SessionCtl

open Xcpu.Libstrutil Xcpu.Overwrite Xcpu.Transition

def cstr (mem : List Char) : CStr := mem.takeWhile (· != '\x00')

/-- What `execute_session_command` did with a line. A `clone` is `pending` until its nodes
are done; it has `completed` when they are before `tspawn` returns, which then calls
`sctl_execute_commands` from within. -/
inductive Outcome where
  | done
  | failed
  | pending
  | completed
  deriving DecidableEq, Repr

inductive Reply where
  | rwrite (count : Int)
  | rerror
  deriving DecidableEq, Repr

structure Xsession where
  ctl : Option (List Char) := none
  ctlpos : Nat := 0
  -- the data of `ctlreq`
  ctlreq : Option (List Char) := none
  executed : List CStr := []
  replies : List Reply := []
  -- the bytes that the counts of the replies acknowledge
  acked : List Char := []
  deriving DecidableEq, Repr

def respondRwrite (xs : Xsession) (data : List Char) (n : Int) : Xsession :=
  { xs with
    ctlreq := none
    ctlpos := 0
    replies := xs.replies ++ [.rwrite n]
    acked := xs.acked ++ data.take n.toNat }

def respondRerror (xs : Xsession) : Xsession :=
  { xs with ctlreq := none, ctlpos := 0, replies := xs.replies ++ [.rerror] }

-- Below the loop; `junk` is the value of `n` where no branch sets it.
def finishCommands (junk : Int) (xs : Xsession) (data : List Char) : Option Xsession := do
  let mem ← xs.ctl
  let c ← mem[xs.ctlpos]?
  if c = '\x00' then
    some (respondRwrite { xs with ctl := none } data data.length)
  else if 0 < xs.ctlpos then
    let rest := cstr (mem.drop xs.ctlpos)
    let n : Int := data.length - rest.length
    some (respondRwrite { xs with ctl := some (overwrite mem 0 (rest ++ ['\x00'])) } data
      (if n < 0 then data.length else n))
  else some (respondRwrite xs data junk)

section Commands

-- The outcome of a line, after the lines executed before it.
variable (exec : List CStr → CStr → Outcome)

def commandLoop (junk : Int) (data : List Char) : Nat → Xsession → Option Xsession
  | 0, _ => none
  | fuel + 1, xs => do
      let mem ← xs.ctl
      let rest := cstr (mem.drop xs.ctlpos)
      if '\n' ∈ rest then
        let line := rest.takeWhile (· != '\n')
        let p := xs.ctlpos + line.length
        let called := { xs with
          ctl := some (overwrite mem p ['\x00'])
          executed := xs.executed ++ [line] }
        match exec xs.executed line with
        | .done => commandLoop junk data fuel { called with ctlpos := p + 1 }
        | .pending => some { called with ctlpos := p + 1 }
        | .failed => some (respondRerror called)
        | .completed => do
            let returned ← finishCommands junk called data
            if returned.ctl = none then none else some { returned with ctlpos := p + 1 }
      else finishCommands junk xs data

def sctlExecuteCommands (junk : Int) (xs : Xsession) : Option Xsession :=
  match xs.ctlreq with
  | none => some xs
  | some data => do
      let mem ← xs.ctl
      commandLoop exec junk data (mem.length + 1) xs

def sctlWrite (xs : Xsession) (data : List Char) (junk : Int) : Option Xsession :=
  match xs.ctlreq with
  | some _ => some { xs with replies := xs.replies ++ [.rerror] }
  | none =>
      let kept := cstr (xs.ctl.getD [])
      sctlExecuteCommands exec junk
        { xs with ctl := some (kept ++ data ++ ['\x00']), ctlreq := some data, ctlpos := 0 }

/-- A Twrite on the control file, or the end of a pending `clone`. -/
inductive Event where
  | write (data : List Char) (junk : Int)
  | spawned (junk : Int)

def step (xs : Xsession) : Event → Option Xsession
  | .write data junk => sctlWrite exec xs data junk
  | .spawned junk => sctlExecuteCommands exec junk xs

end Commands

def terminate (lines : List CStr) : List Char := lines.flatMap (· ++ ['\n'])

def Xsession.retained (xs : Xsession) : CStr := cstr ((xs.ctl.getD []).drop xs.ctlpos)

/-- The executed lines and the text kept in `xs->ctl` are the acknowledged bytes, together
with those of the Twrite that still waits for its reply. -/
structure Acknowledged (xs : Xsession) : Prop where
  stream : xs.acked ++ xs.ctlreq.getD [] = terminate xs.executed ++ xs.retained
  lines : ∀ line ∈ xs.executed, '\n' ∉ line
  rest : xs.ctlreq = none → '\n' ∉ xs.retained

structure Succeed (exec : List CStr → CStr → Outcome) (executed lines : List CStr) : Prop where
  text : ∀ line ∈ lines, '\n' ∉ line ∧ '\x00' ∉ line
  outcome : ∀ front line back, lines = front ++ line :: back →
    exec (executed ++ front) line = .done ∨ exec (executed ++ front) line = .pending

-- The data of the Twrite are whole lines, none of which fails or completes within its call.
def WholeLines (exec : List CStr → CStr → Outcome) (xs : Xsession) : Event → Prop
  | .write data _ => xs.ctlreq = none →
      ∃ lines, data = terminate lines ∧ Succeed exec xs.executed lines
  | .spawned _ => True

theorem terminate_append (first second : List CStr) :
    terminate (first ++ second) = terminate first ++ terminate second :=
  List.flatMap_append

theorem terminate_cons (line : CStr) (lines : List CStr) :
    terminate (line :: lines) = line ++ '\n' :: terminate lines := by
  simp [terminate]

theorem cstr_append {text : List Char} (plain : '\x00' ∉ text) (rest : List Char) :
    cstr (text ++ '\x00' :: rest) = text := by
  have kept : ∀ c ∈ text, (c != '\x00') = true := by
    intro c member
    simp only [bne_iff_ne, ne_eq]
    rintro rfl
    exact plain member
  rw [cstr, List.takeWhile_append_of_pos kept]
  simp

theorem terminate_plain {lines : List CStr} (text : ∀ line ∈ lines, '\n' ∉ line ∧ '\x00' ∉ line) :
    '\x00' ∉ terminate lines := by
  intro member
  obtain ⟨line, inside, letter⟩ := List.mem_flatMap.mp member
  rcases List.mem_append.mp letter with old | newline
  · exact (text line inside).2 old
  · exact absurd (List.mem_singleton.mp newline) (by decide)

theorem takeWhile_line {line : CStr} (plain : '\n' ∉ line) (rest : List Char) :
    (line ++ '\n' :: rest).takeWhile (· != '\n') = line := by
  have kept : ∀ c ∈ line, (c != '\n') = true := by
    intro c member
    simp only [bne_iff_ne, ne_eq]
    rintro rfl
    exact plain member
  rw [List.takeWhile_append_of_pos kept]
  simp

theorem Succeed.tail {exec : List CStr → CStr → Outcome} {executed lines : List CStr} {line : CStr}
    (succeed : Succeed exec executed (line :: lines)) : Succeed exec (executed ++ [line]) lines := by
  refine ⟨fun other member => succeed.text other (List.mem_cons_of_mem _ member), ?_⟩
  intro front other back split
  have whole := succeed.outcome (line :: front) other back (by rw [split]; rfl)
  rw [List.append_assoc]
  exact whole

/-- Only whole lines stand between `ctlpos` and the end of the buffer; with no Twrite
waiting there is no buffer. -/
inductive Settled (exec : List CStr → CStr → Outcome) (xs : Xsession) : Prop where
  | idle (noReq : xs.ctlreq = none) (noCtl : xs.ctl = none)
      (stream : xs.acked = terminate xs.executed)
      (lines : ∀ line ∈ xs.executed, '\n' ∉ line)
  | waiting (data mem : List Char) (left : List CStr) (req : xs.ctlreq = some data)
      (ctl : xs.ctl = some mem) (inside : xs.ctlpos ≤ mem.length)
      (text : mem.drop xs.ctlpos = terminate left ++ ['\x00'])
      (succeed : Succeed exec xs.executed left)
      (stream : xs.acked ++ data = terminate xs.executed ++ terminate left)
      (lines : ∀ line ∈ xs.executed, '\n' ∉ line)

theorem Settled.acknowledged {exec : List CStr → CStr → Outcome} {xs : Xsession}
    (settled : Settled exec xs) : Acknowledged xs := by
  cases settled with
  | idle noReq noCtl stream lines =>
      refine ⟨?_, lines, ?_⟩
      · simp [noReq, stream, Xsession.retained, noCtl, cstr]
      · simp [Xsession.retained, noCtl, cstr]
  | waiting data mem left req ctl inside text succeed stream lines =>
      refine ⟨?_, lines, ?_⟩
      · have kept : xs.retained = terminate left := by
          rw [Xsession.retained, ctl, Option.getD_some, text]
          exact cstr_append (terminate_plain succeed.text) []
        rw [req, Option.getD_some, stream, kept]
      · intro noReq
        rw [req] at noReq
        cases noReq

section Runs

variable {exec : List CStr → CStr → Outcome} (junk : Int)

/-- With lines that succeed the loop runs them all, or stops at one that is pending. -/
theorem commandLoop_settled (data mem : List Char) (left : List CStr) (fuel : Nat) (xs : Xsession)
    (req : xs.ctlreq = some data) (ctl : xs.ctl = some mem)
    (inside : xs.ctlpos ≤ mem.length)
    (text : mem.drop xs.ctlpos = terminate left ++ ['\x00'])
    (succeed : Succeed exec xs.executed left)
    (stream : xs.acked ++ data = terminate xs.executed ++ terminate left)
    (lines : ∀ line ∈ xs.executed, '\n' ∉ line) (enough : left.length < fuel) :
    ∃ next, commandLoop exec junk data fuel xs = some next ∧ Settled exec next := by
  induction left generalizing fuel xs mem with
  | nil =>
      obtain ⟨fuel, rfl⟩ := Nat.exists_eq_add_of_lt enough
      have rest : cstr (mem.drop xs.ctlpos) = [] := by
        rw [text]
        rfl
      have last : mem[xs.ctlpos]? = some '\x00' := by
        have first := congrArg (fun memory => memory[0]?) text
        simpa [terminate] using first
      refine ⟨respondRwrite { xs with ctl := none } data data.length, ?_, ?_⟩
      · simp [commandLoop, ctl, rest, finishCommands, last]
      · refine .idle rfl rfl ?_ lines
        simp only [respondRwrite, Int.toNat_natCast, List.take_length]
        rw [stream]
        simp [terminate]
  | cons line left ih =>
      obtain ⟨fuel, rfl⟩ : ∃ more, fuel = more + 1 := ⟨fuel - 1, by omega⟩
      obtain ⟨noNewline, noNul⟩ := succeed.text line List.mem_cons_self
      have whole : cstr (mem.drop xs.ctlpos) = line ++ '\n' :: terminate left := by
        rw [text, terminate_cons]
        exact cstr_append (terminate_cons line left ▸ terminate_plain succeed.text) []
      have more : '\n' ∈ cstr (mem.drop xs.ctlpos) := by
        rw [whole]
        simp
      have length : mem.length = xs.ctlpos + line.length + 1 + (terminate left).length + 1 := by
        have counted := congrArg List.length text
        simp only [List.length_drop, terminate_cons, List.length_append, List.length_cons,
          List.length_nil] at counted
        omega
      have after : (overwrite mem (xs.ctlpos + line.length) ['\x00']).drop
          (xs.ctlpos + line.length + 1) = terminate left ++ ['\x00'] := by
        have front : (mem.take (xs.ctlpos + line.length) ++ ['\x00']).length =
            xs.ctlpos + line.length + 1 := by
          rw [List.length_append, List.length_take, List.length_singleton]
          omega
        rw [overwrite, ← front, List.drop_left, List.length_singleton, Nat.add_assoc,
          ← List.drop_drop, text, terminate_cons]
        simp
      have longer : xs.ctlpos + line.length + 1 ≤
          (overwrite mem (xs.ctlpos + line.length) ['\x00']).length := by
        rw [overwrite_length _ _ _ (by simp only [List.length_singleton]; omega)]
        omega
      have moved : xs.acked ++ data = terminate (xs.executed ++ [line]) ++ terminate left := by
        rw [stream, terminate_append, terminate_cons, terminate_cons]
        simp [terminate]
      have plain : ∀ old ∈ xs.executed ++ [line], '\n' ∉ old := by
        intro old member
        rcases List.mem_append.mp member with earlier | new
        · exact lines old earlier
        · rw [List.mem_singleton.mp new]
          exact noNewline
      have outcome := succeed.outcome [] line left rfl
      rw [List.append_nil] at outcome
      rcases outcome with done | pending
      · obtain ⟨next, ran, settled⟩ := ih _ fuel
          { xs with
            ctl := some (overwrite mem (xs.ctlpos + line.length) ['\x00'])
            executed := xs.executed ++ [line]
            ctlpos := xs.ctlpos + line.length + 1 }
          req rfl longer after succeed.tail moved plain (by simpa using enough)
        refine ⟨next, ?_, settled⟩
        simp only [commandLoop, ctl, Option.bind_eq_bind, Option.bind_some, more, if_true]
        simp only [whole, takeWhile_line noNewline, done]
        exact ran
      · refine ⟨{ xs with
          ctl := some (overwrite mem (xs.ctlpos + line.length) ['\x00'])
          executed := xs.executed ++ [line]
          ctlpos := xs.ctlpos + line.length + 1 }, ?_, ?_⟩
        · simp only [commandLoop, ctl, Option.bind_eq_bind, Option.bind_some, more, if_true]
          simp only [whole, takeWhile_line noNewline, pending]
        · exact .waiting data _ left req rfl longer after succeed.tail moved plain

theorem length_le_terminate (lines : List CStr) : lines.length ≤ (terminate lines).length := by
  induction lines with
  | nil => exact Nat.zero_le _
  | cons line lines ih =>
      rw [terminate_cons]
      simp only [List.length_append, List.length_cons]
      omega

theorem sctlExecuteCommands_settled (xs : Xsession) (settled : Settled exec xs) :
    ∃ next, sctlExecuteCommands exec junk xs = some next ∧ Settled exec next := by
  cases settled with
  | idle noReq noCtl stream lines =>
      refine ⟨xs, ?_, .idle noReq noCtl stream lines⟩
      rw [sctlExecuteCommands, noReq]
  | waiting data mem left req ctl inside text succeed stream lines =>
      have short := length_le_terminate left
      have counted := congrArg List.length text
      simp only [List.length_drop, List.length_append, List.length_singleton] at counted
      obtain ⟨next, ran, settled⟩ := commandLoop_settled junk data mem left (mem.length + 1) xs req
        ctl inside text succeed stream lines (by omega)
      refine ⟨next, ?_, settled⟩
      simp only [sctlExecuteCommands, req, ctl, Option.bind_eq_bind, Option.bind_some]
      exact ran

theorem step_settled (xs : Xsession) (event : Event) (settled : Settled exec xs)
    (whole : WholeLines exec xs event) : ∃ next, step exec xs event = some next ∧ Settled exec next := by
  cases event with
  | spawned junk => exact sctlExecuteCommands_settled junk xs settled
  | write data junk =>
      cases settled with
      | waiting pending mem left req ctl inside text succeed stream lines =>
          refine ⟨{ xs with replies := xs.replies ++ [.rerror] }, ?_, ?_⟩
          · rw [step, sctlWrite, req]
          · exact .waiting pending mem left req ctl inside text succeed stream lines
      | idle noReq noCtl stream lines =>
          obtain ⟨left, rfl, succeed⟩ := whole noReq
          have ready : Settled exec { xs with
              ctl := some (terminate left ++ ['\x00'])
              ctlreq := some (terminate left)
              ctlpos := 0 } :=
            .waiting (terminate left) _ left rfl rfl (Nat.zero_le _) rfl succeed
              (by rw [stream]) lines
          obtain ⟨next, ran, settled⟩ := sctlExecuteCommands_settled junk _ ready
          refine ⟨next, ?_, settled⟩
          simp only [step, sctlWrite, noReq, noCtl, Option.getD_none]
          exact ran

end Runs

/-- While every Twrite brings whole lines that succeed, the session control file executes
the stream that it acknowledges, in every state of every run, and no run gets stuck. -/
theorem run_acknowledged (exec : List CStr → CStr → Outcome) (events : List Event)
    (whole : Guarded (step exec) (WholeLines exec) {} events) :
    ∃ final, run (step exec) {} events = some final ∧ Acknowledged final := by
  have initial : Settled exec {} := .idle rfl rfl rfl (by simp)
  obtain ⟨final, ran, settled⟩ := run_defined (step exec)
    (fun xs event settled allowed => step_settled xs event settled allowed) initial whole
  exact ⟨final, ran, settled.acknowledged⟩

/-- Two writes of whole lines, the first of two commands. -/
theorem run_acknowledged_two_writes :
    ∃ final, run (step fun _ _ => .done) {}
      [.write "id a\nid b\n".toList 0, .write "id c\n".toList 0] = some final ∧
        Acknowledged final := by
  apply run_acknowledged
  have lines (executed lines : List CStr) (text : ∀ line ∈ lines, '\n' ∉ line ∧ '\x00' ∉ line) :
      Succeed (fun _ _ => .done) executed lines := ⟨text, fun _ _ _ _ => .inl rfl⟩
  refine ⟨fun _ => ⟨["id a".toList, "id b".toList], by decide, lines _ _ (by decide)⟩, ?_⟩
  intro next _
  exact ⟨fun _ => ⟨["id c".toList], by decide, lines _ _ (by decide)⟩, fun _ _ => trivial⟩

/-- A write that ends inside a line keeps the rest of it, but acknowledges only what is before. -/
theorem write_retains_unacknowledged :
    ∃ final, run (step fun _ _ => .done) {} [.write "id a\nid".toList 0] = some final ∧
      final.executed = ["id a".toList] ∧ final.acked = "id a\n".toList ∧
      final.retained = "id".toList ∧ ¬ Acknowledged final := by
  refine ⟨_, rfl, by decide, by decide, by decide, ?_⟩
  intro acknowledged
  exact absurd acknowledged.stream (by decide)

end Xcpu.Xcpufs.SessionCtl
