import Xcpu.Libxcpu.Command
import Xcpu.Xcpufs.TspawnCover

/-!
The counter of the copies. The callback is there once `xp_session_setup_start` returned, so it counts
the copies that are over exactly when each of them still waits for an answer at that time.
-/

namespace Xcpu.Libxcpu.Command

open Xcpu.Libstrutil Xcpu.Transition Xcpu.Xcpufs

/-- A copy of these files comes to a Twrite: the directories and what is empty are passed over. With
`iounit` zero no file can be written. -/
def Waits (sends : Bool) (iounit : Nat) : List Xpfile → Prop
  | [] => False
  | f :: rest =>
      if f.dir then Waits sends iounit rest
      else if iounit = 0 then True
      else
        match f.content with
        | .buf buflen => if buflen = 0 then Waits sends iounit rest else sends = true
        | .path none => False
        | .path (some length) => if length = 0 then Waits sends iounit rest else sends = true

/-- The next session has a file, and its copy waits. -/
def Fits (cm : Xpcommand) (exec : Exec) : Event → Prop
  | .setup sends => exec.returned = false → ∀ ss, cm.sessions[exec.i]? = some ss →
      Waits sends ss.iounit (nextFiles cm exec)
  | _ => True

/-- Each session before `i` is set up once, each copy that is over called back once, and `tcnt` is zero when
all copies are over; only then a session is to execute the program. -/
structure Sound (cm : Xpcommand) (exec : Exec) : Prop where
  once : exec.setups.flatMap Setup.covers = List.range exec.i
  inside : exec.i ≤ cm.sessions.length
  calls : ∀ setup ∈ exec.setups, setup.copyf.calls = if setup.copyf.ended then 1 else 0
  zero : exec.tcnt = 0 ↔ exec.i = cm.sessions.length ∧ ∀ setup ∈ exec.setups, setup.copyf.ended = true
  execs : exec.execs ≠ [] → exec.tcnt = 0

section Copies

variable {sends : Bool} {f : Xpfile} {c : Xpcopy}

/-- What `xp_file_notify` leaves as it is, and that nothing is outstanding when a copy is over. -/
structure Moved (c : Xpcopy) (moved : Xpcopy × Option Bool) : Prop where
  iounit : moved.1.iounit = c.iounit
  finish : moved.1.finish = c.finish
  calls : moved.1.calls = c.calls
  ended : moved.1.ended = c.ended
  settled : moved.2 ≠ none → moved.1.outstanding = c.outstanding

theorem fill_moved {filled : Xpcopy} (fills : fill f c = .data filled) :
    filled.iounit = c.iounit ∧ filled.finish = c.finish ∧ filled.calls = c.calls ∧ filled.ended = c.ended ∧
      filled.outstanding = c.outstanding := by
  unfold fill at fills
  split at fills
  · cases fills
    exact ⟨rfl, rfl, rfl, rfl, rfl⟩
  · split at fills
    · cases fills
    · cases fills
    · dsimp only at fills
      split at fills
      · cases fills
      · cases fills
        exact ⟨rfl, rfl, rfl, rfl, rfl⟩

theorem xpFileNotify_moved {nextFile : Xpcopy × Option Bool} (next : Moved c nextFile) :
    Moved c (xpFileNotify sends f nextFile c) := by
  unfold xpFileNotify
  split
  · split
    · exact next
    · exact ⟨rfl, rfl, rfl, rfl, fun _ => rfl⟩
    · rename_i filled fills
      obtain ⟨iounit, finish, calls, ended, outstanding⟩ := fill_moved fills
      split
      · exact ⟨iounit, finish, calls, ended, fun due => absurd rfl due⟩
      · exact ⟨iounit, finish, calls, ended, fun _ => outstanding⟩
  · exact ⟨rfl, rfl, rfl, rfl, fun _ => rfl⟩

theorem xpFileCopy_moved (files : List Xpfile) : Moved c (xpFileCopy sends c files) := by
  induction files with
  | nil => exact ⟨rfl, rfl, rfl, rfl, fun _ => rfl⟩
  | cons f rest ih =>
      unfold xpFileCopy
      split
      · exact ih
      · have begun := @xpFileNotify_moved sends f
          { c with files := f :: rest, pos := 0, buflen := f.content.buflen, unread := none, wpos := 0 }
          (xpFileCopy sends c rest) ⟨ih.iounit, ih.finish, ih.calls, ih.ended, ih.settled⟩
        exact ⟨begun.iounit, begun.finish, begun.calls, begun.ended, begun.settled⟩

theorem spcfdWriteCb_moved (count : Option Nat) :
    Moved { c with outstanding := false } (spcfdWriteCb c count) := by
  unfold spcfdWriteCb
  dsimp only
  split
  · exact ⟨rfl, rfl, rfl, rfl, fun _ => rfl⟩
  · exact ⟨rfl, rfl, rfl, rfl, fun _ => rfl⟩
  · rename_i count f rest files
    have later := @xpFileCopy_moved true { c with outstanding := false } rest
    have answered := @xpFileNotify_moved true f { c with outstanding := false, wpos := c.wpos - count }
      (xpFileCopy true { c with outstanding := false } rest)
      ⟨later.iounit, later.finish, later.calls, later.ended, later.settled⟩
    exact ⟨answered.iounit, answered.finish, answered.calls, answered.ended, answered.settled⟩

theorem xpFileNotify_begun {nextFile : Xpcopy × Option Bool} (unit : 0 < c.iounit) (room : c.wpos = 0)
    (start : c.pos = 0) (buffer : c.buflen = f.content.buflen) (closed : c.unread = none) :
    (xpFileNotify sends f nextFile c).2 = none ↔
      match f.content with
      | .buf buflen => if buflen = 0 then nextFile.2 = none else sends = true
      | .path none => False
      | .path (some length) => if length = 0 then nextFile.2 = none else sends = true := by
  have writes : c.wpos < c.iounit := by omega
  unfold xpFileNotify fill
  rw [if_pos writes, start, buffer]
  cases content : f.content with
  | buf buflen =>
      by_cases empty : buflen = 0
      · simp [Content.buflen, empty]
      · cases sends <;> simp [Content.buflen, empty, Nat.pos_of_ne_zero empty]
  | path length =>
      cases length with
      | none => simp [Content.buflen]
      | some length =>
          by_cases empty : length = 0
          · simp [Content.buflen, closed, empty]
          · cases sends <;> simp [Content.buflen, closed, empty, Bufsize]

theorem xpFileCopy_waits (files : List Xpfile) :
    (xpFileCopy sends c files).2 = none ↔ Waits sends c.iounit files := by
  induction files with
  | nil => simp [xpFileCopy, Waits]
  | cons f rest ih =>
      by_cases directory : f.dir = true
      · simp [xpFileCopy, Waits, directory, ih]
      · by_cases unit : c.iounit = 0
        · simp [xpFileCopy, Waits, directory, xpFileNotify, unit]
        · simp only [xpFileCopy, Waits, directory, Bool.false_eq_true, if_false, unit]
          have begun := @xpFileNotify_begun sends f
            { c with files := f :: rest, pos := 0, buflen := f.content.buflen, unread := none, wpos := 0 }
            (xpFileCopy sends c rest) (Nat.pos_of_ne_zero unit) rfl rfl rfl rfl
          rw [ih] at begun
          exact begun

theorem xpFileCopyStart_ended {iounit : Nat} {files : List Xpfile} :
    (xpFileCopyStart sends iounit files).ended = true ↔ ¬Waits sends iounit files := by
  have waits := @xpFileCopy_waits sends { iounit } files
  have moved := @xpFileCopy_moved sends { iounit } files
  rw [← waits, xpFileCopyStart]
  split
  · rename_i copy result
    rw [result] at moved ⊢
    have ended : copy.ended = false := moved.ended
    simp [ended]
  · rename_i copy failed result
    rw [result]
    simp [Xpcopy.callFinish]

theorem xpFileCopyStart_calls {iounit : Nat} {files : List Xpfile} :
    (xpFileCopyStart sends iounit files).calls = 0 := by
  have moved := @xpFileCopy_moved sends { iounit } files
  rw [xpFileCopyStart]
  split
  · rename_i copy result
    rw [result] at moved
    exact moved.calls
  · rename_i copy failed result
    rw [result] at moved
    have calls : copy.calls = 0 := moved.calls
    have finish : copy.finish = false := moved.finish
    simp [Xpcopy.callFinish, calls, finish]

end Copies

theorem cutSessions_plan {nspawn : Int} {nnodes : Nat} {cut : Cut} (cuts : cutSessions nspawn nnodes = some cut) :
    ∃ groups, CutPlan nnodes cut.n cut.m cut.ce groups := by
  unfold cutSessions at cuts
  by_cases spawns : nspawn > 0
  · simp only [spawns, if_true] at cuts
    by_cases empty : min nspawn.toNat nnodes = 0
    · simp [empty] at cuts
    · simp only [empty, if_false, Option.bind_eq_bind, Option.bind_some, Option.some.injEq] at cuts
      subst cuts
      obtain ⟨groups, plan⟩ := @cutPlan_of_groupSizes nspawn nnodes spawns (by omega)
      simp only [groupSizes, spawns, if_true, groupEnd] at plan
      dsimp only
      rw [Nat.min_eq_left plan.stopLe]
      exact ⟨groups, plan⟩
  · simp only [spawns, if_false, Option.bind_eq_bind, Option.bind_some, Option.some.injEq] at cuts
    subst cuts
    exact ⟨0, ⟨by simp, by simp, by simp, by simp, by simp⟩⟩

/-- The part of the plan that is done. -/
structure Reached (nnodes groups : Nat) (exec : Exec) : Prop where
  plan : CutPlan nnodes exec.cut.n exec.cut.m exec.cut.ce groups
  place : exec.setups.length ≤ groups ∧ exec.i = min (exec.setups.length * exec.cut.m) exec.cut.ce ∨
    groups ≤ exec.setups.length ∧ exec.i = exec.cut.ce + (exec.setups.length - groups) ∧ exec.i ≤ nnodes

namespace Reached

variable {nnodes groups : Nat} {exec : Exec}

theorem groups_le (reached : Reached nnodes groups exec) {made : Nat} (enough : exec.cut.ce ≤ made * exec.cut.m) :
    groups ≤ made := by
  have tight := reached.plan.tight
  have bound : groups * exec.cut.m < (made + 1) * exec.cut.m := by
    rw [Nat.add_mul, Nat.one_mul]
    omega
  exact Nat.lt_succ_iff.mp (Nat.lt_of_mul_lt_mul_right bound)

theorem inside (reached : Reached nnodes groups exec) : exec.i ≤ nnodes := by
  have stop := reached.plan.stopLe
  rcases reached.place with ⟨-, place⟩ | ⟨-, -, within⟩
  · omega
  · exact within

theorem length_iff (reached : Reached nnodes groups exec) :
    exec.setups.length ≤ exec.cut.n ∧ (exec.i = nnodes ↔ exec.setups.length = exec.cut.n) := by
  have total := reached.plan.total
  have stop := reached.plan.stopLe
  have covers := reached.plan.covers
  rcases reached.place with ⟨few, place⟩ | ⟨many, place, within⟩
  · refine ⟨by omega, ?_, ?_⟩
    · intro last
      have complete := reached.groups_le (show exec.cut.ce ≤ exec.setups.length * exec.cut.m by omega)
      omega
    · intro all
      have same : exec.setups.length = groups := by omega
      rw [same] at place
      omega
  · exact ⟨by omega, by omega, by omega⟩

theorem next (reached : Reached nnodes groups exec) (left : exec.i < nnodes) (setup : Setup) :
    exec.i < exec.groupEnd ∧
      Reached nnodes groups { exec with i := exec.groupEnd, setups := exec.setups ++ [setup] } := by
  have positive := reached.plan.positive
  have covers := reached.plan.covers
  have stop := reached.plan.stopLe
  unfold Exec.groupEnd
  by_cases grouped : exec.i < exec.cut.ce
  · rw [if_pos grouped]
    refine ⟨by omega, reached.plan, .inl ?_⟩
    rcases reached.place with ⟨few, place⟩ | ⟨-, place, -⟩
    · have here : exec.i = exec.setups.length * exec.cut.m := by omega
      have more : exec.setups.length < groups :=
        Nat.lt_of_mul_lt_mul_right (show exec.setups.length * exec.cut.m < groups * exec.cut.m by omega)
      simp only [List.length_append, List.length_singleton, Nat.add_mul, Nat.one_mul, ← here]
      exact ⟨more, trivial⟩
    · omega
  · rw [if_neg grouped]
    refine ⟨by omega, reached.plan, .inr ?_⟩
    simp only [List.length_append, List.length_singleton]
    rcases reached.place with ⟨few, place⟩ | ⟨many, place, within⟩
    · have complete := reached.groups_le (show exec.cut.ce ≤ exec.setups.length * exec.cut.m by omega)
      omega
    · omega

end Reached

/-- A copy has a callback, was called back if it is over, and has then nothing outstanding. -/
structure Counted (c : Xpcopy) : Prop where
  finish : c.finish = true
  calls : c.calls = if c.ended then 1 else 0
  settled : c.ended = true → c.outstanding = false

structure Inv (cm : Xpcommand) (exec : Exec) : Prop where
  reached : ∃ groups, Reached cm.sessions.length groups exec
  once : exec.setups.flatMap Setup.covers = List.range exec.i
  counted : ∀ setup ∈ exec.setups, Counted setup.copyf
  left : exec.tcnt + exec.setups.countP (·.copyf.ended) = exec.cut.n
  execs : exec.execs ≠ [] → exec.tcnt = 0
  unstarted : exec.returned = false → exec.execs = []

section Steps

variable {cm : Xpcommand} {exec next : Exec}

theorem Inv.sound (inv : Inv cm exec) : Sound cm exec := by
  obtain ⟨groups, reached⟩ := inv.reached
  obtain ⟨few, last⟩ := reached.length_iff
  have left := inv.left
  have some_ended := @List.countP_le_length _ (fun setup : Setup => setup.copyf.ended) exec.setups
  refine ⟨inv.once, reached.inside, fun setup member => (inv.counted setup member).calls, ?_, inv.execs⟩
  rw [last, ← List.countP_eq_length]
  omega

theorem start_inv (starts : xpCommandExec cm = some exec) : Inv cm exec := by
  unfold xpCommandExec at starts
  cases cuts : cutSessions cm.nspawn cm.sessions.length with
  | none => simp [cuts] at starts
  | some cut =>
      simp only [cuts, Option.bind_eq_bind, Option.bind_some, Option.some.injEq] at starts
      subst starts
      obtain ⟨groups, plan⟩ := cutSessions_plan cuts
      refine ⟨⟨groups, plan, .inl ⟨Nat.zero_le _, by simp⟩⟩, rfl, by simp, by simp, by simp, fun _ => rfl⟩

theorem range_covers {i last : Nat} (later : i < last) :
    List.range i ++ (i :: List.range' (i + 1) (last - (i + 1))) = List.range last := by
  have head : i :: List.range' (i + 1) (last - (i + 1)) = List.range' i (last - i) := by
    rw [show last - i = last - (i + 1) + 1 by omega]
    rfl
  rw [head, List.range_eq_range', List.range_eq_range']
  have joined := @List.range'_append_1 0 i (last - i)
  rw [Nat.zero_add, show i + (last - i) = last by omega] at joined
  exact joined

theorem setupNext_inv (inv : Inv cm exec) {ss : Xpsession} (found : cm.sessions[exec.i]? = some ss) {sends : Bool}
    (waits : Waits sends ss.iounit (nextFiles cm exec)) :
    ∃ next, setupNext cm exec ss sends = some next ∧ Inv cm next := by
  obtain ⟨groups, reached⟩ := inv.reached
  obtain ⟨inside, -⟩ := List.getElem?_eq_some_iff.mp found
  have files : nextFiles cm exec ≠ [] := by
    intro empty
    rw [empty] at waits
    exact waits
  have waiting : ¬(xpFileCopyStart sends ss.iounit (nextFiles cm exec)).ended = true := by
    rw [xpFileCopyStart_ended]
    exact fun refuses => refuses waits
  have running := Bool.eq_false_of_not_eq_true waiting
  unfold setupNext
  dsimp only
  rw [if_neg files]
  generalize setup_def : Setup.mk exec.i exec.nextClones _ = setup
  have calls : setup.copyf.calls = 0 := by
    rw [← setup_def]
    exact xpFileCopyStart_calls
  have ended : setup.copyf.ended = false := by
    rw [← setup_def]
    exact running
  obtain ⟨later, reached'⟩ := reached.next inside setup
  refine ⟨_, rfl, ⟨groups, reached'⟩, ?_, ?_, ?_, inv.execs, inv.unstarted⟩
  · have covers : setup.covers = exec.i :: List.range' (exec.i + 1) (exec.groupEnd - (exec.i + 1)) := by
      rw [← setup_def]
      rfl
    simp only [List.flatMap_append, List.flatMap_cons, List.flatMap_nil, List.append_nil, inv.once, covers]
    exact range_covers later
  · intro one member
    rcases List.mem_append.mp member with old | new
    · exact inv.counted one old
    · rw [List.mem_singleton.mp new]
      refine ⟨?_, by rw [calls, ended]; rfl, by rw [ended]; simp⟩
      rw [← setup_def]
  · have left := inv.left
    simp only [List.countP_append, List.countP_cons, List.countP_nil, ended, Bool.false_eq_true, if_false]
    exact left

theorem set_inv (inv : Inv cm exec) {k : Nat} {setup : Setup} (found : exec.setups[k]? = some setup)
    {c : Xpcopy} (counted : Counted c) {tcnt : Int} {ename : Bool}
    (counts : tcnt + (if c.ended then 1 else 0) = exec.tcnt + (if setup.copyf.ended then 1 else 0))
    (unstarted : exec.execs = []) :
    Inv cm { exec with setups := exec.setups.set k { setup with copyf := c }, tcnt, ename } := by
  obtain ⟨groups, reached⟩ := inv.reached
  obtain ⟨inside, here⟩ := List.getElem?_eq_some_iff.mp found
  refine ⟨⟨groups, reached.plan, by simpa using reached.place⟩, ?_, ?_, ?_,
    fun started => absurd unstarted started, fun _ => unstarted⟩
  · have same : Setup.covers { setup with copyf := c } = exec.setups[k].covers := by
      rw [here]
      rfl
    have placed : k < (exec.setups.map Setup.covers).length := by
      rw [List.length_map]
      exact inside
    rw [← inv.once, List.flatMap, List.flatMap, List.map_set, same, ← List.getElem_map Setup.covers (h := placed),
      List.set_getElem_self]
  · intro one member
    rcases List.mem_or_eq_of_mem_set member with old | new
    · exact inv.counted one old
    · rw [new]
      exact counted
  · have left := inv.left
    have there : (if setup.copyf.ended = true then 1 else 0) ≤ exec.setups.countP (·.copyf.ended) := by
      split
      · rename_i finished
        exact List.countP_pos_iff.mpr ⟨setup, List.mem_of_getElem? found, finished⟩
      · exact Nat.zero_le _
    simp only [List.countP_set inside, here]
    generalize setup.copyf.ended = before at counts there ⊢
    generalize c.ended = after at counts ⊢
    cases before <;> cases after <;>
      simp only [Bool.false_eq_true, if_false, if_true] at counts there ⊢ <;> omega

theorem answerWrite_inv (inv : Inv cm exec) (unreturned : exec.returned = false) {k : Nat} {setup : Setup}
    (found : exec.setups[k]? = some setup) (outstanding : setup.copyf.outstanding = true) (count : Option Nat) :
    Inv cm (answerWrite exec k setup count) := by
  have counted := inv.counted setup (List.mem_of_getElem? found)
  have unstarted := inv.unstarted unreturned
  have running : setup.copyf.ended = false := by
    by_contra finished
    have settled := counted.settled (by simpa using finished)
    rw [outstanding] at settled
    contradiction
  have calls : setup.copyf.calls = 0 := by
    rw [counted.calls, running]
    rfl
  have moved := @spcfdWriteCb_moved setup.copyf count
  unfold answerWrite
  split
  · rename_i c result
    rw [result] at moved
    have ended : c.ended = false := moved.ended.trans running
    refine set_inv inv found ⟨moved.finish.trans counted.finish, ?_, ?_⟩ (by rw [ended, running]) unstarted
    · rw [ended]
      exact moved.calls.trans calls
    · rw [ended]
      simp
  · rename_i c failed result
    rw [result] at moved
    have finish : c.finish = true := moved.finish.trans counted.finish
    have none_before : c.calls = 0 := moved.calls.trans calls
    dsimp only
    rw [if_pos counted.finish]
    have called : Counted c.callFinish := by
      refine ⟨finish, ?_, fun _ => moved.settled (by simp)⟩
      simp [Xpcopy.callFinish, finish, none_before]
    refine set_inv inv found called ?_ unstarted
    simp [Xpcopy.callFinish, running]

theorem Inv.returns (inv : Inv cm exec) {execs : List Nat} (zero : execs ≠ [] → exec.tcnt = 0) :
    Inv cm { exec with returned := true, execs } := by
  obtain ⟨groups, reached⟩ := inv.reached
  exact ⟨⟨groups, reached.plan, reached.place⟩, inv.once, inv.counted, inv.left, zero,
    fun back => by contradiction⟩

theorem step_fits (inv : Inv cm exec) {event : Event} (fits : Fits cm exec event) :
    ∃ next, step cm exec event = some next ∧ Inv cm next := by
  unfold step
  by_cases returned : exec.returned = true
  · rw [if_pos returned]
    exact ⟨exec, rfl, inv⟩
  rw [if_neg returned]
  have unreturned := Bool.eq_false_of_not_eq_true returned
  cases event with
  | setup sends =>
      dsimp only
      split
      · rename_i ss found
        exact setupNext_inv inv found (fits unreturned ss found)
      · exact ⟨exec, rfl, inv⟩
  | setupFails =>
      dsimp only
      split
      · exact ⟨_, rfl, inv.returns inv.execs⟩
      · exact ⟨exec, rfl, inv⟩
  | answer k count =>
      dsimp only
      split
      · rename_i setup found
        split
        · rename_i answers
          exact ⟨_, rfl, answerWrite_inv inv unreturned found answers.1 count⟩
        · exact ⟨exec, rfl, inv⟩
      · exact ⟨exec, rfl, inv⟩
  | poll =>
      dsimp only
      split
      · exact ⟨exec, rfl, inv⟩
      · rename_i waits
        split
        · exact ⟨_, rfl, inv.returns inv.execs⟩
        · rename_i failed
          have zero : exec.tcnt ≤ 0 := by
            by_contra more
            exact waits (.inr ⟨Bool.eq_false_of_not_eq_true failed, by omega⟩)
          obtain ⟨groups, reached⟩ := inv.reached
          have few := reached.length_iff.1
          have some_ended := @List.countP_le_length _ (fun setup : Setup => setup.copyf.ended) exec.setups
          have left := inv.left
          exact ⟨_, rfl, inv.returns fun _ => by omega⟩

theorem fits_of_sound {event : Event} (steps : step cm exec event = some next)
    (sound : Sound cm next) : Fits cm exec event := by
  cases event with
  | setup sends =>
      intro unreturned ss found
      unfold step at steps
      dsimp only at steps
      simp only [unreturned, Bool.false_eq_true, if_false, found, setupNext] at steps
      split at steps
      · contradiction
      · cases steps
        have calls := sound.calls _ (List.mem_append_right _ List.mem_cons_self)
        dsimp only at calls
        rw [xpFileCopyStart_calls] at calls
        by_contra finished
        rw [if_pos (xpFileCopyStart_ended.mpr finished)] at calls
        contradiction
  | setupFails => trivial
  | answer k count => trivial
  | poll => trivial

end Steps

/-- A command is set up and counted as it should be in exactly the runs in which each session that gets
the files waits for an answer before its set up returns, unless there are no sessions to spawn from. -/
theorem xpCommandExec_counts_iff (cm : Xpcommand) (events : List Event) :
    (∃ exec, xpCommandExec cm = some exec ∧ Sound cm exec ∧ Throughout (step cm) (Sound cm) exec events) ↔
      (0 < cm.nspawn → cm.sessions ≠ []) ∧
        ∀ exec, xpCommandExec cm = some exec → Guarded (step cm) (Fits cm) exec events := by
  have exact_guard : ∀ exec, xpCommandExec cm = some exec →
      (Throughout (step cm) (Sound cm) exec events ↔ Guarded (step cm) (Fits cm) exec events) := by
    intro exec starts
    refine throughout_iff_guarded (step cm) ?_ ?_ events (start_inv starts)
    · intro exec event inv
      constructor
      · rintro ⟨next, steps, sound⟩
        exact fits_of_sound steps sound
      · intro fits
        obtain ⟨next, steps, later⟩ := step_fits inv fits
        exact ⟨next, steps, later.sound⟩
    · intro exec event next inv steps sound
      obtain ⟨other, same, later⟩ := step_fits inv (fits_of_sound steps sound)
      rw [steps, Option.some.injEq] at same
      rw [same]
      exact later
  constructor
  · rintro ⟨exec, starts, -, throughout⟩
    refine ⟨?_, ?_⟩
    · intro spawns empty
      simp [xpCommandExec, cutSessions, spawns, empty] at starts
    · intro other same
      rw [starts, Option.some.injEq] at same
      subst same
      exact (exact_guard exec starts).mp throughout
  · rintro ⟨some_session, guarded⟩
    have starts : ∃ exec, xpCommandExec cm = some exec := by
      unfold xpCommandExec cutSessions
      by_cases spawns : cm.nspawn > 0
      · have nonempty := List.length_pos_iff.mpr (some_session spawns)
        have some_copy : ¬min cm.nspawn.toNat cm.sessions.length = 0 := by omega
        simp [spawns, some_copy]
      · simp [spawns]
    obtain ⟨exec, starts⟩ := starts
    exact ⟨exec, starts, (start_inv starts).sound, (exact_guard exec starts).mpr (guarded exec starts)⟩

/-- One session gets a directory without files: its copy is over before it has a callback. -/
def directoryOnly : Xpcommand where
  nspawn := 0
  env := none
  argv := none
  copy := [{ dir := true, content := .path none }]
  sessions := [{ addr := "n1".toList, sid := "0".toList, pk := [], iounit := 8192 }]

theorem directoryOnly_uncounted :
    ¬∃ exec, xpCommandExec directoryOnly = some exec ∧ Sound directoryOnly exec ∧
      Throughout (step directoryOnly) (Sound directoryOnly) exec [.setup true] := by
  rintro ⟨exec, starts, -, next, steps, sound, -⟩
  have left : next.tcnt = 1 := by
    cases starts
    cases steps
    decide
  have all : next.i = 1 ∧ ∀ setup ∈ next.setups, setup.copyf.ended = true := by
    cases starts
    cases steps
    decide
  have none_left := sound.zero.mpr all
  omega

end Xcpu.Libxcpu.Command
