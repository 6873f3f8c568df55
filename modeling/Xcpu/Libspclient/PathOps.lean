import Mathlib.Logic.Function.Basic
import Xcpu.Lib.Paths
import Xcpu.Libspclient.Walk

/-!
`spc_open`, `spc_create` and `spc_remove` over `spc_walk`: what is left of a call that fails, in the client's pool
of fid numbers and in the fid table of the server.
-/

namespace Xcpu.Libspclient.Walk

open Xcpu.Paths Xcpu.Libspfs

/-- How a server answers. `walked` has the number of names that it can walk for the `k`-th Twalk, and none where it
refuses it. `forgiving` answers a Tclunk of a fid that it does not know as any other; `forgets` drops a fid that it
does not remove. -/
structure Server where
  walked : Nat → Option Nat
  opens : Bool
  creates : Bool
  removes : Bool
  forgiving : Bool
  forgets : Bool

/-- The fid table of a server, and how many Twalks have come. -/
structure Fids where
  known : UInt32 → Bool
  walks : Nat

def Fids.set (st : Fids) (fid : UInt32) (known : Bool) : Fids :=
  { st with known := Function.update st.known fid known }

@[simp]
theorem Fids.set_walks (st : Fids) (fid : UInt32) (known : Bool) : (st.set fid known).walks = st.walks := rfl

@[simp]
theorem Fids.set_known (st : Fids) (fid : UInt32) (known : Bool) :
    (st.set fid known).known = Function.update st.known fid known := rfl

def accepted (ok : Bool) : Option Nat := if ok then some 0 else none

/-- A request and its answer. A Twalk makes the new fid where all names are walked. -/
def Server.rpc (srv : Server) (st : Fids) : Tcall → Fids × Option Nat
  | .twalk _ newfid wnames =>
      let next := { st with walks := st.walks + 1 }
      match srv.walked st.walks with
      | none => (next, none)
      | some n => if wnames.length ≤ n then (next.set newfid true, some wnames.length) else (next, some n)
  | .topen _ _ => (st, accepted srv.opens)
  | .tcreate _ _ => (st, accepted srv.creates)
  | .tremove fid =>
      if srv.removes then (st.set fid false, some 0)
      else if srv.forgets then (st.set fid false, none)
      else (st, none)
  | .tclunk fid => if st.known fid then (st.set fid false, some 0) else (st, accepted srv.forgiving)

/-- A call that ends where it should not: it follows a null fid, or frees the constant "". -/
inductive Fault where
  | nullFid
  | constant

section Ops

variable {σ : Type} (rpc : σ → Tcall → σ × Option Nat) (root fid : UInt32) (garbage : Bool)

/-- `spc_clunk`, after which a call has failed. -/
def spcClunk (fid : UInt32) (st : σ) : Walked σ :=
  match rpc st (.tclunk fid) with
  | (st, none) => ⟨st, false, false⟩
  | (st, some _) => ⟨st, false, true⟩

def spcOpen (path : List UInt8) (mode : UInt8) (st : σ) : Option (Walked σ) :=
  (spcWalk rpc root fid garbage path st).map fun w =>
    if w.ok then
      match rpc w.st (.topen fid mode) with
      | (st, none) => spcClunk rpc fid st
      | (st, some _) => ⟨st, true, false⟩
    else w

/-- `pname` is what `strdup` has given, up to its last slash, or else the constant "". -/
def spcCreate (path : List UInt8) (st : σ) : Option (Except Fault (Walked σ)) :=
  let pname := beforeLast path
  (spcWalk rpc root fid garbage (pname.getD []) st).map fun w =>
    if w.ok then
      let ended :=
        match rpc w.st (.tcreate fid (path.drop ((pname.map fun dir => dir.length + 1).getD 0))) with
        | (st, none) => spcClunk rpc fid st
        | (st, some _) => ⟨st, true, false⟩
      if pname.isSome then .ok ended else .error .constant
    else .error .nullFid

/-- A fid number is free again only after a Tremove that was answered. -/
def spcRemove (path : List UInt8) (st : σ) : Option (Walked σ) :=
  (spcWalk rpc root fid garbage path st).map fun w =>
    if w.ok then
      match rpc w.st (.tremove fid) with
      | (st, none) => ⟨st, false, false⟩
      | (st, some _) => ⟨st, true, true⟩
    else w

end Ops

inductive Call where
  | walk (path : List UInt8)
  | opens (path : List UInt8) (mode : UInt8)
  | create (path : List UInt8)
  | remove (path : List UInt8)

/-- A mounted file system: the root, the number that `spc_get_id` gives next, the numbers that are taken, and the
fids of the server. -/
structure Mounted where
  root : UInt32
  fid : UInt32
  used : UInt32 → Bool
  known : UInt32 → Bool
  rootUsed : used root = true
  free : used fid = false
  unknown : known fid = false

def Call.run (fs : Mounted) (srv : Server) (garbage : Bool) : Call → Option (Except Fault (Walked Fids))
  | .walk path => (spcWalk srv.rpc fs.root fs.fid garbage path ⟨fs.known, 0⟩).map .ok
  | .opens path mode => (spcOpen srv.rpc fs.root fs.fid garbage path mode ⟨fs.known, 0⟩).map .ok
  | .create path => spcCreate srv.rpc fs.root fs.fid garbage path ⟨fs.known, 0⟩
  | .remove path => (spcRemove srv.rpc fs.root fs.fid garbage path ⟨fs.known, 0⟩).map .ok

/-- The numbers that are taken after a call that has failed. -/
def Mounted.after (fs : Mounted) (w : Walked Fids) : UInt32 → Bool :=
  if w.freed then Function.update (Function.update fs.used fs.fid true) fs.fid false
  else Function.update fs.used fs.fid true

/-- A failure is returned, the server has the fids it had, and the number is free. -/
def Clean (fs : Mounted) (ended : Except Fault (Walked Fids)) : Prop :=
  ∃ w, ended = .ok w ∧ w.ok = false ∧ w.st.known = fs.known ∧ fs.after w fs.fid = false

/-- The messages of a path. -/
def messages (t : Bool) (s : List UInt8) : List (List (List UInt8)) :=
  (fillNames [] t s).1 ::
    if (fillNames [] t s).2.1 = false ∨ (fillNames [] t s).2.2 = [] then []
    else messages (fillNames [] t s).2.1 (fillNames [] t s).2.2
termination_by s.length
decreasing_by
  rename_i more
  have next := (fillNames_next t s).2
  rw [if_neg more] at next
  exact next.2

/-- The server walks all names of the `k`-th message. -/
def Server.takes (srv : Server) (k : Nat) (wnames : List (List UInt8)) : Bool :=
  (srv.walked k).any fun n => wnames.length ≤ n

def Server.takesAll (srv : Server) : Nat → List (List (List UInt8)) → Bool
  | _, [] => true
  | k, wnames :: rest => srv.takes k wnames && srv.takesAll (k + 1) rest

/-- The messages that `spc_walk` has for a path. -/
def pathMessages (garbage : Bool) (path : List UInt8) : List (List (List UInt8)) :=
  messages garbage (path.dropWhile (· = slash))

section Ends

variable {srv : Server} {fid nfid : UInt32} {st : Fids}

theorem walkFailed_known (known : st.known fid = true) :
    walkFailed srv.rpc fid fid st = ⟨st.set fid false, false, true⟩ := by
  simp [walkFailed, Server.rpc, known]

theorem walkFailed_unknown (unknown : st.known fid = false) :
    walkFailed srv.rpc fid fid st = ⟨st, false, srv.forgiving⟩ := by
  cases forgiving : srv.forgiving <;> simp [walkFailed, Server.rpc, unknown, accepted, forgiving]

/-- The messages after the first are walked in place, and a failure of one clunks the fid. -/
theorem walkLoop_inPlace {t : Bool} {s : List UInt8} {w : Walked Fids} (known : st.known fid = true)
    (ran : walkLoop srv.rpc fid fid t s st = some w) :
    if srv.takesAll st.walks (messages t s) then w.ok = true ∧ w.st.known = st.known
    else w.ok = false ∧ w.freed = true ∧ w.st.known = Function.update st.known fid false := by
  induction size : s.length using Nat.strong_induction_on generalizing t s st with
  | _ size ih =>
      subst size
      have next := (fillNames_next t s).2
      rw [messages, Server.takesAll, Server.takes]
      rw [walkLoop] at ran
      generalize fillNames [] t s = filled at next ran ⊢
      obtain ⟨wnames, t', s'⟩ := filled
      dsimp only at next ran ⊢
      rw [spCreateTwalk] at ran
      cases created : createTwalk .libspfs fid fid wnames with
      | none => simp [created] at ran
      | some pkt =>
          simp only [created, Option.map_some, Server.rpc, List.length_map] at ran
          cases walked : srv.walked st.walks with
          | none =>
              simp only [walked] at ran
              rw [walkFailed_known (by exact known)] at ran
              cases ran
              simp
          | some n =>
              simp only [walked] at ran
              by_cases enough : wnames.length ≤ n
              · simp only [enough, if_true] at ran
                rw [if_neg (by simp)] at ran
                have same : (Fids.set { st with walks := st.walks + 1 } fid true).known = st.known :=
                  Function.update_eq_self_iff.mpr known.symm
                split at ran
                · rename_i done
                  cases ran
                  simp [enough, done, known, Server.takesAll]
                · rename_i more
                  rw [if_neg more] at next
                  have later := ih s'.length next.2 (by rw [same]; exact known) ran rfl
                  rw [same, Fids.set_walks] at later
                  simpa [enough, more] using later
              · simp only [enough, if_false] at ran
                rw [if_pos (by omega), walkFailed_known (by exact known)] at ran
                cases ran
                simp [enough]

/-- The first message is walked whole, or the server forgives the Tclunk after it. -/
def Server.recovers (srv : Server) (garbage : Bool) (path : List UInt8) : Bool :=
  ((pathMessages garbage path).head?.any fun wnames => srv.takes 0 wnames) ||
    (srv.forgiving && (srv.walked 0).isSome)

variable {fs : Mounted} {garbage : Bool} {path : List UInt8}

theorem spcWalk_ends {w : Walked Fids} (ran : spcWalk srv.rpc fs.root fs.fid garbage path ⟨fs.known, 0⟩ = some w) :
    if srv.takesAll 0 (pathMessages garbage path) then
      w.ok = true ∧ w.st.known = Function.update fs.known fs.fid true
    else w.ok = false ∧
      if srv.recovers garbage path then w.freed = true ∧ w.st.known = fs.known else w.freed = false := by
  have apart : fs.root ≠ fs.fid := by
    intro same
    have used := fs.rootUsed
    rw [same, fs.free] at used
    cases used
  rw [spcWalk] at ran
  rw [Server.recovers, pathMessages]
  generalize path.dropWhile (· = slash) = s at ran ⊢
  have next := (fillNames_next garbage s).2
  rw [messages, Server.takesAll, List.head?_cons, Option.any_some, Server.takes]
  rw [walkLoop] at ran
  generalize fillNames [] garbage s = filled at next ran ⊢
  obtain ⟨wnames, t', s'⟩ := filled
  dsimp only at next ran ⊢
  rw [spCreateTwalk] at ran
  cases created : createTwalk .libspfs fs.root fs.fid wnames with
  | none => simp [created] at ran
  | some pkt =>
      simp only [created, Option.map_some, Server.rpc, List.length_map] at ran
      cases walked : srv.walked 0 with
      | none =>
          -- no message has reached the fid, so it is neither clunked nor freed
          simp only [walked, walkFailed, if_neg apart] at ran
          cases ran
          simp
      | some n =>
          simp only [walked] at ran
          by_cases enough : wnames.length ≤ n
          · simp only [enough, if_true] at ran
            rw [if_neg (by simp)] at ran
            split at ran
            · rename_i done
              cases ran
              simp [enough, done, Server.takesAll]
            · rename_i more
              have later := walkLoop_inPlace (by simp) ran
              simp only [Fids.set_known, Fids.set_walks, Function.update_idem] at later
              have forgotten : Function.update fs.known fs.fid false = fs.known :=
                Function.update_eq_self_iff.mpr fs.unknown.symm
              rw [forgotten] at later
              simpa [enough, more] using later
          · simp only [enough, if_false] at ran
            rw [if_pos (by omega), walkFailed_unknown (by exact fs.unknown)] at ran
            cases ran
            cases forgiving : srv.forgiving <;> simp [enough]

end Ends

/-- Some step of the call is refused. -/
def Call.refused (srv : Server) (garbage : Bool) : Call → Bool
  | .walk path => !srv.takesAll 0 (pathMessages garbage path)
  | .opens path _ => !(srv.takesAll 0 (pathMessages garbage path) && srv.opens)
  | .create path => !(srv.takesAll 0 (pathMessages garbage ((beforeLast path).getD [])) && srv.creates)
  | .remove path => !(srv.takesAll 0 (pathMessages garbage path) && srv.removes)

/-- A walk, or the walk of an open or a remove, fails after its first message, or the open is refused, or the create
in a path with a slash. -/
def Call.recovers (srv : Server) (garbage : Bool) : Call → Bool
  | .walk path => srv.recovers garbage path
  | .opens path _ => srv.recovers garbage path
  | .create path => (beforeLast path).isSome && srv.takesAll 0 (pathMessages garbage ((beforeLast path).getD []))
  | .remove path => !srv.takesAll 0 (pathMessages garbage path) && srv.recovers garbage path

section Calls

variable {fs : Mounted} {srv : Server} {garbage : Bool} {path : List UInt8}

theorem after_free {w : Walked Fids} : fs.after w fs.fid = false ↔ w.freed = true := by
  cases freed : w.freed <;> simp [Mounted.after, freed]

theorem clean_iff {w : Walked Fids} :
    Clean fs (.ok w) ↔ w.ok = false ∧ w.st.known = fs.known ∧ w.freed = true := by
  constructor
  · rintro ⟨w', same, ok, known, free⟩
    cases same
    exact ⟨ok, known, after_free.mp free⟩
  · rintro ⟨ok, known, freed⟩
    exact ⟨w, rfl, ok, known, after_free.mpr freed⟩

theorem not_clean_fault {fault : Fault} : ¬Clean fs (.error fault) := by
  rintro ⟨w, same, -⟩
  cases same

/-- Where all is walked, the first message is. -/
theorem recovers_of_takesAll (all : srv.takesAll 0 (pathMessages garbage path) = true) :
    srv.recovers garbage path = true := by
  rw [pathMessages, messages, Server.takesAll, Bool.and_eq_true] at all
  rw [Server.recovers, pathMessages, messages, List.head?_cons, Option.any_some, all.1]
  rfl

theorem walk_clean_iff {w : Walked Fids} (ran : spcWalk srv.rpc fs.root fs.fid garbage path ⟨fs.known, 0⟩ = some w)
    (refused : srv.takesAll 0 (pathMessages garbage path) = false) :
    Clean fs (.ok w) ↔ srv.recovers garbage path = true := by
  have ends := spcWalk_ends ran
  rw [refused, if_neg Bool.false_ne_true] at ends
  rw [clean_iff]
  obtain ⟨failed, ends⟩ := ends
  cases recovers : srv.recovers garbage path with
  | true =>
      rw [recovers, if_pos rfl] at ends
      exact iff_of_true ⟨failed, ends.2, ends.1⟩ rfl
  | false =>
      rw [recovers, if_neg Bool.false_ne_true] at ends
      refine iff_of_false ?_ Bool.false_ne_true
      rintro ⟨-, -, freed⟩
      exact absurd (ends.symm.trans freed) Bool.false_ne_true

/-- A Tclunk of the fid that was walked to leaves what there was before the call. -/
theorem spcClunk_clean {st : Fids} (known : st.known = Function.update fs.known fs.fid true) :
    Clean fs (.ok (spcClunk srv.rpc fs.fid st)) := by
  have here : st.known fs.fid = true := by simp [known]
  have forgotten : Function.update fs.known fs.fid false = fs.known :=
    Function.update_eq_self_iff.mpr fs.unknown.symm
  rw [clean_iff]
  simp [spcClunk, Server.rpc, known, forgotten]

/-- A call of which a step is refused leaves nothing behind in these cases exactly. -/
theorem refused_clean_iff (fs : Mounted) (srv : Server) (garbage : Bool) (call : Call)
    (ended : Except Fault (Walked Fids)) (ran : call.run fs srv garbage = some ended)
    (refused : call.refused srv garbage = true) : Clean fs ended ↔ call.recovers srv garbage = true := by
  cases call with
  | walk path =>
      obtain ⟨w, walked, rfl⟩ := Option.map_eq_some_iff.mp ran
      exact walk_clean_iff walked (by simpa [Call.refused] using refused)
  | opens path mode =>
      obtain ⟨w, opened, rfl⟩ := Option.map_eq_some_iff.mp ran
      obtain ⟨walk, walked, rfl⟩ := Option.map_eq_some_iff.mp opened
      have ends := spcWalk_ends walked
      cases all : srv.takesAll 0 (pathMessages garbage path) with
      | false =>
          rw [all, if_neg Bool.false_ne_true] at ends
          rw [ends.1, if_neg Bool.false_ne_true]
          exact walk_clean_iff walked all
      | true =>
          rw [all, if_pos rfl] at ends
          have shut : srv.opens = false := by simpa [Call.refused, all] using refused
          simp only [ends.1, if_true, Server.rpc, shut, accepted, Bool.false_eq_true, if_false]
          exact iff_of_true (spcClunk_clean ends.2) (recovers_of_takesAll all)
  | create path =>
      obtain ⟨walk, walked, rfl⟩ := Option.map_eq_some_iff.mp ran
      have ends := spcWalk_ends walked
      rw [Call.recovers]
      cases all : srv.takesAll 0 (pathMessages garbage ((beforeLast path).getD [])) with
      | false =>
          rw [all, if_neg Bool.false_ne_true] at ends
          rw [ends.1, if_neg Bool.false_ne_true, Bool.and_false]
          exact iff_of_false not_clean_fault Bool.false_ne_true
      | true =>
          rw [all, if_pos rfl] at ends
          have shut : srv.creates = false := by simpa [Call.refused, all] using refused
          rw [ends.1, if_pos rfl, Bool.and_true]
          cases inner : (beforeLast path).isSome with
          | false => exact iff_of_false (by simpa using not_clean_fault) Bool.false_ne_true
          | true =>
              simp only [Server.rpc, shut, accepted, Bool.false_eq_true, if_false, if_true]
              exact iff_of_true (spcClunk_clean ends.2) trivial
  | remove path =>
      obtain ⟨w, removed, rfl⟩ := Option.map_eq_some_iff.mp ran
      obtain ⟨walk, walked, rfl⟩ := Option.map_eq_some_iff.mp removed
      have ends := spcWalk_ends walked
      rw [Call.recovers]
      cases all : srv.takesAll 0 (pathMessages garbage path) with
      | false =>
          rw [all, if_neg Bool.false_ne_true] at ends
          rw [ends.1, if_neg Bool.false_ne_true]
          exact walk_clean_iff walked all
      | true =>
          rw [all, if_pos rfl] at ends
          have kept : srv.removes = false := by simpa [Call.refused, all] using refused
          refine iff_of_false ?_ Bool.false_ne_true
          rw [ends.1, if_pos rfl, clean_iff]
          cases forgets : srv.forgets <;> simp [Server.rpc, kept, forgets]

end Calls

def onlyRoot (fid : UInt32) : Bool := fid == 0

theorem onlyRoot_zero : onlyRoot 0 = true := rfl

theorem onlyRoot_one : onlyRoot 1 = false := rfl

/-- The root has fid 0, and nothing else is in use. -/
def mounted : Mounted := ⟨0, 1, onlyRoot, onlyRoot, onlyRoot_zero, onlyRoot_one, onlyRoot_one⟩

theorem oneName_walks (srv : Server) :
    ∃ w, spcWalk srv.rpc mounted.root mounted.fid false [97] ⟨mounted.known, 0⟩ = some w := by
  have one : components [97] = [[97]] := components_last (by decide) (List.cons_ne_nil _ _)
  apply walkLoop_total
  intro c here
  have member : c ∈ components [97] := here
  rw [one, List.mem_singleton] at member
  rw [member]
  decide

/-- An open that is refused, of a file that was walked to. -/
theorem refusedOpen_clean : ∃ ended,
    (Call.opens [97] 0).run mounted ⟨fun _ => some 16, false, false, false, false, true⟩ false = some ended ∧
      (Clean mounted ended ↔
        (Call.opens [97] 0).recovers ⟨fun _ => some 16, false, false, false, false, true⟩ false = true) := by
  obtain ⟨w, walked⟩ := oneName_walks ⟨fun _ => some 16, false, false, false, false, true⟩
  obtain ⟨ended, ran⟩ : ∃ ended,
      (Call.opens [97] 0).run mounted ⟨fun _ => some 16, false, false, false, false, true⟩ false = some ended := by
    rw [Call.run, spcOpen, walked]
    exact ⟨_, rfl⟩
  exact ⟨ended, ran, refused_clean_iff mounted _ false _ _ ran (by simp [Call.refused])⟩

/-- A walk whose first message is refused never gives its number back, even if each Tclunk succeeds. -/
theorem refusedWalk_leaks : ¬ ∀ (fs : Mounted) (srv : Server) (garbage : Bool) (call : Call)
    (ended : Except Fault (Walked Fids)), call.run fs srv garbage = some ended → call.refused srv garbage = true →
      Clean fs ended := by
  intro claim
  let srv : Server := ⟨fun _ => none, true, true, true, true, true⟩
  obtain ⟨w, walked⟩ := oneName_walks srv
  have refused : srv.takesAll 0 (pathMessages false [97]) = false := by
    rw [pathMessages, messages, Server.takesAll]
    rfl
  have lost : srv.recovers false [97] = false := by
    rw [Server.recovers, pathMessages, messages]
    rfl
  have ran : (Call.walk [97]).run mounted srv false = some (.ok w) := by
    rw [Call.run, walked]
    rfl
  have clean := claim mounted srv false (.walk [97]) (.ok w) ran (by rw [Call.refused, refused]; rfl)
  have found := (walk_clean_iff walked refused).mp clean
  rw [lost] at found
  cases found

end Xcpu.Libspclient.Walk
