import Xcpu.Libspfs.NpRoundTrip

/-!
`spc_walk`: the path is cut at its slashes in place, and each Twalk takes up to `MAXWELEM` names of it. A walk that
fails after the first message has reached the new fid is followed by a Tclunk of it.
-/

namespace Xcpu.Libspclient.Walk

open Xcpu.Libspfs

def slash : UInt8 := 47

/-- The requests of the path functions. -/
inductive Tcall where
  | twalk (fid newfid : UInt32) (wnames : List (List UInt8))
  | topen (fid : UInt32) (mode : UInt8)
  | tcreate (fid : UInt32) (name : List UInt8)
  | tremove (fid : UInt32)
  | tclunk (fid : UInt32)

/-- A string as `buf_put_str` leaves it in a message: its length takes two bytes. -/
def bufPutStr (s : List UInt8) : List UInt8 := s.take (s.length % 2 ^ 16)

/-- `none` where there is no message, which `spc_rpc` follows. -/
def spCreateTwalk (fid newfid : UInt32) (wnames : List (List UInt8)) : Option Tcall :=
  (createTwalk .libspfs fid newfid wnames).map fun _ => .twalk fid newfid (wnames.map bufPutStr)

/-- What stands before the first slash and after it. -/
def strchr : List UInt8 → Option (List UInt8 × List UInt8)
  | [] => none
  | c :: rest => if c = slash then some ([], rest) else (strchr rest).map fun (name, after) => (c :: name, after)

theorem strchr_some {s name after : List UInt8} (cut : strchr s = some (name, after)) :
    s = name ++ slash :: after ∧ slash ∉ name := by
  induction s generalizing name with
  | nil => cases cut
  | cons c rest ih =>
      rw [strchr] at cut
      split at cut
      · rename_i here
        cases cut
        exact ⟨by rw [here]; rfl, List.not_mem_nil⟩
      · rename_i other
        obtain ⟨⟨front, back⟩, later, same⟩ := Option.map_eq_some_iff.mp cut
        cases same
        obtain ⟨rfl, plain⟩ := ih later
        exact ⟨rfl, List.not_mem_cons_of_ne_of_not_mem (Ne.symm other) plain⟩

theorem strchr_none {s : List UInt8} (whole : strchr s = none) : slash ∉ s := by
  induction s with
  | nil => exact List.not_mem_nil
  | cons c rest ih =>
      rw [strchr] at whole
      split at whole
      · cases whole
      · rename_i other
        exact List.not_mem_cons_of_ne_of_not_mem (Ne.symm other) (ih (Option.map_eq_none_iff.mp whole))

theorem strchr_shorter {s name after : List UInt8} (cut : strchr s = some (name, after)) :
    after.length < s.length := by
  rw [(strchr_some cut).1, List.length_append, List.length_cons]
  omega

/-- The inner loop: the names, whether `t` is set, and what is left. -/
def fillNames (wnames : List (List UInt8)) (t : Bool) (s : List UInt8) : List (List UInt8) × Bool × List UInt8 :=
  match s with
  | [] => (wnames, t, [])
  | c :: rest =>
      if wnames.length < maxwelem then
        if c = slash then fillNames wnames t rest
        else
          match _cut : strchr (c :: rest) with
          | none => (wnames ++ [c :: rest], false, c :: rest)
          | some (name, after) => fillNames (wnames ++ [name]) true after
      else (wnames, t, c :: rest)
termination_by s.length
decreasing_by
  · exact Nat.lt_succ_self _
  · exact strchr_shorter _cut

/-- The components of a path. -/
def components (path : List UInt8) : List (List UInt8) := (path.splitOn slash).filter (· ≠ [])

theorem components_cut {name after : List UInt8} (plain : slash ∉ name) :
    components (name ++ slash :: after) = [name].filter (· ≠ []) ++ components after := by
  rw [components, List.splitOn_append_cons_self, List.filter_append, List.splitOn_eq_singleton plain]
  rfl

theorem components_slash (rest : List UInt8) : components (slash :: rest) = components rest :=
  @components_cut [] rest List.not_mem_nil

theorem components_last {name : List UInt8} (plain : slash ∉ name) (some_ : name ≠ []) : components name = [name] := by
  rw [components, List.splitOn_eq_singleton plain]
  simp [some_]

/-- How the inner loop ends: with the last name, or with the rest of the path for another message. -/
theorem fillNames_ends (wnames : List (List UInt8)) (t : Bool) (s : List UInt8) (few : wnames.length ≤ maxwelem) :
    ∃ new t' s', fillNames wnames t s = (wnames ++ new, t', s') ∧ (wnames ++ new).length ≤ maxwelem ∧
      ((t' = false ∧ components s = new) ∨
        (components s = new ++ components s' ∧ (s' = [] ∨ (wnames ++ new).length = maxwelem) ∧
          (t' = t ∨ t' = true) ∧ (new ≠ [] → t' = true) ∧ s'.length ≤ s.length ∧
          (new ≠ [] → s'.length < s.length))) := by
  induction size : s.length using Nat.strong_induction_on generalizing wnames t s with
  | _ size ih =>
      subst size
      cases s with
      | nil =>
          refine ⟨[], t, [], by rw [fillNames, List.append_nil], by simpa using few, .inr ?_⟩
          exact ⟨rfl, .inl rfl, .inl rfl, fun new => absurd rfl new, le_rfl, fun new => absurd rfl new⟩
      | cons c rest =>
          rw [fillNames]
          by_cases room : wnames.length < maxwelem
          · rw [if_pos room]
            by_cases here : c = slash
            · rw [if_pos here]
              subst here
              obtain ⟨new, t', s', filled, fits, ended⟩ := ih rest.length (Nat.lt_succ_self _) wnames t rest few rfl
              refine ⟨new, t', s', filled, fits, ?_⟩
              rw [components_slash, List.length_cons]
              rcases ended with last | ⟨split, stopped, kept, set, le, lt⟩
              · exact .inl last
              · exact .inr ⟨split, stopped, kept, set, by omega, fun some_ => Nat.lt_succ_of_lt (lt some_)⟩
            · rw [if_neg here]
              split
              · rename_i whole
                refine ⟨[c :: rest], false, c :: rest, rfl, ?_, .inl ⟨rfl, ?_⟩⟩
                · rw [List.length_append, List.length_singleton]
                  exact room
                · exact components_last (strchr_none whole) (List.cons_ne_nil _ _)
              · rename_i name after cut
                have shorter := strchr_shorter cut
                obtain ⟨same, plain⟩ := strchr_some cut
                have named : name ≠ [] := by
                  rintro rfl
                  exact here (List.cons.inj same).1
                have first : components (c :: rest) = name :: components after := by
                  rw [same, components_cut plain]
                  simp [named]
                have fewer : (wnames ++ [name]).length ≤ maxwelem := by
                  rw [List.length_append, List.length_singleton]
                  exact room
                obtain ⟨new, t', s', filled, fits, ended⟩ := ih after.length shorter (wnames ++ [name]) true after fewer rfl
                rw [List.append_assoc, List.singleton_append] at filled fits
                refine ⟨name :: new, t', s', filled, fits, ?_⟩
                rw [first]
                rcases ended with ⟨unset, last⟩ | ⟨split, stopped, kept, -, le, -⟩
                · exact .inl ⟨unset, by rw [last]⟩
                · rw [List.append_assoc, List.singleton_append] at stopped
                  have set : t' = true := kept.elim id id
                  exact .inr ⟨by rw [split]; rfl, stopped, .inr set, fun _ => set, by omega, fun _ => by omega⟩
          · rw [if_neg room]
            refine ⟨[], t, c :: rest, by rw [List.append_nil], by simpa using few, .inr ?_⟩
            have full : wnames.length = maxwelem := by omega
            exact ⟨rfl, .inr (by simpa using full), .inl rfl, fun new => absurd rfl new, le_rfl, fun new => absurd rfl new⟩

/-- One turn of the outer loop: the path is at its end, or there are names for another message. -/
theorem fillNames_next (t : Bool) (s : List UInt8) :
    (fillNames [] t s).1.length ≤ maxwelem ∧
      if (fillNames [] t s).2.1 = false ∨ (fillNames [] t s).2.2 = [] then components s = (fillNames [] t s).1
      else components s = (fillNames [] t s).1 ++ components (fillNames [] t s).2.2 ∧
        (fillNames [] t s).2.2.length < s.length := by
  obtain ⟨new, t', s', filled, fits, ended⟩ := fillNames_ends [] t s (Nat.zero_le _)
  rw [filled]
  simp only [List.nil_append] at fits ended ⊢
  refine ⟨fits, ?_⟩
  rcases ended with ⟨unset, last⟩ | ⟨split, stopped, -, set, -, lt⟩
  · rw [if_pos (.inl unset)]
    exact last
  · by_cases done : s' = []
    · rw [if_pos (.inr done), split, done]
      exact List.append_nil new
    · have some_ : new ≠ [] := by
        rintro rfl
        rcases stopped with none | full
        · exact done none
        · cases full
      rw [if_neg (by simp [set some_, done])]
      exact ⟨split, lt some_⟩

/-- How `spc_walk` ends, and whether `spc_fid_free` was called. -/
structure Walked (σ : Type) where
  st : σ
  ok : Bool
  freed : Bool

section Run

variable {σ : Type} (rpc : σ → Tcall → σ × Option Nat)

/-- The end of a walk that failed. Its fid is clunked where `nfid` says that a message has reached it. -/
def walkFailed (fid nfid : UInt32) (st : σ) : Walked σ :=
  if nfid = fid then
    match rpc st (.tclunk fid) with
    | (st, some _) => ⟨st, false, true⟩
    | (st, none) => ⟨st, false, false⟩
  else ⟨st, false, false⟩

/-- The outer loop. `rpc` is `spc_rpc`, with the `nwqid` of a reply, and none where it returns -1. -/
def walkLoop (fid nfid : UInt32) (t : Bool) (s : List UInt8) (st : σ) : Option (Walked σ) :=
  match spCreateTwalk nfid fid (fillNames [] t s).1 with
  | none => none
  | some tc =>
      match rpc st tc with
      | (st, none) => some (walkFailed rpc fid nfid st)
      | (st, some nwqid) =>
          if nwqid ≠ (fillNames [] t s).1.length then some (walkFailed rpc fid fid st)
          else if (fillNames [] t s).2.1 = false ∨ (fillNames [] t s).2.2 = [] then some ⟨st, true, false⟩
          else walkLoop fid fid (fillNames [] t s).2.1 (fillNames [] t s).2.2 st
termination_by s.length
decreasing_by
  rename_i more
  have next := (fillNames_next t s).2
  rw [if_neg more] at next
  exact next.2

/-- `garbage` is what `t` holds before it is set; a path without components reads it. -/
def spcWalk (root fid : UInt32) (garbage : Bool) (path : List UInt8) (st : σ) : Option (Walked σ) :=
  walkLoop rpc fid root garbage (path.dropWhile (· = slash)) st

variable {rpc} {I : σ → Prop}

/-- What each request keeps holds after the walk. -/
theorem walkLoop_invariant (step : ∀ st tc, I st → I (rpc st tc).1) {fid nfid : UInt32} {t : Bool} {s : List UInt8}
    {st : σ} {w : Walked σ} (holds : I st) (ran : walkLoop rpc fid nfid t s st = some w) : I w.st := by
  have failed : ∀ nfid st, I st → I (walkFailed rpc fid nfid st).st := by
    intro nfid st holds
    rw [walkFailed]
    split
    · have clunked := step st (.tclunk fid) holds
      split <;> simp_all
    · exact holds
  induction size : s.length using Nat.strong_induction_on generalizing nfid t s st with
  | _ size ih =>
      subst size
      have next := (fillNames_next t s).2
      rw [walkLoop] at ran
      split at ran
      · cases ran
      · rename_i tc created
        have kept := step st tc holds
        split at ran
        · rename_i st' answered
          rw [answered] at kept
          cases ran
          exact failed _ _ kept
        · rename_i st' nwqid answered
          rw [answered] at kept
          split at ran
          · cases ran
            exact failed _ _ kept
          · split at ran
            · cases ran
              exact kept
            · rename_i more
              rw [if_neg more] at next
              exact ih _ next.2 kept ran rfl

end Run

/-- The requests that were sent, each with its answer. -/
abbrev Transcript := List (Tcall × Option Nat)

/-- A server whose answer may depend on everything that was sent before. -/
def record (answer : Transcript → Tcall → Option Nat) (st : Transcript) (tc : Tcall) : Transcript × Option Nat :=
  (st ++ [(tc, answer st tc)], answer st tc)

def names (e : Tcall × Option Nat) : List (List UInt8) :=
  match e.1 with
  | .twalk _ _ wnames => wnames
  | _ => []

/-- A Twalk is answered for all its names. -/
def Whole (e : Tcall × Option Nat) : Prop :=
  match e.1 with
  | .twalk _ _ wnames => e.2 = some wnames.length
  | _ => True

/-- What follows the first Twalk stays on the new fid. -/
def InPlace (fid : UInt32) (e : Tcall × Option Nat) : Prop :=
  match e.1 with
  | .twalk old new _ => old = fid ∧ new = fid
  | .tclunk clunked => clunked = fid
  | _ => False

/-- The messages from `nfid` to `fid` for what is left of a path. -/
structure Sent (fid nfid : UInt32) (s : List UInt8) (trace : Transcript) (ok : Bool) : Prop where
  front : trace.flatMap names <+: (components s).map bufPutStr
  few : ∀ e ∈ trace, (names e).length ≤ maxwelem
  route : ∃ wnames answered rest, trace = (.twalk nfid fid wnames, answered) :: rest ∧ ∀ e ∈ rest, InPlace fid e
  walked : ok = true ↔ ∀ e ∈ trace, Whole e
  all : ok = true → trace.flatMap names = (components s).map bufPutStr

section Record

variable {answer : Transcript → Tcall → Option Nat} {fid nfid : UInt32} {st : Transcript}

theorem walkFailed_record : ∃ rest, (walkFailed (record answer) fid nfid st).st = st ++ rest ∧
    (walkFailed (record answer) fid nfid st).ok = false ∧
      ∀ e ∈ rest, InPlace fid e ∧ names e = [] := by
  rw [walkFailed]
  split
  · have clunked : ∀ e ∈ [(Tcall.tclunk fid, answer st (.tclunk fid))], InPlace fid e ∧ names e = [] := by
      intro e here
      obtain rfl := List.mem_singleton.mp here
      exact ⟨rfl, rfl⟩
    simp only [record]
    cases answered : answer st (.tclunk fid) with
    | none =>
        rw [answered] at clunked
        exact ⟨_, rfl, rfl, clunked⟩
    | some count =>
        rw [answered] at clunked
        exact ⟨_, rfl, rfl, clunked⟩
  · exact ⟨[], (List.append_nil _).symm, rfl, fun e here => absurd here List.not_mem_nil⟩

/-- A message whose walk fails is the last Twalk. -/
theorem Sent.of_failed {s : List UInt8} {wnames rest : List (List UInt8)} {answered : Option Nat} {trace : Transcript}
    (split : components s = wnames ++ rest) (few : wnames.length ≤ maxwelem) (failed : answered ≠ some wnames.length)
    (later : ∀ e ∈ trace, InPlace fid e ∧ names e = []) :
    Sent fid nfid s ((.twalk nfid fid (wnames.map bufPutStr), answered) :: trace) false := by
  have silent : trace.flatMap names = [] := by
    rw [List.flatMap_eq_nil_iff]
    exact fun e here => (later e here).2
  refine ⟨?_, ?_, ⟨_, _, _, rfl, fun e here => (later e here).1⟩, ?_, fun never => absurd never Bool.false_ne_true⟩
  · rw [List.flatMap_cons, silent, List.append_nil, split, List.map_append]
    exact List.prefix_append _ _
  · intro e here
    rcases List.mem_cons.mp here with rfl | here
    · simpa [names] using few
    · rw [(later e here).2]
      exact Nat.zero_le _
  · refine iff_of_false Bool.false_ne_true fun whole => failed ?_
    simpa [Whole] using whole _ List.mem_cons_self

theorem walkLoop_sent {t : Bool} {s : List UInt8} {w : Walked Transcript}
    (ran : walkLoop (record answer) fid nfid t s st = some w) :
    ∃ trace, w.st = st ++ trace ∧ Sent fid nfid s trace w.ok := by
  induction size : s.length using Nat.strong_induction_on generalizing nfid t s st with
  | _ size ih =>
      subst size
      have next := fillNames_next t s
      rw [walkLoop] at ran
      generalize fillNames [] t s = filled at next ran
      obtain ⟨wnames, t', s'⟩ := filled
      obtain ⟨few, next⟩ := next
      dsimp only at few next ran
      have split : ∃ rest, components s = wnames ++ rest := by
        split at next
        · exact ⟨[], by rw [next, List.append_nil]⟩
        · exact ⟨_, next.1⟩
      obtain ⟨rest, split⟩ := split
      rw [spCreateTwalk] at ran
      cases created : createTwalk .libspfs nfid fid wnames with
      | none => simp [created] at ran
      | some pkt =>
          simp only [created, Option.map_some, record] at ran
          generalize answered : answer st (.twalk nfid fid (wnames.map bufPutStr)) = a at ran
          cases a with
          | none =>
              cases ran
              obtain ⟨trace, moved, failed, later⟩ := @walkFailed_record answer fid nfid
                (st ++ [(.twalk nfid fid (wnames.map bufPutStr), none)])
              refine ⟨_, moved.trans (List.append_assoc _ _ _), ?_⟩
              rw [failed]
              exact Sent.of_failed split few nofun later
          | some nwqid =>
              dsimp only at ran
              by_cases short : nwqid ≠ wnames.length
              · rw [if_pos short] at ran
                cases ran
                obtain ⟨trace, moved, failed, later⟩ := @walkFailed_record answer fid fid
                  (st ++ [(.twalk nfid fid (wnames.map bufPutStr), some nwqid)])
                refine ⟨_, moved.trans (List.append_assoc _ _ _), ?_⟩
                rw [failed]
                exact Sent.of_failed split few (fun same => short (Option.some.inj same)) later
              · rw [if_neg short] at ran
                have full : nwqid = wnames.length := not_not.mp short
                subst full
                split at ran
                · rename_i done
                  rw [if_pos done] at next
                  cases ran
                  refine ⟨_, rfl, ?_, ?_, ⟨_, _, _, rfl, fun e here => absurd here List.not_mem_nil⟩, ?_, fun _ => ?_⟩
                  · simp [names, next]
                  · simpa [names] using few
                  · simp [Whole]
                  · simp [names, next]
                · rename_i more
                  rw [if_neg more] at next
                  obtain ⟨trace, moved, sent⟩ := ih s'.length next.2 ran rfl
                  refine ⟨_, moved.trans (List.append_assoc _ _ _), ?_, ?_, ⟨_, _, _, rfl, ?_⟩, ?_, fun ok => ?_⟩
                  · rw [List.singleton_append, List.flatMap_cons, next.1, List.map_append]
                    exact (List.prefix_append_right_inj _).mpr sent.front
                  · intro e here
                    rcases List.mem_cons.mp here with rfl | here
                    · simpa [names] using few
                    · exact sent.few e here
                  · intro e here
                    obtain ⟨later, reply, onward, same, inPlace⟩ := sent.route
                    have here : e ∈ trace := here
                    rw [same] at here
                    rcases List.mem_cons.mp here with rfl | here
                    · exact ⟨rfl, rfl⟩
                    · exact inPlace e here
                  · rw [sent.walked, List.singleton_append, List.forall_mem_cons]
                    simp [Whole]
                  · rw [List.singleton_append, List.flatMap_cons, next.1, List.map_append, sent.all ok]
                    rfl

end Record

theorem bufPutStr_short {c : List UInt8} (short : c.length < 65536) : bufPutStr c = c := by
  have small : c.length < 2 ^ 16 := short
  rw [bufPutStr, Nat.mod_eq_of_lt small, List.take_length]

theorem map_bufPutStr {cs : List (List UInt8)} (short : ∀ c ∈ cs, c.length < 65536) : cs.map bufPutStr = cs := by
  rw [List.map_congr_left fun c here => bufPutStr_short (short c here), List.map_id']

theorem short_of_map {cs : List (List UInt8)} (same : cs.map bufPutStr = cs) : ∀ c ∈ cs, c.length < 65536 := by
  intro c here
  have each : bufPutStr c = c := by
    obtain ⟨index, inside, rfl⟩ := List.mem_iff_getElem.mp here
    have at_ := congrArg (fun l => l[index]?) same
    simpa [inside] using at_
  have length := congrArg List.length each
  rw [bufPutStr, List.length_take] at length
  omega

theorem components_dropWhile (path : List UInt8) : components (path.dropWhile (· = slash)) = components path := by
  induction path with
  | nil => rfl
  | cons c rest ih =>
      by_cases here : c = slash
      · rw [List.dropWhile_cons_of_pos (by simpa using here), ih, here, components_slash]
      · rw [List.dropWhile_cons_of_neg (by simpa using here)]

/-- A walk of short names gets to its end, whatever is answered. -/
theorem walkLoop_total {σ : Type} (rpc : σ → Tcall → σ × Option Nat) {fid nfid : UInt32} {t : Bool} {s : List UInt8}
    {st : σ} (short : ∀ c ∈ components s, c.length < 65536) : ∃ w, walkLoop rpc fid nfid t s st = some w := by
  induction size : s.length using Nat.strong_induction_on generalizing nfid t s st with
  | _ size ih =>
      subst size
      have next := fillNames_next t s
      rw [walkLoop]
      generalize fillNames [] t s = filled at next ⊢
      obtain ⟨wnames, t', s'⟩ := filled
      obtain ⟨few, next⟩ := next
      dsimp only at few next ⊢
      have named : ∀ c ∈ wnames, c.length < 65536 := by
        intro c here
        apply short
        split at next
        · rwa [next]
        · rw [next.1]
          exact List.mem_append_left _ here
      obtain ⟨pkt, created, -⟩ := (@twalk_reads .libspfs false nfid fid wnames few named).roundTrip trivial
      have created : createTwalk .libspfs nfid fid wnames = some pkt := created
      rw [spCreateTwalk, created, Option.map_some]
      dsimp only
      split
      · exact ⟨_, rfl⟩
      · split
        · exact ⟨_, rfl⟩
        · split
          · exact ⟨_, rfl⟩
          · rename_i more
            rw [if_neg more] at next
            refine ih s'.length next.2 (fun c here => short c ?_) rfl
            rw [next.1]
            exact List.mem_append_right _ here

/-- The Twalks of a path: its components in order, at most `MAXWELEM` in a message, first from the root to the new
fid and then in place, as a server decodes them. The walk succeeds where each is answered for all its names. -/
structure Walks (root fid : UInt32) (path : List UInt8) (trace : Transcript) (ok : Bool) : Prop where
  front : trace.flatMap names <+: components path
  few : ∀ e ∈ trace, (names e).length ≤ maxwelem
  route : ∃ wnames answered rest, trace = (.twalk root fid wnames, answered) :: rest ∧ ∀ e ∈ rest, InPlace fid e
  walked : ok = true ↔ ∀ e ∈ trace, Whole e
  all : ok = true → trace.flatMap names = components path
  decoded : ∀ dotu old new wnames answered, (.twalk old new wnames, answered) ∈ trace →
    (Message.twalk old new wnames).RoundTrip .libspfs dotu (spDeserialize · dotu)

section Walks

variable {root fid : UInt32} {path : List UInt8}

theorem walks_of_short (short : ∀ c ∈ components path, c.length < 65536) (garbage : Bool)
    (answer : Transcript → Tcall → Option Nat) :
    ∃ w, spcWalk (record answer) root fid garbage path [] = some w ∧ Walks root fid path w.st w.ok := by
  rw [← components_dropWhile] at short
  obtain ⟨w, ran⟩ := @walkLoop_total _ (record answer) fid root garbage _ [] short
  obtain ⟨trace, moved, sent⟩ := walkLoop_sent ran
  rw [List.nil_append] at moved
  have front := sent.front
  have all := sent.all
  rw [map_bufPutStr short] at front all
  rw [components_dropWhile] at front all short
  refine ⟨w, ran, ?_⟩
  rw [moved]
  refine ⟨front, sent.few, sent.route, sent.walked, all, ?_⟩
  intro dotu old new wnames answered here
  refine (twalk_reads (sent.few _ here) fun c inside => ?_).roundTrip trivial
  exact short c (front.subset (List.mem_flatMap.mpr ⟨_, here, inside⟩))

/-- Against a server that walks every name, all components are sent. -/
theorem short_of_walks (walks : ∀ garbage answer, ∃ w, spcWalk (record answer) root fid garbage path [] = some w ∧
    Walks root fid path w.st w.ok) : ∀ c ∈ components path, c.length < 65536 := by
  let accept : Transcript → Tcall → Option Nat := fun _ tc => some (names (tc, none)).length
  obtain ⟨w, ran, walk⟩ := walks false accept
  have accepted : ∀ e ∈ w.st, Whole e := by
    refine walkLoop_invariant (I := fun st => ∀ e ∈ st, Whole e) ?_ (fun e here => absurd here List.not_mem_nil) ran
    intro st tc holds e here
    rcases List.mem_append.mp here with here | here
    · exact holds e here
    · obtain rfl := List.mem_singleton.mp here
      cases tc <;> first | exact rfl | trivial
  obtain ⟨trace, moved, sent⟩ := walkLoop_sent ran
  rw [List.nil_append] at moved
  have ok := walk.walked.mpr accepted
  have same := sent.all ok
  rw [← moved, walk.all ok, components_dropWhile] at same
  exact short_of_map same.symm

/-- For every server the right names are sent, and the walk succeeds where they are walked, exactly if each
component has less than 65536 bytes. -/
theorem spcWalk_walks_iff (root fid : UInt32) (path : List UInt8) :
    (∀ garbage answer, ∃ w, spcWalk (record answer) root fid garbage path [] = some w ∧
      Walks root fid path w.st w.ok) ↔ ∀ c ∈ components path, c.length < 65536 :=
  ⟨short_of_walks, walks_of_short⟩

/-- A name of 65536 bytes is sent as the empty name. -/
theorem spcWalk_long_name : ¬ ∀ garbage answer, ∃ w,
    spcWalk (record answer) 1 2 garbage (List.replicate 65536 97) [] = some w ∧
      Walks 1 2 (List.replicate 65536 97) w.st w.ok := by
  intro walks
  have plain : slash ∉ List.replicate 65536 (97 : UInt8) := by
    rw [List.mem_replicate]
    exact fun h => absurd h.2 (by decide)
  have one : components (List.replicate 65536 97) = [List.replicate 65536 97] :=
    components_last plain (List.ne_nil_of_length_pos (by rw [List.length_replicate]; exact Nat.succ_pos _))
  have short := short_of_walks walks (List.replicate 65536 97) (by rw [one]; exact List.mem_singleton_self _)
  rw [List.length_replicate] at short
  exact absurd short (lt_irrefl _)

end Walks

end Xcpu.Libspclient.Walk
