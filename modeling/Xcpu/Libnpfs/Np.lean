import Xcpu.Libspfs.NpDecode

/-!
`np_deserialize` of the threaded server. It decodes into a recycled message, and the handler
of the message then reads its own fields of it, decoded or not.
-/

namespace Xcpu.Libnpfs

open Xcpu.Packet Xcpu.Libspfs

-- the structures of `npfs.h` have the fields of their namesakes in `spfs.h`
abbrev Npstr := Spstr
abbrev Npstat := Spstat
abbrev Npfcall := Spfcall

section Layouts

variable {Value : Type}

/-- Without `dotu` the fields of 9P2000.u are left as they are. -/
def bufGetStat (stat : Npstat) (dotu : Bool) (next : Npstat → Reader Value) : Reader Value :=
  Libspfs.bufGetStat dotu fun decoded => next
    (if dotu then decoded
    else
      { decoded with
        extension := stat.extension
        nUid := stat.nUid
        nGid := stat.nGid
        nMuid := stat.nMuid })

end Layouts

/-- The switch of `np_deserialize`; where it is that of `sp_deserialize` it is given as such. -/
def npFcallBody (dotu : Bool) (fc : Npfcall) : Reader Npfcall :=
  match fc.type with
  | .tauth =>
      .int 4 fun afid => bufGetStr fun uname => bufGetStr fun aname => .done { fc with afid, uname, aname }
  | .tattach =>
      .int 4 fun fid => .int 4 fun afid => bufGetStr fun uname => bufGetStr fun aname =>
      .done { fc with fid, afid, uname, aname }
  | .rstat => .int 2 fun _ => bufGetStat fc.stat dotu fun stat => .done { fc with stat }
  | .twstat =>
      .int 4 fun fid => .int 2 fun _ => bufGetStat fc.stat dotu fun stat => .done { fc with fid, stat }
  | _ => fcallBody dotu fc

/-- What is set before the switch. -/
def Npfcall.begin (prev : Npfcall) (size : Nat) (type : FcallType) (tag : Nat) : Npfcall :=
  { prev with size, type, tag, fid := nofid, afid := nofid, newfid := nofid }

def npFcallLayout (prev : Npfcall) (dotu : Bool) (size : Nat) : Reader Npfcall :=
  .int 1 fun typeByte => .int 2 fun tag =>
  match FcallType.ofNat? typeByte with
  | none => .reject
  | some type => npFcallBody dotu (Npfcall.begin prev size type tag)

/-- The accepted message, decoded over `prev`, or `none` where the function returns 0. -/
def npDeserialize (prev : Npfcall) (data : List UInt8) (dotu : Bool) : Option Npfcall :=
  overrun (runCbuf data (npFcallLayout prev dotu (sizeField data)) (fcallBuf (sizeField data)))

/-- The fields of its message that each handler reads in some run, those it passes to the
callbacks of the server included. -/
inductive HandlerReads where
  | version (msize : Nat) (version : Npstr)
  | auth (afid : Nat) (uname : Npstr) (nUname : Nat) (aname : Npstr)
  | attach (fid afid : Nat) (uname : Npstr) (nUname : Nat) (aname : Npstr)
  | flush (oldtag : Nat)
  | walk (fid newfid nwname : Nat) (wnames : List Npstr)
  | «open» (fid mode : Nat)
  | create (fid : Nat) (name : Npstr) (perm mode : Nat) (extension : Npstr)
  | read (fid offset count : Nat)
  | write (fid offset count : Nat) (data : Option Nat)
  | clunk (fid : Nat)
  | remove (fid : Nat)
  | stat (fid : Nat)
  | wstat (fid : Nat) (stat : Npstat)
  deriving DecidableEq

-- a wstat callback looks at the fields of 9P2000.u only on a connection that speaks it
def Npstat.readUnder (stat : Npstat) (dotu : Bool) : Npstat :=
  if dotu then stat else { stat with extension := {}, nUid := nouid, nGid := nouid, nMuid := nouid }

/-- The table `np_fcalls`, by the index that `np_process_request` computes from the type; its
fourth entry is NULL. -/
def npFcalls (dotu : Bool) (tc : Npfcall) : Nat → Option HandlerReads
  | 0 => some (.version tc.msize tc.version)
  | 1 => some (.auth tc.afid tc.uname tc.nUname tc.aname)
  | 2 => some (.attach tc.fid tc.afid tc.uname tc.nUname tc.aname)
  | 4 => some (.flush tc.oldtag)
  | 5 => some (.walk tc.fid tc.newfid tc.nwname (tc.wnames.take tc.nwname))
  | 6 => some (.open tc.fid tc.mode)
  | 7 => some (.create tc.fid tc.name tc.perm tc.mode tc.extension)
  | 8 => some (.read tc.fid tc.offset tc.count)
  | 9 => some (.write tc.fid tc.offset tc.count tc.data)
  | 10 => some (.clunk tc.fid)
  | 11 => some (.remove tc.fid)
  | 12 => some (.stat tc.fid)
  | 13 => some (.wstat tc.fid (Npstat.readUnder tc.stat dotu))
  | _ => none

def handlerReads (dotu : Bool) (tc : Npfcall) : Option HandlerReads :=
  npFcalls dotu tc ((tc.type.number - 100) / 2)

/-- The messages whose handler reads only what was decoded. -/
def Determined (dotu : Bool) : FcallType → Prop
  | .tversion | .rversion | .rerror | .tflush | .twalk | .topen | .tread | .twrite | .tclunk | .rclunk
  | .tremove | .rremove | .tstat | .rstat | .twstat => True
  | .tcreate => dotu = true
  | _ => False

section Alike

variable {Value : Type} {related : Value → Value → Prop} (data : List UInt8)

theorem runCbuf_alike {first second : Reader Value} (alike : first.Alike related second) (buf : Cbuf) :
    (runCbuf data first buf).2.1 = (runCbuf data second buf).2.1 ∧
      ((runCbuf data first buf).1 = none ∧ (runCbuf data second buf).1 = none ∨
        ∃ one two, (runCbuf data first buf).1 = some one ∧ (runCbuf data second buf).1 = some two ∧
          related one two) := by
  induction alike generalizing buf with
  | done holds => exact ⟨rfl, .inr ⟨_, _, rfl, rfl, holds⟩⟩
  | reject => exact ⟨rfl, .inl ⟨rfl, rfl⟩⟩
  | int alike ih => exact ih _ (bufGetInt data _ buf).2
  | slice alike ih => exact ih _ (bufAlloc buf _).2
  | atEnd alike ih => exact ih _ buf
  | counted holds => exact ⟨rfl, .inr ⟨_, _, rfl, rfl, holds _ _⟩⟩

theorem overrun_alike {first second : Reader Value} (alike : first.Alike related second) (buf : Cbuf) :
    (overrun (runCbuf data first buf) = none ∧ overrun (runCbuf data second buf) = none) ∨
      ∃ one two, overrun (runCbuf data first buf) = some one ∧
        overrun (runCbuf data second buf) = some two ∧ related one two := by
  obtain ⟨same, values⟩ := runCbuf_alike data alike buf
  rw [overrun, overrun, same]
  split
  · exact .inl ⟨rfl, rfl⟩
  · exact values

theorem alike_str {first second : Npstr → Reader Value}
    (alike : ∀ str, (first str).Alike related (second str)) :
    (bufGetStr first).Alike related (bufGetStr second) :=
  .int fun _ => .slice fun _ => alike _

theorem alike_qid {first second : Spqid → Reader Value}
    (alike : ∀ qid, (first qid).Alike related (second qid)) :
    (bufGetQid first).Alike related (bufGetQid second) :=
  .int fun _ => .int fun _ => .int fun _ => alike _

theorem alike_strs (count : Nat) {first second : List Npstr → Reader Value}
    (alike : ∀ strs, (first strs).Alike related (second strs)) :
    (bufGetStrs count first).Alike related (bufGetStrs count second) := by
  induction count generalizing first second with
  | zero => exact alike []
  | succ count ih => exact alike_str fun str => ih fun strs => alike (str :: strs)

theorem alike_qids (count : Nat) {first second : List Spqid → Reader Value}
    (alike : ∀ qids, (first qids).Alike related (second qids)) :
    (bufGetQids count first).Alike related (bufGetQids count second) := by
  induction count generalizing first second with
  | zero => exact alike []
  | succ count ih => exact alike_qid fun qid => ih fun qids => alike (qid :: qids)

theorem alike_stat (dotu : Bool) {first second : Npstat → Reader Value}
    (alike : ∀ stat, (first stat).Alike related (second stat)) :
    (Libspfs.bufGetStat dotu first).Alike related (Libspfs.bufGetStat dotu second) := by
  refine .int fun _ => .int fun _ => .int fun _ => alike_qid fun _ => .int fun _ => .int fun _ =>
    .int fun _ => .int fun _ => alike_str fun _ => alike_str fun _ => alike_str fun _ => alike_str fun _ => ?_
  cases dotu with
  | false => exact alike _
  | true => exact alike_str fun _ => .int fun _ => .int fun _ => .int fun _ => alike _

end Alike

attribute [local simp] handlerReads npFcalls FcallType.number

theorem npFcallBody_alike {dotu : Bool} {first second : Npfcall} {type : FcallType} (one : first.type = type)
    (two : second.type = type) (fids : first.fid = second.fid) :
    (npFcallBody dotu first).Alike
      (fun one two => one.type = type ∧ two.type = type ∧
        (Determined dotu type → handlerReads dotu one = handlerReads dotu two))
      (npFcallBody dotu second) := by
  cases type <;> simp only [npFcallBody, fcallBody, one, two]
  case tversion | rversion => exact .int fun _ => alike_str fun _ => .done (by simp)
  case tauth => exact .int fun _ => alike_str fun _ => alike_str fun _ => .done (by simp [Determined])
  case rauth | rattach => exact alike_qid fun _ => .done (by simp [Determined])
  case tattach =>
      exact .int fun _ => .int fun _ => alike_str fun _ => alike_str fun _ => .done (by simp [Determined])
  case rerror =>
      refine alike_str fun _ => ?_
      cases dotu with
      | false => exact .done (by simp)
      | true => exact .int fun _ => .done (by simp)
  case tflush => exact .int fun _ => .done (by simp)
  case rflush | rwstat => exact .done (by simp [one, two, Determined])
  case twalk =>
      refine .int fun _ => .int fun _ => .int fun _ => ?_
      split
      · exact .reject
      · exact alike_strs _ fun _ => .done (by simp)
  case rwalk =>
      refine .int fun _ => ?_
      split
      · exact .reject
      · exact alike_qids _ fun _ => .done (by simp [Determined])
  case topen => exact .int fun _ => .int fun _ => .done (by simp)
  case ropen | rcreate => exact alike_qid fun _ => .int fun _ => .done (by simp [Determined])
  case tcreate =>
      refine .int fun _ => alike_str fun _ => .int fun _ => .int fun _ => ?_
      cases dotu with
      | false => exact .done (by simp [Determined])
      | true =>
          simp only [if_true]
          exact alike_str fun _ => .done (by simp)
  case tread => exact .int fun _ => .int fun _ => .int fun _ => .done (by simp)
  case rread => exact .counted fun _ _ => by simp [Determined]
  case twrite => exact .int fun _ => .int fun _ => .counted fun _ _ => by simp
  case rwrite => exact .int fun _ => .done (by simp [Determined])
  case tclunk | tremove | tstat => exact .int fun _ => .done (by simp)
  case rclunk | rremove => exact .done (by simp [one, two, fids])
  case rstat => exact .int fun _ => alike_stat dotu fun _ => .done (by simp [fids])
  case twstat =>
      refine .int fun _ => .int fun _ => alike_stat dotu fun _ => .done ?_
      cases dotu <;> simp [Npstat.readUnder]

/-- A message in which nothing is left as a fresh one has it. -/
def stale : Npfcall where
  oldtag := 1
  nwname := 1
  mode := 1
  offset := 1
  data := some 0
  stat := { type := 1 }
  extension := ⟨1, none⟩
  perm := 1
  nUname := 0

theorem npFcallBody_stale {dotu : Bool} {size tag : Nat} {type : FcallType} (undetermined : ¬ Determined dotu type) :
    (npFcallBody dotu (Npfcall.begin {} size type tag)).Alike
      (fun one two => one.type = type ∧ handlerReads dotu one ≠ handlerReads dotu two)
      (npFcallBody dotu (Npfcall.begin stale size type tag)) := by
  cases type <;> simp only [Determined, not_true_eq_false] at undetermined
  all_goals simp only [npFcallBody, fcallBody, Npfcall.begin]
  case tauth => exact .int fun _ => alike_str fun _ => alike_str fun _ => .done (by simp [stale, nouid])
  case tattach =>
      exact .int fun _ => .int fun _ => alike_str fun _ => alike_str fun _ => .done (by simp [stale, nouid])
  case rauth | rattach => exact alike_qid fun _ => .done (by simp [stale, nouid])
  case rflush | rwstat => exact .done (by cases dotu <;> simp [stale, Npstat.readUnder])
  case rwalk =>
      refine .int fun _ => ?_
      split
      · exact .reject
      · exact alike_qids _ fun _ => .done (by simp [stale])
  case ropen | rcreate => exact alike_qid fun _ => .int fun _ => .done (by simp [stale])
  case tcreate =>
      refine .int fun _ => alike_str fun _ => .int fun _ => .int fun _ => ?_
      rw [if_neg undetermined, if_neg undetermined]
      exact .done (by simp [stale])
  case rread => exact .counted fun _ _ => by simp [stale]
  case rwrite => exact .int fun _ => .done (by simp [stale])

theorem stale_alike {dotu : Bool} {size tag : Nat} {type : FcallType} :
    (npFcallBody dotu (Npfcall.begin {} size type tag)).Alike
      (fun one two => one.type = type ∧
        (¬ Determined dotu type → handlerReads dotu one ≠ handlerReads dotu two))
      (npFcallBody dotu (Npfcall.begin stale size type tag)) := by
  by_cases determined : Determined dotu type
  · have same : (npFcallBody dotu (Npfcall.begin {} size type tag)).Alike _
        (npFcallBody dotu (Npfcall.begin stale size type tag)) := npFcallBody_alike rfl rfl rfl
    exact same.mono fun one two holds => ⟨holds.1, fun undetermined => absurd determined undetermined⟩
  · exact (npFcallBody_stale determined).mono fun one two holds => ⟨holds.1, fun _ => holds.2⟩

theorem npDeserialize_alike (data : List UInt8) (dotu : Bool) (prev prev' : Npfcall)
    {related : FcallType → Npfcall → Npfcall → Prop}
    (alike : ∀ type tag, (npFcallBody dotu (Npfcall.begin prev (sizeField data) type tag)).Alike (related type)
      (npFcallBody dotu (Npfcall.begin prev' (sizeField data) type tag))) :
    (npDeserialize prev data dotu = none ∧ npDeserialize prev' data dotu = none) ∨
      ∃ type one two, npDeserialize prev data dotu = some one ∧ npDeserialize prev' data dotu = some two ∧
        related type one two := by
  have layouts : (npFcallLayout prev dotu (sizeField data)).Alike (fun one two => ∃ type, related type one two)
      (npFcallLayout prev' dotu (sizeField data)) := by
    refine .int fun typeByte => .int fun tag => ?_
    cases FcallType.ofNat? typeByte with
    | none => exact .reject
    | some type => exact (alike type tag).mono fun one two holds => ⟨type, holds⟩
  rcases overrun_alike data layouts (fcallBuf (sizeField data)) with refused | ⟨one, two, first, second, type, holds⟩
  · exact .inl refused
  · exact .inr ⟨type, one, two, first, second, holds⟩

/-- Every field that the handler reads is determined by the packet, whatever the message held
before. -/
def ReadsPacket (data : List UInt8) (dotu : Bool) : Prop :=
  ∀ prev prev', (npDeserialize prev data dotu).map (handlerReads dotu) =
    (npDeserialize prev' data dotu).map (handlerReads dotu)

/-- What the handlers of Tauth, Tattach, a plain Tcreate and most R-messages read depends on an
earlier message, and what the others read does not. -/
theorem readsPacket_iff (data : List UInt8) (dotu : Bool) (prev fc : Npfcall)
    (accepted : npDeserialize prev data dotu = some fc) :
    ReadsPacket data dotu ↔ Determined dotu fc.type := by
  have decodings (one two : Npfcall) := npDeserialize_alike data dotu one two
    fun type tag => @npFcallBody_alike dotu (Npfcall.begin one (sizeField data) type tag)
      (Npfcall.begin two (sizeField data) type tag) type rfl rfl rfl
  have typed (other : Npfcall) : ∃ found, npDeserialize other data dotu = some found ∧ found.type = fc.type := by
    rcases decodings prev other with ⟨refused, -⟩ | ⟨type, one, two, first, second, same, same', -⟩
    · rw [refused] at accepted
      cases accepted
    · rw [first] at accepted
      cases accepted
      exact ⟨two, second, same'.trans same.symm⟩
  constructor
  · intro reads
    by_contra undetermined
    have apart := npDeserialize_alike data dotu {} stale fun type tag => stale_alike
    obtain ⟨found, decoded, kind⟩ := typed {}
    rcases apart with ⟨refused, -⟩ | ⟨type, one, two, first, second, same, differ⟩
    · rw [refused] at decoded
      cases decoded
    · rw [first] at decoded
      cases decoded
      have equal := reads {} stale
      rw [first, second, Option.map_some, Option.map_some, Option.some.injEq] at equal
      exact differ (same ▸ kind ▸ undetermined) equal
  · intro determined one two
    rcases decodings one two with ⟨refused, refused'⟩ | ⟨type, first, second, one_is, two_is, same, -, agree⟩
    · rw [refused, refused']
    · obtain ⟨found, decoded, kind⟩ := typed one
      rw [one_is] at decoded
      cases decoded
      rw [one_is, two_is, Option.map_some, Option.map_some, agree (same ▸ kind ▸ determined)]

/-- Tattach tag 1 fid 1 afid NOFID uname "r" aname "". -/
def attachPacket : List UInt8 :=
  [20, 0, 0, 0, 104, 1, 0, 1, 0, 0, 0, 255, 255, 255, 255, 1, 0, 114, 0, 0]

theorem readsPacket_iff_tclunk :
    ReadsPacket [11, 0, 0, 0, 120, 1, 0, 1, 0, 0, 0] true ↔ Determined true .tclunk := by
  have accepted : (npDeserialize stale [11, 0, 0, 0, 120, 1, 0, 1, 0, 0, 0] true).map Spfcall.type =
      some .tclunk := by
    with_unfolding_all decide
  obtain ⟨fc, found, type⟩ := Option.map_eq_some_iff.mp accepted
  exact type ▸ readsPacket_iff _ true stale fc found

/-- The user id of the attach is that of an earlier message. -/
theorem attachPacket_not_readsPacket : ¬ ReadsPacket attachPacket true := by
  intro reads
  have one : (npDeserialize {} attachPacket true).map (handlerReads true) =
      some (some (.attach 1 nofid ⟨1, some 17⟩ nouid ⟨0, some 20⟩)) := by
    with_unfolding_all decide
  have two : (npDeserialize stale attachPacket true).map (handlerReads true) =
      some (some (.attach 1 nofid ⟨1, some 17⟩ 0 ⟨0, some 20⟩)) := by
    with_unfolding_all decide
  have same := reads {} stale
  rw [one, two] at same
  exact absurd same (by decide)

end Xcpu.Libnpfs
