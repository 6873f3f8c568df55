import Xcpu.Libspfs.Conn

/-!
The capacity of the buffers that messages are read into. A buffer keeps the capacity it was
allocated with, and a Tversion that raises the message size is itself in an old one.
-/

namespace Xcpu.Libspfs.Conn

open Xcpu.Transition

/-- Every fcall that is or may again be read into has room for a message. -/
structure Roomy (conn : Spconn) : Prop where
  input : ∀ fc, conn.ifcall = some fc → conn.msize ≤ fc.capacity
  read : conn.buffer.length ≤ conn.msize
  free : ∀ fc ∈ conn.freerclist, conn.msize ≤ fc.capacity
  requests : ∀ req ∈ conn.requests, conn.msize ≤ req.fc.capacity

/-- Neither reading what there is room for nor moving the tail of a buffer goes past an end. -/
def StaysInside (conn : Spconn) : Prop :=
  (∀ data, conn.buffer.length + data.length ≤ conn.msize → (spConnReceive conn data).isSome) ∧
    ∀ fc size tc, conn.ifcall = some fc → (conn.handOn fc size tc).isSome

variable {conn next : Spconn}

theorem spConnCreate_roomy (srvMsize : Nat) (srvDotu : Bool) : Roomy (spConnCreate srvMsize srvDotu) where
  input := by simp [spConnCreate]
  read := by simp [spConnCreate, Spconn.buffer]
  free := by simp [spConnCreate]
  requests := by simp [spConnCreate]

theorem spConnNewIncall_roomy (roomy : Roomy conn) :
    conn.msize ≤ (spConnNewIncall conn).1.capacity ∧ (spConnNewIncall conn).1.bytes = [] ∧
      ∃ freerclist freercnum, (spConnNewIncall conn).2 =
          { conn with freerclist := freerclist, freercnum := freercnum } ∧
        ∀ fc ∈ freerclist, conn.msize ≤ fc.capacity := by
  unfold spConnNewIncall
  split
  · rename_i fc rest free
    refine ⟨?_, rfl, rest, _, rfl, ?_⟩
    · exact roomy.free fc (free ▸ List.mem_cons_self)
    · intro other member
      exact roomy.free other (free ▸ List.mem_cons_of_mem fc member)
  · exact ⟨Nat.le_refl _, rfl, conn.freerclist, _, rfl, roomy.free⟩

theorem Roomy.staysInside (roomy : Roomy conn) : StaysInside conn := by
  obtain ⟨room, empty, freerclist, freercnum, same, -⟩ := spConnNewIncall_roomy roomy
  constructor
  · intro data fits
    unfold spConnReceive
    cases input : conn.ifcall with
    | some fc =>
        have capacity := roomy.input fc input
        simp only [Spconn.buffer, input, Option.map_some, Option.getD_some] at fits
        simp only
        rw [if_pos (by omega)]
        rfl
    | none =>
        simp only [Spconn.buffer, input, Option.map_none, Option.getD_none, List.length_nil] at fits
        simp only [empty, List.length_nil]
        rw [if_pos]
        · rfl
        · rw [same]
          simp only
          omega
  · intro fc size tc input
    have full := roomy.read
    simp only [Spconn.buffer, input, Option.map_some, Option.getD_some] at full
    unfold Spconn.handOn
    simp only
    rw [if_pos (by omega)]
    rfl

/-- A Tversion that is accepted lies in a buffer as large as the message size it brings, or the
list of free fcalls counts as full, so that its buffer is not used again. -/
def VersionFits (conn : Spconn) : ConnEvent → Prop
  | .version _ _ => ∀ req, conn.requests = [req] → iohdrsz < req.tc.msize →
      newMsize conn req.tc ≤ req.fc.capacity ∨
        64 ≤ conn.freercnum + if conn.ifcall.isSome then 1 else 0
  | _ => True

theorem spConnReset_roomy {msize : Nat} {dotu : Bool} (idle : conn.requests = []) :
    Roomy (spConnReset conn msize dotu) := by
  obtain ⟨freerclist, freercnum, same⟩ := spConnFreeIncall_frame conn conn.ifcall
  constructor
  · simp [spConnReset]
  · simp [spConnReset, Spconn.buffer]
  · simp [spConnReset]
  · simp [spConnReset, same, idle]

theorem spConnFreeIncall_roomy {fc : Option Incall} (roomy : Roomy conn)
    (room : ∀ freed, fc = some freed → conn.msize ≤ freed.capacity ∨ 64 ≤ conn.freercnum) :
    Roomy (spConnFreeIncall conn fc) := by
  cases fc with
  | none => exact roomy
  | some freed =>
      unfold spConnFreeIncall
      simp only
      split
      · rename_i few
        refine ⟨roomy.input, roomy.read, ?_, roomy.requests⟩
        intro other member
        rcases List.mem_cons.mp member with here | there
        · subst other
          exact (room freed rfl).resolve_right (by omega)
        · exact roomy.free other there
      · exact roomy

theorem spConnWrite_roomy {count : Nat} (roomy : Roomy conn) : Roomy (spConnWrite conn count) := by
  unfold spConnWrite
  split
  · exact roomy
  · split
    · exact roomy
    · unfold Spconn.wrote
      split
      · exact ⟨roomy.input, roomy.read, roomy.free, roomy.requests⟩
      · exact ⟨roomy.input, roomy.read, roomy.free, roomy.requests⟩

theorem spConnRespond_roomy {req : Request} {rc : Option (List UInt8)} {count : Nat} (roomy : Roomy conn)
    (room : conn.msize ≤ req.fc.capacity ∨ 64 ≤ conn.freercnum) :
    Roomy (spConnRespond conn req rc count) := by
  have freed : Roomy (spConnFreeIncall conn (some req.fc)) := by
    refine spConnFreeIncall_roomy roomy ?_
    intro fc same
    exact Option.some.inj same ▸ room
  cases rc with
  | none => exact freed
  | some pkt =>
      have queued : Roomy ((spConnFreeIncall conn (some req.fc)).queue pkt) :=
        ⟨freed.input, freed.read, freed.free, freed.requests⟩
      simp only [spConnRespond]
      split
      · exact spConnWrite_roomy queued
      · exact queued

theorem spConnReceive_roomy {data : List UInt8} (roomy : Roomy conn)
    (received : spConnReceive conn data = some next) : Roomy next := by
  obtain ⟨room, empty, freerclist, freercnum, same, free⟩ := spConnNewIncall_roomy roomy
  unfold spConnReceive at received
  cases input : conn.ifcall with
  | some fc =>
      simp only [input] at received
      split at received
      · rename_i fits
        rw [← Option.some.inj received]
        refine ⟨?_, ?_, roomy.free, roomy.requests⟩
        · intro other here
          exact Option.some.inj here ▸ roomy.input fc input
        · simp only [Spconn.buffer, Option.map_some, Option.getD_some, List.length_append]
          omega
      · contradiction
  | none =>
      simp only [input, same] at received
      split at received
      · rename_i fits
        rw [← Option.some.inj received]
        refine ⟨?_, ?_, free, roomy.requests⟩
        · intro other here
          exact Option.some.inj here ▸ room
        · simp only [Spconn.buffer, Option.map_some, Option.getD_some, List.length_append]
          omega
      · contradiction

theorem spConnNext_roomy (roomy : Roomy conn) (ran : spConnNext conn = some next) : Roomy next := by
  unfold spConnNext at ran
  split at ran
  · exact Option.some.inj ran ▸ roomy
  · rename_i fc input
    split at ran
    · exact Option.some.inj ran ▸ roomy
    · split at ran
      · rw [← Option.some.inj ran]
        exact ⟨roomy.input, roomy.read, roomy.free, roomy.requests⟩
      · split at ran
        · contradiction
        · split at ran
          · rw [← Option.some.inj ran]
            exact ⟨roomy.input, roomy.read, roomy.free, roomy.requests⟩
          · obtain ⟨room, -, freerclist, freercnum, same, free⟩ := spConnNewIncall_roomy roomy
            have full := roomy.read
            simp only [Spconn.buffer, input, Option.map_some, Option.getD_some] at full
            simp only [Spconn.handOn, same] at ran
            split at ran
            · rw [← Option.some.inj ran]
              refine ⟨?_, ?_, free, ?_⟩
              · intro other here
                exact Option.some.inj here ▸ room
              · simp only [Spconn.buffer, Option.map_some, Option.getD_some, List.length_drop]
                omega
              · intro req member
                rcases List.mem_cons.mp member with here | there
                · subst req
                  exact roomy.input fc input
                · exact roomy.requests req there
            · contradiction

theorem spVersion_roomy {rc : List UInt8} {count : Nat} (roomy : Roomy conn)
    (fits : VersionFits conn (.version rc count)) (ran : spVersion conn rc count = some next) :
    Roomy next := by
  unfold spVersion at ran
  split at ran
  · rename_i req waiting
    split at ran
    · contradiction
    · split at ran
      · rw [← Option.some.inj ran]
        refine spConnRespond_roomy ?_ (.inl ?_)
        · exact ⟨roomy.input, roomy.read, roomy.free, by simp⟩
        · exact roomy.requests req (waiting ▸ List.mem_cons_self)
      · rename_i large
        split at ran
        · contradiction
        · split at ran
          · contradiction
          · rw [← Option.some.inj ran]
            refine spConnRespond_roomy ?_ ?_
            · exact spConnReset_roomy rfl
            · rcases fits req waiting (by omega) with room | full
              · exact .inl room
              · right
                simp only [spConnReset]
                cases input : conn.ifcall with
                | none => simpa [input, spConnFreeIncall] using full
                | some fc =>
                    simp only [input, Option.isSome_some, if_true] at full
                    unfold spConnFreeIncall
                    simp only
                    split <;> simp only <;> omega
  · contradiction

theorem spAnswer_roomy {ref count : Nat} {rc : Option (List UInt8)} (roomy : Roomy conn) :
    Roomy (spAnswer conn ref rc count) := by
  unfold spAnswer
  split
  · exact roomy
  · rename_i req found
    refine spConnRespond_roomy ?_ (.inl ?_)
    · refine ⟨roomy.input, roomy.read, roomy.free, ?_⟩
      intro other member
      exact roomy.requests other (List.mem_of_mem_filter member)
    · exact roomy.requests req (List.mem_of_find?_eq_some found)

theorem step_roomy {event : ConnEvent} (roomy : Roomy conn) (fits : VersionFits conn event)
    (stepped : conn.step event = some next) : Roomy next := by
  cases event with
  | receive data =>
      simp only [Spconn.step] at stepped
      split at stepped
      · exact Option.some.inj stepped ▸ roomy
      · exact spConnReceive_roomy roomy stepped
  | next => exact spConnNext_roomy roomy stepped
  | version rc count => exact spVersion_roomy roomy fits stepped
  | answer ref rc count => exact Option.some.inj stepped ▸ spAnswer_roomy roomy
  | write count => exact Option.some.inj stepped ▸ spConnWrite_roomy roomy

end Xcpu.Libspfs.Conn
