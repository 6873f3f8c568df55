import Xcpu.Libspfs.DirRead

/-!
`sp_serialize_stat` and `sp_deserialize_stat` by what they return. The encoding of a stat is two
bytes longer than `size_wstat`, and the check before the writes compares the buffer with the
latter.
-/

namespace Xcpu.Libspfs.SerializeStat

open Xcpu.Packet

/-- `sp_serialize_stat`: what it returns, and the bytes that it stores from the start of the buffer on. -/
def spSerializeStat (wstat : Spwstat) (buflen : Int) (dotu : Bool) : Int × List UInt8 :=
  let statsz := sizeWstat wstat dotu
  if statsz > buflen then (0, [])
  else
    match runPuts (bufPutWstat wstat statsz dotu) ⟨0, buflen⟩ with
    | none => (0, [])
    | some (written, buf) => (if buf.p > buf.ep then 0 else buf.p, written)

/-- `sp_deserialize_stat`: what it returns, and the stat that it fills in. -/
def spDeserializeStat (data : List UInt8) (buflen : Int) (dotu : Bool) : Int × Option Spstat :=
  let (stat, buf, _) := runCbuf data (bufGetStat dotu .done) ⟨0, buflen⟩
  (if buf.p > buf.ep then 0 else buf.p, stat)

structure Short (wstat : Spwstat) : Prop where
  name : strlen wstat.name < 65536
  uid : strlen wstat.uid < 65536
  gid : strlen wstat.gid < 65536
  muid : strlen wstat.muid < 65536
  extension : strlen wstat.extension < 65536

/-- The stat that is read from the bytes. Its size is the one that was computed, as a `u16`. -/
structure Restored (wstat : Spwstat) (dotu : Bool) (data : List UInt8) (stat : Spstat) : Prop where
  size : stat.size = sizeWstat wstat dotu % 65536
  fields : ({ stat with size := sizeWstat wstat dotu } : Spstat).Holds data wstat dotu

/-- The call returns the length of the whole encoding if the buffer has room for it, and 0 otherwise. -/
structure Exact (wstat : Spwstat) (buflen : Int) (dotu : Bool) : Prop where
  positive : 0 < (spSerializeStat wstat buflen dotu).1 ↔ 2 + sizeWstat wstat dotu ≤ buflen
  whole : 0 < (spSerializeStat wstat buflen dotu).1 →
    (spSerializeStat wstat buflen dotu).1 = 2 + sizeWstat wstat dotu ∧
    (spSerializeStat wstat buflen dotu).2.length = (spSerializeStat wstat buflen dotu).1 ∧
    ∃ stat, spDeserializeStat (spSerializeStat wstat buflen dotu).2 (spSerializeStat wstat buflen dotu).1 dotu =
        ((spSerializeStat wstat buflen dotu).1, some stat) ∧
      Restored wstat dotu (spSerializeStat wstat buflen dotu).2 stat
  otherwise : ¬0 < (spSerializeStat wstat buflen dotu).1 → (spSerializeStat wstat buflen dotu).1 = 0
  inside : (spSerializeStat wstat buflen dotu).2.length ≤ max buflen 0

section Runs

variable {Value : Type} {good : Value → Nat → Prop} {data back : List UInt8} {position : Nat}

/-- A run of the layout from `position` on stores a value and stops where `good` says. -/
def Runs (data : List UInt8) (position : Nat) (reader : Reader Value) (good : Value → Nat → Prop) : Prop :=
  ∃ value stop log, runCbuf data reader ⟨position, data.length⟩ = (some value, ⟨(stop : Nat), data.length⟩, log) ∧
    good value stop

theorem runs_done {value : Value} (holds : good value position) : Runs data position (.done value) good :=
  ⟨value, position, [], rfl, holds⟩

theorem runs_int {width value : Nat} {next : Nat → Reader Value}
    (rest : Rest data position (littleBytes width value ++ back))
    (later : Rest data (position + width) back → Runs data (position + width) (next (value % 256 ^ width)) good) :
    Runs data position (.int width next) good := by
  have ends := rest.ends
  have skipped := rest.skip
  rw [List.length_append, littleBytes_length] at ends
  rw [littleBytes_length] at skipped
  obtain ⟨result, stop, log, ran, holds⟩ := later skipped
  refine ⟨result, stop, ⟨false, position, width, true⟩ :: log, ?_, holds⟩
  rw [runCbuf, bufGetInt_fits data (by dsimp only; omega)]
  simp only [Int.toNat_natCast, Option.getD_some, littleEndian_rest rest]
  rw [show ((position : Int) + (width : Int)) = ((position + width : Nat) : Int) by omega, ran]
  rfl

theorem runs_slice {bytes : List UInt8} {next : Option Nat → Reader Value} (rest : Rest data position (bytes ++ back))
    (later : Rest data (position + bytes.length) back →
      Runs data (position + bytes.length) (next (some position)) good) :
    Runs data position (.slice bytes.length next) good := by
  have ends := rest.ends
  rw [List.length_append] at ends
  obtain ⟨result, stop, log, ran, holds⟩ := later rest.skip
  refine ⟨result, stop, ⟨true, position, bytes.length, true⟩ :: log, ?_, holds⟩
  rw [runCbuf, bufAlloc_fits (by dsimp only; omega)]
  simp only [Int.toNat_natCast, Option.map_some]
  rw [show ((position : Int) + (bytes.length : Int)) = ((position + bytes.length : Nat) : Int) by omega, ran]
  rfl

theorem runs_str {s : Option (List UInt8)} {next : Spstr → Reader Value}
    (rest : Rest data position ((Put.str s).bytes ++ back)) (short : strlen s < 65536)
    (later : ∀ str position, Spstr.Holds str data (s.getD []) → Rest data position back →
      Runs data position (next str) good) :
    Runs data position (bufGetStr next) good := by
  simp only [Put.bytes, List.append_assoc] at rest
  refine runs_int rest fun rest => ?_
  have small : (s.getD []).length < 256 ^ 2 := short
  rw [Nat.mod_eq_of_lt small]
  exact runs_slice rest fun left => later _ _ ⟨rfl, _, rfl, rest.taken⟩ left

theorem runs_qid {qid : Qid} {next : Spqid → Reader Value}
    (rest : Rest data position ((bufPutQid qid).flatMap Put.bytes ++ back))
    (later : ∀ position, Rest data position back → Runs data position (next qid.stored) good) :
    Runs data position (bufGetQid next) good := by
  simp only [bufPutQid, List.flatMap_cons, List.flatMap_nil, Put.bytes, List.append_assoc, List.nil_append] at rest
  refine runs_int rest fun rest => runs_int rest fun rest => runs_int rest fun rest => ?_
  rw [Nat.mod_eq_of_lt (byte_lt _), Nat.mod_eq_of_lt (word_lt _), Nat.mod_eq_of_lt (long_lt _)]
  exact later _ rest

theorem runs_stat {wstat : Spwstat} {dotu : Bool} (short : Short wstat)
    (rest : Rest data position ((bufPutWstat wstat (sizeWstat wstat dotu) dotu).flatMap Put.bytes)) :
    Runs data position (bufGetStat dotu .done) fun stat stop =>
      Restored wstat dotu data stat ∧ stop = data.length := by
  rw [bufPutWstat, List.flatMap_append, List.flatMap_append, List.flatMap_append] at rest
  simp only [List.flatMap_cons, List.flatMap_nil, List.append_nil, List.append_assoc] at rest
  refine runs_int rest fun rest => runs_int rest fun rest => runs_int rest fun rest =>
    runs_qid rest fun position rest => runs_int rest fun rest => runs_int rest fun rest =>
    runs_int rest fun rest => runs_int rest fun rest => ?_
  rw [Nat.mod_eq_of_lt (short_lt _), Nat.mod_eq_of_lt (word_lt _), Nat.mod_eq_of_lt (word_lt _),
    Nat.mod_eq_of_lt (word_lt _), Nat.mod_eq_of_lt (word_lt _), Nat.mod_eq_of_lt (long_lt _)]
  refine runs_str rest short.name fun name position name_held rest => runs_str rest short.uid
    fun uid position uid_held rest => runs_str rest short.gid fun gid position gid_held rest =>
    runs_str rest short.muid fun muid position muid_held rest => ?_
  cases dotu with
  | false =>
      refine runs_done ⟨⟨rfl, ?_⟩, rest.ends⟩
      exact ⟨rfl, rfl, rfl, rfl, rfl, rfl, rfl, rfl, name_held, uid_held, gid_held, muid_held, by simp⟩
  | true =>
      simp only [if_true, List.flatMap_cons, List.flatMap_nil, List.append_nil] at rest ⊢
      refine runs_str rest short.extension fun extension position extension_held rest => ?_
      rw [← List.append_nil (Put.bytes (.int 4 wstat.nMuid.toNat))] at rest
      refine runs_int rest fun rest => runs_int rest fun rest => runs_int rest fun rest => ?_
      rw [Nat.mod_eq_of_lt (word_lt _), Nat.mod_eq_of_lt (word_lt _), Nat.mod_eq_of_lt (word_lt _)]
      refine runs_done ⟨⟨rfl, ?_⟩, rest.ends⟩
      exact ⟨rfl, rfl, rfl, rfl, rfl, rfl, rfl, rfl, name_held, uid_held, gid_held, muid_held,
        fun _ => ⟨extension_held, rfl, rfl, rfl⟩⟩

end Runs

section Returns

variable {wstat : Spwstat} {dotu : Bool} {buflen : Int}

theorem spSerializeStat_fits (fits : 2 + sizeWstat wstat dotu ≤ buflen) (small : buflen < 2 ^ 31) :
    spSerializeStat wstat buflen dotu = (((2 + sizeWstat wstat dotu : Nat) : Int), encodedStat dotu wstat) := by
  rw [spSerializeStat, if_neg (by omega), bufPutWstat_fits (by omega) small]
  dsimp only
  rw [if_neg (by omega), Nat.add_comm]

/-- One that is cut just before the length of an empty `muid` is returned as if it were whole. -/
theorem spSerializeStat_short (short : buflen < 2 + sizeWstat wstat dotu) (small : buflen < 2 ^ 31) :
    (spSerializeStat wstat buflen dotu).1 =
      (if dotu = false ∧ strlen wstat.muid = 0 ∧ buflen = sizeWstat wstat dotu then buflen else 0) ∧
    (spSerializeStat wstat buflen dotu).2.length ≤ max buflen 0 := by
  rw [spSerializeStat]
  split
  · rename_i room
    rw [if_neg (by omega)]
    exact ⟨rfl, by simp⟩
  · rename_i room
    obtain ⟨written, ran, inside⟩ := @bufPutWstat_short dotu wstat buflen (by omega) (by omega) small
    rw [ran]
    dsimp only
    refine ⟨?_, by omega⟩
    split_ifs <;> omega

theorem spDeserializeStat_encoded (short : Short wstat) :
    ∃ stat, spDeserializeStat (encodedStat dotu wstat) (2 + sizeWstat wstat dotu : Nat) dotu =
      (((2 + sizeWstat wstat dotu : Nat) : Int), some stat) ∧ Restored wstat dotu (encodedStat dotu wstat) stat := by
  have length : (encodedStat dotu wstat).length = 2 + sizeWstat wstat dotu := by
    rw [encodedStat_length, Nat.add_comm]
  have start : Rest (encodedStat dotu wstat) 0 (encodedStat dotu wstat) := ⟨rfl, Nat.zero_le _⟩
  obtain ⟨stat, stop, log, ran, restored, ended⟩ := runs_stat short start
  refine ⟨stat, ?_, restored⟩
  have decoded : runCbuf (encodedStat dotu wstat) (bufGetStat dotu .done) ⟨0, (encodedStat dotu wstat).length⟩ = _ := ran
  rw [spDeserializeStat, ← length, decoded, ended]
  dsimp only
  rw [if_neg (by omega)]

end Returns

/-- Only a stat with an empty `muid`, without the fields of 9P2000.u, in a buffer of exactly `size_wstat`
bytes is taken for whole when it is not. -/
theorem spSerializeStat_exact_iff (wstat : Spwstat) (buflen : Int32) (dotu : Bool) (short : Short wstat) :
    Exact wstat buflen.toInt dotu ↔
      ¬(dotu = false ∧ strlen wstat.muid = 0 ∧ buflen.toInt = sizeWstat wstat dotu) := by
  have small : buflen.toInt < 2 ^ 31 := Int32.toInt_lt buflen
  by_cases fits : 2 + sizeWstat wstat dotu ≤ buflen.toInt
  · have returned := spSerializeStat_fits fits small
    obtain ⟨stat, decoded, restored⟩ := @spDeserializeStat_encoded wstat dotu short
    have length : (encodedStat dotu wstat).length = 2 + sizeWstat wstat dotu := by
      rw [encodedStat_length, Nat.add_comm]
    refine iff_of_true ?_ (by omega)
    constructor
    · rw [returned]
      dsimp only
      omega
    · intro _
      rw [returned]
      exact ⟨by dsimp only; omega, by dsimp only; omega, stat, decoded, restored⟩
    · rw [returned]
      dsimp only
      omega
    · rw [returned]
      dsimp only
      omega
  · obtain ⟨returned, inside⟩ := @spSerializeStat_short wstat dotu buflen.toInt (by omega) small
    by_cases cut : dotu = false ∧ strlen wstat.muid = 0 ∧ buflen.toInt = sizeWstat wstat dotu
    · rw [if_pos cut] at returned
      refine iff_of_false ?_ (not_not_intro cut)
      intro whole
      have size : 0 < sizeWstat wstat dotu := by
        rw [sizeWstat]
        omega
      have positive := whole.positive.mp (by omega)
      omega
    · rw [if_neg cut] at returned
      refine iff_of_true ?_ cut
      exact ⟨by omega, by omega, fun _ => returned, inside⟩

theorem spSerializeStat_exact_unnamed :
    Exact unnamed (Int32.ofNat 48).toInt false ↔
      ¬(false = false ∧ strlen unnamed.muid = 0 ∧ (Int32.ofNat 48).toInt = sizeWstat unnamed false) :=
  spSerializeStat_exact_iff unnamed (Int32.ofNat 48) false ⟨by decide, by decide, by decide, by decide, by decide⟩

/-- A stat without names needs 49 bytes. Of a buffer of 47 all are used, and 47 is returned. -/
theorem unnamed_cut : Short unnamed ∧ ¬Exact unnamed (Int32.ofNat 47).toInt false ∧
    (spSerializeStat unnamed (Int32.ofNat 47).toInt false).1 = 47 := by
  have returned : (spSerializeStat unnamed (Int32.ofNat 47).toInt false).1 = 47 := by decide
  refine ⟨⟨by decide, by decide, by decide, by decide, by decide⟩, fun whole => ?_, returned⟩
  have room := whole.positive.mp (by rw [returned]; decide)
  exact absurd room (by decide)

end Xcpu.Libspfs.SerializeStat
