import Xcpu.Libnpfs.NpRoundTrip

/-!
The two constructors of an Rerror, `create_rerror` for a C string and `create_rerror1` for a
counted one, in libspfs and in libnpfs. The second counts the two bytes of the text's length in
the size of the packet but does not store them.
-/

namespace Xcpu.Libnpfs.Rerror

open Xcpu.Libspfs

/-- The bytes of the packet as they are sent: those that the constructor stored, and behind them what was
in the block of memory before. -/
def sentPacket (memory : Nat → UInt8) (stored : List UInt8) : List UInt8 :=
  (List.range (sizeField stored)).map fun i => stored[i]?.getD (memory i)

/-- The deserialize function of the library. That of libnpfs decodes over what the message held before. -/
def decode (prev : Npfcall) (pkt : List UInt8) (dotu : Bool) : Library → Option Spfcall
  | .libspfs => spDeserialize pkt dotu
  | .libnpfs => npDeserialize prev pkt dotu

/-- Both constructors make the same packet, whatever is in memory, and it decodes to the text and the code. -/
def Agrees (lib : Library) (ename : List UInt8) (ecode : Int32) (dotu : Bool) : Prop :=
  ∃ pkt counted, createRerror lib ename ecode dotu = some pkt ∧ createRerror1 lib ename ecode dotu = some counted ∧
    ∀ memory, sentPacket memory counted = sentPacket memory pkt ∧
      ∀ prev, ∃ fc, decode prev (sentPacket memory counted) dotu lib = some fc ∧
        fc.ename.Holds (sentPacket memory counted) ename ∧ (dotu = true → fc.ecode = ecode.toUInt32.toNat)

variable {lib : Library} {ename : List UInt8} {ecode : Int32} {dotu : Bool} {memory : Nat → UInt8}
  {stored : List UInt8}

theorem sentPacket_getElem? {i : Nat} (inside : i < sizeField stored) :
    (sentPacket memory stored)[i]? = some (stored[i]?.getD (memory i)) := by
  rw [sentPacket, List.getElem?_map, List.getElem?_range inside, Option.map_some]

/-- A packet whose size is that of what was stored owes nothing to the memory. -/
theorem sentPacket_whole (sized : sizeField stored = stored.length) : sentPacket memory stored = stored := by
  apply List.ext_getElem?
  intro i
  by_cases inside : i < stored.length
  · rw [sentPacket_getElem? (by omega), List.getElem?_eq_getElem inside, Option.getD_some]
  · rw [List.getElem?_eq_none (by rw [sentPacket, List.length_map, List.length_range]; omega),
      List.getElem?_eq_none (by omega)]

theorem createRerror_sound (short : ename.length < 65536) :
    ∃ pkt, createRerror lib ename ecode dotu = some pkt ∧ sizeField pkt = pkt.length := by
  have reads : (Message.rerror ename ecode).Reads lib dotu (fcallBody dotu) := rerror_reads short
  obtain ⟨pkt, created, sized, -⟩ := reads.roundTrip trivial
  exact ⟨pkt, created, sized⟩

/-- The last two bytes of the counted packet are those that were in memory. -/
theorem createRerror1_unset (short : ename.length < 65536) :
    ∃ counted, createRerror1 lib ename ecode dotu = some counted ∧ ∀ memory,
      (sentPacket memory counted)[counted.length + 1]? = some (memory (counted.length + 1)) := by
  have encodable : (Message.rerror1 ename ecode).Encodable dotu := short
  obtain ⟨counted, created, larger⟩ := @rerror1_size lib dotu ename ecode encodable
  refine ⟨counted, created, fun memory => ?_⟩
  rw [sentPacket_getElem? (by omega), List.getElem?_eq_none (by omega), Option.getD_none]

/-- There is no text and no code for which the constructors agree. -/
theorem createRerror1_never_agrees (lib : Library) (ename : List UInt8) (ecode : Int32) (dotu : Bool)
    (short : ename.length < 65536) : ¬Agrees lib ename ecode dotu := by
  rintro ⟨pkt, counted, created, made, same⟩
  obtain ⟨other, again, sized⟩ := @createRerror_sound lib ename ecode dotu short
  rw [created, Option.some.injEq] at again
  subst other
  obtain ⟨other, again, unset⟩ := @createRerror1_unset lib ename ecode dotu short
  rw [made, Option.some.injEq] at again
  subst other
  -- memory that differs from the packet at the last byte
  have differs := congrArg (fun bytes => bytes[counted.length + 1]?)
    (same fun i => pkt[i]?.getD 0 + 1).1
  simp only [unset, sentPacket_whole sized] at differs
  cases last : pkt[counted.length + 1]? with
  | none =>
      rw [last] at differs
      cases differs
  | some byte =>
      rw [last, Option.getD_some, Option.some.injEq] at differs
      simp at differs

theorem createRerror1_never_agrees_e : ¬Agrees .libnpfs [101] 5 true :=
  createRerror1_never_agrees .libnpfs [101] 5 true (by decide)

/-- The text "e", in memory that was zero: the length of the text is 101 in the packet that is sent. -/
theorem counted_garbled : ¬Agrees .libspfs [101] 5 false ∧
    createRerror .libspfs [101] 5 false = some [10, 0, 0, 0, 107, 255, 255, 1, 0, 101] ∧
    (createRerror1 .libspfs [101] 5 false).map (sentPacket fun _ => 0) =
      some [10, 0, 0, 0, 107, 255, 255, 101, 0, 0] := by
  have created : createRerror .libspfs [101] 5 false = some [10, 0, 0, 0, 107, 255, 255, 1, 0, 101] := by
    with_unfolding_all decide
  have made : createRerror1 .libspfs [101] 5 false = some [10, 0, 0, 0, 107, 255, 255, 101] := by
    with_unfolding_all decide
  refine ⟨?_, created, by rw [made]; decide⟩
  rintro ⟨pkt, counted, first, second, same⟩
  rw [created, Option.some.injEq] at first
  rw [made, Option.some.injEq] at second
  subst first second
  exact absurd (same fun _ => 0).1 (by decide)

end Xcpu.Libnpfs.Rerror
