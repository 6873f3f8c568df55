import Xcpu.Lib.Packet

/-!
Encoders of little-endian packets, and what a strict reader finds in their bytes. `Rest`
says which bytes are left to read; each reading step of a tree takes its own bytes away.
-/

namespace Xcpu.Packet

def littleBytes : Nat → Nat → List UInt8
  | 0, _ => []
  | width + 1, value => UInt8.ofNat value :: littleBytes width (value / 256)

@[simp]
theorem littleBytes_length (width value : Nat) : (littleBytes width value).length = width := by
  induction width generalizing value with
  | zero => rfl
  | succ width ih => rw [littleBytes, List.length_cons, ih]

/-- The bytes of `data` from `position` on are `bytes`, and nothing else. -/
structure Rest (data : List UInt8) (position : Nat) (bytes : List UInt8) : Prop where
  left : data.drop position = bytes
  inside : position ≤ data.length

variable {data front back : List UInt8} {position : Nat}

theorem Rest.ends (rest : Rest data position front) : position + front.length = data.length := by
  have length := congrArg List.length rest.left
  rw [List.length_drop] at length
  have inside := rest.inside
  omega

theorem Rest.skip (rest : Rest data position (front ++ back)) :
    Rest data (position + front.length) back := by
  constructor
  · rw [← List.drop_drop, rest.left, List.drop_left]
  · have ends := rest.ends
    rw [List.length_append] at ends
    omega

theorem Rest.taken (rest : Rest data position (front ++ back)) :
    (data.drop position).take front.length = front := by
  rw [rest.left, List.take_left]

theorem littleEndian_rest {width value : Nat} (rest : Rest data position (littleBytes width value ++ back)) :
    littleEndian data position width = value % 256 ^ width := by
  induction width generalizing position value with
  | zero => simp [littleEndian, Nat.mod_one]
  | succ width ih =>
      have first : byteAt data position = value % 256 := by
        have found := congrArg (fun bytes => bytes[0]?) rest.left
        simp only [littleBytes, List.cons_append, List.getElem?_drop, Nat.add_zero,
          List.getElem?_cons_zero] at found
        rw [byteAt, found]
        simp
      have split : Rest data position ([UInt8.ofNat value] ++ (littleBytes width (value / 256) ++ back)) := rest
      have later : Rest data (position + 1) (littleBytes width (value / 256) ++ back) := split.skip
      rw [littleEndian, first, ih later, Nat.pow_succ', Nat.mod_mul]

/-- A strict read of the whole packet from `position` on ends with a value that has `good`. -/
def Decodes {Value : Type} (data : List UInt8) (position : Nat) (reader : Reader Value)
    (good : Value → Prop) : Prop :=
  ∃ value, reader.strict data data.length position = .done value ∧ good value

variable {Value : Type} {good : Value → Prop}

theorem Decodes.done {value : Value} (holds : good value) : Decodes data position (.done value) good :=
  ⟨value, rfl, holds⟩

/-- A number is read as what its bytes hold of it. -/
theorem Rest.bytes {width value : Nat} {next : Nat → Reader Value}
    (rest : Rest data position (littleBytes width value ++ back))
    (later : Rest data (position + width) back → Decodes data (position + width) (next (value % 256 ^ width)) good) :
    Decodes data position (.int width next) good := by
  have ends := rest.ends
  have skipped := rest.skip
  rw [List.length_append, littleBytes_length] at ends
  rw [littleBytes_length] at skipped
  obtain ⟨result, read, holds⟩ := later skipped
  refine ⟨result, ?_, holds⟩
  rw [Reader.strict, if_pos (by omega), littleEndian_rest rest]
  exact read

theorem Rest.int {width value : Nat} {next : Nat → Reader Value}
    (rest : Rest data position (littleBytes width value ++ back)) (small : value < 256 ^ width)
    (later : Rest data (position + width) back → Decodes data (position + width) (next value) good) :
    Decodes data position (.int width next) good := by
  refine rest.bytes ?_
  rw [Nat.mod_eq_of_lt small]
  exact later

theorem Rest.slice {bytes : List UInt8} {next : Option Nat → Reader Value}
    (rest : Rest data position (bytes ++ back))
    (later : Rest data (position + bytes.length) back →
      Decodes data (position + bytes.length) (next (some position)) good) :
    Decodes data position (.slice bytes.length next) good := by
  have ends := rest.ends
  rw [List.length_append] at ends
  obtain ⟨result, read, holds⟩ := later rest.skip
  refine ⟨result, ?_, holds⟩
  rw [Reader.strict, if_pos (by omega)]
  exact read

theorem Rest.atEnd {next : Bool → Reader Value} (rest : Rest data position front)
    (later : Decodes data position (next front.isEmpty) good) :
    Decodes data position (.atEnd next) good := by
  obtain ⟨result, read, holds⟩ := later
  refine ⟨result, ?_, holds⟩
  have ended : (position == data.length) = front.isEmpty := by
    have ends := rest.ends
    cases front with
    | nil => simpa using ends
    | cons byte front =>
        rw [List.length_cons] at ends
        simp only [List.isEmpty_cons, beq_eq_false_iff_ne, ne_eq]
        omega
  rw [Reader.strict, ended]
  exact read

theorem Rest.counted {bytes : List UInt8} {finish : Nat → Option Nat → Value}
    (rest : Rest data position (littleBytes 4 bytes.length ++ bytes)) (small : bytes.length < 2 ^ 31)
    (holds : (data.drop (position + 4)).take bytes.length = bytes →
      good (finish bytes.length (some (position + 4)))) :
    Decodes data position (.counted finish) good := by
  have ends := rest.ends
  have skipped := rest.skip
  rw [List.length_append, littleBytes_length] at ends
  rw [littleBytes_length] at skipped
  refine ⟨_, ?_, holds ?_⟩
  · rw [Reader.strict, if_pos (by omega), littleEndian_rest rest, Nat.mod_eq_of_lt (by omega),
      if_neg (by omega), if_pos (by omega)]
  · rw [skipped.left, List.take_length]

end Xcpu.Packet
