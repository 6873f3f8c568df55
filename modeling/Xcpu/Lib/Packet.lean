import Mathlib.Algebra.Order.Ring.Int
import Mathlib.Data.List.Basic

/-!
Decoders of little-endian packets as trees of reading steps. `strict` is what such a
tree means: it reads every field where it stands and stops at the first one that does
not lie inside the packet. Other readers of the same tree are compared with it.
-/

namespace Xcpu.Packet

/-- `counted` ends a packet: a 32-bit count and that many bytes after it. -/
inductive Reader (Value : Type) where
  | done (value : Value)
  | reject
  | int (width : Nat) (next : Nat → Reader Value)
  | slice (length : Nat) (next : Option Nat → Reader Value)
  | atEnd (next : Bool → Reader Value)
  | counted (finish : Nat → Option Nat → Value)

def byteAt (data : List UInt8) (position : Nat) : Nat := (data[position]?.getD 0).toNat

@[simp]
def littleEndian (data : List UInt8) (position : Nat) : Nat → Nat
  | 0 => 0
  | width + 1 => byteAt data position + 256 * littleEndian data (position + 1) width

theorem littleEndian_lt (data : List UInt8) (position width : Nat) :
    littleEndian data position width < 256 ^ width := by
  induction width generalizing position with
  | zero => exact Nat.one_pos
  | succ width ih =>
      have rest := ih (position + 1)
      have byte : byteAt data position < 256 := UInt8.toNat_lt _
      rw [littleEndian, Nat.pow_succ]
      omega

inductive Outcome (Value : Type) where
  | done (value : Value)
  | rejected
  -- a field that starts here does not fit
  | short (position : Nat)
  -- a count that is no longer a non-negative 32-bit signed number
  | oversized

def Reader.strict {Value : Type} (data : List UInt8) (size : Nat) :
    Nat → Reader Value → Outcome Value
  | _, .done value => .done value
  | _, .reject => .rejected
  | position, .int width next =>
      if position + width ≤ size then
        (next (littleEndian data position width)).strict data size (position + width)
      else .short position
  | position, .slice length next =>
      if position + length ≤ size then
        (next (some position)).strict data size (position + length)
      else .short position
  | position, .atEnd next => (next (position == size)).strict data size position
  | position, .counted finish =>
      if position + 4 ≤ size then
        if 2 ^ 31 ≤ littleEndian data position 4 then .oversized
        else if position + 4 + littleEndian data position 4 ≤ size then
          .done (finish (littleEndian data position 4) (some (position + 4)))
        else .short (position + 4)
      else .short position

/-- No branch that follows from zeros alone rejects. -/
def Reader.Zeros {Value : Type} : Reader Value → Prop
  | .done _ => True
  | .reject => False
  | .int _ next => (next 0).Zeros
  | .slice _ next => ∀ str, (next str).Zeros
  | .atEnd next => (next true).Zeros
  | .counted _ => True

/-- Wherever the input stops, going on with zeros does not reject. -/
def Reader.Steady {Value : Type} : Reader Value → Prop
  | .done _ => True
  | .reject => True
  | .int _ next => (next 0).Zeros ∧ ∀ value, (next value).Steady
  | .slice _ next => ∀ str, (next str).Zeros ∧ (next str).Steady
  | .atEnd next => ∀ ended, (next ended).Steady
  | .counted _ => True

/-- Two trees that read the same fields and end with related values. -/
inductive Reader.Alike {Value : Type} (related : Value → Value → Prop) : Reader Value → Reader Value → Prop
  | done {first second : Value} (holds : related first second) : Alike related (.done first) (.done second)
  | reject : Alike related .reject .reject
  | int {width : Nat} {first second : Nat → Reader Value}
      (alike : ∀ value, Alike related (first value) (second value)) :
      Alike related (.int width first) (.int width second)
  | slice {length : Nat} {first second : Option Nat → Reader Value}
      (alike : ∀ str, Alike related (first str) (second str)) :
      Alike related (.slice length first) (.slice length second)
  | atEnd {first second : Bool → Reader Value} (alike : ∀ ended, Alike related (first ended) (second ended)) :
      Alike related (.atEnd first) (.atEnd second)
  | counted {first second : Nat → Option Nat → Value}
      (holds : ∀ count str, related (first count str) (second count str)) :
      Alike related (.counted first) (.counted second)

theorem Reader.Alike.mono {Value : Type} {related weaker : Value → Value → Prop} {first second : Reader Value}
    (alike : first.Alike related second) (implied : ∀ one two, related one two → weaker one two) :
    first.Alike weaker second := by
  induction alike with
  | done holds => exact .done (implied _ _ holds)
  | reject => exact .reject
  | int _ ih => exact .int ih
  | slice _ ih => exact .slice ih
  | atEnd _ ih => exact .atEnd ih
  | counted holds => exact .counted fun count str => implied _ _ (holds count str)

end Xcpu.Packet
