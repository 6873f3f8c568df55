import Mathlib.Data.List.TakeWhile
import Xcpu.Xcpufs.Auth

/-!
The passkey that a parent session gives to its children, and what the two sides hash: the server
its stored passkey behind the authid (`xauth_checkauth`), the child the passkey it was given
behind the authid it read (`tspawn_auth`).
-/

namespace Xcpu.Xcpufs.Auth

open Xcpu.Overwrite

section Child

variable {User Key : Type}

/-- `cutbuf` of the authid. -/
def xauthRead (auth : Xauth User) (offset count : Nat) : Bytes := (auth.authid.drop offset).take count

/-- The loop of `spc_read`: one Tread for each chunk, until nothing more comes. -/
def spcReadLoop (read : Nat → Nat → Bytes) (count chunk : Nat) : Nat → Nat → Bytes
  | 0, _ => []
  | steps + 1, n =>
      if n < count then
        let data := read n (min (count - n) chunk)
        if data = [] then []
        else data ++ spcReadLoop read count chunk steps (n + data.length)
      else []

/-- Each round returns a byte or is the last, so there are no more rounds than bytes. -/
def spcRead (read : Nat → Nat → Bytes) (count chunk : Nat) : Bytes :=
  spcReadLoop read count chunk (count + 1) 0

/-- What `tspawn_auth` hashes: the authid, read into the 1024 bytes of `buf`, and the passkey. -/
def tspawnInput (auth : Xauth User) (passkey : Bytes) (chunk : Nat) : Bytes :=
  spcRead (xauthRead auth) 1024 chunk ++ cstr passkey

/-- The response that `tspawn_auth` writes to the auth fid. -/
def tspawnAuth (crypto : Crypto User Key) (auth : Xauth User) (passkey : Bytes) (chunk : Nat) :
    Option Bytes :=
  crypto.xauthHash (tspawnInput auth passkey chunk)

end Child

/-- `pkey_gen` encrypts the first 32 bytes of the passkey for its user. -/
def passkeyGiven (random : Fin 16 → UInt8) : Bytes := (passkeyBuf random).take 32

-- '0' to '9' and 'a' to 'f'
def HexDigit (c : UInt8) : Prop := (48 ≤ c ∧ c ≤ 57) ∨ (97 ≤ c ∧ c ≤ 102)

instance (c : UInt8) : Decidable (HexDigit c) := inferInstanceAs (Decidable (_ ∨ _))

/-- Both sides hash the whole authid and the same 32 digits, whatever the size of the child's
reads, and so the child's response is the hash that the server computes. -/
def PasskeyAgrees {User Key : Type} (crypto : Crypto User Key) (auth : Xauth User) (p : Passkey User)
    (given : Bytes) : Prop :=
  ∃ digits : Bytes, digits.length = 32 ∧ (∀ c ∈ digits, HexDigit c) ∧
    hashInput auth p = auth.authid ++ digits ∧
    ∀ chunk, 0 < chunk → tspawnInput auth given chunk = auth.authid ++ digits ∧
      tspawnAuth crypto auth given chunk = crypto.xauthHash (hashInput auth p)

/-- The digits of a byte that the next `sprintf` leaves. -/
def pair (b : UInt8) : Bytes := (hexChar b).take 2

theorem pair_length (b : UInt8) : (pair b).length = 2 := by
  unfold pair hexChar
  dsimp only
  split <;> rfl

theorem hexDigit_digit : ∀ n < 16, HexDigit (hexDigit n) := by decide

theorem pair_digits (b : UInt8) : ∀ c ∈ pair b, HexDigit c := by
  intro c member
  have bound := b.toNat_lt
  unfold pair hexChar at member
  dsimp only at member
  split at member
  · rename_i plain
    simp only [List.take_succ_cons, List.take_zero, List.mem_cons, List.not_mem_nil, or_false] at member
    rcases member with high | low
    · exact high ▸ hexDigit_digit _ (by omega)
    · exact low ▸ hexDigit_digit _ (by omega)
  · have same : c = 102 := by simpa using member
    rw [same]
    decide

theorem HexDigit.ne_zero {c : UInt8} (digit : HexDigit c) : c ≠ 0 := by
  rintro rfl
  exact absurd digit (by decide)

theorem cstr_digits {text rest : Bytes} (plain : ∀ c ∈ text, c ≠ 0) : cstr (text ++ rest) = text ++ cstr rest := by
  unfold cstr
  rw [List.takeWhile_append_of_pos]
  intro c member
  simpa using plain c member

/-- The digits that the first `count` rounds of the loop of `pkey_gen` leave behind. -/
def digitsOf (random : Fin 16 → UInt8) (count : Nat) : Bytes :=
  ((List.finRange 16).take count).flatMap fun i => pair (random i)

theorem finRange_take_succ {count : Nat} (more : count < 16) :
    (List.finRange 16).take (count + 1) = (List.finRange 16).take count ++ [⟨count, more⟩] := by
  have long : count < (List.finRange 16).length := by simpa using more
  rw [List.take_succ_eq_append_getElem long]
  simp

theorem digitsOf_succ (random : Fin 16 → UInt8) {count : Nat} (more : count < 16) :
    digitsOf random (count + 1) = digitsOf random count ++ pair (random ⟨count, more⟩) := by
  rw [digitsOf, finRange_take_succ more, List.flatMap_append, List.flatMap_singleton]
  rfl

theorem digitsOf_length (random : Fin 16 → UInt8) (count : Nat) (within : count ≤ 16) :
    (digitsOf random count).length = 2 * count := by
  induction count with
  | zero => rfl
  | succ count ih =>
      rw [digitsOf_succ random (by omega), List.length_append, ih (by omega), pair_length]
      omega

theorem digitsOf_digits (random : Fin 16 → UInt8) (count : Nat) : ∀ c ∈ digitsOf random count, HexDigit c := by
  intro c member
  obtain ⟨i, -, digit⟩ := List.mem_flatMap.mp member
  exact pair_digits (random i) c digit

/-- One `sprintf` of the loop. -/
theorem overwrite_hexChar {front rest : Bytes} {count : Nat} (b : UInt8) (size : front.length = 2 * count) :
    overwrite (front ++ rest) (count * 2) (hexChar b ++ [0]) =
      (front ++ pair b) ++ ((hexChar b).drop 2 ++ 0 :: rest.drop ((hexChar b).length + 1)) := by
  have start : count * 2 = front.length := by omega
  rw [overwrite, start, List.take_left', List.drop_append, List.length_append]
  · have past : front.drop (front.length + ((hexChar b).length + [(0 : UInt8)].length)) = [] :=
      List.drop_eq_nil_of_le (by omega)
    have split : hexChar b = pair b ++ (hexChar b).drop 2 := (List.take_append_drop 2 (hexChar b)).symm
    rw [past, Nat.add_sub_cancel_left]
    simp only [List.append_assoc, List.cons_append, List.nil_append, List.length_cons, List.length_nil]
    rw [← List.append_assoc (pair b), ← split]
  · rfl

/-- Every round leaves its own pair of digits in place of the end of the round before. -/
theorem passkeyBuf_rounds (random : Fin 16 → UInt8) (count : Nat) (within : count ≤ 16) :
    ∃ rest, ((List.finRange 16).take count).foldl
      (fun mem i => overwrite mem (i.val * 2) (hexChar (random i) ++ [0])) (List.replicate 64 0) =
        digitsOf random count ++ rest := by
  induction count with
  | zero => exact ⟨List.replicate 64 0, rfl⟩
  | succ count ih =>
      obtain ⟨rest, written⟩ := ih (by omega)
      rw [finRange_take_succ (by omega), List.foldl_append, written]
      refine ⟨(hexChar (random ⟨count, by omega⟩)).drop 2 ++
        0 :: rest.drop ((hexChar (random ⟨count, by omega⟩)).length + 1), ?_⟩
      rw [digitsOf_succ random (by omega)]
      exact overwrite_hexChar (random ⟨count, by omega⟩) (digitsOf_length random count (by omega))

/-- The digits of the last byte that nothing overwrites: none, or six of a negative `char`. -/
def leftover (random : Fin 16 → UInt8) : Bytes := (hexChar (random 15)).drop 2

theorem passkeyBuf_split (random : Fin 16 → UInt8) :
    ∃ rest, passkeyBuf random = digitsOf random 16 ++ (leftover random ++ 0 :: rest) := by
  obtain ⟨rest, written⟩ := passkeyBuf_rounds random 15 (by omega)
  have all : List.finRange 16 = (List.finRange 16).take 15 ++ [15] := by decide
  refine ⟨rest.drop ((hexChar (random 15)).length + 1), ?_⟩
  rw [passkeyBuf, all, List.foldl_append, written, digitsOf_succ random (by omega : 15 < 16)]
  exact overwrite_hexChar (random 15) (digitsOf_length random 15 (by omega))

theorem leftover_ne_zero (random : Fin 16 → UInt8) : ∀ c ∈ leftover random, c ≠ 0 := by
  intro c member
  have bound := (random 15).toNat_lt
  unfold leftover hexChar at member
  dsimp only at member
  split at member
  · simp at member
  · have digits : c = 102 ∨ c = hexDigit ((random 15).toNat / 16) ∨ c = hexDigit ((random 15).toNat % 16) := by
      simpa using member
    rcases digits with rest | high | low
    · rw [rest]
      decide
    · exact high ▸ (hexDigit_digit _ (by omega)).ne_zero
    · exact low ▸ (hexDigit_digit _ (by omega)).ne_zero

theorem leftover_eq_nil (random : Fin 16 → UInt8) : leftover random = [] ↔ (random 15).toNat < 128 := by
  unfold leftover hexChar
  dsimp only
  split
  · rename_i plain
    simp [plain]
  · rename_i negative
    simp [negative]

theorem passkey_stored (random : Fin 16 → UInt8) :
    cstr (passkeyBuf random) = digitsOf random 16 ++ leftover random := by
  obtain ⟨rest, split⟩ := passkeyBuf_split random
  rw [split, cstr_digits fun c member => (digitsOf_digits random 16 c member).ne_zero,
    cstr_digits (leftover_ne_zero random)]
  simp [cstr]

theorem passkey_given (random : Fin 16 → UInt8) : cstr (passkeyGiven random) = digitsOf random 16 := by
  obtain ⟨rest, split⟩ := passkeyBuf_split random
  have first : passkeyGiven random = digitsOf random 16 := by
    rw [passkeyGiven, split, List.take_left' (digitsOf_length random 16 (by omega))]
  have plain := @cstr_digits _ [] fun c member => (digitsOf_digits random 16 c member).ne_zero
  rw [first]
  simpa [cstr] using plain

section Agreement

variable {User Key : Type}

theorem spcReadLoop_authid (auth : Xauth User) {chunk : Nat} (positive : 0 < chunk)
    (short : auth.authid.length < 1024) (steps n : Nat) (enough : auth.authid.length - n < steps) :
    spcReadLoop (xauthRead auth) 1024 chunk steps n = auth.authid.drop n := by
  induction steps generalizing n with
  | zero => omega
  | succ steps ih =>
      simp only [spcReadLoop]
      split
      · rename_i more
        split
        · rename_i empty
          have past : auth.authid.length ≤ n := by
            have size := congrArg List.length empty
            simp only [xauthRead, List.length_take, List.length_drop, List.length_nil] at size
            omega
          rw [List.drop_eq_nil_of_le past]
        · rename_i nonempty
          have some_read : 0 < (xauthRead auth n (min (1024 - n) chunk)).length := List.length_pos_iff.mpr nonempty
          have left : (xauthRead auth n (min (1024 - n) chunk)).length ≤ auth.authid.length - n := by
            simp only [xauthRead, List.length_take, List.length_drop]
            omega
          rw [ih _ (by omega), ← List.drop_drop]
          have same : (auth.authid.drop n).drop (xauthRead auth n (min (1024 - n) chunk)).length =
              (auth.authid.drop n).drop (min (1024 - n) chunk) := by
            simp only [xauthRead, List.length_take]
            rcases Nat.le_total (min (1024 - n) chunk) (auth.authid.drop n).length with few | many
            · rw [Nat.min_eq_left few]
            · rw [Nat.min_eq_right many, List.drop_length, List.drop_eq_nil_of_le many]
          rw [same, xauthRead, List.take_append_drop]
      · rw [List.drop_eq_nil_of_le (by omega)]

theorem tspawnInput_given (auth : Xauth User) (random : Fin 16 → UInt8) {chunk : Nat} (positive : 0 < chunk)
    (short : auth.authid.length < 1024) :
    tspawnInput auth (passkeyGiven random) chunk = auth.authid ++ digitsOf random 16 := by
  rw [tspawnInput, spcRead, spcReadLoop_authid auth positive short 1025 0 (by omega), List.drop_zero, passkey_given]

theorem hashInput_plain (auth : Xauth User) (p : Passkey User) (plain : ∀ c ∈ auth.authid, c ≠ 0) :
    hashInput auth p = auth.authid ++ cstr (p.passkey ++ [0]) := by
  rw [hashInput, List.append_assoc, cstr_digits plain]

theorem hashInput_zero (auth : Xauth User) (p : Passkey User) (zero : ∃ c ∈ auth.authid, c = 0) :
    (hashInput auth p).length < auth.authid.length := by
  obtain ⟨c, member, rfl⟩ := zero
  obtain ⟨front, back, split⟩ := List.append_of_mem member
  rw [hashInput, split]
  have stops : cstr (front ++ 0 :: back ++ p.passkey ++ [0]) = cstr front ∨
      cstr (front ++ 0 :: back ++ p.passkey ++ [0]) = front := by
    by_cases plain : ∀ c ∈ front, c ≠ 0
    · right
      rw [List.append_assoc, List.append_assoc, cstr_digits plain]
      simp [cstr]
    · left
      unfold cstr
      rw [List.append_assoc, List.append_assoc, List.takeWhile_append, if_neg]
      intro whole
      apply plain
      have kept : front.takeWhile (· != 0) = front := (List.takeWhile_prefix _).eq_of_length whole
      simpa using List.takeWhile_eq_self_iff.mp kept
  have shorter : (cstr front).length ≤ front.length := (List.takeWhile_prefix _).length_le
  rw [List.length_append, List.length_cons]
  rcases stops with same | same <;> rw [same] <;> omega

/-- The two sides agree exactly when the authid has no zero byte and the last random byte of the
passkey is no negative `char`. -/
theorem passkey_agrees_iff (crypto : Crypto User Key) (user : User) (authid random : Fin 16 → UInt8) :
    PasskeyAgrees crypto (xauthStartauth user authid) ⟨user, cstr (passkeyBuf random)⟩ (passkeyGiven random) ↔
      (∀ i, authid i ≠ 0) ∧ (random 15).toNat < 128 := by
  have short : (xauthStartauth user authid).authid.length < 1024 := by
    simp [xauthStartauth]
  have bytes : (∀ c ∈ (xauthStartauth user authid).authid, c ≠ 0) ↔ ∀ i, authid i ≠ 0 := by
    simp only [xauthStartauth, List.mem_ofFn, forall_exists_index, forall_apply_eq_imp_iff]
  rw [← bytes, ← leftover_eq_nil]
  constructor
  · rintro ⟨digits, size, -, server, -⟩
    have plain : ∀ c ∈ (xauthStartauth user authid).authid, c ≠ 0 := by
      intro c member zero
      have shorter := hashInput_zero (xauthStartauth user authid) ⟨user, cstr (passkeyBuf random)⟩ ⟨c, member, zero⟩
      rw [server, List.length_append] at shorter
      omega
    refine ⟨plain, ?_⟩
    rw [hashInput_plain _ _ plain, passkey_stored, List.append_assoc] at server
    have stored := List.append_cancel_left server
    rw [cstr_digits fun c member => (digitsOf_digits random 16 c member).ne_zero,
      cstr_digits (leftover_ne_zero random)] at stored
    have length := congrArg List.length stored
    simp only [List.length_append, digitsOf_length random 16 (Nat.le_refl 16), size] at length
    exact List.length_eq_zero_iff.mp (by omega)
  · rintro ⟨plain, none⟩
    have server : hashInput (xauthStartauth user authid) ⟨user, cstr (passkeyBuf random)⟩ =
        (xauthStartauth user authid).authid ++ digitsOf random 16 := by
      rw [hashInput_plain _ _ plain, passkey_stored, none, List.append_nil,
        cstr_digits fun c member => (digitsOf_digits random 16 c member).ne_zero]
      simp [cstr]
    refine ⟨digitsOf random 16, digitsOf_length random 16 (Nat.le_refl 16), digitsOf_digits random 16, server, ?_⟩
    intro chunk positive
    have child := tspawnInput_given (xauthStartauth user authid) random positive short
    exact ⟨child, by rw [tspawnAuth, child, server]⟩

/-- An authid that begins with a zero byte. -/
theorem zeroAuthid_disagrees : ¬ @PasskeyAgrees Unit Unit ⟨fun _ => .absent, (), fun _ _ _ => false, some⟩
    (xauthStartauth () fun _ => 0) ⟨(), cstr (passkeyBuf fun _ => 1)⟩ (passkeyGiven fun _ => 1) := by
  rintro ⟨digits, -, -, server, -⟩
  have shorter := hashInput_zero (xauthStartauth () fun _ => 0) ⟨(), cstr (passkeyBuf fun _ => 1)⟩
    ⟨0, by decide, rfl⟩
  rw [server, List.length_append] at shorter
  omega

end Agreement

end Xcpu.Xcpufs.Auth
