import Xcpu.Libspfs.NpRoundTrip

/-!
The constructors of `np.c` that take strings, for strings of any length. The length of a string and the size
of a packet are `int`s here: a string keeps the length that is left of it modulo 2^32, its prefix sixteen bits
of that, and the size wraps around as the sum does.
-/

namespace Xcpu.Libspfs.LongStrings

open Xcpu.Packet

/-- `buf_put_str`. There is no result where its `memmove` leaves the packet. -/
def bufPutStr (s : List UInt8) (buf : Cbuf) : Option (List UInt8 × Cbuf) :=
  let slen := int32 s.length
  match bufCheckSize buf (int32 (2 + s.length)) with
  | (false, buf) => some ([], buf)
  | (true, buf) =>
      let (len, buf) := bufPut (littleBytes 2 s.length) buf
      match bufAlloc buf slen with
      | (none, buf) => if slen = 0 then some (len, buf) else none
      | (some _, buf) => if slen < 0 then none else some (len ++ s.take slen.toNat, buf)

def putStep : Put → Cbuf → Option (List UInt8 × Cbuf)
  | .str s, buf => bufPutStr (s.getD []) buf
  | put, buf => some (bufPut put.bytes buf)

/-- What each call puts. -/
def runSteps : List Put → Cbuf → Option (List (List UInt8) × Cbuf)
  | [], buf => some ([], buf)
  | put :: puts, buf => do
      let (bytes, buf) ← putStep put buf
      let (rest, final) ← runSteps puts buf
      some (bytes :: rest, final)

/-- The size of the packet, as the `u32` that `sp_create_common` makes of the sum. -/
def packetSize (size : Nat) : Nat := (size + 4 + 1 + 2) % 2 ^ 32

/-- The calls of `sp_create_common` and of one constructor. -/
def steps (id : FcallType) (size : Nat) (puts : List Put) : List Put :=
  .int 4 (packetSize size) :: .int 1 id.number :: .int 2 notag :: puts

/-- `sp_create_common`, the calls of one constructor and `sp_post_check`: the pieces of a packet, or a null
pointer, or no result. -/
def createPacket (malloc : Bool) (id : FcallType) (size : Nat) (puts : List Put) :
    Option (Option (List (List UInt8))) :=
  if int32 (sizeofSpfcall + packetSize size) < 0 ∨ malloc = false then some none
  -- the `memset` of the message leaves the block
  else if 2 ^ 32 ≤ sizeofSpfcall + packetSize size then none
  else do
    let (written, buf) ← runSteps (steps id size puts) ⟨0, packetSize size⟩
    some (if buf.p > buf.ep then none else some written)

/-- A constructor that takes strings, with its arguments. -/
inductive Encoder where
  | tversion (msize : UInt32) (version : List UInt8)
  | rversion (msize : UInt32) (version : List UInt8)
  | tauth (fid : UInt32) (uname aname : Option (List UInt8)) (nUname : UInt32)
  | rerror (ename : List UInt8) (ecode : Int32)
  | tattach (fid afid : UInt32) (uname aname : Option (List UInt8)) (nUname : UInt32)
  | twalk (fid newfid : UInt32) (wnames : List (List UInt8))
  | tcreate (fid : UInt32) (name : List UInt8) (perm : UInt32) (mode : UInt8) (extension : Option (List UInt8))
  | rstat (wstat : Spwstat)
  | twstat (fid : UInt32) (wstat : Spwstat)

namespace Encoder

def message : Encoder → Message
  | tversion msize version => .tversion msize version
  | rversion msize version => .rversion msize version
  | tauth fid uname aname nUname => .tauth fid uname aname nUname
  | rerror ename ecode => .rerror ename ecode
  | tattach fid afid uname aname nUname => .tattach fid afid uname aname nUname
  | twalk fid newfid wnames => .twalk fid newfid wnames
  | tcreate fid name perm mode extension => .tcreate fid name perm mode extension
  | rstat wstat => .rstat wstat
  | twstat fid wstat => .twstat fid wstat

/-- The size that the constructor declares. -/
def size (dotu : Bool) : Encoder → Nat
  | tversion _ version | rversion _ version => 4 + 2 + version.length
  | tauth _ uname aname _ => 4 + 2 + 2 + strlen uname + strlen aname + if dotu then 4 else 0
  | rerror ename _ => 2 + ename.length + if dotu then 4 else 0
  | tattach _ _ uname aname _ => 4 + 4 + 2 + 2 + strlen uname + strlen aname + if dotu then 4 else 0
  | twalk _ _ wnames => 4 + 4 + 2 + wnames.length * 2 + (wnames.map List.length).sum
  | tcreate _ name _ _ extension =>
      let size := 4 + 2 + name.length + 4 + 1
      if dotu then size + 2 + strlen extension else size
  | rstat wstat => 2 + 2 + sizeWstat wstat dotu
  | twstat _ wstat => 4 + 2 + 2 + sizeWstat wstat dotu

/-- What it puts into the packet. -/
def puts (dotu : Bool) : Encoder → List Put
  | tversion msize version | rversion msize version => [.int 4 msize.toNat, .str (some version)]
  | tauth fid uname aname nUname =>
      [.int 4 fid.toNat, .str uname, .str aname] ++ if dotu then [.int 4 nUname.toNat] else []
  | rerror ename ecode => .str (some ename) :: if dotu then [.int 4 ecode.toUInt32.toNat] else []
  | tattach fid afid uname aname nUname =>
      [.int 4 fid.toNat, .int 4 afid.toNat, .str uname, .str aname] ++ if dotu then [.int 4 nUname.toNat] else []
  | twalk fid newfid wnames => [.int 4 fid.toNat, .int 4 newfid.toNat, .int 2 wnames.length] ++
      wnames.map fun wname => .str (some wname)
  | tcreate fid name perm mode extension =>
      [.int 4 fid.toNat, .str (some name), .int 4 perm.toNat, .int 1 mode.toNat] ++
        if dotu then [.str extension] else []
  | rstat wstat => .int 2 (sizeWstat wstat dotu + 2) :: bufPutWstat wstat (sizeWstat wstat dotu) dotu
  | twstat fid wstat =>
      .int 4 fid.toNat :: .int 2 (sizeWstat wstat dotu + 2) :: bufPutWstat wstat (sizeWstat wstat dotu) dotu

/-- More names than `MAXWELEM` are refused before anything else. -/
def TooMany : Encoder → Prop
  | twalk _ _ wnames => maxwelem < wnames.length
  | _ => False

instance (e : Encoder) : Decidable e.TooMany := by
  cases e <;> unfold TooMany <;> infer_instance

/-- All calls that put something into the packet. -/
def steps (dotu : Bool) (e : Encoder) : List Put :=
  LongStrings.steps e.message.type (e.size dotu) (e.puts dotu)

def create (malloc dotu : Bool) (e : Encoder) : Option (Option (List (List UInt8))) :=
  if e.TooMany then some none else createPacket malloc e.message.type (e.size dotu) (e.puts dotu)

/-- The sizes and the calls are those of the constructors of `Message`, where strings are short. -/
theorem create_message {dotu : Bool} {e : Encoder} (few : ¬e.TooMany) :
    e.message.create .libspfs dotu = Libspfs.createPacket .libspfs e.message.type (e.size dotu) (e.puts dotu) := by
  cases e with
  | twalk fid newfid wnames => exact if_neg few
  | _ => cases dotu <;> rfl

end Encoder

/-- How far a field moves the cursor. -/
def width (put : Put) : Int := int32 put.bytes.length

def widths (puts : List Put) : Int := (puts.map width).sum

/-- A field of the messages with strings. -/
def Plain : Put → Prop
  | .int width _ => 0 < width ∧ width ≤ 8
  | .str _ => True
  | _ => False

/-- A string whose length is no negative `int`, also with the two bytes of its prefix. -/
def Sane (put : Put) : Prop := match put with
  | .str _ => 2 ≤ width put
  | _ => 0 < width put

/-- The string that is put, which is as much of it as its `int` counts. -/
def cutStr (s : List UInt8) : List UInt8 := s.take (int32 s.length).toNat

def cutPut : Put → Put
  | .str s => .str (s.map cutStr)
  | put => put

section Steps

variable {put : Put} {p ep : Int}

theorem int32_bounds (value : Nat) : -2 ^ 31 ≤ int32 value ∧ int32 value < 2 ^ 31 := by
  unfold int32
  split <;> omega

/-- An `int` and the number that it stands for differ by a multiple of 2^32. -/
theorem int32_mod (value : Nat) : ∃ k : Int, int32 value = value - 2 ^ 32 * k := by
  unfold int32
  split
  · exact ⟨(value / 2 ^ 32 : Nat), by omega⟩
  · exact ⟨(value / 2 ^ 32 : Nat) + 1, by omega⟩

/-- The width of a string is two more than its length, but where that is no `int`. -/
theorem width_str (s : Option (List UInt8)) :
    width (.str s) = int32 (s.getD []).length + 2 ∨
      2 ^ 31 - 2 ≤ int32 (s.getD []).length ∧ width (.str s) < 0 := by
  have bytes : (Put.str s).bytes.length = 2 + (s.getD []).length := by
    simp [Put.bytes]
  rw [width, bytes]
  obtain ⟨j, first⟩ := int32_mod (s.getD []).length
  obtain ⟨k, second⟩ := int32_mod (2 + (s.getD []).length)
  have bounds := int32_bounds (s.getD []).length
  have bounds' := int32_bounds (2 + (s.getD []).length)
  omega

theorem width_int {wide value : Nat} (plain : Plain (.int wide value)) : width (.int wide value) = wide := by
  rw [width, Put.bytes, littleBytes_length]
  exact int32_small (by have := plain.2; omega)

theorem cutStr_length (s : List UInt8) : (cutStr s).length = (int32 s.length).toNat := by
  rw [cutStr, List.length_take]
  obtain ⟨k, same⟩ := int32_mod s.length
  have bounds := int32_bounds s.length
  omega

theorem littleBytes_congr {wide first second : Nat} (same : first % 256 ^ wide = second % 256 ^ wide) :
    littleBytes wide first = littleBytes wide second := by
  induction wide generalizing first second with
  | zero => rfl
  | succ wide ih =>
      rw [Nat.pow_succ', Nat.mod_mul, Nat.mod_mul] at same
      have low : first % 256 = second % 256 := by omega
      have byte : UInt8.ofNat first = UInt8.ofNat second := by
        rw [← UInt8.toNat_inj, UInt8.toNat_ofNat', UInt8.toNat_ofNat']
        exact low
      have high : first / 256 % 256 ^ wide = second / 256 % 256 ^ wide := by omega
      rw [littleBytes, littleBytes, byte, ih high]

theorem cutPut_str (s : Option (List UInt8)) (sane : Sane (.str s)) :
    (cutPut (.str s)).bytes = littleBytes 2 (s.getD []).length ++ cutStr (s.getD []) := by
  have cut : ((s.map cutStr).getD []) = cutStr (s.getD []) := by
    cases s with
    | none => simp [cutStr]
    | some s => rfl
  have wide : 2 ≤ width (.str s) := sane
  rw [cutPut, Put.bytes, cut, cutStr_length]
  congr 1
  apply littleBytes_congr
  obtain ⟨k, same⟩ := int32_mod (s.getD []).length
  have := width_str s
  omega

end Steps

section Runs

variable {puts : List Put} {put : Put} {p ep : Int}

theorem Sane.positive (sane : Sane put) : 0 < width put := by
  cases put with
  | str s =>
      have wide : 2 ≤ width (.str s) := sane
      omega
  | _ => exact sane

theorem widths_cons (put : Put) (puts : List Put) : widths (put :: puts) = width put + widths puts :=
  List.sum_cons

theorem widths_append (front back : List Put) : widths (front ++ back) = widths front + widths back := by
  rw [widths, List.map_append, List.sum_append]
  rfl

theorem widths_nonneg (sane : ∀ put ∈ puts, Sane put) : 0 ≤ widths puts := by
  induction puts with
  | nil => exact Int.le_refl 0
  | cons put puts ih =>
      have first := (sane put List.mem_cons_self).positive
      have later := ih fun put member => sane put (List.mem_cons_of_mem _ member)
      rw [widths_cons]
      omega

/-- The first field that does not fit begins before the end of the packet. -/
def Overruns (ep p : Int) (puts : List Put) : Prop :=
  ∃ front put back, puts = front ++ put :: back ∧ (∀ field ∈ front, Sane field) ∧ p + widths front < ep ∧
    ep < p + widths front + width put ∧ ∀ field ∈ back, 0 ≤ width field

theorem widths_le (narrow : ∀ put ∈ puts, width put ≤ 65538) : widths puts ≤ 65538 * puts.length := by
  induction puts with
  | nil => exact Int.le_refl 0
  | cons put puts ih =>
      have first := narrow put List.mem_cons_self
      have later := ih fun put member => narrow put (List.mem_cons_of_mem _ member)
      rw [widths_cons, List.length_cons]
      omega

theorem widths_mod (puts : List Put) : ∃ k : Int, widths puts = (puts.flatMap Put.bytes).length - 2 ^ 32 * k := by
  induction puts with
  | nil => exact ⟨0, rfl⟩
  | cons put puts ih =>
      obtain ⟨j, first⟩ := int32_mod put.bytes.length
      obtain ⟨k, later⟩ := ih
      refine ⟨j + k, ?_⟩
      rw [widths_cons, width, first, later, List.flatMap_cons, List.length_append]
      omega

theorem cut_length (plain : ∀ put ∈ puts, Plain put) (sane : ∀ put ∈ puts, Sane put) :
    ((puts.map fun put => (cutPut put).bytes).flatten.length : Int) = widths puts := by
  induction puts with
  | nil => rfl
  | cons put puts ih =>
      have later := ih (fun put member => plain put (List.mem_cons_of_mem _ member))
        fun put member => sane put (List.mem_cons_of_mem _ member)
      have first : ((cutPut put).bytes.length : Int) = width put := by
        have simple := plain put List.mem_cons_self
        have positive := sane put List.mem_cons_self
        cases put with
        | int wide value =>
            rw [width_int simple]
            exact congrArg Int.ofNat (littleBytes_length wide value)
        | str s =>
            have wide : 2 ≤ width (.str s) := positive
            have length := width_str s
            rw [cutPut_str s positive, List.length_append, littleBytes_length, cutStr_length]
            omega
        | text bytes => exact simple.elim
        | block bytes => exact simple.elim
      rw [widths_cons, List.map_cons, List.flatten_cons, List.length_append]
      omega

end Runs

/-- The prefix of each string counts the bytes that follow it, the size field those of the packet, and
`sp_deserialize` accepts it. -/
structure Consistent (dotu : Bool) (calls : List Put) (fields : List (List UInt8)) : Prop where
  strings : ∀ (i : Nat) (s : Option (List UInt8)), calls[i]? = some (.str s) →
    ∃ text : List UInt8, text.length < 65536 ∧ fields[i]? = some (littleBytes 2 text.length ++ text)
  size : sizeField fields.flatten = fields.flatten.length
  decoded : (spDeserialize fields.flatten dotu).isSome = true

namespace Encoder

/-- The length of each string, as an `int`, is one of sixteen bits. -/
def Short (dotu : Bool) (e : Encoder) : Prop :=
  ∀ s, Put.str s ∈ e.puts dotu → 0 ≤ int32 (strlen s) ∧ int32 (strlen s) < 65536

section Puts

variable {dotu : Bool} {e : Encoder}

theorem plain : ∀ put ∈ e.puts dotu, Plain put := by
  cases e <;> cases dotu <;> simp [puts, Plain, bufPutWstat, bufPutQid]

theorem puts_length (few : ¬e.TooMany) : (e.puts dotu).length ≤ 24 := by
  cases e with
  | twalk fid newfid wnames =>
      simp only [TooMany, maxwelem] at few
      simp only [puts, List.length_append, List.length_cons, List.length_nil, List.length_map]
      omega
  | _ => cases dotu <;> simp [puts, bufPutWstat, bufPutQid]

theorem size_eq : ((e.puts dotu).flatMap Put.bytes).length = e.size dotu := by
  cases e with
  | twalk fid newfid wnames =>
      rw [puts, List.flatMap_append, List.length_append, sum_lengths]
      simp only [List.flatMap_cons, List.flatMap_nil, Put.bytes, List.length_append, littleBytes_length,
        List.length_nil, size]
      omega
  | rstat wstat =>
      rw [puts, List.flatMap_cons, List.length_append, wstat_length]
      simp only [Put.bytes, littleBytes_length, size]
      omega
  | twstat fid wstat =>
      rw [puts, List.flatMap_cons, List.length_append, List.flatMap_cons, List.length_append, wstat_length]
      simp only [Put.bytes, littleBytes_length, size]
      omega
  | _ => cases dotu <;> simp [puts, Put.bytes, size, strlen] <;> omega

/-- A stat of any size is read, by the lengths of its strings. -/
theorem rest_wide {wstat : Spwstat} {statsz position : Nat} {pkt : List UInt8} {Value : Type}
    {good : Value → Prop} {next : Spstat → Reader Value}
    (rest : Rest pkt position (((bufPutWstat wstat statsz dotu).map cutPut).flatMap Put.bytes))
    (fits : ∀ s, Put.str s ∈ bufPutWstat wstat statsz dotu → strlen (s.map cutStr) < 65536)
    (later : ∀ stat position, Decodes pkt position (next stat) good) :
    Decodes pkt position (bufGetStat dotu next) good := by
  rw [bufPutWstat, List.map_append, List.map_append, List.map_append, List.flatMap_append, List.flatMap_append,
    List.flatMap_append] at rest
  simp only [List.map_cons, List.map_nil, List.flatMap_cons, List.flatMap_nil, List.append_nil,
    List.append_assoc] at rest
  refine rest.bytes fun rest => rest.int (short_lt _) fun rest => rest.int (word_lt _) fun rest =>
    rest_qid rest fun position rest => rest.int (word_lt _) fun rest => rest.int (word_lt _) fun rest =>
    rest.int (word_lt _) fun rest => rest.int (long_lt _) fun rest => ?_
  refine rest_str? rest (fits _ (by simp [bufPutWstat])) fun _ _ _ rest =>
    rest_str? rest (fits _ (by simp [bufPutWstat])) fun _ _ _ rest =>
    rest_str? rest (fits _ (by simp [bufPutWstat])) fun _ _ _ rest =>
    rest_str? rest (fits _ (by simp [bufPutWstat])) fun _ _ _ rest => ?_
  cases dotu with
  | false => exact later _ _
  | true =>
      simp only [if_true, List.map_cons, List.map_nil, List.flatMap_cons, List.flatMap_nil, List.append_nil] at rest ⊢
      exact rest_str? rest (fits _ (by simp [bufPutWstat])) fun _ _ _ rest => rest.int (word_lt _) fun rest =>
        rest.int (word_lt _) fun rest => rest.int (word_lt _) fun _ => later _ _

theorem cut_fits (short : e.Short dotu) (s : Option (List UInt8)) (among : Put.str s ∈ e.puts dotu) :
    strlen (s.map cutStr) < 65536 := by
  obtain ⟨low, high⟩ := short s among
  have length := cutStr_length (s.getD [])
  cases s with
  | none => exact Nat.zero_lt_succ _
  | some s =>
      simp only [strlen, Option.map_some, Option.getD_some] at low high length ⊢
      omega

/-- The switch reads what the constructor put. -/
theorem body_decodes (few : ¬e.TooMany) (short : e.Short dotu) {pkt : List UInt8} {fc : Spfcall}
    (type : fc.type = e.message.type) (rest : Rest pkt 7 (((e.puts dotu).map cutPut).flatMap Put.bytes)) :
    Decodes pkt 7 (fcallBody dotu fc) fun _ => True := by
  have fits := cut_fits short
  cases e with
  | tversion msize version | rversion msize version =>
      simp only [message, Message.type] at type
      simp only [fcallBody, type]
      have text := fits (some version) (by simp [puts])
      exact rest.int (word_lt _) fun rest => rest_str rest text fun _ _ _ _ => .done trivial
  | tauth fid uname aname nUname =>
      simp only [message, Message.type] at type
      simp only [fcallBody, type]
      rw [puts, List.map_append, List.flatMap_append] at rest
      simp only [List.map_cons, List.map_nil, List.flatMap_cons, List.flatMap_nil, List.append_nil,
        List.append_assoc] at rest
      refine rest.int (word_lt _) fun rest => rest_str? rest (fits _ (by simp [puts])) fun _ _ _ rest =>
        rest_str? rest (fits _ (by simp [puts])) fun _ _ _ rest => ?_
      cases dotu with
      | false => exact .done trivial
      | true =>
          refine rest.atEnd ?_
          simp only [if_true, List.map_cons, List.map_nil, List.flatMap_cons, List.flatMap_nil] at rest ⊢
          exact rest.int (word_lt _) fun _ => .done trivial
  | rerror ename ecode =>
      simp only [message, Message.type] at type
      simp only [fcallBody, type]
      rw [puts, List.map_cons, List.flatMap_cons] at rest
      refine rest_str? rest (fits _ (by simp [puts])) fun _ _ _ rest => ?_
      cases dotu with
      | false => exact .done trivial
      | true => exact rest.int (word_lt _) fun _ => .done trivial
  | tattach fid afid uname aname nUname =>
      simp only [message, Message.type] at type
      simp only [fcallBody, type]
      rw [puts, List.map_append, List.flatMap_append] at rest
      simp only [List.map_cons, List.map_nil, List.flatMap_cons, List.flatMap_nil, List.append_nil,
        List.append_assoc] at rest
      refine rest.int (word_lt _) fun rest => rest.int (word_lt _) fun rest =>
        rest_str? rest (fits _ (by simp [puts])) fun _ _ _ rest =>
        rest_str? rest (fits _ (by simp [puts])) fun _ _ _ rest => ?_
      cases dotu with
      | false => exact .done trivial
      | true =>
          refine rest.atEnd ?_
          simp only [if_true, List.map_cons, List.map_nil, List.flatMap_cons, List.flatMap_nil] at rest ⊢
          exact rest.int (word_lt _) fun _ => .done trivial
  | twalk fid newfid wnames =>
      simp only [message, Message.type] at type
      simp only [fcallBody, type]
      have within : ¬wnames.length > maxwelem := few
      have counted : wnames.length < 256 ^ 2 := by
        rw [maxwelem] at within
        omega
      have names : (wnames.map fun wname => Put.str (some wname)).map cutPut =
          (wnames.map cutStr).map fun wname => Put.str (some wname) := by
        rw [List.map_map, List.map_map]
        rfl
      rw [puts, List.map_append, names, List.flatMap_append] at rest
      simp only [List.map_cons, List.map_nil, cutPut, List.flatMap_cons, List.flatMap_nil, List.append_assoc,
        List.nil_append] at rest
      refine rest.int (word_lt _) fun rest => rest.int (word_lt _) fun rest => rest.int counted fun rest => ?_
      rw [← List.append_nil (List.flatMap _ _)] at rest
      rw [if_neg within, ← List.length_map cutStr]
      refine rest_strs rest ?_ fun _ _ _ _ => .done trivial
      intro name inside
      obtain ⟨wname, among, rfl⟩ := List.mem_map.mp inside
      exact fits (some wname) (by simp [puts, among])
  | tcreate fid name perm mode extension =>
      simp only [message, Message.type] at type
      simp only [fcallBody, type]
      rw [puts, List.map_append, List.flatMap_append] at rest
      simp only [List.map_cons, List.map_nil, List.flatMap_cons, List.flatMap_nil, List.append_nil,
        List.append_assoc] at rest
      refine rest.int (word_lt _) fun rest => rest_str? rest (fits _ (by simp [puts])) fun _ _ _ rest =>
        rest.int (word_lt _) fun rest => rest.int (byte_lt _) fun rest => ?_
      cases dotu with
      | false => exact .done trivial
      | true =>
          simp only [if_true, List.map_cons, List.map_nil, List.flatMap_cons, List.flatMap_nil] at rest ⊢
          exact rest_str? rest (fits _ (by simp [puts])) fun _ _ _ _ => .done trivial
  | rstat wstat =>
      simp only [message, Message.type] at type
      simp only [fcallBody, type]
      rw [puts, List.map_cons, List.flatMap_cons] at rest
      exact rest.bytes fun rest => rest_wide rest (fun s among => fits s (List.mem_cons_of_mem _ among)) fun _ _ =>
        .done trivial
  | twstat fid wstat =>
      simp only [message, Message.type] at type
      simp only [fcallBody, type]
      rw [puts, List.map_cons, List.flatMap_cons, List.map_cons, List.flatMap_cons] at rest
      exact rest.int (word_lt _) fun rest => rest.bytes fun rest => rest_wide rest
        (fun s among => fits s (List.mem_cons_of_mem _ (List.mem_cons_of_mem _ among))) fun _ _ => .done trivial

theorem Short.sane (short : e.Short dotu) :
    ∀ put ∈ e.puts dotu, Sane put ∧ width put ≤ 65538 := by
  intro put inside
  have simple := plain put inside
  cases put with
  | int wide value =>
      have same := width_int simple
      obtain ⟨low, high⟩ := simple
      have positive : 0 < width (.int wide value) := by omega
      exact ⟨positive, by omega⟩
  | str s =>
      obtain ⟨low, high⟩ := short s inside
      rw [strlen] at low high
      have wide : width (.str s) = int32 (s.getD []).length + 2 := by
        have := width_str s
        omega
      have sane : 2 ≤ width (.str s) := by omega
      exact ⟨sane, by omega⟩
  | text bytes => exact simple.elim
  | block bytes => exact simple.elim

theorem steps_plain : ∀ put ∈ e.steps dotu, Plain put := by
  simp only [steps, LongStrings.steps, List.forall_mem_cons]
  exact ⟨⟨by decide, by decide⟩, ⟨by decide, by decide⟩, ⟨by decide, by decide⟩, plain⟩

theorem steps_sane (sane : ∀ put ∈ e.puts dotu, Sane put) : ∀ put ∈ e.steps dotu, Sane put := by
  simp only [steps, LongStrings.steps, List.forall_mem_cons]
  have positive {wide value : Nat} (simple : Plain (.int wide value)) : Sane (.int wide value) := by
    have same := width_int simple
    have low : 0 < width (.int wide value) := by
      have := simple.1
      omega
    exact low
  exact ⟨positive ⟨by decide, by decide⟩, positive ⟨by decide, by decide⟩, positive ⟨by decide, by decide⟩, sane⟩

theorem steps_widths : widths (e.steps dotu) = 7 + widths (e.puts dotu) := by
  rw [steps, LongStrings.steps, widths_cons, widths_cons, widths_cons, width_int ⟨by decide, by decide⟩,
    width_int ⟨by decide, by decide⟩, width_int ⟨by decide, by decide⟩]
  omega

theorem Short.whole (few : ¬e.TooMany) (short : e.Short dotu) :
    widths (e.steps dotu) = LongStrings.packetSize (e.size dotu) ∧ LongStrings.packetSize (e.size dotu) < 2 ^ 30 := by
  have low := widths_nonneg fun put inside => (short.sane put inside).1
  have high := widths_le fun put inside => (short.sane put inside).2
  have count := @puts_length dotu e few
  obtain ⟨k, same⟩ := widths_mod (e.puts dotu)
  rw [size_eq] at same
  rw [steps_widths, LongStrings.packetSize]
  omega

/-- Short strings make a consistent packet. -/
theorem Short.consistent (few : ¬e.TooMany) (short : e.Short dotu) :
    Consistent dotu (e.steps dotu) ((e.steps dotu).map fun put => (cutPut put).bytes) := by
  obtain ⟨whole, small⟩ := short.whole few
  have sane := steps_sane fun put inside => (short.sane put inside).1
  have length := cut_length steps_plain sane
  have flat : ((e.steps dotu).map fun put => (cutPut put).bytes).flatten =
      header e.message.type (LongStrings.packetSize (e.size dotu)) ++
        ((e.puts dotu).map cutPut).flatMap Put.bytes := by
    simp [steps, LongStrings.steps, header, cutPut, Put.bytes, List.flatMap_def, List.map_map, Function.comp_def]
  have total : LongStrings.packetSize (e.size dotu) = (((e.puts dotu).map cutPut).flatMap Put.bytes).length + 7 := by
    rw [flat, List.length_append, header_length] at length
    omega
  rw [total] at flat
  have sized := @sizeField_header e.message.type ((((e.puts dotu).map cutPut).flatMap Put.bytes).length + 7)
    (by omega) (((e.puts dotu).map cutPut).flatMap Put.bytes)
  refine ⟨?_, ?_, ?_⟩
  · intro i s at_
    have among : Put.str s ∈ e.puts dotu := by
      have inside := List.mem_of_getElem? at_
      simpa [steps, LongStrings.steps] using inside
    refine ⟨(s.map cutStr).getD [], cut_fits short s among, ?_⟩
    rw [List.getElem?_map, at_]
    rfl
  · rw [flat, sized, List.length_append, header_length]
    omega
  · obtain ⟨fc, decoded, -⟩ := header_decodes (fun type tag => fcallBody dotu
      { size := (((e.puts dotu).map cutPut).flatMap Put.bytes).length + 7, type, tag }) (by omega)
      (fun rest => body_decodes few short rfl rest)
    rw [flat, spDeserialize, fcallRun, sized]
    exact Option.isSome_iff_exists.mpr ⟨fc, decoded⟩

end Puts

/-- No more names than `MAXWELEM`. With it: no memory, a size that is a negative `int`, an overflow that is
noticed, or strings that are all short. -/
def Meets (malloc dotu : Bool) (e : Encoder) : Prop :=
  e.TooMany ∨ malloc = false ∨ int32 (sizeofSpfcall + LongStrings.packetSize (e.size dotu)) < 0 ∨
    (sizeofSpfcall + LongStrings.packetSize (e.size dotu) < 2 ^ 32 ∧
      Overruns (LongStrings.packetSize (e.size dotu)) 0 (e.steps dotu)) ∨ e.Short dotu

/-- There is no packet, or one that is consistent. -/
def Safe (dotu : Bool) (e : Encoder) : Option (Option (List (List UInt8))) → Prop
  | none => False
  | some none => True
  | some (some fields) => Consistent dotu (e.steps dotu) fields

end Encoder

end Xcpu.Libspfs.LongStrings
