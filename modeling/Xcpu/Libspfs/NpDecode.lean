import Xcpu.Libspfs.Np

/-!
What `sp_deserialize` accepts. Run over the cursor, a layout accepts what it means
strictly, and two kinds of packets more: one that ends exactly where a field begins, and
one whose final count has its top bit set, which moves the cursor back.
-/

namespace Xcpu.Libspfs

open Xcpu.Packet

structure Access.Inside (size : Int) (access : Access) : Prop where
  got : access.got = true
  after : 4 ≤ access.start
  before : access.start + access.length ≤ size

theorem int32_small {value : Nat} (small : value < 2 ^ 31) : int32 value = value := by
  rw [int32, Nat.mod_eq_of_lt (by omega), if_pos small]

theorem int32_large {value : Nat} (large : 2 ^ 31 ≤ value) (bounded : value < 2 ^ 32) :
    int32 value = value - 2 ^ 32 := by
  rw [int32, Nat.mod_eq_of_lt bounded, if_neg (by omega)]

section Cursor

variable {buf : Cbuf} (data : List UInt8)

theorem bufGetInt_fits {width : Nat} (fits : buf.p + width ≤ buf.ep) :
    bufGetInt data width buf =
      (some (littleEndian data buf.p.toNat width), { buf with p := buf.p + width }) := by
  rw [bufGetInt, bufCheckSize, if_neg (by omega)]

theorem bufGetInt_short {width : Nat} (short : buf.p + width > buf.ep) (before : buf.p < buf.ep) :
    bufGetInt data width buf = (none, { buf with p := buf.ep + 1 }) := by
  rw [bufGetInt, bufCheckSize, if_pos short, if_pos before]

theorem bufGetInt_past {width : Nat} (short : buf.p + width > buf.ep) (past : buf.ep ≤ buf.p) :
    bufGetInt data width buf = (none, buf) := by
  rw [bufGetInt, bufCheckSize, if_pos short, if_neg (by omega)]

theorem bufAlloc_fits {len : Int} (fits : buf.p + len ≤ buf.ep) :
    bufAlloc buf len = (some buf.p, { buf with p := buf.p + len }) := by
  rw [bufAlloc, bufCheckSize, if_neg (by omega)]

theorem bufAlloc_short {len : Int} (short : buf.p + len > buf.ep) (before : buf.p < buf.ep) :
    bufAlloc buf len = (none, { buf with p := buf.ep + 1 }) := by
  rw [bufAlloc, bufCheckSize, if_pos short, if_pos before]

theorem bufAlloc_past {len : Int} (short : buf.p + len > buf.ep) (past : buf.ep ≤ buf.p) :
    bufAlloc buf len = (none, buf) := by
  rw [bufAlloc, bufCheckSize, if_pos short, if_neg (by omega)]

end Cursor

section Runs

variable {Value : Type} (data : List UInt8)

theorem runCbuf_past (reader : Reader Value) (buf : Cbuf) (past : buf.p > buf.ep) :
    (runCbuf data reader buf).2.1.p > (runCbuf data reader buf).2.1.ep := by
  induction reader with
  | done value => exact past
  | reject => exact past
  | int width next ih =>
      simp only [runCbuf]
      rw [bufGetInt_past data (by omega) (by omega)]
      exact ih 0
  | slice length next ih =>
      simp only [runCbuf]
      rw [bufAlloc_past (by omega) (by omega)]
      exact ih none
  | atEnd next ih => exact ih _
  | counted finish =>
      simp only [runCbuf]
      rw [bufGetInt_past data (by omega) (by omega)]
      dsimp only
      rw [Option.getD_none, int32_small (by decide : 0 < 2 ^ 31), bufAlloc_past (by omega) (by omega)]
      exact past

theorem runCbuf_end (reader : Reader Value) (zeros : reader.Zeros) (buf : Cbuf)
    (atEnd : buf.p = buf.ep) :
    ∃ value log, runCbuf data reader buf = (some value, buf, log) := by
  have same (width : Nat) (empty : width = 0) : ({ buf with p := buf.p + width } : Cbuf) = buf := by
    rw [empty, Int.natCast_zero, Int.add_zero]
  induction reader with
  | done value => exact ⟨value, [], rfl⟩
  | reject => exact absurd zeros id
  | int width next ih =>
      obtain ⟨value, log, ran⟩ := ih 0 zeros
      simp only [runCbuf]
      by_cases empty : width = 0
      · rw [bufGetInt_fits data (by omega), same width empty]
        subst empty
        simp only [Option.getD_some, littleEndian, ran]
        exact ⟨value, _, rfl⟩
      · rw [bufGetInt_past data (by omega) (by omega)]
        simp only [Option.getD_none, ran]
        exact ⟨value, _, rfl⟩
  | slice length next ih =>
      simp only [runCbuf]
      by_cases empty : length = 0
      · obtain ⟨value, log, ran⟩ := ih (some buf.p.toNat) (zeros _)
        rw [bufAlloc_fits (by omega), same length empty]
        simp only [Option.map_some, ran]
        exact ⟨value, _, rfl⟩
      · obtain ⟨value, log, ran⟩ := ih none (zeros _)
        rw [bufAlloc_past (by omega) (by omega)]
        simp only [Option.map_none, ran]
        exact ⟨value, _, rfl⟩
  | atEnd next ih =>
      obtain ⟨value, log, ran⟩ := ih true zeros
      refine ⟨value, log, ?_⟩
      simp only [runCbuf, atEnd, beq_self_eq_true]
      exact ran
  | counted finish =>
      simp only [runCbuf]
      rw [bufGetInt_past data (by omega) (by omega)]
      dsimp only
      rw [Option.getD_none, int32_small (by decide : 0 < 2 ^ 31), bufAlloc_fits (by omega), same 0 rfl]
      exact ⟨_, _, rfl⟩

theorem bufGetInt_step (width : Nat) (buf : Cbuf) (after : 4 ≤ buf.p) :
    4 ≤ (bufGetInt data width buf).2.p ∧ (bufGetInt data width buf).2.ep = buf.ep ∧
      ((bufGetInt data width buf).1.isSome = true → buf.p + width ≤ buf.ep) := by
  by_cases fits : buf.p + width ≤ buf.ep
  · rw [bufGetInt_fits data fits]
    exact ⟨by dsimp only; omega, rfl, fun _ => fits⟩
  · by_cases before : buf.p < buf.ep
    · rw [bufGetInt_short data (by omega) before]
      exact ⟨by dsimp only; omega, rfl, fun found => by cases found⟩
    · rw [bufGetInt_past data (by omega) (by omega)]
      exact ⟨after, rfl, fun found => by cases found⟩

theorem bufAlloc_step (length : Nat) (buf : Cbuf) (after : 4 ≤ buf.p) :
    4 ≤ (bufAlloc buf length).2.p ∧ (bufAlloc buf length).2.ep = buf.ep := by
  by_cases fits : buf.p + length ≤ buf.ep
  · rw [bufAlloc_fits fits]
    exact ⟨by dsimp only; omega, rfl⟩
  · by_cases before : buf.p < buf.ep
    · rw [bufAlloc_short (by omega) before]
      exact ⟨by dsimp only; omega, rfl⟩
    · rw [bufAlloc_past (by omega) (by omega)]
      exact ⟨after, rfl⟩

theorem runCbuf_reads (reader : Reader Value) (buf : Cbuf) (after : 4 ≤ buf.p) :
    ∀ access ∈ (runCbuf data reader buf).2.2, access.slice = false → access.got = true →
      access.Inside buf.ep := by
  induction reader generalizing buf with
  | done value => simp [runCbuf]
  | reject => simp [runCbuf]
  | int width next ih =>
      obtain ⟨later, same, inside⟩ := bufGetInt_step data width buf after
      intro access member scalar got
      simp only [runCbuf, List.mem_cons] at member
      rcases member with rfl | rest
      · exact ⟨got, after, inside got⟩
      · rw [← same]
        exact ih _ _ later access rest scalar got
  | slice length next ih =>
      obtain ⟨later, same⟩ := bufAlloc_step length buf after
      intro access member scalar got
      simp only [runCbuf, List.mem_cons] at member
      rcases member with rfl | rest
      · cases scalar
      · rw [← same]
        exact ih _ _ later access rest scalar got
  | atEnd next ih =>
      intro access member scalar got
      exact ih _ _ after access member scalar got
  | counted finish =>
      obtain ⟨_, _, inside⟩ := bufGetInt_step data 4 buf after
      intro access member scalar got
      simp only [runCbuf, List.mem_cons, List.not_mem_nil, or_false] at member
      rcases member with rfl | rfl
      · exact ⟨got, after, inside got⟩
      · cases scalar

/-- A run that ended within the packet although some access is not inside it. -/
structure Lax (size : Nat) (run : Option Value × Cbuf × List Access) : Prop where
  some : run.1.isSome = true
  within : run.2.1.p ≤ run.2.1.ep
  outside : ∃ access ∈ run.2.2, ¬ access.Inside size

/-- How a run over the cursor stands to the strict outcome. -/
def Agrees (size : Nat) (steady : Prop) (run : Option Value × Cbuf × List Access) :
    Outcome Value → Prop
  | .done value => run.1 = some value ∧ run.2.1.p ≤ run.2.1.ep ∧
      ∀ access ∈ run.2.2, access.Inside size
  | .rejected => run.1 = none
  | .short stop => (stop < size ∧ run.2.1.p > run.2.1.ep) ∨ (stop = size ∧ (steady → Lax size run))
  | .oversized => Lax size run

theorem Lax.cons {size : Nat} {run : Option Value × Cbuf × List Access} (lax : Lax size run)
    (access : Access) : Lax size (run.1, run.2.1, access :: run.2.2) := by
  obtain ⟨other, member, outside⟩ := lax.outside
  exact ⟨lax.some, lax.within, other, List.mem_cons_of_mem _ member, outside⟩

theorem Agrees.cons {size : Nat} {steady steady' : Prop} {run : Option Value × Cbuf × List Access}
    {outcome : Outcome Value} {access : Access} (inside : access.Inside size)
    (weaker : steady' → steady) (agrees : Agrees size steady run outcome) :
    Agrees size steady' (run.1, run.2.1, access :: run.2.2) outcome := by
  cases outcome with
  | done value =>
      obtain ⟨result, within, all⟩ := agrees
      refine ⟨result, within, ?_⟩
      intro other member
      rcases List.mem_cons.mp member with rfl | old
      · exact inside
      · exact all other old
  | rejected => exact agrees
  | short stop =>
      rcases agrees with past | ⟨atEnd, lax⟩
      · exact .inl past
      · exact .inr ⟨atEnd, fun holds => (lax (weaker holds)).cons access⟩
  | oversized => exact Lax.cons agrees access

theorem Access.not_inside_of_not_got {size : Int} {access : Access} (missed : access.got = false) :
    ¬ access.Inside size := by
  intro inside
  rw [inside.got] at missed
  cases missed

/-- The run of a layout is what `strict` says, but for packets that end between two fields
and counts that move the cursor back. -/
theorem runCbuf_agrees (reader : Reader Value) (position size : Nat) (after : 4 ≤ position)
    (inside : position ≤ size) (small : size < 2 ^ 31 + 4) :
    Agrees size reader.Steady (runCbuf data reader ⟨position, size⟩)
      (reader.strict data size position) := by
  induction reader generalizing position with
  | done value => exact ⟨rfl, by simp only [runCbuf]; omega, by simp [runCbuf]⟩
  | reject => rfl
  | int width next ih =>
      simp only [Reader.strict, runCbuf]
      by_cases fits : position + width ≤ size
      · rw [if_pos fits, bufGetInt_fits data (by dsimp only; omega)]
        have later := ih (littleEndian data position width) (position + width) (by omega) (by omega)
        exact later.cons ⟨rfl, by dsimp only; omega, by dsimp only; omega⟩ fun steady => steady.2 _
      · rw [if_neg fits]
        by_cases before : position < size
        · rw [bufGetInt_short data (by dsimp only; omega) (by dsimp only; omega)]
          exact .inl ⟨before, runCbuf_past data _ _ (by dsimp only; omega)⟩
        · rw [bufGetInt_past data (by dsimp only; omega) (by dsimp only; omega)]
          refine .inr ⟨by omega, ?_⟩
          intro steady
          obtain ⟨value, log, ran⟩ := runCbuf_end data (next 0) steady.1 ⟨position, size⟩
            (by dsimp only; omega)
          simp only [Option.getD_none, ran]
          exact ⟨rfl, by dsimp only; omega, _, List.mem_cons_self, Access.not_inside_of_not_got rfl⟩
  | slice length next ih =>
      simp only [Reader.strict, runCbuf]
      by_cases fits : position + length ≤ size
      · rw [if_pos fits, bufAlloc_fits (by dsimp only; omega)]
        have later := ih (some position) (position + length) (by omega) (by omega)
        exact later.cons ⟨rfl, by dsimp only; omega, by dsimp only; omega⟩ fun steady => (steady _).2
      · rw [if_neg fits]
        by_cases before : position < size
        · rw [bufAlloc_short (by dsimp only; omega) (by dsimp only; omega)]
          exact .inl ⟨before, runCbuf_past data _ _ (by dsimp only; omega)⟩
        · rw [bufAlloc_past (by dsimp only; omega) (by dsimp only; omega)]
          refine .inr ⟨by omega, ?_⟩
          intro steady
          obtain ⟨value, log, ran⟩ := runCbuf_end data (next none) (steady none).1 ⟨position, size⟩
            (by dsimp only; omega)
          simp only [Option.map_none, ran]
          exact ⟨rfl, by dsimp only; omega, _, List.mem_cons_self, Access.not_inside_of_not_got rfl⟩
  | atEnd next ih =>
      have ended : ((position : Int) == (size : Int)) = (position == size) := by
        by_cases same : position = size
        · simp [same]
        · have other : ¬ (position : Int) = (size : Int) := by omega
          simp [same, other]
      have later := ih (position == size) position after inside
      simp only [Reader.strict, runCbuf, ended]
      cases outcome : (next (position == size)).strict data size position with
      | done value => rw [outcome] at later; exact later
      | rejected => rw [outcome] at later; exact later
      | short stop =>
          rw [outcome] at later
          rcases later with past | ⟨atEnd, lax⟩
          · exact .inl past
          · exact .inr ⟨atEnd, fun steady => lax (steady _)⟩
      | oversized => rw [outcome] at later; exact later
  | counted finish =>
      simp only [Reader.strict, runCbuf]
      by_cases fits : position + 4 ≤ size
      · have bounded : littleEndian data position 4 < 2 ^ 32 := littleEndian_lt data position 4
        rw [if_pos fits, bufGetInt_fits data (by dsimp only; omega)]
        simp only [Option.getD_some, Int.toNat_natCast]
        by_cases large : 2 ^ 31 ≤ littleEndian data position 4
        · rw [if_pos large, int32_large large bounded, bufAlloc_fits (by dsimp only; omega)]
          refine ⟨rfl, by dsimp only; omega, _, List.mem_cons_of_mem _ List.mem_cons_self, ?_⟩
          intro inside
          have before := inside.before
          dsimp only at before
          omega
        · rw [if_neg large, int32_small (by omega)]
          by_cases whole : position + 4 + littleEndian data position 4 ≤ size
          · rw [if_pos whole, bufAlloc_fits (by dsimp only; omega)]
            refine ⟨rfl, by dsimp only; omega, ?_⟩
            intro access member
            simp only [List.mem_cons, List.not_mem_nil, or_false] at member
            rcases member with rfl | rfl
            · exact ⟨rfl, by dsimp only; omega, by dsimp only; omega⟩
            · exact ⟨rfl, by dsimp only; omega, by dsimp only; omega⟩
          · rw [if_neg whole]
            by_cases before : position + 4 < size
            · rw [bufAlloc_short (by dsimp only; omega) (by dsimp only; omega)]
              exact .inl ⟨before, by dsimp only; omega⟩
            · rw [bufAlloc_past (by dsimp only; omega) (by dsimp only; omega)]
              refine .inr ⟨by omega, fun _ => ?_⟩
              exact ⟨rfl, by dsimp only; omega, _, List.mem_cons_of_mem _ List.mem_cons_self,
                Access.not_inside_of_not_got rfl⟩
      · rw [if_neg fits]
        by_cases before : position < size
        · rw [bufGetInt_short data (by dsimp only; omega) (by dsimp only; omega)]
          dsimp only
          rw [Option.getD_none, int32_small (by decide : 0 < 2 ^ 31),
            bufAlloc_past (by dsimp only; omega) (by dsimp only; omega)]
          exact .inl ⟨before, by dsimp only; omega⟩
        · rw [bufGetInt_past data (by dsimp only; omega) (by dsimp only; omega)]
          dsimp only
          rw [Option.getD_none, int32_small (by decide : 0 < 2 ^ 31),
            bufAlloc_fits (by dsimp only; omega)]
          refine .inr ⟨by omega, fun _ => ?_⟩
          exact ⟨rfl, by dsimp only; omega, _, List.mem_cons_self, Access.not_inside_of_not_got rfl⟩

end Runs

section Layouts

variable {Value : Type}

/-- Neither the layout itself nor any of its remainders rejects zeros. -/
structure Calm (reader : Reader Value) : Prop where
  zeros : reader.Zeros
  steady : reader.Steady

theorem Calm.done (value : Value) : Calm (.done value) := ⟨trivial, trivial⟩

theorem Calm.int {width : Nat} {next : Nat → Reader Value} (calm : ∀ value, Calm (next value)) :
    Calm (.int width next) :=
  ⟨(calm 0).zeros, (calm 0).zeros, fun value => (calm value).steady⟩

theorem Calm.counted (finish : Nat → Option Nat → Value) : Calm (.counted finish) :=
  ⟨trivial, trivial⟩

theorem Calm.str {next : Spstr → Reader Value} (calm : ∀ str, Calm (next str)) :
    Calm (bufGetStr next) :=
  .int fun _ => ⟨fun str => (calm ⟨_, str⟩).zeros,
    fun str => ⟨(calm ⟨_, str⟩).zeros, (calm ⟨_, str⟩).steady⟩⟩

theorem Calm.qid {next : Spqid → Reader Value} (calm : ∀ qid, Calm (next qid)) :
    Calm (bufGetQid next) :=
  .int fun _ => .int fun _ => .int fun _ => calm _

theorem Calm.strs (count : Nat) {next : List Spstr → Reader Value}
    (calm : ∀ strs, Calm (next strs)) : Calm (bufGetStrs count next) := by
  induction count generalizing next with
  | zero => exact calm []
  | succ count ih => exact .str fun str => ih fun strs => calm (str :: strs)

theorem Calm.qids (count : Nat) {next : List Spqid → Reader Value}
    (calm : ∀ qids, Calm (next qids)) : Calm (bufGetQids count next) := by
  induction count generalizing next with
  | zero => exact calm []
  | succ count ih => exact .qid fun qid => ih fun qids => calm (qid :: qids)

theorem Calm.uname (dotu : Bool) {next : Nat → Reader Value} (calm : ∀ uname, Calm (next uname)) :
    Calm (bufGetUname dotu next) := by
  cases dotu with
  | false => exact calm nouid
  | true =>
      refine ⟨(calm nouid).zeros, ?_⟩
      intro ended
      cases ended with
      | false => exact (Calm.int calm).steady
      | true => exact (calm nouid).steady

theorem Calm.stat (dotu : Bool) {next : Spstat → Reader Value} (calm : ∀ stat, Calm (next stat)) :
    Calm (bufGetStat dotu next) := by
  refine .int fun _ => .int fun _ => .int fun _ => .qid fun _ => .int fun _ => .int fun _ =>
    .int fun _ => .int fun _ => .str fun _ => .str fun _ => .str fun _ => .str fun _ => ?_
  cases dotu with
  | false => exact calm _
  | true => exact .str fun _ => .int fun _ => .int fun _ => .int fun _ => calm _

/-- A length above `MAXWELEM` is refused, but not the zero read at the end. -/
theorem Calm.welem {next : Nat → Reader Value} (calm : ∀ count, Calm (next count)) :
    Calm (.int 2 fun count => if count > maxwelem then .reject else next count) := by
  refine ⟨(calm 0).zeros, (calm 0).zeros, ?_⟩
  intro count
  dsimp only
  split
  · trivial
  · exact (calm count).steady

theorem fcallBody_calm (dotu : Bool) (fc : Spfcall) : Calm (fcallBody dotu fc) := by
  cases shape : fc.type <;> simp only [fcallBody, shape]
  case tversion | rversion => exact .int fun _ => .str fun _ => .done _
  case tauth => exact .int fun _ => .str fun _ => .str fun _ => .uname dotu fun _ => .done _
  case rauth | rattach => exact .qid fun _ => .done _
  case tflush => exact .int fun _ => .done _
  case tattach =>
      exact .int fun _ => .int fun _ => .str fun _ => .str fun _ => .uname dotu fun _ => .done _
  case rerror =>
      refine .str fun _ => ?_
      cases dotu with
      | false => exact .done _
      | true => exact .int fun _ => .done _
  case twalk => exact .int fun _ => .int fun _ => .welem fun _ => .strs _ fun _ => .done _
  case rwalk => exact .welem fun _ => .qids _ fun _ => .done _
  case topen => exact .int fun _ => .int fun _ => .done _
  case ropen | rcreate => exact .qid fun _ => .int fun _ => .done _
  case tcreate =>
      refine .int fun _ => .str fun _ => .int fun _ => .int fun _ => ?_
      cases dotu with
      | false => exact .done _
      | true =>
          rw [if_pos rfl]
          exact .str fun _ => .done _
  case tread => exact .int fun _ => .int fun _ => .int fun _ => .done _
  case rread => exact .counted _
  case twrite => exact .int fun _ => .int fun _ => .counted _
  case rwrite | tclunk | tremove | tstat => exact .int fun _ => .done _
  case rflush | rclunk | rremove | rwstat => exact .done _
  case rstat => exact .int fun _ => .stat dotu fun _ => .done _
  case twstat => exact .int fun _ => .int fun _ => .stat dotu fun _ => .done _

end Layouts

def messageLayout (dotu : Bool) (size : Nat) (type : FcallType) : Reader Spfcall :=
  .int 2 fun tag => fcallBody dotu { size, type, tag }

/-- What the packet means when every field must lie inside its first `size` bytes. -/
def packetOutcome (data : List UInt8) (dotu : Bool) : Outcome Spfcall :=
  match FcallType.ofNat? (byteAt data 4) with
  | none => .rejected
  | some type => (messageLayout dotu (sizeField data) type).strict data (sizeField data) 5

/-- An accepted message has every scalar and every slice inside the first `size` bytes, and
whatever the result, nothing after the size field is read past them. -/
structure FieldsInside (data : List UInt8) (dotu : Bool) : Prop where
  accepted : ∀ fc, spDeserialize data dotu = some fc →
    ∀ access ∈ packetAccesses data dotu, access.Inside (sizeField data)
  reads : ∀ access ∈ packetAccesses data dotu, access.slice = false → access.got = true →
    access.Inside (sizeField data)

/-- The declared size of the stat, counted from behind its size field, fits the packet. -/
def StatFits (size : Nat) (fc : Spfcall) : Prop :=
  (fc.type = .rstat → 11 + fc.stat.size ≤ size) ∧ (fc.type = .twstat → 15 + fc.stat.size ≤ size)

/-- The packet does not end exactly where one of its fields begins, and the top bit of the
final count is clear. From `2 ^ 31 + 4` on the size becomes a negative `int`. -/
def Uncut (data : List UInt8) (dotu : Bool) : Prop :=
  sizeField data < 2 ^ 31 + 4 →
    packetOutcome data dotu ≠ .short (sizeField data) ∧ packetOutcome data dotu ≠ .oversized

theorem fcallBuf_ep {size : Nat} (bounded : size < 2 ^ 32) :
    (fcallBuf size).ep = if size < 2 ^ 31 + 4 then (size : Int) else size - 2 ^ 32 := by
  simp only [fcallBuf, int32]
  by_cases tiny : size < 4
  · have wrapped : (size + 2 ^ 32 - 4) % 2 ^ 32 = size + 2 ^ 32 - 4 := Nat.mod_eq_of_lt (by omega)
    rw [wrapped, if_neg (by omega), if_pos (by omega)]
    omega
  · have wrapped : (size + 2 ^ 32 - 4) % 2 ^ 32 = size - 4 := by omega
    rw [wrapped]
    split <;> split <;> omega

theorem sizeField_lt (data : List UInt8) : sizeField data < 2 ^ 32 := littleEndian_lt data 0 4

theorem fcallLayout_no_room (data : List UInt8) (dotu : Bool) (size : Nat) (buf : Cbuf)
    (past : buf.ep ≤ buf.p) : (runCbuf data (fcallLayout dotu size) buf).1 = none := by
  have missing : bufGetInt data 1 buf = (none, buf) := bufGetInt_past data (by omega) past
  have unknown : FcallType.ofNat? 0 = none := rfl
  simp only [fcallLayout, runCbuf, missing, Option.getD_none, unknown]

/-- A size below five, or one that is negative as an `int`, leaves no room for the type. -/
theorem spDeserialize_no_room (data : List UInt8) (dotu : Bool)
    (room : (fcallBuf (sizeField data)).ep ≤ 4) : spDeserialize data dotu = none := by
  have refused : (fcallRun data dotu).1 = none :=
    fcallLayout_no_room data dotu (sizeField data) (fcallBuf (sizeField data)) room
  rw [spDeserialize, overrun, refused, ite_self]

theorem fcallLayout_type (data : List UInt8) (dotu : Bool) (size : Nat) (large : 5 ≤ size) :
    runCbuf data (fcallLayout dotu size) ⟨4, size⟩ =
      let run := runCbuf data
        (match FcallType.ofNat? (byteAt data 4) with
          | none => .int 2 fun _ => .reject
          | some type => messageLayout dotu size type) ⟨5, size⟩
      (run.1, run.2.1, ⟨false, 4, 1, true⟩ :: run.2.2) := by
  have type : littleEndian data (4 : Int).toNat 1 = byteAt data 4 := by
    simp [littleEndian]
  rw [fcallLayout, runCbuf, bufGetInt_fits data (by dsimp only; omega)]
  simp only [Option.getD_some, type, Option.isSome_some]
  cases FcallType.ofNat? (byteAt data 4) with
  | none => rfl
  | some type => rfl

theorem fcallLayout_agrees (data : List UInt8) (dotu : Bool) (large : 5 ≤ sizeField data)
    (small : sizeField data < 2 ^ 31 + 4) :
    Agrees (sizeField data) True (fcallRun data dotu) (packetOutcome data dotu) := by
  have ep := fcallBuf_ep (sizeField_lt data)
  rw [if_pos small] at ep
  have buf : fcallBuf (sizeField data) = ⟨4, sizeField data⟩ := by
    rw [← ep]
    rfl
  rw [fcallRun, buf, packetOutcome]
  clear buf ep
  generalize sizeField data = size at large small
  rw [fcallLayout_type data dotu size large]
  have typeInside : Access.Inside size ⟨false, 4, 1, true⟩ :=
    ⟨rfl, by dsimp only; omega, by dsimp only; omega⟩
  cases FcallType.ofNat? (byteAt data 4) with
  | none => rfl
  | some type =>
      have calm : Calm (messageLayout dotu size type) :=
        .int fun tag => fcallBody_calm dotu { size, type, tag }
      have agrees := runCbuf_agrees data (messageLayout dotu size type) 5 size (by omega) large small
      exact agrees.cons typeInside fun _ => calm.steady

theorem packetOutcome_of_tiny (data : List UInt8) (dotu : Bool) (tiny : sizeField data < 5) :
    packetOutcome data dotu = .rejected ∨ packetOutcome data dotu = .short 5 := by
  rw [packetOutcome]
  cases FcallType.ofNat? (byteAt data 4) with
  | none => exact .inl rfl
  | some type =>
      refine .inr ?_
      simp only [messageLayout, Reader.strict]
      rw [if_neg (by omega)]

/-- The result of a run whose cursor must end within the packet, by its strict outcome. -/
inductive Verdict {Value : Type} (size : Nat) (result : Option Value) (log : List Access)
    (outcome : Outcome Value) : Prop where
  | refused (none : result = none) (notDone : ∀ value, outcome ≠ .done value)
      (uncut : outcome ≠ .short size) (sized : outcome ≠ .oversized)
  | wellFormed (value : Value) (accepted : result = some value) (done : outcome = .done value)
      (inside : ∀ access ∈ log, access.Inside size)
  | lax (cut : outcome = .short size ∨ outcome = .oversized) (accepted : result.isSome = true)
      (outside : ∃ access ∈ log, ¬ access.Inside size)

theorem verdict_of_agrees {Value : Type} {size : Nat} {run : Option Value × Cbuf × List Access}
    {outcome : Outcome Value} (agrees : Agrees size True run outcome) :
    Verdict size (overrun run) (accesses run) outcome := by
  have accepted (lax : Lax size run) : (overrun run).isSome = true := by
    have within := lax.within
    rw [overrun, if_neg (by omega)]
    exact lax.some
  cases outcome with
  | done value =>
      obtain ⟨result, within, inside⟩ := agrees
      refine .wellFormed value ?_ rfl inside
      rw [overrun, if_neg (by omega)]
      exact result
  | rejected =>
      have rejected : run.1 = none := agrees
      refine .refused ?_ ?_ ?_ ?_
      · rw [overrun, rejected, ite_self]
      · intro value same
        cases same
      · intro same
        cases same
      · intro same
        cases same
  | short stop =>
      rcases agrees with ⟨middle, past⟩ | ⟨rfl, lax⟩
      · refine .refused (if_pos past) ?_ ?_ ?_
        · intro value same
          cases same
        · intro same
          have stopped := Outcome.short.inj same
          omega
        · intro same
          cases same
      · exact .lax (.inl rfl) (accepted (lax trivial)) (lax trivial).outside
  | oversized => exact .lax (.inr rfl) (accepted agrees) agrees.outside

theorem spDeserialize_verdict (data : List UInt8) (dotu : Bool) :
    (spDeserialize data dotu = none ∧ ¬ sizeField data < 2 ^ 31 + 4) ∨
    (sizeField data < 2 ^ 31 + 4 ∧ Verdict (sizeField data) (spDeserialize data dotu)
      (packetAccesses data dotu) (packetOutcome data dotu)) := by
  have ep := fcallBuf_ep (sizeField_lt data)
  by_cases small : sizeField data < 2 ^ 31 + 4
  · refine .inr ⟨small, ?_⟩
    by_cases large : 5 ≤ sizeField data
    · have verdict := verdict_of_agrees (fcallLayout_agrees data dotu large small)
      rw [spDeserialize, packetAccesses]
      exact verdict
    · rw [if_pos small] at ep
      have refused := spDeserialize_no_room data dotu (by omega)
      rcases packetOutcome_of_tiny data dotu (by omega) with rejected | short
      · rw [refused, rejected]
        refine .refused rfl ?_ ?_ ?_
        · intro value same
          cases same
        · intro same
          cases same
        · intro same
          cases same
      · rw [refused, short]
        refine .refused rfl ?_ ?_ ?_
        · intro value same
          cases same
        · intro same
          have stopped := Outcome.short.inj same
          omega
        · intro same
          cases same
  · rw [if_neg small] at ep
    have bounded := sizeField_lt data
    exact .inl ⟨spDeserialize_no_room data dotu (by omega), small⟩

theorem spDeserialize_reads (data : List UInt8) (dotu : Bool) :
    ∀ access ∈ packetAccesses data dotu, access.slice = false → access.got = true →
      access.Inside (sizeField data) := by
  intro access member scalar got
  have ep := fcallBuf_ep (sizeField_lt data)
  have start : 4 ≤ (fcallBuf (sizeField data)).p := Int.le_refl 4
  rw [packetAccesses, accesses, fcallRun] at member
  have inside := runCbuf_reads data (fcallLayout dotu (sizeField data)) (fcallBuf (sizeField data))
    start access member scalar got
  refine ⟨got, inside.after, ?_⟩
  have before := inside.before
  split at ep <;> omega

/-- The fields of every accepted packet are inside it exactly for uncut packets, and so is
the declared stat if its size says so. -/
theorem spDeserialize_wellFormed_iff (data : List UInt8) (dotu : Bool) :
    (FieldsInside data dotu ↔ Uncut data dotu) ∧
    ((FieldsInside data dotu ∧
        ∀ fc, spDeserialize data dotu = some fc → StatFits (sizeField data) fc) ↔
      (Uncut data dotu ∧ (sizeField data < 2 ^ 31 + 4 →
        ∀ fc, packetOutcome data dotu = .done fc → StatFits (sizeField data) fc))) := by
  have reads := spDeserialize_reads data dotu
  rcases spDeserialize_verdict data dotu with ⟨refused, huge⟩ | ⟨small, verdict⟩
  · have fields : FieldsInside data dotu :=
      ⟨fun fc accepted => (by rw [refused] at accepted; cases accepted), reads⟩
    have uncut : Uncut data dotu := fun small => absurd small huge
    refine ⟨⟨fun _ => uncut, fun _ => fields⟩, ⟨fun _ => ⟨uncut, ?_⟩, fun _ => ⟨fields, ?_⟩⟩⟩
    · intro small
      exact absurd small huge
    · intro fc accepted
      rw [refused] at accepted
      cases accepted
  · cases verdict with
    | refused refused notDone uncut sized =>
        have fields : FieldsInside data dotu :=
          ⟨fun fc accepted => (by rw [refused] at accepted; cases accepted), reads⟩
        have uncut : Uncut data dotu := fun _ => ⟨uncut, sized⟩
        refine ⟨⟨fun _ => uncut, fun _ => fields⟩, ⟨fun _ => ⟨uncut, ?_⟩, fun _ => ⟨fields, ?_⟩⟩⟩
        · intro _ fc outcome
          exact absurd outcome (notDone fc)
        · intro fc accepted
          rw [refused] at accepted
          cases accepted
    | wellFormed fc accepted outcome inside =>
        have fields : FieldsInside data dotu := ⟨fun _ _ => inside, reads⟩
        have uncut : Uncut data dotu := by
          intro _
          rw [outcome]
          exact ⟨fun same => (by cases same), fun same => (by cases same)⟩
        refine ⟨⟨fun _ => uncut, fun _ => fields⟩,
          ⟨fun both => ⟨uncut, ?_⟩, fun both => ⟨fields, ?_⟩⟩⟩
        · intro _ other same
          rw [outcome] at same
          obtain rfl := Outcome.done.inj same
          exact both.2 fc accepted
        · intro other same
          rw [accepted] at same
          obtain rfl := Option.some.inj same
          exact both.2 small fc outcome
    | lax cut accepted outside =>
        have notFields : ¬ FieldsInside data dotu := by
          intro fields
          obtain ⟨fc, found⟩ := Option.isSome_iff_exists.mp accepted
          obtain ⟨access, member, escapes⟩ := outside
          exact escapes (fields.accepted fc found access member)
        have notUncut : ¬ Uncut data dotu := by
          intro uncut
          rcases cut with short | oversized
          · exact (uncut small).1 short
          · exact (uncut small).2 oversized
        refine ⟨⟨fun fields => absurd fields notFields, fun uncut => absurd uncut notUncut⟩,
          ⟨fun both => absurd both.1 notFields, fun both => absurd both.1 notUncut⟩⟩

/-- A Tclunk of seven bytes, cut before its fid, is accepted and clunks fid 0. -/
theorem truncated_tclunk_accepted :
    (spDeserialize [7, 0, 0, 0, 120, 1, 0] false).map (fun fc => (fc.type, fc.fid)) =
        some (.tclunk, 0) ∧
      ¬ FieldsInside [7, 0, 0, 0, 120, 1, 0] false := by
  have accepted : (spDeserialize [7, 0, 0, 0, 120, 1, 0] false).map (fun fc => (fc.type, fc.fid)) =
      some (.tclunk, 0) := by with_unfolding_all decide
  refine ⟨accepted, ?_⟩
  intro fields
  obtain ⟨fc, found, _⟩ := Option.map_eq_some_iff.mp accepted
  have missed : (⟨false, 7, 4, false⟩ : Access) ∈ packetAccesses [7, 0, 0, 0, 120, 1, 0] false := by
    with_unfolding_all decide
  have inside := fields.accepted fc found _ missed
  cases inside.got

end Xcpu.Libspfs
