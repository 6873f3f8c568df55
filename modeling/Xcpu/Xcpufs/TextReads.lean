import Mathlib.Data.List.Forall2
import Xcpu.Lib.Numerals
import Xcpu.Lib.Window
import Xcpu.Libspfs.Fcall
import Xcpu.Xcpufs.Wstat

/-!
The files of xcpufs that are read as texts: `clone`, `ctl`, `wait`, `procs` and `id` cut their text out of one
string, `pwent` and `grent` cut it together line by line. The outer `none` of a result is a write outside of a
buffer, a null pointer that is followed or an `int` that overflows; the inner one is an answer with an error.
-/

namespace Xcpu.Xcpufs.TextReads

open Xcpu.Libspfs (iohdrsz)
open Xcpu.Numerals Xcpu.Overwrite Xcpu.Window Xcpu.Xcpufs.Wstat

/-- The bytes of an Rread; `none` for those that nothing was written to. -/
abbrev Data := List (Option UInt8)

def IsInt (value : Int) : Prop := -2 ^ 31 ≤ value ∧ value < 2 ^ 31

instance (value : Int) : Decidable (IsInt value) := inferInstanceAs (Decidable (_ ∧ _))

/-- `cutbuf` into the bytes of the answer; `memmove` has to stay in them. -/
def cutbuf (target : Data) (toffset tcount : Int) (src : List UInt8) (soffset : Int) : Option (Data × Int) :=
  let slen : Int := src.length
  if ¬IsInt slen ∨ ¬IsInt (soffset + slen) then none
  else if toffset > soffset + slen then some (target, 0)
  else if ¬IsInt (toffset + tcount) then none
  else if soffset > toffset + tcount then some (target, 0)
  else
    let b := max soffset toffset
    let e := min (soffset + slen) (toffset + tcount)
    if b ≤ e ∧ e - toffset ≤ target.length then
      some (overwrite target (b - toffset).toNat (((src.drop (b - soffset).toNat).take (e - b).toNat).map some), e - b)
    else none

def cutstr (target : Data) (toffset tcount : Int) (src : Option (List UInt8)) (soffset : Int) : Option (Data × Int) :=
  match src with
  | none => some (target, 0)
  | some src => cutbuf target toffset tcount src soffset

/-- `spfile_read` around a call that cuts its text out of a string: the offset and the count are passed as
`int`, and the number that is returned is the length of the answer. -/
def readString (src : Option (List UInt8)) (offset count : Nat) : Option (Option Data) :=
  (cutstr (List.replicate count none) (toInt offset) (toInt count) src 0).map fun (target, n) => some (target.take n.toNat)

/-- `snprintf` into a buffer of the size. -/
def snprintf (size : Nat) (text : List UInt8) : List UInt8 := text.take (size - 1)

def cloneRead (sid : Int32) (offset count : Nat) : Option (Option Data) :=
  readString (some (snprintf 32 (formatInt sid.toInt))) offset count

def sctlRead (pid : Int32) (offset count : Nat) : Option (Option Data) :=
  readString (some (snprintf 16 (formatInt pid.toInt))) offset count

/-- `wait_read` once the session has finished or is wiped. -/
def waitRead (exitstatus : Option (List UInt8)) (offset count : Nat) : Option (Option Data) :=
  readString exitstatus offset count

def procsRead (p : List UInt8) (offset count : Nat) : Option (Option Data) := readString (some p) offset count

def idText (gid : List UInt8) (lid : Int32) : List UInt8 := gid ++ 47 :: formatInt lid.toInt

def idRead (malloc : Nat → Bool) (gid : List UInt8) (lid : Int32) (offset count : Nat) : Option (Option Data) :=
  if malloc (gid.length + 32) = false then some none
  else if gid.length + 32 < (idText gid lid).length + 1 then none
  else readString (some (idText gid lid)) offset count

/-- A user as `pwent` shows it. -/
structure PwUser where
  uname : List UInt8
  uid : UInt32
  dfltgroup : Option Group
  groups : List Group

/-- The allocation for a line of `pwent`. -/
def PwUser.blen (user : PwUser) : Nat :=
  user.uname.length + 12 + (user.groups.map fun group => group.gname.length + 1).sum + 2

def groupsText : List Group → List UInt8
  | [] => []
  | group :: more => 58 :: group.gname ++ more.flatMap fun group => 44 :: group.gname

/-- `uname:uid:gid`, the groups and a newline; there is none for a user without a default group. -/
def PwUser.text (user : PwUser) : List UInt8 :=
  match user.dfltgroup with
  | none => []
  | some dfltgroup =>
      user.uname ++ 58 :: (formatNat 10 user.uid.toNat ++ 58 :: formatNat 10 dfltgroup.gid.toNat) ++
        groupsText user.groups ++ [10]

def pwentLine (malloc : Nat → Bool) (user : PwUser) : Option (Option (List UInt8)) :=
  if 2 ^ 31 ≤ user.blen then none
  else if malloc user.blen = false then some none
  else if user.dfltgroup.isNone ∨ user.blen < user.text.length + 1 then none
  else some (some user.text)

def groupText (group : Group) : List UInt8 := group.gname ++ 58 :: (formatNat 10 group.gid.toNat ++ [10])

/-- The line of `grent` as its buffer holds it. -/
def groupPrinted (group : Group) : List UInt8 := snprintf (group.gname.length + 8) (groupText group)

def grentLine (malloc : Nat → Bool) (group : Group) : Option (Option (List UInt8)) :=
  if 2 ^ 31 ≤ group.gname.length + 8 then none
  else if malloc (group.gname.length + 8) = false then some none
  else some (some (groupPrinted group))

/-- The loop of `pwent_read` and `grent_read` with its `boff` and `ret`. -/
def readRecords {Record : Type} (line : Record → Option (Option (List UInt8))) (toffset tcount : Int) :
    List Record → Data → Int → Int → Option (Option (Data × Int))
  | [], target, _, ret => some (some (target, ret))
  | record :: more, target, boff, _ =>
      match line record with
      | none => none
      | some none => some none
      | some (some buf) =>
          -- `ret =+` the count of this line: it is not added.
          (cutbuf target toffset tcount buf boff).bind fun (target, n) =>
            readRecords line toffset tcount more target (boff + buf.length) n

/-- `spfile_read` of `pwent` and `grent`. -/
def readLines {Record : Type} (line : Record → Option (Option (List UInt8))) (records : List Record)
    (offset count : Nat) : Option (Option Data) :=
  if records.isEmpty then some none
  else
    (readRecords line (toInt offset) (toInt count) records (List.replicate count none) 0 0).map
      (Option.map fun (target, n) => target.take n.toNat)

def pwentRead (malloc : Nat → Bool) (users : List PwUser) (offset count : Nat) : Option (Option Data) :=
  readLines (pwentLine malloc) users offset count

def grentRead (malloc : Nat → Bool) (groups : List Group) (offset count : Nat) : Option (Option Data) :=
  readLines (grentLine malloc) groups offset count

/-- How many bytes of a stretch of the text a window shows. -/
def overlap (start : Int) (size : Nat) (first last : Int) : Int := max 0 (min last (start + size) - max first start)

section Window

variable {start : Int} {size : Nat}

theorem cutbuf_window (low : -2 ^ 31 ≤ start) (narrow : size < 2 ^ 31) (text src : List UInt8) :
    cutbuf (window start size text) start size src text.length =
      if text.length + src.length < 2 ^ 31 ∧
          (start + size < 2 ^ 31 ∨ ((text ++ src).length : Int) < start) then
        some (window start size (text ++ src), overlap start size text.length (text.length + src.length))
      else none := by
  rw [cutbuf]
  by_cases short : text.length + src.length < 2 ^ 31
  · have ints : ¬(¬IsInt (src.length : Int) ∨ ¬IsInt ((text.length : Int) + src.length)) := by
      simp only [IsInt]
      omega
    rw [if_neg ints, List.length_append]
    by_cases past : start > (text.length : Int) + src.length
    · have none : overlap start size text.length (text.length + src.length) = 0 := by
        rw [overlap]
        omega
      rw [if_pos past, if_pos ⟨short, .inr (by omega)⟩, none, window_append_outside (.inl (by omega))]
    · rw [if_neg past]
      by_cases small : start + size < 2 ^ 31
      · have int : ¬¬IsInt (start + size) := by
          simp only [IsInt]
          omega
        refine Eq.trans ?_ (if_pos ⟨short, .inl small⟩).symm
        rw [if_neg int]
        by_cases ahead : (text.length : Int) > start + size
        · have none : overlap start size text.length (text.length + src.length) = 0 := by
            rw [overlap]
            omega
          rw [if_pos ahead, none, window_append_outside (.inr (by omega))]
        · rw [if_neg ahead, if_pos ⟨by omega, by rw [window_length]; omega⟩,
            window_append rfl rfl (by omega)]
          have shown : overlap start size text.length (text.length + src.length)
              = min ((text.length : Int) + src.length) (start + size) - max (text.length : Int) start := by
            rw [overlap]
            omega
          rw [shown]
      · have wide : ¬IsInt (start + size) := by
          simp only [IsInt]
          omega
        rw [if_pos wide, if_neg]
        omega
  · have wide : ¬IsInt ((text.length : Int) + src.length) := by
      simp only [IsInt]
      omega
    rw [if_pos (.inr wide), if_neg (fun both => short both.1)]

/-- The loop shows the lines through the window, and counts what the last one shows. -/
theorem readRecords_window {Record : Type} {line : Record → Option (Option (List UInt8))} (low : -2 ^ 31 ≤ start)
    (narrow : size < 2 ^ 31) {records : List Record} {lines : List (List UInt8)}
    (built : List.Forall₂ (fun record text => line record = some (some text)) records lines)
    (some_record : records ≠ []) (text : List UInt8) (ret : Int) :
    readRecords line start size records (window start size text) text.length ret =
      if (text ++ lines.flatten).length < 2 ^ 31 ∧
          (start + size < 2 ^ 31 ∨ ((text ++ lines.flatten).length : Int) < start) then
        some (some (window start size (text ++ lines.flatten),
          overlap start size (text ++ lines.dropLast.flatten).length (text ++ lines.flatten).length))
      else none := by
  induction built generalizing text ret with
  | nil => exact absurd rfl some_record
  | @cons record buf more rest first built ih =>
      rw [readRecords, first]
      dsimp only
      rw [cutbuf_window low narrow]
      have longer : (text ++ buf).length ≤ (text ++ (buf :: rest).flatten).length := by
        rw [List.flatten_cons, List.length_append, List.length_append, List.length_append]
        omega
      by_cases here : text.length + buf.length < 2 ^ 31 ∧
          (start + size < 2 ^ 31 ∨ ((text ++ buf).length : Int) < start)
      · rw [if_pos here, Option.bind_some]
        dsimp only
        have boff : (text.length : Int) + buf.length = (text ++ buf).length := by
          rw [List.length_append]
          omega
        rw [boff]
        cases built with
        | nil =>
            have total : (text ++ buf).length = text.length + buf.length := List.length_append
            rw [readRecords]
            simp only [List.flatten_cons, List.flatten_nil, List.append_nil, List.dropLast_singleton]
            rw [if_pos ⟨by omega, here.2⟩]
        | cons next built =>
            have rest_of := ih (List.cons_ne_nil _ _) (text ++ buf)
              (overlap start size text.length (text.length + buf.length))
            rw [boff] at rest_of
            rw [rest_of]
            simp only [List.flatten_cons, List.append_assoc, List.dropLast_cons_cons]
      · rw [if_neg here, Option.bind_none, if_neg]
        rw [List.length_append] at here longer
        omega

end Window

section Served

/-- The offset and the count can be added up as ints, or the offset is behind the text. -/
def Addable (length offset count : Nat) : Prop :=
  toInt offset + count < 2 ^ 31 ∨ (length : Int) < toInt offset

/-- What was printed serves a request for the text: there is nothing to return and nothing is returned, or the
request begins in the last line and what was printed is the text as far as the request goes. -/
def Served (printed : List UInt8) (last : Nat) (text : List UInt8) (offset count : Nat) : Prop :=
  count = 0 ∨
    (text.length ≤ offset ∧ (offset < 2 ^ 31 ∨ overlap (toInt offset) count last printed.length = 0)) ∨
    (offset < 2 ^ 31 ∧ last ≤ offset ∧ slice printed offset count = slice text offset count)

/-- The bytes that a window and the count of the last line make. -/
def shown (printed : List UInt8) (last offset count : Nat) : Data :=
  (window (toInt offset) count printed).take (overlap (toInt offset) count last printed.length).toNat

theorem toInt_bounds (n : Nat) : -2 ^ 31 ≤ toInt n ∧ toInt n < 2 ^ 31 := by
  have wraps : toInt n = Int.bmod n (2 ^ 32) := Int32.toInt_ofNat
  rw [wraps, Int.bmod_def]
  norm_num
  split <;> omega

theorem shown_small {printed : List UInt8} {last offset count : Nat} (inside : last ≤ printed.length)
    (small : offset < 2 ^ 31) :
    shown printed last offset count =
      ((slice printed offset count).take (overlap offset count last printed.length).toNat).map some := by
  rw [shown, toInt_small small, window_take]
  rw [slice_length, overlap]
  omega

theorem shown_iff {printed text : List UInt8} {last offset count : Nat} (inside : last ≤ printed.length)
    (longer : printed.length ≤ text.length) (short : text.length < 2 ^ 32) :
    shown printed last offset count = (slice text offset count).map some ↔
      Served printed last text offset count := by
  have textSlice := slice_length text offset count
  have printedSlice := slice_length printed offset count
  by_cases nothing : count = 0
  · subst nothing
    refine ⟨fun _ => .inl rfl, fun _ => ?_⟩
    have width : overlap (toInt offset) (0 : Nat) last printed.length = 0 := by
      rw [overlap]
      omega
    rw [shown, width, slice, List.take_zero]
    rfl
  by_cases small : offset < 2 ^ 31
  · rw [shown_small inside small, List.map_inj_right (fun _ _ => Option.some.inj)]
    have width : (overlap (offset : Int) count last printed.length).toNat =
        min printed.length (offset + count) - max last offset := by
      rw [overlap]
      omega
    rw [width]
    constructor
    · intro same
      by_cases past : text.length ≤ offset
      · exact .inr (.inl ⟨past, .inl small⟩)
      · have lengths := congrArg List.length same
        rw [List.length_take, textSlice, printedSlice] at lengths
        have begun : last ≤ offset := by omega
        rw [List.take_of_length_le (by omega)] at same
        exact .inr (.inr ⟨small, begun, same⟩)
    · rintro (none | ⟨past, -⟩ | ⟨-, begun, same⟩)
      · exact absurd none nothing
      · rw [List.eq_nil_of_length_eq_zero (show (slice text offset count).length = 0 by omega),
          List.eq_nil_of_length_eq_zero (show (slice printed offset count).length = 0 by omega), List.take_nil]
      · rw [List.take_of_length_le (by omega), same]
  · constructor
    · intro same
      -- Between 2 ^ 31 and 2 ^ 32 the offset is taken for a negative one, and the first byte is not written.
      have outside : text.length ≤ offset := by
        by_contra present
        have negative : toInt offset < 0 := (toInt_large (by omega)).2 (by omega)
        have head := congrArg (fun data : Data => data[0]?) same
        have some_bytes : 0 < (slice text offset count).length := by omega
        rw [List.getElem?_map, List.getElem?_eq_getElem some_bytes, shown, List.getElem?_take] at head
        split at head
        · rw [window_getElem? (by omega), if_neg (by omega)] at head
          cases head
        · cases head
      have lengths := congrArg List.length same
      rw [shown, List.length_take, window_length, List.length_map, textSlice] at lengths
      refine .inr (.inl ⟨outside, .inr ?_⟩)
      rw [overlap] at lengths ⊢
      omega
    · rintro (none | ⟨past, before | none⟩ | ⟨before, -⟩)
      · exact absurd none nothing
      · exact absurd before small
      · have empty : slice text offset count = [] :=
          List.eq_nil_of_length_eq_zero (by omega)
        rw [shown, none, empty]
        rfl
      · exact absurd before small

end Served

section Lines

variable {Record : Type} {line : Record → Option (Option (List UInt8))} {printed : Record → List UInt8}
  {fits : Record → Prop}

theorem readRecords_built {start : Int} {size : Nat} {records : List Record} {target : Data} {boff ret : Int}
    {result : Data × Int} (run : readRecords line start size records target boff ret = some (some result)) :
    ∃ lines, List.Forall₂ (fun record text => line record = some (some text)) records lines := by
  induction records generalizing target boff ret with
  | nil => exact ⟨[], .nil⟩
  | cons record more ih =>
      rw [readRecords] at run
      split at run
      · cases run
      · cases run
      · rename_i buf built
        obtain ⟨⟨next, n⟩, -, rest⟩ := Option.bind_eq_some_iff.mp run
        obtain ⟨lines, all⟩ := ih rest
        exact ⟨buf :: lines, .cons built all⟩

theorem built_map (spec : ∀ record text, line record = some (some text) ↔ fits record ∧ text = printed record)
    {records : List Record} {lines : List (List UInt8)} :
    List.Forall₂ (fun record text => line record = some (some text)) records lines ↔
      (∀ record ∈ records, fits record) ∧ lines = records.map printed := by
  constructor
  · intro built
    induction built with
    | nil => exact ⟨fun _ member => absurd member List.not_mem_nil, rfl⟩
    | cons first _ ih =>
        obtain ⟨fit, rfl⟩ := (spec _ _).mp first
        obtain ⟨rest, rfl⟩ := ih
        exact ⟨List.forall_mem_cons.mpr ⟨fit, rest⟩, rfl⟩
  · rintro ⟨all, rfl⟩
    induction records with
    | nil => exact .nil
    | cons record more ih =>
        obtain ⟨fit, rest⟩ := List.forall_mem_cons.mp all
        exact .cons ((spec _ _).mpr ⟨fit, rfl⟩) (ih rest)

/-- Reading line by line, from what the lines are. -/
theorem readLines_iff (spec : ∀ record text, line record = some (some text) ↔ fits record ∧ text = printed record)
    (records : List Record) {offset count : Nat} (narrow : count < 2 ^ 31) (data : Data) :
    readLines line records offset count = some (some data) ↔
      records ≠ [] ∧ (∀ record ∈ records, fits record) ∧ (records.map printed).flatten.length < 2 ^ 31 ∧
        Addable (records.map printed).flatten.length offset count ∧
        data = shown (records.map printed).flatten (records.map printed).dropLast.flatten.length offset count := by
  by_cases empty : records = []
  · subst empty
    exact ⟨fun answer => (by cases answer), fun both => absurd rfl both.1⟩
  · have run (lines : List (List UInt8))
        (built : List.Forall₂ (fun record text => line record = some (some text)) records lines) :=
      readRecords_window (toInt_bounds offset).1 narrow built empty [] 0
    simp only [window_nil, List.nil_append, List.length_nil] at run
    rw [readLines, if_neg (by simpa using empty), toInt_small narrow]
    constructor
    · intro answer
      obtain ⟨result, loop, answer⟩ := Option.map_eq_some_iff.mp answer
      obtain ⟨⟨target, n⟩, rfl, rfl⟩ := Option.map_eq_some_iff.mp answer
      obtain ⟨lines, built⟩ := readRecords_built loop
      obtain ⟨all, rfl⟩ := (built_map spec).mp built
      have whole := run _ built
      rw [show ((0 : Nat) : Int) = 0 from rfl, loop] at whole
      split at whole
      · rename_i bounds
        cases whole
        exact ⟨empty, all, bounds.1, bounds.2, rfl⟩
      · cases whole
    · rintro ⟨-, all, short, addable, rfl⟩
      have whole := run _ ((built_map spec).mpr ⟨all, rfl⟩)
      rw [if_pos ⟨short, addable⟩, show ((0 : Nat) : Int) = 0 from rfl] at whole
      rw [whole]
      rfl

end Lines

/-- The requests that are served right for one string: the request begins where an `int` can say, or no part
of the string is in the place that the offset is taken for. -/
def CutMeets (text : List UInt8) (offset count : Nat) : Prop :=
  text.length < 2 ^ 31 ∧ Addable text.length offset count ∧
    (count = 0 ∨ offset < 2 ^ 31 ∨ overlap (toInt offset) count 0 text.length = 0)

theorem served_self {text : List UInt8} (short : text.length < 2 ^ 31) (last offset count : Nat) :
    Served text last text offset count ↔
      count = 0 ∨ (offset < 2 ^ 31 ∧ (last ≤ offset ∨ text.length ≤ offset)) ∨
        (2 ^ 31 ≤ offset ∧ overlap (toInt offset) count last text.length = 0) := by
  rw [Served]
  constructor
  · rintro (none | ⟨past, small | hidden⟩ | ⟨small, begun, -⟩)
    · exact .inl none
    · exact .inr (.inl ⟨small, .inr past⟩)
    · by_cases small : offset < 2 ^ 31
      · exact .inr (.inl ⟨small, .inr past⟩)
      · exact .inr (.inr ⟨by omega, hidden⟩)
    · exact .inr (.inl ⟨small, .inl begun⟩)
  · rintro (none | ⟨small, begun | past⟩ | ⟨large, hidden⟩)
    · exact .inl none
    · exact .inr (.inr ⟨small, begun, rfl⟩)
    · exact .inr (.inl ⟨past, .inl small⟩)
    · exact .inr (.inl ⟨by omega, .inr hidden⟩)

theorem readString_iff (text : List UInt8) {offset count : Nat} (narrow : count < 2 ^ 31) :
    readString (some text) offset count = some (some ((slice text offset count).map some)) ↔
      CutMeets text offset count := by
  have cut := cutbuf_window (toInt_bounds offset).1 narrow [] text
  simp only [window_nil, List.nil_append, List.length_nil, Nat.zero_add] at cut
  rw [show ((0 : Nat) : Int) = 0 from rfl, Int.zero_add] at cut
  rw [readString, cutstr, toInt_small narrow, cut, CutMeets]
  by_cases bounds : text.length < 2 ^ 31 ∧ (toInt offset + count < 2 ^ 31 ∨ (text.length : Int) < toInt offset)
  · rw [if_pos bounds, Option.map_some, Option.some_inj, Option.some_inj]
    have all := @shown_iff text text 0 offset count (Nat.zero_le _) (Nat.le_refl _) (by omega)
    rw [shown, served_self bounds.1] at all
    rw [show ((0 : Nat) : Int) = 0 from rfl] at all
    rw [all]
    constructor
    · rintro (none | ⟨small, -⟩ | ⟨-, hidden⟩)
      · exact ⟨bounds.1, bounds.2, .inl none⟩
      · exact ⟨bounds.1, bounds.2, .inr (.inl small)⟩
      · exact ⟨bounds.1, bounds.2, .inr (.inr hidden)⟩
    · rintro ⟨-, -, none | small | hidden⟩
      · exact .inl none
      · exact .inr (.inl ⟨small, .inl (Nat.zero_le _)⟩)
      · by_cases small : offset < 2 ^ 31
        · exact .inr (.inl ⟨small, .inl (Nat.zero_le _)⟩)
        · exact .inr (.inr ⟨by omega, hidden⟩)
  · rw [if_neg bounds]
    exact ⟨nofun, fun meets => absurd ⟨meets.1, meets.2.1⟩ bounds⟩

theorem readString_null (offset count : Nat) : readString none offset count = some (some []) := by
  simp [readString, cutstr]

/-- The files, with what their texts are made from. -/
inductive TextFile where
  | clone (sid : Int32)
  | ctl (pid : Int32)
  | wait (exitstatus : Option (List UInt8))
  | procs (p : List UInt8)
  | id (gid : List UInt8) (lid : Int32)
  | pwent (users : List PwUser)
  | grent (groups : List Group)

namespace TextFile

def read (malloc : Nat → Bool) (offset count : Nat) : TextFile → Option (Option Data)
  | clone sid => cloneRead sid offset count
  | ctl pid => sctlRead pid offset count
  | wait exitstatus => waitRead exitstatus offset count
  | procs p => procsRead p offset count
  | id gid lid => idRead malloc gid lid offset count
  | pwent users => pwentRead malloc users offset count
  | grent groups => grentRead malloc groups offset count

/-- The current text. -/
def text : TextFile → List UInt8
  | clone sid => formatInt sid.toInt
  | ctl pid => formatInt pid.toInt
  | wait exitstatus => exitstatus.getD []
  | procs p => p
  | id gid lid => idText gid lid
  | pwent users => (users.map PwUser.text).flatten
  | grent groups => (groups.map groupText).flatten

end TextFile

/-- The two numbers of a user take at most ten digits, and the allocation is given. -/
def PwUser.Fits (malloc : Nat → Bool) (user : PwUser) : Prop :=
  (∃ dfltgroup, user.dfltgroup = some dfltgroup ∧
    (formatNat 10 user.uid.toNat).length + (formatNat 10 dfltgroup.gid.toNat).length ≤ 10) ∧
  user.blen < 2 ^ 31 ∧ malloc user.blen = true

def GroupFits (malloc : Nat → Bool) (group : Group) : Prop :=
  group.gname.length + 8 < 2 ^ 31 ∧ malloc (group.gname.length + 8) = true

/-- The requests that the code answers with the slice of the text. -/
def Meets (malloc : Nat → Bool) (offset count : Nat) : TextFile → Prop
  | .clone sid => CutMeets (formatInt sid.toInt) offset count
  | .ctl pid => CutMeets (formatInt pid.toInt) offset count
  | .wait exitstatus => ∀ text, exitstatus = some text → CutMeets text offset count
  | .procs p => CutMeets p offset count
  | .id gid lid => malloc (gid.length + 32) = true ∧ CutMeets (idText gid lid) offset count
  | .pwent users =>
      users ≠ [] ∧ (∀ user ∈ users, user.Fits malloc) ∧ (users.map PwUser.text).flatten.length < 2 ^ 31 ∧
        Addable (users.map PwUser.text).flatten.length offset count ∧
        Served (users.map PwUser.text).flatten (users.map PwUser.text).dropLast.flatten.length
          (users.map PwUser.text).flatten offset count
  | .grent groups =>
      groups ≠ [] ∧ (∀ group ∈ groups, GroupFits malloc group) ∧
        (groups.map groupPrinted).flatten.length < 2 ^ 31 ∧
        Addable (groups.map groupPrinted).flatten.length offset count ∧
        Served (groups.map groupPrinted).flatten (groups.map groupPrinted).dropLast.flatten.length
          (groups.map groupText).flatten offset count

theorem snprintf_int {size : Nat} (room : 12 ≤ size) (n : Int32) :
    snprintf size (formatInt n.toInt) = formatInt n.toInt := by
  have low := n.le_toInt
  have high := n.toInt_lt
  have width := (formatInt_length_le n.toInt (show 1 < 11 by decide)).mpr (by omega)
  rw [snprintf, List.take_of_length_le (by omega)]

theorem groupsText_length (groups : List Group) :
    (groupsText groups).length = (groups.map fun group => group.gname.length + 1).sum := by
  have more (rest : List Group) : (rest.flatMap fun group => 44 :: group.gname).length
      = (rest.map fun group => group.gname.length + 1).sum := by
    induction rest with
    | nil => rfl
    | cons group rest ih =>
        rw [List.flatMap_cons, List.length_append, ih, List.map_cons, List.sum_cons, List.length_cons]
  cases groups with
  | nil => rfl
  | cons group rest =>
      rw [groupsText, List.cons_append, List.length_cons, List.length_append, more, List.map_cons, List.sum_cons]
      omega

theorem pwentLine_iff (malloc : Nat → Bool) (user : PwUser) (text : List UInt8) :
    pwentLine malloc user = some (some text) ↔ user.Fits malloc ∧ text = user.text := by
  have room {dfltgroup : Group} (group : user.dfltgroup = some dfltgroup) :
      user.text.length + 1 ≤ user.blen ↔
        (formatNat 10 user.uid.toNat).length + (formatNat 10 dfltgroup.gid.toNat).length ≤ 10 := by
    rw [PwUser.text, group, PwUser.blen]
    simp only [List.length_append, List.length_cons, List.length_nil, groupsText_length]
    omega
  rw [pwentLine]
  by_cases wide : 2 ^ 31 ≤ user.blen
  · rw [if_pos wide]
    exact ⟨nofun, fun both => absurd both.1.2.1 (Nat.not_lt.mpr wide)⟩
  rw [if_neg wide]
  cases given : malloc user.blen with
  | false =>
      rw [if_pos rfl]
      refine ⟨nofun, fun both => ?_⟩
      have yes := both.1.2.2
      rw [given] at yes
      cases yes
  | true =>
      rw [if_neg Bool.noConfusion]
      cases group : user.dfltgroup with
      | none =>
          rw [if_pos (.inl rfl)]
          refine ⟨nofun, fun both => ?_⟩
          obtain ⟨dfltgroup, same, -⟩ := both.1.1
          rw [group] at same
          cases same
      | some dfltgroup =>
          by_cases fits : user.text.length + 1 ≤ user.blen
          · rw [if_neg (by simp; omega), Option.some_inj, Option.some_inj]
            constructor
            · rintro rfl
              exact ⟨⟨⟨dfltgroup, group, (room group).mp fits⟩, by omega, given⟩, rfl⟩
            · exact fun both => both.2.symm
          · rw [if_pos (.inr (by omega))]
            refine ⟨nofun, fun both => ?_⟩
            obtain ⟨other, same, digits⟩ := both.1.1
            exact absurd ((room same).mpr digits) fits

theorem grentLine_iff (malloc : Nat → Bool) (group : Group) (text : List UInt8) :
    grentLine malloc group = some (some text) ↔ GroupFits malloc group ∧ text = groupPrinted group := by
  rw [grentLine, GroupFits]
  by_cases wide : 2 ^ 31 ≤ group.gname.length + 8
  · rw [if_pos wide]
    exact ⟨nofun, fun both => absurd both.1.1 (Nat.not_lt.mpr wide)⟩
  rw [if_neg wide]
  cases given : malloc (group.gname.length + 8) with
  | false => exact ⟨nofun, fun both => nomatch both.1.2⟩
  | true =>
      rw [if_neg Bool.noConfusion, Option.some_inj, Option.some_inj]
      exact ⟨fun same => ⟨⟨by omega, rfl⟩, same.symm⟩, fun both => both.2.symm⟩

theorem groupPrinted_length (groups : List Group) :
    (groups.map groupPrinted).flatten.length ≤ (groups.map groupText).flatten.length ∧
      (groups.map groupText).flatten.length ≤ 2 * (groups.map groupPrinted).flatten.length := by
  have one (group : Group) : (groupPrinted group).length ≤ (groupText group).length ∧
      (groupText group).length ≤ 2 * (groupPrinted group).length := by
    have small := group.gid.toNat_lt
    have digits := (@formatNat_length_le 10 group.gid.toNat (by decide) 10 (by decide)).mpr (by omega)
    rw [groupPrinted, snprintf, List.length_take, groupText]
    simp only [List.length_append, List.length_cons, List.length_nil]
    omega
  induction groups with
  | nil => exact ⟨Nat.le_refl _, Nat.le_refl _⟩
  | cons group more ih =>
      have first := one group
      simp only [List.map_cons, List.flatten_cons, List.length_append]
      omega

/-- A Tread that the size of the connection allows; the size is an option of the program, an `int`. -/
theorem read_slice_iff (malloc : Nat → Bool) (file : TextFile) (offset : UInt64) (count : UInt32) (msize : Nat)
    (allowed : count.toNat + iohdrsz ≤ msize) (option : msize < 2 ^ 31) :
    file.read malloc offset.toNat count.toNat =
        some (some ((slice file.text offset.toNat count.toNat).map some)) ↔
      Meets malloc offset.toNat count.toNat file := by
  have narrow : count.toNat < 2 ^ 31 := by omega
  cases file with
  | clone sid =>
      rw [TextFile.read, cloneRead, snprintf_int (by decide)]
      exact readString_iff _ narrow
  | ctl pid =>
      rw [TextFile.read, sctlRead, snprintf_int (by decide)]
      exact readString_iff _ narrow
  | wait exitstatus =>
      cases exitstatus with
      | none =>
          refine ⟨fun _ _ given => absurd given.symm (Option.some_ne_none _), fun _ => ?_⟩
          rw [TextFile.read, waitRead, readString_null, TextFile.text, slice, Option.getD_none, List.drop_nil,
            List.take_nil]
          rfl
      | some text =>
          have cut := @readString_iff text offset.toNat count.toNat narrow
          exact ⟨fun answer other same => Option.some.inj same ▸ cut.mp answer, fun meets => cut.mpr (meets text rfl)⟩
  | procs p =>
      rw [TextFile.read, procsRead]
      exact readString_iff _ narrow
  | id gid lid =>
      have low := lid.le_toInt
      have high := lid.toInt_lt
      have width := (formatInt_length_le lid.toInt (show 1 < 11 by decide)).mpr (by omega)
      have room : ¬gid.length + 32 < (idText gid lid).length + 1 := by
        rw [idText, List.length_append, List.length_cons]
        omega
      rw [TextFile.read, idRead, if_neg room, Meets]
      cases malloc (gid.length + 32) with
      | false => exact ⟨fun wrong => absurd wrong (by simp), fun both => Bool.noConfusion both.1⟩
      | true =>
          rw [if_neg Bool.noConfusion]
          exact (readString_iff _ narrow).trans ⟨fun cut => ⟨rfl, cut⟩, And.right⟩
  | pwent users =>
      have inside : (users.map PwUser.text).dropLast.flatten.length ≤ (users.map PwUser.text).flatten.length :=
        ((List.dropLast_sublist _).flatten).length_le
      rw [TextFile.read, pwentRead, readLines_iff (pwentLine_iff malloc) users narrow, Meets, TextFile.text]
      constructor
      · rintro ⟨some_user, fits, short, addable, same⟩
        exact ⟨some_user, fits, short, addable,
          (shown_iff inside (Nat.le_refl _) (by omega)).mp same.symm⟩
      · rintro ⟨some_user, fits, short, addable, served⟩
        exact ⟨some_user, fits, short, addable,
          ((shown_iff inside (Nat.le_refl _) (by omega)).mpr served).symm⟩
  | grent groups =>
      have inside : (groups.map groupPrinted).dropLast.flatten.length ≤ (groups.map groupPrinted).flatten.length :=
        ((List.dropLast_sublist _).flatten).length_le
      obtain ⟨longer, twice⟩ := groupPrinted_length groups
      rw [TextFile.read, grentRead, readLines_iff (grentLine_iff malloc) groups narrow, Meets, TextFile.text]
      constructor
      · rintro ⟨some_group, fits, short, addable, same⟩
        exact ⟨some_group, fits, short, addable, (shown_iff inside longer (by omega)).mp same.symm⟩
      · rintro ⟨some_group, fits, short, addable, served⟩
        exact ⟨some_group, fits, short, addable, ((shown_iff inside longer (by omega)).mpr served).symm⟩

theorem read_slice_clone :
    (TextFile.clone 5).read (fun _ => true) 0 10 = some (some ((slice (formatInt 5) 0 10).map some)) := by
  have meets : Meets (fun _ => true) 0 10 (.clone 5) := by
    refine ⟨?_, .inl ?_, .inr (.inl (by decide))⟩ <;> with_unfolding_all decide
  exact (read_slice_iff (fun _ => true) (.clone 5) 0 10 34 (by decide) (by decide)).mpr meets

/-- Two users of one group: the answer has the length of the second line. -/
theorem pwent_last_line :
    (TextFile.pwent [⟨[97], 1, some ⟨[103], 9⟩, []⟩, ⟨[98], 2, some ⟨[103], 9⟩, []⟩]).read (fun _ => true) 0 12 ≠
      some (some ((slice (TextFile.pwent [⟨[97], 1, some ⟨[103], 9⟩, []⟩, ⟨[98], 2, some ⟨[103], 9⟩, []⟩]).text 0 12).map
        some)) := by
  with_unfolding_all decide

end Xcpu.Xcpufs.TextReads
