import Xcpu.Bjs.SexpRoundTrip

/-!
Batch jobs: how one is admitted (`client_submit_job`, `mkjob`), how it is saved in the spool
directory (`persistent_job_add`) and how it is read back (`persistent_job_load_single`).
-/

namespace Xcpu.Bjs

open Xcpu.Numerals

/-- `sexp_nth` from an element on; NULL past the end. -/
def Sexp.nthFrom : Sexp → Nat → Sexp
  | .null, _ => .null
  | sx, 0 => sx
  | .value _ next, n + 1 => next.nthFrom n
  | .list _ next, n + 1 => next.nthFrom n

def sexpNth (sx : Sexp) (n : Nat) : Sexp := sx.elements.nthFrom n

/-- The field `val`; there is none behind NULL or in a list. -/
def Sexp.val? : Sexp → Option Bytes
  | .value val _ => some val
  | _ => none

/-- The elements that `sexp_create_list` makes of strings. -/
def atoms : List Bytes → Sexp
  | [] => .null
  | val :: rest => .value val (atoms rest)

def sexpCreateList (strs : List Bytes) : Sexp := .list (atoms strs) .null

def sexpAppendSx : Sexp → Sexp → Sexp
  | .list elts next, sx => .list (elts.append sx) next
  | sx, _ => sx

def sexpCopyList (sx : Sexp) : Sexp := .list sx.elements .null

/-- The loop of `sexp_check_format` from an element on; `true` stands for `V` and `false` for `L`. -/
def Sexp.hasFormat : Sexp → List Bool → Bool
  | .null, [] => true
  | .value _ next, true :: fmt => next.hasFormat fmt
  | .list _ next, false :: fmt => next.hasFormat fmt
  | _, _ => false

/-- The values of elements that are all atoms. -/
def Sexp.vals : Sexp → Option (List Bytes)
  | .null => some []
  | .value val next => next.vals.map (val :: ·)
  | .list _ _ => none

/-- Requirements are lists of atoms. -/
def Sexp.areReqs : Sexp → Bool
  | .null => true
  | .value _ _ => false
  | .list elts next => elts.vals.isSome && next.areReqs

/-- The saved fields of a `struct bjs_job_t` with a command line. -/
structure BatchJob where
  pool : Bytes
  submitTime : Int64
  uid : Int32
  gid : Int32
  shell : Bytes
  cmdline : Bytes
  dir : Bytes
  umask : Int32
  envp : List Bytes
  reqs : Sexp
  deriving DecidableEq

/-- `"job"` -/
def jobAtom : Bytes := [106, 111, 98]

/-- `VVVVVVLL` -/
def jobFormat : List Bool := [true, true, true, true, true, true, false, false]

/-- The client's `euid` and `egid`. -/
structure Creds where
  euid : Int32
  egid : Int32

/-- `mkjob` of a batch job that passed the checks of its format. -/
def mkjob (creds : Creds) (now : Int64) (jobsx : Sexp) : Option BatchJob := do
  let pool ← (sexpNth jobsx 1).val?
  let shell ← (sexpNth jobsx 2).val?
  let cmdline ← (sexpNth jobsx 3).val?
  let dir ← (sexpNth jobsx 4).val?
  let umask ← (sexpNth jobsx 5).val?
  let envp ← (sexpNth jobsx 6).elements.vals
  return {
    pool, submitTime := now, uid := creds.euid, gid := creds.egid, shell, cmdline, dir,
    umask := Int32.ofInt (strtol0 umask).1, envp, reqs := sexpNth jobsx 7 }

/-- `client_submit_job` of a batch job. `checks` are those of permissions, of the pool's limits and
of the other requirements, and `submit` is the pool's policy. -/
def clientSubmitJob (pools : List Bytes) (checks submit : Bytes → BatchJob → Bool) (creds : Creds)
    (now : Int64) (jobsx : Sexp) : Option BatchJob :=
  if (sexpNth jobsx 0).val? = some jobAtom ∧ jobsx.elements.hasFormat jobFormat ∧
      (sexpNth jobsx 6).elements.vals.isSome ∧ (sexpNth jobsx 7).elements.areReqs then
    (mkjob creds now jobsx).bind fun j =>
      if j.pool ∈ pools ∧ checks j.pool j ∧ submit j.pool j then some j else none
  else none

/-- `sprintf` into a buffer; `none` if it would be overrun. -/
def sprintf (size : Nat) (text : Bytes) : Option Bytes := if text.length < size then some text else none

/-- `%o` takes the `int` as an `unsigned`. -/
def formatUmask (umask : Int32) : Bytes := 48 :: formatNat 8 umask.toBitVec.toNat

/-- The s-expression that `persistent_job_add` builds. -/
def jobSexp (j : BatchJob) (substr uidstr gidstr umstr : Bytes) : Sexp :=
  sexpAppendSx
    (sexpAppendSx (sexpCreateList [j.pool, substr, uidstr, gidstr, j.shell, j.cmdline, j.dir, umstr])
      (sexpCreateList j.envp))
    j.reqs

/-- `persistent_job_add`: what is in the file afterwards. -/
def persistentJobAdd (j : BatchJob) : Option Bytes := do
  let uidstr ← sprintf 10 (formatInt j.uid.toInt)
  let gidstr ← sprintf 10 (formatInt j.gid.toInt)
  let umstr ← sprintf 10 (formatUmask j.umask)
  let substr ← sprintf 20 (formatInt j.submitTime.toInt)
  sexpPrint (jobSexp j substr uidstr gidstr umstr)

/-- `sexp_read_f` over what the calls of `fread` return. -/
def sexpReadF (s : SexpParser) : List Bytes → Option Sexp
  | [] => none
  | chunk :: reads =>
      if chunk = [] then none
      else match sexpParserParse s chunk with
        | .error => none
        | .more _ s => sexpReadF s reads
        | .value _ sx _ => some sx

/-- The job that `persistent_job_load_single` creates out of the s-expression. -/
def persistentJob (sx : Sexp) : Option BatchJob := do
  let pool ← (sexpNth sx 0).val?
  let submitTime ← (sexpNth sx 1).val?
  let uid ← (sexpNth sx 2).val?
  let gid ← (sexpNth sx 3).val?
  let shell ← (sexpNth sx 4).val?
  let cmdline ← (sexpNth sx 5).val?
  let dir ← (sexpNth sx 6).val?
  let umask ← (sexpNth sx 7).val?
  let envp ← (sexpNth sx 8).elements.vals
  return {
    pool, submitTime := Int64.ofInt (strtol0 submitTime).1, uid := Int32.ofInt (strtol0 uid).1,
    gid := Int32.ofInt (strtol0 gid).1, shell, cmdline, dir, umask := Int32.ofInt (strtol0 umask).1, envp,
    reqs := sexpCopyList (sexpNth sx 9) }

/-- `persistent_job_load_single` of a file that is read in the pieces `reads`. -/
def persistentJobLoadSingle (pools : List Bytes) (submit : Bytes → BatchJob → Bool) (reads : List Bytes) :
    Option BatchJob := do
  let sx ← sexpReadF sexpParserNew reads
  let j ← persistentJob sx
  if j.pool ∈ pools ∧ submit j.pool j then some j else none

/-- A value that a client's parser yielded; its parser starts with a limit of 10
kilobytes. -/
def Received (jobsx : Sexp) : Prop :=
  ∃ chunks results s used, feedChunks { sexpParserNew with maxBytes := 10 * 1024 } chunks = some (results, s) ∧
    (used, some jobsx) ∈ results

/-- The job is saved, and comes back the same however the file is read. -/
def RoundTrips (pools : List Bytes) (submit : Bytes → BatchJob → Bool) (j : BatchJob) : Prop :=
  ∃ file, persistentJobAdd j = some file ∧ ∀ reads, reads.flatten = file → (∀ chunk ∈ reads, chunk ≠ []) →
    persistentJobLoadSingle pools submit reads = some j

/-- The numbers are short enough for the buffers they are printed into. -/
structure NumbersFit (j : BatchJob) : Prop where
  uid : -10 ^ 8 < j.uid.toInt ∧ j.uid.toInt < 10 ^ 9
  gid : -10 ^ 8 < j.gid.toInt ∧ j.gid.toInt < 10 ^ 9
  umask : j.umask.toBitVec.toNat < 8 ^ 8
  submitTime : -10 ^ 18 < j.submitTime.toInt

section Admitted

variable {sx next : Sexp} {fmt : List Bool} {vals : List Bytes}

theorem hasFormat_value (formed : sx.hasFormat (true :: fmt) = true) :
    ∃ val next, sx = .value val next ∧ next.hasFormat fmt = true := by
  cases sx with
  | null => simp [Sexp.hasFormat] at formed
  | value val next => exact ⟨val, next, rfl, formed⟩
  | list elts next => simp [Sexp.hasFormat] at formed

theorem hasFormat_list (formed : sx.hasFormat (false :: fmt) = true) :
    ∃ elts next, sx = .list elts next ∧ next.hasFormat fmt = true := by
  cases sx with
  | null => simp [Sexp.hasFormat] at formed
  | value val next => simp [Sexp.hasFormat] at formed
  | list elts next => exact ⟨elts, next, rfl, formed⟩

theorem hasFormat_nil (formed : sx.hasFormat [] = true) : sx = .null := by
  cases sx with
  | null => rfl
  | value val next => simp [Sexp.hasFormat] at formed
  | list elts next => simp [Sexp.hasFormat] at formed

theorem vals_atoms (valued : sx.vals = some vals) : sx = atoms vals ∧ sx.depth = 0 := by
  induction sx generalizing vals with
  | null =>
      obtain rfl := Option.some.inj valued
      exact ⟨rfl, rfl⟩
  | value val next ih =>
      obtain ⟨rest, valued', rfl⟩ := Option.map_eq_some_iff.mp valued
      obtain ⟨same, flat⟩ := ih valued'
      exact ⟨by rw [atoms, ← same], flat⟩
  | list elts next => simp [Sexp.vals] at valued

theorem atoms_vals (vals : List Bytes) : (atoms vals).vals = some vals := by
  induction vals with
  | nil => rfl
  | cons val rest ih => rw [atoms, Sexp.vals, ih]; rfl

theorem areReqs_depth (reqs : sx.areReqs = true) : sx.depth ≤ 1 := by
  induction sx with
  | null => exact Nat.zero_le 1
  | value val next => simp [Sexp.areReqs] at reqs
  | list elts next _ ih =>
      simp only [Sexp.areReqs, Bool.and_eq_true] at reqs
      obtain ⟨vals, valued⟩ := Option.isSome_iff_exists.mp reqs.1
      have flat := (vals_atoms valued).2
      have rest := ih reqs.2
      rw [Sexp.depth, flat]
      omega

/-- What the s-expression of an admitted job looks like. -/
structure Submitted (jobsx : Sexp) (j : BatchJob) (umask : Bytes) (reqs : Sexp) : Prop where
  elements : jobsx.elements = .value jobAtom (.value j.pool (.value j.shell (.value j.cmdline (.value j.dir
    (.value umask (.list (atoms j.envp) (.list reqs .null)))))))
  areReqs : reqs.areReqs = true
  reqs_eq : j.reqs = .list reqs .null

variable {pools : List Bytes} {checks submit : Bytes → BatchJob → Bool} {creds : Creds} {now : Int64}
variable {jobsx : Sexp} {j : BatchJob}

theorem clientSubmitJob_submitted
    (admitted : clientSubmitJob pools checks submit creds now jobsx = some j) :
    (∃ umask reqs, Submitted jobsx j umask reqs) ∧ j.pool ∈ pools ∧ submit j.pool j = true := by
  unfold clientSubmitJob at admitted
  split at admitted
  · rename_i checked
    obtain ⟨job, formed, -, areReqs⟩ := checked
    obtain ⟨made, created, admitted⟩ := Option.bind_eq_some_iff.mp admitted
    split at admitted
    · rename_i accepted
      obtain rfl := Option.some.inj admitted
      obtain ⟨val0, rest0, elements, formed1⟩ := hasFormat_value formed
      obtain ⟨pool, rest1, rfl, formed2⟩ := hasFormat_value formed1
      obtain ⟨shell, rest2, rfl, formed3⟩ := hasFormat_value formed2
      obtain ⟨cmdline, rest3, rfl, formed4⟩ := hasFormat_value formed3
      obtain ⟨dir, rest4, rfl, formed5⟩ := hasFormat_value formed4
      obtain ⟨umask, rest5, rfl, formed6⟩ := hasFormat_value formed5
      obtain ⟨env, rest6, rfl, formed7⟩ := hasFormat_list formed6
      obtain ⟨reqs, rest7, rfl, formed8⟩ := hasFormat_list formed7
      obtain rfl := hasFormat_nil formed8
      have nth : ∀ n, sexpNth jobsx n = jobsx.elements.nthFrom n := fun n => rfl
      rw [elements] at nth
      simp only [nth, Sexp.nthFrom, Sexp.val?, Option.some.injEq, Sexp.elements] at job areReqs
      simp only [mkjob, nth, Sexp.nthFrom, Sexp.val?, Sexp.elements, Option.bind_eq_bind, Option.bind_some,
        Option.pure_def] at created
      obtain ⟨envp, valued, created⟩ := Option.bind_eq_some_iff.mp created
      obtain rfl := Option.some.inj created
      refine ⟨⟨umask, reqs, ?_, areReqs, rfl⟩, accepted.1, accepted.2.2⟩
      rw [elements, job, (vals_atoms valued).1]
    · contradiction
  · contradiction

end Admitted

theorem sexpReadF_of_value {s t : SexpParser} {sx : Sexp} {used : Nat} (reads : List Bytes)
    (filled : ∀ chunk ∈ reads, chunk ≠ []) (whole : sexpParserParse s reads.flatten = .value used sx t) :
    sexpReadF s reads = some sx := by
  induction reads generalizing s used with
  | nil => simp [sexpParserParse] at whole
  | cons chunk reads ih =>
      rw [sexpReadF, if_neg (filled chunk List.mem_cons_self)]
      rcases sexpParserParse_cut whole with ⟨-, parsed⟩ | ⟨next, later, -, parsed, onward⟩
      · rw [parsed]
      · rw [parsed]
        exact ih (fun c member => filled c (List.mem_cons_of_mem _ member)) onward

section Saved

variable {j : BatchJob} {substr uidstr gidstr umstr umask : Bytes} {reqs jobsx : Sexp}

/-- The elements of the record, in the order of the reader's positions. -/
def recordElements (j : BatchJob) (substr uidstr gidstr umstr : Bytes) (reqs : Sexp) : Sexp :=
  .value j.pool (.value substr (.value uidstr (.value gidstr (.value j.shell (.value j.cmdline (.value j.dir
    (.value umstr (.list (atoms j.envp) (.list reqs .null)))))))))

theorem jobSexp_eq (same : j.reqs = .list reqs .null) :
    jobSexp j substr uidstr gidstr umstr = .list (recordElements j substr uidstr gidstr umstr reqs) .null := by
  rw [jobSexp, same]
  rfl

theorem Submitted.record_plain (submitted : Submitted jobsx j umask reqs) (plain : jobsx.Plain)
    (numbers : ∀ text ∈ [substr, uidstr, gidstr, umstr], text ≠ [] ∧ 0 ∉ text) :
    (recordElements j substr uidstr gidstr umstr reqs).Plain := by
  have inside : jobsx.elements.Plain := by
    cases jobsx with
    | null => trivial
    | value val next => trivial
    | list elts next => exact plain.1
  rw [submitted.elements] at inside
  obtain ⟨-, -, pool, pool', shell, shell', cmdline, cmdline', dir, dir', -, -, env, reqs, -⟩ := inside
  simp only [List.mem_cons, List.not_mem_nil, or_false, forall_eq_or_imp, forall_eq] at numbers
  obtain ⟨⟨sub, sub'⟩, ⟨uid, uid'⟩, ⟨gid, gid'⟩, um, um'⟩ := numbers
  exact ⟨pool, pool', sub, sub', uid, uid', gid, gid', shell, shell', cmdline, cmdline', dir, dir', um, um',
    env, reqs, trivial⟩

theorem Submitted.record_depth (submitted : Submitted jobsx j umask reqs) :
    (recordElements j substr uidstr gidstr umstr reqs).depth + 1 < sexpParserStackSize := by
  have shallow := areReqs_depth submitted.areReqs
  have flat := (vals_atoms (atoms_vals j.envp)).2
  simp only [recordElements, Sexp.depth, flat, sexpParserStackSize]
  omega

theorem sprintf_some {size : Nat} {text printed : Bytes} (fits : sprintf size text = some printed) :
    text.length < size ∧ printed = text := by
  unfold sprintf at fits
  split at fits
  · rename_i short
    exact ⟨short, (Option.some.inj fits).symm⟩
  · contradiction

theorem formatUmask_plain (umask : Int32) : formatUmask umask ≠ [] ∧ 0 ∉ formatUmask umask := by
  have digits := (formatNat_plain (n := umask.toBitVec.toNat) (show 1 < 8 by omega) (show 8 ≤ 10 by omega)).2
  refine ⟨by simp [formatUmask], ?_⟩
  intro member
  rcases List.mem_cons.mp member with zero | digit
  · exact absurd zero (by decide)
  · exact digits digit

theorem numbersFit_iff : NumbersFit j ↔ (formatInt j.uid.toInt).length < 10 ∧
    (formatInt j.gid.toInt).length < 10 ∧ (formatUmask j.umask).length < 10 ∧
    (formatInt j.submitTime.toInt).length < 20 := by
  have uid := formatInt_length_le j.uid.toInt (show 1 < 9 by omega)
  have gid := formatInt_length_le j.gid.toInt (show 1 < 9 by omega)
  have submitTime := formatInt_length_le j.submitTime.toInt (show 1 < 19 by omega)
  have umask := formatNat_length_le (n := j.umask.toBitVec.toNat) (show 1 < 8 by omega) (show 0 < 8 by omega)
  have latest := j.submitTime.toInt_lt
  rw [formatUmask, List.length_cons]
  constructor
  · intro fit
    have one := uid.mpr (by simpa using fit.uid)
    have two := gid.mpr (by simpa using fit.gid)
    have three := umask.mpr fit.umask
    have four := submitTime.mpr ⟨by simpa using fit.submitTime, by omega⟩
    omega
  · rintro ⟨one, two, three, four⟩
    have one := uid.mp (by omega)
    have two := gid.mp (by omega)
    have four := submitTime.mp (by omega)
    exact ⟨by simpa using one, by simpa using two, umask.mp (by omega), by simpa using four.1⟩

theorem persistentJobAdd_some_iff {file : Bytes} : persistentJobAdd j = some file ↔
    NumbersFit j ∧ sexpPrint (jobSexp j (formatInt j.submitTime.toInt) (formatInt j.uid.toInt)
      (formatInt j.gid.toInt) (formatUmask j.umask)) = some file := by
  rw [numbersFit_iff]
  unfold persistentJobAdd
  constructor
  · intro saved
    obtain ⟨uidstr, one, saved⟩ := Option.bind_eq_some_iff.mp saved
    obtain ⟨gidstr, two, saved⟩ := Option.bind_eq_some_iff.mp saved
    obtain ⟨umstr, three, saved⟩ := Option.bind_eq_some_iff.mp saved
    obtain ⟨substr, four, saved⟩ := Option.bind_eq_some_iff.mp saved
    obtain ⟨uid, rfl⟩ := sprintf_some one
    obtain ⟨gid, rfl⟩ := sprintf_some two
    obtain ⟨um, rfl⟩ := sprintf_some three
    obtain ⟨sub, rfl⟩ := sprintf_some four
    exact ⟨⟨uid, gid, um, sub⟩, saved⟩
  · rintro ⟨⟨uid, gid, um, sub⟩, printed⟩
    simp only [sprintf, uid, gid, um, sub, if_true, Option.bind_eq_bind, Option.bind_some]
    exact printed

theorem formatUmask_read (umask : Int32) : Int32.ofInt (strtol0 (formatUmask umask)).1 = umask := by
  have small : umask.toBitVec.toNat < 2 ^ 63 := by
    have := umask.toBitVec.isLt
    omega
  rw [formatUmask, strtol0_octal small]
  apply Int32.toBitVec_inj.mp
  simp

theorem formatInt_read32 (n : Int32) : Int32.ofInt (strtol0 (formatInt n.toInt)).1 = n := by
  have low := n.le_toInt
  have high := n.toInt_lt
  rw [strtol0_formatInt (by omega) (by omega)]
  exact Int32.ofInt_toInt n

theorem formatInt_read64 (n : Int64) : Int64.ofInt (strtol0 (formatInt n.toInt)).1 = n := by
  rw [strtol0_formatInt n.le_toInt n.toInt_lt]
  exact Int64.ofInt_toInt n

theorem persistentJob_record (same : j.reqs = .list reqs .null)
    (submitTime : Int64.ofInt (strtol0 substr).1 = j.submitTime) (uid : Int32.ofInt (strtol0 uidstr).1 = j.uid)
    (gid : Int32.ofInt (strtol0 gidstr).1 = j.gid) (mask : Int32.ofInt (strtol0 umstr).1 = j.umask) :
    persistentJob (.list (recordElements j substr uidstr gidstr umstr reqs) .null) = some j := by
  unfold persistentJob
  generalize fields : Sexp.list (recordElements j substr uidstr gidstr umstr reqs) .null = sx
  have nth : ∀ n, sexpNth sx n = (recordElements j substr uidstr gidstr umstr reqs).nthFrom n := by
    intro n
    rw [← fields]
    rfl
  have copied : sexpCopyList (.list reqs .null) = j.reqs := same.symm
  simp only [nth, recordElements, Sexp.nthFrom, Sexp.val?, Sexp.elements, atoms_vals, Option.bind_eq_bind,
    Option.bind_some, Option.pure_def, submitTime, uid, gid, mask, copied]

end Saved

theorem Received.plain {jobsx : Sexp} (received : Received jobsx) : jobsx.Plain := by
  obtain ⟨chunks, results, s, used, fed, member⟩ := received
  have good : Wholesome { sexpParserNew with maxBytes := 10 * 1024 } :=
    ⟨sexpParserNew_wholesome.elements, sexpParserNew_wholesome.stack, sexpParserNew_wholesome.characters,
      sexpParserNew_wholesome.filled⟩
  exact feedChunks_plain good fed _ member jobsx rfl

/-- An admitted job survives the spool directory exactly when its numbers fit. -/
theorem persistentJob_roundTrip_iff {pools : List Bytes} {checks submit : Bytes → BatchJob → Bool}
    {creds : Creds} {now : Int64} {jobsx : Sexp} {j : BatchJob} (received : Received jobsx)
    (admitted : clientSubmitJob pools checks submit creds now jobsx = some j) :
    RoundTrips pools submit j ↔ NumbersFit j := by
  constructor
  · rintro ⟨file, saved, -⟩
    exact (persistentJobAdd_some_iff.mp saved).1
  · intro fit
    obtain ⟨⟨umask, reqs, submitted⟩, pool, accepted⟩ := clientSubmitJob_submitted admitted
    generalize record : recordElements j (formatInt j.submitTime.toInt) (formatInt j.uid.toInt)
      (formatInt j.gid.toInt) (formatUmask j.umask) reqs = elts
    have plain : elts.Plain := by
      rw [← record]
      exact submitted.record_plain received.plain (by simp [formatInt_plain, formatUmask_plain])
    have deep : elts.depth + 1 < sexpParserStackSize := by
      rw [← record]
      exact submitted.record_depth
    have printed := sexpPrint_eq elts .null (Nat.lt_of_succ_lt deep)
    rw [← record, ← jobSexp_eq submitted.reqs_eq, record] at printed
    refine ⟨_, persistentJobAdd_some_iff.mpr ⟨fit, printed⟩, ?_⟩
    intro reads whole filled
    have parsed := sexpParserParse_print plain deep []
    rw [List.append_nil, ← whole] at parsed
    have read := sexpReadF_of_value reads filled parsed
    rw [← record] at read
    have made := persistentJob_record submitted.reqs_eq (formatInt_read64 _) (formatInt_read32 _)
      (formatInt_read32 _) (formatUmask_read _)
    rw [persistentJobLoadSingle, read, Option.bind_eq_bind, Option.bind_some, made, Option.bind_eq_bind,
      Option.bind_some, if_pos ⟨pool, accepted⟩]

/-- `(job p sh "a b" / 022 (A=1) ((nodes 2)))` -/
def sampleSx : Sexp :=
  .list (.value jobAtom (.value [112] (.value [115, 104] (.value [97, 32, 98] (.value [47] (.value [48, 50, 50]
    (.list (.value [65, 61, 49] .null)
      (.list (.list (.value [110, 111, 100, 101, 115] (.value [50] .null)) .null) .null)))))))) .null

def sampleJob (uid : Int32) : BatchJob :=
  { pool := [112], submitTime := 1200000000, uid, gid := 100, shell := [115, 104], cmdline := [97, 32, 98],
    dir := [47], umask := 18, envp := [[65, 61, 49]],
    reqs := .list (.list (.value [110, 111, 100, 101, 115] (.value [50] .null)) .null) .null }

theorem sampleSx_received : Received sampleSx := by
  exact ⟨[40 :: printElements (Sexp.elements sampleSx) false], [(37, some sampleSx)], sexpParserNew, 37,
    by decide, by decide⟩

theorem sampleSx_admitted (uid : Int32) :
    clientSubmitJob [[112]] (fun _ _ => true) (fun _ _ => true) ⟨uid, 100⟩ 1200000000 sampleSx =
      some (sampleJob uid) := rfl

theorem persistentJob_roundTrip_iff_sample :
    RoundTrips [[112]] (fun _ _ => true) (sampleJob 500) ↔ NumbersFit (sampleJob 500) :=
  persistentJob_roundTrip_iff sampleSx_received (sampleSx_admitted 500)

/-- The buffer of the user id has room for nine digits. -/
theorem largeUid_overrun : ¬ ∀ (pools : List Bytes) (checks submit : Bytes → BatchJob → Bool) (creds : Creds)
    (now : Int64) (jobsx : Sexp) (j : BatchJob), Received jobsx →
      clientSubmitJob pools checks submit creds now jobsx = some j → RoundTrips pools submit j := by
  intro claim
  obtain ⟨file, saved, -⟩ := claim _ _ _ _ _ _ _ sampleSx_received (sampleSx_admitted 1000000000)
  have fit := (persistentJobAdd_some_iff.mp saved).1.uid.2
  exact absurd fit (by decide)

end Xcpu.Bjs
