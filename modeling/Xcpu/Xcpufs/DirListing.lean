import Xcpu.Lib.Listing
import Xcpu.Libspfs.DirRead
import Xcpu.Xcpufs.Ufs

/-!
Reading the directory of a session's process: `ufs_read_dir` serializes the entries that the directory stream
of the fid returns, and remembers by its name the one that did not fit.
-/

namespace Xcpu.Xcpufs.Ufs

open Xcpu.Libspfs Xcpu.Listing Xcpu.Numerals Xcpu.Packet Xcpu.Paths

/-- What `ustat2npwstat` reads of a `struct stat`. -/
structure DirStat extends Stat where
  uid : Nat
  gid : Nat
  atime : Nat
  major : Nat
  minor : Nat

/-- What the node answers while the directory does not change. -/
structure Answers where
  lstat : Path → Except Nat DirStat
  readlink : Path → Option (List UInt8)
  uid2user : Nat → Option (List UInt8)
  gid2group : Nat → Option (List UInt8)

def umode2npmode (umode : Nat) (dotu : Bool) : Nat :=
  let kind := umode &&& 0o170000
  let ret := (umode &&& 0o777) ||| (if kind = 0o040000 then Dmdir else 0)
  if dotu then
    ret ||| (if kind = 0o120000 then dmsymlink else 0) ||| (if kind = 0o140000 then dmsocket else 0) |||
      (if kind = 0o010000 then dmnamedpipe else 0) |||
      (if kind = 0o060000 ∨ kind = 0o020000 then dmdevice else 0) |||
      (if umode &&& 0o4000 ≠ 0 then dmsetuid else 0) ||| (if umode &&& 0o2000 ≠ 0 then dmsetgid else 0)
  else ret

/-- `"???"` -/
def unknownName : List UInt8 := [63, 63, 63]

/-- What comes after the last slash. -/
def afterLast (path : Path) : Path := (path.reverse.takeWhile (· ≠ 47)).reverse

/-- The text in `ext`, where a link is cut. -/
def extensionText (answers : Answers) (path : Path) (st : DirStat) (mode : Nat) : List UInt8 :=
  if mode &&& dmsymlink ≠ 0 then cstr (((answers.readlink path).getD []).take 255)
  else if mode &&& dmdevice ≠ 0 then
    (if st.mode &&& 0o170000 = 0o020000 then 99 else 98) :: 32 :: formatNat 10 st.major ++ 32 :: formatNat 10 st.minor
  else []

def ustat2npwstat (answers : Answers) (path : Path) (st : DirStat) (id : Nat) (dotu : Bool) : Spwstat :=
  let qid := ustat2qid st.toStat id
  let mode := umode2npmode st.mode dotu
  { type := 0
    dev := 0
    qid := ⟨.ofNat qid.type, .ofNat qid.version, .ofNat qid.path⟩
    mode := .ofNat mode
    atime := .ofNat st.atime
    mtime := .ofNat st.mtime
    length := .ofNat st.size
    name := some (afterLast path)
    uid := some ((answers.uid2user st.uid).getD unknownName)
    gid := some ((answers.gid2group st.gid).getD unknownName)
    muid := some []
    extension := if dotu then some (extensionText answers path st mode) else none
    nUid := if dotu then .ofNat st.uid else 0
    nGid := if dotu then .ofNat st.gid else 0
    nMuid := 0 }

/-- An open directory: its path, the session, whether the connection speaks 9P2000.u, and the names that
`readdir` returns from the start of the stream on. -/
structure Directory where
  path : Path
  sid : Nat
  dotu : Bool
  entries : List Path

/-- The names that the stream has left, and `direntname`. -/
structure DirFid where
  dir : List Path
  direntname : Option Path := none

/-- `.` or `..` -/
def isDot (name : Path) : Bool := name = [46] || name = [46, 46]

section Read

variable (answers : Answers) (d : Directory)

def entryStat (dname : Path) : Except Nat Spwstat :=
  (answers.lstat (d.path ++ 47 :: dname)).map fun st =>
    ustat2npwstat answers (d.path ++ 47 :: dname) st d.sid d.dotu

/-- The bytes that one round stores at `buf + n`, none where the entry does not fit. -/
def putEntry (count n : Nat) (dname : Path) : Except Nat (List UInt8) :=
  (entryStat answers d dname).map fun wstat => spSerializeStat wstat (int32 (count - n - 1)) d.dotu

/-- How the loop ends: with the bytes that it has stored or with an error, `dirent`, and the stream. -/
structure Loop where
  outcome : Except Nat (List UInt8)
  dirent : Option Path
  dir : List Path

def Loop.after (stored : List UInt8) (rest : Loop) : Loop :=
  { rest with outcome := rest.outcome.map (stored ++ ·) }

/-- The loop when there is no name, which is then read from the stream. -/
def readOn (count : Nat) : Nat → Option Path → List Path → Loop
  | n, dirent, [] => if n < count then ⟨.ok [], none, []⟩ else ⟨.ok [], dirent, []⟩
  | n, dirent, de :: dir =>
      if n < count then
        if isDot de then readOn count n (some de) dir
        else match putEntry answers d count n de with
          | .error errno => ⟨.error errno, some de, dir⟩
          | .ok [] => ⟨.ok [], some de, dir⟩
          | .ok stored => (readOn count (n + stored.length) (some de) dir).after stored
      else ⟨.ok [], dirent, de :: dir⟩

/-- The loop from its first round, which may have the name of the last read. -/
def readLoop (count : Nat) (f : DirFid) : Loop :=
  match f.direntname with
  | none => readOn answers d count 0 none f.dir
  | some dname =>
      if 0 < count then
        match putEntry answers d count 0 dname with
        | .error errno => ⟨.error errno, none, f.dir⟩
        | .ok [] => ⟨.ok [], none, f.dir⟩
        | .ok stored => (readOn answers d count stored.length none f.dir).after stored
      else ⟨.ok [], none, f.dir⟩

/-- A rewind keeps the name, and so does an error. -/
def ufsReadDir (f : DirFid) (offset : UInt64) (count : UInt32) : Except Nat (List UInt8) × DirFid :=
  let f := if offset = 0 then { f with dir := d.entries } else f
  let loop := readLoop answers d count.toNat f
  match loop.outcome with
  | .error errno => (.error errno, { f with dir := loop.dir })
  | .ok data => (.ok data, { dir := loop.dir, direntname := loop.dirent })

/-- A Tread of the directory. -/
structure DirRead where
  offset : UInt64
  count : UInt32

def DirRead.request (read : DirRead) : Request := ⟨read.offset = 0, read.count.toNat⟩

/-- The replies to a sequence of reads. -/
def replies : DirFid → List DirRead → List (Except Nat (List UInt8))
  | _, [] => []
  | f, first :: reads =>
      let (reply, f) := ufsReadDir answers d f first.offset first.count
      reply :: replies f reads

end Read

section Complete

variable (answers : Answers) (d : Directory)

/-- The entries that are to be listed. -/
def listing : List Path := d.entries.filter (!isDot ·)

/-- The whole stat of an entry. -/
def encodedEntry (dname : Path) : List UInt8 :=
  match entryStat answers d dname with
  | .error _ => []
  | .ok wstat => encodedStat d.dotu wstat

def entrySize (dname : Path) : Nat := (encodedEntry answers d dname).length

/-- Each reply has the next entries, whole, as many as its count has room for. -/
def Complete (reads : List DirRead) (replied : List (Except Nat (List UInt8))) : Prop :=
  ∃ parts, Lists (entrySize answers d) (listing d) (listing d) (reads.map DirRead.request) parts ∧
    replied = parts.map fun part => .ok (part.flatMap (encodedEntry answers d))

/-- The entries that a fid has before it. -/
def DirFid.ahead (f : DirFid) : List Path := f.direntname.toList ++ f.dir.filter (!isDot ·)

/-- The entries that a read begins with. -/
def DirFid.begins (f : DirFid) (read : DirRead) : List Path := if read.offset = 0 then listing d else f.ahead

/-- A read that keeps the listing whole. An entry that is remembered is followed by no rewind, and fits now;
no entry ends exactly with the count, nor (without 9P2000.u) one byte after it. -/
structure Steady (f : DirFid) (read : DirRead) : Prop where
  small : read.count.toNat ≤ 2 ^ 31
  pending : ∀ dname ∈ f.direntname, read.offset ≠ 0 ∧ entrySize answers d dname < read.count.toNat
  apart : ∀ part ∈ (f.begins d read).inits, part ≠ [] → total (entrySize answers d) part ≠ read.count.toNat ∧
    (d.dotu = false → total (entrySize answers d) part ≠ read.count.toNat + 1)

/-- Every step of a run is steady. -/
def SteadyRun : DirFid → List DirRead → Prop
  | _, [] => True
  | f, first :: reads =>
      Steady answers d f first ∧ SteadyRun (ufsReadDir answers d f first.offset first.count).2 reads

/-- `lstat` finds each entry. -/
def Found : Prop := ∀ dname ∈ listing d, ∃ wstat, entryStat answers d dname = .ok wstat

end Complete

section Rounds

variable {answers : Answers} {d : Directory} {count n : Nat} {dname : Path} {dirent : Option Path} {dir : List Path}
  {wstat : Spwstat}

theorem entryStat_muid (found : entryStat answers d dname = .ok wstat) : strlen wstat.muid = 0 := by
  rw [entryStat] at found
  cases there : answers.lstat (d.path ++ 47 :: dname) with
  | error errno =>
      rw [there] at found
      cases found
  | ok st =>
      rw [there] at found
      cases found
      rfl

theorem encodedEntry_found (found : entryStat answers d dname = .ok wstat) :
    encodedEntry answers d dname = encodedStat d.dotu wstat := by
  rw [encodedEntry, found]

theorem putEntry_fits (small : count ≤ 2 ^ 31) (found : ∃ wstat, entryStat answers d dname = .ok wstat)
    (fits : n + entrySize answers d dname < count) :
    putEntry answers d count n dname = .ok (encodedEntry answers d dname) ∧ encodedEntry answers d dname ≠ [] := by
  obtain ⟨wstat, found⟩ := found
  rw [entrySize, encodedEntry_found found, encodedStat_length] at fits
  have room : int32 (count - n - 1) = (count - n - 1 : Nat) := int32_small (by omega)
  rw [putEntry, found, encodedEntry_found found]
  refine ⟨congrArg Except.ok ?_, encodedStat_ne_nil⟩
  rw [room]
  exact spSerializeStat_fits (by omega) (by omega)

theorem putEntry_full (small : count ≤ 2 ^ 31) (below : n < count)
    (found : ∃ wstat, entryStat answers d dname = .ok wstat) (full : count < n + entrySize answers d dname)
    (uncut : d.dotu = false → n + entrySize answers d dname ≠ count + 1) :
    putEntry answers d count n dname = .ok [] := by
  obtain ⟨wstat, found⟩ := found
  rw [entrySize, encodedEntry_found found, encodedStat_length] at full uncut
  have room : int32 (count - n - 1) = (count - n - 1 : Nat) := int32_small (by omega)
  rw [putEntry, found]
  refine congrArg Except.ok ?_
  rw [room]
  refine spSerializeStat_short (by omega) (by omega) fun plain _ same => ?_
  have apart := uncut plain
  omega

/-- How the loop ends when nothing goes wrong: with whole entries, and the next one remembered if there is one. -/
structure Filled (answers : Answers) (d : Directory) (room : Nat) (ahead : List Path) (loop : Loop) : Prop where
  filled : ∃ part, ahead = part ++ (⟨loop.dir, loop.dirent⟩ : DirFid).ahead ∧
    loop.outcome = .ok (part.flatMap (encodedEntry answers d)) ∧
    Fills (entrySize answers d) room part (⟨loop.dir, loop.dirent⟩ : DirFid).ahead

theorem Filled.after {room : Nat} {ahead : List Path} {loop : Loop}
    (filled : Filled answers d room ahead loop) :
    Filled answers d (entrySize answers d dname + room) (dname :: ahead) (loop.after (encodedEntry answers d dname)) := by
  obtain ⟨part, split, outcome, fills⟩ := filled.filled
  refine ⟨dname :: part, ?_, ?_, ⟨?_, ?_⟩⟩
  · rw [split]
    rfl
  · rw [Loop.after, outcome, List.flatMap_cons]
    rfl
  · rw [total_cons]
    exact Nat.add_le_add_left fills.fits _
  · intro next later rest
    have full := fills.full next later rest
    rw [total_cons]
    omega

theorem readOn_filled (small : count ≤ 2 ^ 31) (below : n < count)
    (found : ∀ dname ∈ dir.filter (!isDot ·), ∃ wstat, entryStat answers d dname = .ok wstat)
    (apart : ∀ part ∈ (dir.filter (!isDot ·)).inits, part ≠ [] →
      n + total (entrySize answers d) part ≠ count ∧
      (d.dotu = false → n + total (entrySize answers d) part ≠ count + 1)) :
    Filled answers d (count - n) (dir.filter (!isDot ·)) (readOn answers d count n dirent dir) := by
  induction dir generalizing n dirent with
  | nil =>
      rw [readOn, if_pos below]
      exact ⟨[], rfl, rfl, ⟨Nat.zero_le _, fun next later rest => absurd rest (List.cons_ne_nil _ _).symm⟩⟩
  | cons de dir ih =>
      rw [readOn, if_pos below]
      by_cases dot : isDot de = true
      · have skipped : (de :: dir).filter (!isDot ·) = dir.filter (!isDot ·) := by
          rw [List.filter_cons, dot]
          rfl
        rw [skipped] at found apart ⊢
        rw [if_pos dot]
        exact ih below found apart
      · have kept : (de :: dir).filter (!isDot ·) = de :: dir.filter (!isDot ·) := by
          rw [List.filter_cons, Bool.eq_false_of_not_eq_true dot]
          rfl
        rw [kept] at found apart ⊢
        rw [if_neg dot]
        have first := found de List.mem_cons_self
        have alone := apart [de] (by simp) (List.cons_ne_nil _ _)
        rw [total, List.map_cons, List.map_nil, List.sum_singleton] at alone
        by_cases fits : n + entrySize answers d de < count
        · obtain ⟨stored, some_⟩ := putEntry_fits small first fits
          have rest := @ih (n + entrySize answers d de) (some de) fits
            (fun dname member => found dname (List.mem_cons_of_mem _ member)) (by
              intro part member nonempty
              have later := apart (de :: part) (by
                rw [List.mem_inits] at member ⊢
                exact List.cons_prefix_cons.mpr ⟨rfl, member⟩) (List.cons_ne_nil _ _)
              rw [total_cons] at later
              exact ⟨by omega, fun plain => by have := later.2 plain; omega⟩)
          have whole := @Filled.after _ _ de _ _ _ rest
          rw [show entrySize answers d de + (count - (n + entrySize answers d de)) = count - n by omega] at whole
          rw [stored]
          split
          · rename_i wrong
            cases wrong
          · rename_i wrong
            exact absurd (Except.ok.inj wrong) some_
          · rename_i bytes _ same
            cases same
            exact whole
        · rw [putEntry_full small below first (by omega) alone.2]
          refine ⟨[], rfl, rfl, ⟨Nat.zero_le _, fun next later rest => ?_⟩⟩
          cases rest
          rw [total, List.map_nil, List.sum_nil]
          omega

/-- The same with the name of the last read. -/
theorem readLoop_filled {f : DirFid} (small : count ≤ 2 ^ 31)
    (pending : ∀ dname ∈ f.direntname, entrySize answers d dname < count)
    (found : ∀ dname ∈ f.ahead, ∃ wstat, entryStat answers d dname = .ok wstat)
    (apart : ∀ part ∈ f.ahead.inits, part ≠ [] → total (entrySize answers d) part ≠ count ∧
      (d.dotu = false → total (entrySize answers d) part ≠ count + 1)) :
    Filled answers d count f.ahead (readLoop answers d count f) := by
  obtain ⟨dir, direntname⟩ := f
  cases direntname with
  | none =>
      rw [readLoop]
      dsimp only
      by_cases below : 0 < count
      · exact readOn_filled small below found (by
          simpa only [Nat.zero_add, DirFid.ahead, Option.toList_none, List.nil_append] using apart)
      · have nothing : readOn answers d count 0 none dir = ⟨.ok [], none, dir⟩ := by
          cases dir with
          | nil => rw [readOn, if_neg below]
          | cons de dir => rw [readOn, if_neg below]
        rw [nothing]
        refine ⟨[], rfl, rfl, ⟨Nat.zero_le _, fun next later rest => ?_⟩⟩
        have first := found next (by rw [rest]; exact List.mem_cons_self)
        obtain ⟨wstat, there⟩ := first
        rw [total, List.map_nil, List.sum_nil, entrySize, encodedEntry_found there, encodedStat_length]
        omega
  | some dname =>
      have fits : entrySize answers d dname < count := pending dname rfl
      have ahead : (⟨dir, some dname⟩ : DirFid).ahead = dname :: dir.filter (!isDot ·) := rfl
      rw [ahead] at found apart ⊢
      obtain ⟨stored, some_⟩ := @putEntry_fits answers d count 0 dname small (found dname List.mem_cons_self) (by omega)
      have rest := @readOn_filled answers d count (entrySize answers d dname) none dir small fits
        (fun other member => found other (List.mem_cons_of_mem _ member)) (by
          intro part member nonempty
          have later := apart (dname :: part) (by
            rw [List.mem_inits] at member ⊢
            exact List.cons_prefix_cons.mpr ⟨rfl, member⟩) (List.cons_ne_nil _ _)
          rw [total_cons] at later
          exact later)
      have whole := @Filled.after _ _ dname _ _ _ rest
      rw [show entrySize answers d dname + (count - entrySize answers d dname) = count by omega] at whole
      rw [readLoop]
      dsimp only
      rw [if_pos (by omega), stored]
      split
      · rename_i wrong
        cases wrong
      · rename_i wrong
        exact absurd (Except.ok.inj wrong) some_
      · rename_i bytes _ same
        cases same
        exact whole

end Rounds

section Runs

variable {answers : Answers} {d : Directory} {f : DirFid} {read : DirRead} {reads : List DirRead}

/-- One read: what it returns is the beginning of what the fid had before it. -/
theorem ufsReadDir_fills (found : Found answers d) (ours : f.ahead <:+ listing d) (steady : Steady answers d f read) :
    ∃ part after, ufsReadDir answers d f read.offset read.count =
        (.ok (part.flatMap (encodedEntry answers d)), after) ∧
      f.begins d read = part ++ after.ahead ∧ Fills (entrySize answers d) read.count.toNat part after.ahead := by
  by_cases rewind : read.offset = 0
  · have forgotten : f.direntname = none := by
      cases pending : f.direntname with
      | none => rfl
      | some dname => exact absurd rewind (steady.pending dname pending).1
    have begins : f.begins d read = (⟨d.entries, f.direntname⟩ : DirFid).ahead := by
      rw [DirFid.begins, if_pos rewind, DirFid.ahead, forgotten]
      rfl
    have apart := steady.apart
    rw [begins] at apart ⊢
    have filled := readLoop_filled (f := ⟨d.entries, f.direntname⟩) steady.small
      (fun dname pending => (steady.pending dname pending).2) (by
        rw [DirFid.ahead, forgotten]
        exact found) apart
    obtain ⟨part, split, outcome, fills⟩ := filled.filled
    refine ⟨part, _, ?_, split, fills⟩
    rw [ufsReadDir, if_pos rewind]
    dsimp only
    rw [outcome]
  · have begins : f.begins d read = f.ahead := if_neg rewind
    have apart := steady.apart
    rw [begins] at apart ⊢
    have filled := readLoop_filled (f := f) steady.small (fun dname pending => (steady.pending dname pending).2)
      (fun dname member => found dname (ours.subset member)) apart
    obtain ⟨part, split, outcome, fills⟩ := filled.filled
    refine ⟨part, _, ?_, split, fills⟩
    rw [ufsReadDir, if_neg rewind, outcome]

theorem replies_lists (found : Found answers d) (ours : f.ahead <:+ listing d) (steady : SteadyRun answers d f reads) :
    ∃ parts, Lists (entrySize answers d) (listing d) f.ahead (reads.map DirRead.request) parts ∧
      replies answers d f reads = parts.map fun part => .ok (part.flatMap (encodedEntry answers d)) := by
  induction reads generalizing f with
  | nil => exact ⟨[], .nil, rfl⟩
  | cons read reads ih =>
      obtain ⟨first, later⟩ := steady
      obtain ⟨part, after, returned, split, fills⟩ := ufsReadDir_fills found ours first
      rw [returned] at later
      have within : after.ahead <:+ listing d := by
        have suffix : after.ahead <:+ f.begins d read := ⟨part, split.symm⟩
        rw [DirFid.begins] at suffix
        split_ifs at suffix
        · exact suffix
        · exact suffix.trans ours
      obtain ⟨parts, lists, replied⟩ := ih within later
      refine ⟨part :: parts, .cons ?_ fills lists, ?_⟩
      · rw [← split, DirFid.begins, DirRead.request]
        simp only [decide_eq_true_eq]
      · rw [replies, returned]
        exact congrArg _ replied

/-- In a run whose steps are all steady the listing is complete. -/
theorem ufsReadDir_complete (found : Found answers d) (steady : SteadyRun answers d ⟨d.entries, none⟩ reads) :
    Complete answers d reads (replies answers d ⟨d.entries, none⟩ reads) :=
  replies_lists found List.suffix_rfl steady

/-- From a rewind on the replies are the first entries in their order, and all of them once a read with room for
any entry returns nothing. -/
theorem replies_rewound (found : Found answers d) (ours : f.ahead <:+ listing d)
    (steady : SteadyRun answers d f (read :: reads)) (rewinds : read.offset = 0)
    (onward : ∀ later ∈ reads, later.offset ≠ 0) :
    ∃ part parts, replies answers d f (read :: reads) =
        (part :: parts).map (fun part => .ok (part.flatMap (encodedEntry answers d))) ∧
      (part :: parts).flatten <+: listing d ∧
      ∀ front last before, reads = front ++ [last] → parts = before ++ [[]] →
        (∀ dname ∈ listing d, entrySize answers d dname ≤ last.count.toNat) → (part :: parts).flatten = listing d := by
  obtain ⟨parts, lists, replied⟩ := replies_lists found ours steady
  cases lists with
  | @cons _ part rest _ _ parts next fills later =>
      have goes_on : ∀ request ∈ reads.map DirRead.request, request.rewind = false := by
        intro request member
        obtain ⟨asked, inside, rfl⟩ := List.mem_map.mp member
        exact decide_eq_false (onward asked inside)
      have first : listing d = part ++ rest := by
        rw [if_pos (show read.request.rewind = true from decide_eq_true rewinds)] at next
        exact next
      refine ⟨part, parts, replied, ?_, ?_⟩
      · rw [first, List.flatten_cons, List.prefix_append_right_inj]
        exact later.in_order goes_on
      · rintro front last before rfl rfl room
        rw [List.map_append, List.map_singleton] at later goes_on
        have ended := later.at_end goes_on fun dname member => by
          refine room dname ?_
          rw [first]
          exact List.mem_append_right _ member
        rw [List.flatten_cons, List.flatten_append, ended, first]
        simp

end Runs

/-- A directory with two empty files. -/
def plainFile : DirStat := ⟨⟨0o100644, 7, 0, 0⟩, 0, 0, 0, 0, 0⟩

def plainAnswers : Answers := ⟨fun _ => .ok plainFile, fun _ => none, fun _ => none, fun _ => none⟩

/-- `d`, with `a` and `b` -/
def twoFiles : Directory := ⟨[100], 1, false, [[46], [97], [46, 46], [98]]⟩

theorem found_twoFiles : Found plainAnswers twoFiles := fun _ _ => ⟨_, rfl⟩

theorem entrySize_twoFiles {dname : Path} (member : dname ∈ listing twoFiles) :
    entrySize plainAnswers twoFiles dname = 56 := by
  have size : ∀ dname ∈ listing twoFiles, (encodedEntry plainAnswers twoFiles dname).length = 56 := by
    with_unfolding_all decide
  exact size dname member

/-- One file does not fit the first read. -/
theorem ufsReadDir_twoFiles : Complete plainAnswers twoFiles [⟨0, 60⟩, ⟨56, 60⟩]
    (replies plainAnswers twoFiles ⟨twoFiles.entries, none⟩ [⟨0, 60⟩, ⟨56, 60⟩]) := by
  refine ufsReadDir_complete found_twoFiles ⟨⟨by decide, nofun, ?_⟩, ⟨by decide, ?_, ?_⟩, trivial⟩
  all_goals with_unfolding_all decide

def replySize : Except Nat (List UInt8) → Nat
  | .error _ => 0
  | .ok data => data.length

theorem encoded_twoFiles {part : List Path} (ours : ∀ dname ∈ part, dname ∈ listing twoFiles) :
    (part.flatMap (encodedEntry plainAnswers twoFiles)).length = 56 * part.length := by
  induction part with
  | nil => rfl
  | cons dname part ih =>
      have first : (encodedEntry plainAnswers twoFiles dname).length = 56 :=
        entrySize_twoFiles (ours dname List.mem_cons_self)
      have rest := ih fun other member => ours other (List.mem_cons_of_mem _ member)
      rw [List.flatMap_cons, List.length_append, List.length_cons, first, rest]
      omega

set_option maxRecDepth 4000 in
theorem replies_twoFiles : (replies plainAnswers twoFiles ⟨twoFiles.entries, none⟩ [⟨0, 60⟩, ⟨0, 200⟩]).map replySize =
    [56, 168] := by
  with_unfolding_all decide

/-- The second file does not fit, and after a rewind it comes before the first and once more. -/
theorem rewind_keeps_name : Found plainAnswers twoFiles ∧ ¬Complete plainAnswers twoFiles [⟨0, 60⟩, ⟨0, 200⟩]
    (replies plainAnswers twoFiles ⟨twoFiles.entries, none⟩ [⟨0, 60⟩, ⟨0, 200⟩]) := by
  refine ⟨found_twoFiles, ?_⟩
  rintro ⟨parts, lists, replied⟩
  have sizes := replies_twoFiles
  rw [replied] at sizes
  cases lists with
  | cons _ _ later =>
      cases later with
      | @cons _ part rest _ _ parts next _ later =>
          have first : listing twoFiles = part ++ rest := next
          have ours : ∀ dname ∈ part, dname ∈ listing twoFiles := fun dname member => by
            rw [first]
            exact List.mem_append_left _ member
          rw [List.map_cons, List.map_cons, List.map_cons, List.map_cons, List.cons.injEq, List.cons.injEq] at sizes
          have size := sizes.2.1
          rw [replySize] at size
          have short : part.length ≤ 2 := by
            have length := congrArg List.length first
            rw [List.length_append] at length
            have two : (listing twoFiles).length = 2 := by decide
            omega
          rw [encoded_twoFiles ours] at size
          omega

end Xcpu.Xcpufs.Ufs
