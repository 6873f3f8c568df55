import Xcpu.Libxcpu.Proc

/-!
`xp_proc_list`: the processes of a set of nodes. The lines of a node are cut from a buffer that is filled again
behind what is left of the last line, and the array of a node is copied into that of the set and freed.
-/

namespace Xcpu.Libxcpu.Proc

open Xcpu.Libstrutil

def newline : Char := '\n'

/-- `sizeof(buf)` -/
def sizeofBuf : Nat := 16384

/-- What stands before the first newline of the buffer, and after it. -/
def memchr : CStr → Option (CStr × CStr)
  | [] => none
  | c :: rest => if c = newline then some ([], rest) else (memchr rest).map fun (line, after) => (c :: line, after)

theorem memchr_some {buf line after : CStr} (found : memchr buf = some (line, after)) :
    buf = line ++ newline :: after ∧ newline ∉ line := by
  induction buf generalizing line with
  | nil => cases found
  | cons c rest ih =>
      rw [memchr] at found
      split at found
      · rename_i here
        cases found
        exact ⟨by rw [here]; rfl, List.not_mem_nil⟩
      · rename_i other
        obtain ⟨⟨front, back⟩, later, same⟩ := Option.map_eq_some_iff.mp found
        cases same
        obtain ⟨rfl, plain⟩ := ih later
        exact ⟨rfl, List.not_mem_cons_of_ne_of_not_mem (Ne.symm other) plain⟩

theorem memchr_append {line after : CStr} (plain : newline ∉ line) :
    memchr (line ++ newline :: after) = some (line, after) := by
  induction line with
  | nil => simp [memchr]
  | cons c rest ih =>
      have other : c ≠ newline := Ne.symm (List.ne_of_not_mem_cons plain)
      rw [List.cons_append, memchr, if_neg other, ih (List.not_mem_of_not_mem_cons plain)]
      rfl

theorem memchr_none {buf : CStr} (plain : newline ∉ buf) : memchr buf = none := by
  cases found : memchr buf with
  | none => rfl
  | some cut =>
      have same := (memchr_some found).1
      rw [same] at plain
      exact absurd (List.mem_append_right _ List.mem_cons_self) plain

/-- The inner loop over the lines in the buffer: `first`, the processes, and what is left behind the last newline.
The inner `none` is the end at a syntax error. -/
def scanLines (nd : Nat) (atStart first : Bool) (xps : List Xpproc) (buf : CStr) :
    Option (Option (Bool × List Xpproc × CStr)) :=
  match _found : memchr buf with
  | none => some (some (first, xps, buf))
  | some (line, after) =>
      if first then scanLines nd false false xps after
      else
        match xpProcParse atStart line with
        | none => none
        | some none => some none
        | some (some xp) => scanLines nd false false (xps ++ [{ xp with node := nd }]) after
termination_by buf.length
decreasing_by
  all_goals
    have same := congrArg List.length (memchr_some _found).1
    rw [List.length_append, List.length_cons] at same
    omega

/-- The loop of reads over what is left of the text. The `k`-th read gives up to `cut k` bytes and one, but no more
than there is room for in the buffer. -/
def readLoop (nd : Nat) (cut : Nat → Nat) (k : Nat) (text buf : CStr) (first : Bool) (xps : List Xpproc) :
    Option (Option (List Xpproc)) :=
  let i := text.take (min (cut k + 1) (sizeofBuf - buf.length))
  if _more : i = [] then some (some xps)
  else
    match scanLines nd true first xps (buf ++ i) with
    | none => none
    | some none => some none
    | some (some (first, xps, rest)) => readLoop nd cut (k + 1) (text.drop i.length) rest first xps
termination_by text.length
decreasing_by
  have pos : 0 < (text.take (min (cut k + 1) (sizeofBuf - buf.length))).length := List.length_pos_iff.mpr _more
  rw [List.length_drop]
  rw [List.length_take] at pos ⊢
  omega

/-- The loops that set `parent`, in the array of the node. -/
def setParents (nd : Nat) (xps : List Xpproc) : List Xpproc :=
  xps.map fun xp =>
    match xps.findIdx? fun other => xp.ppid == other.pid with
    | some index => { xp with parent := some ⟨nd, index⟩ }
    | none => xp

/-- The processes of a node; there is no text where it cannot be mounted, or has no file `procs`. The inner `none` is
the result -1. -/
def xpProcListNode (nd : Nat) (text : Option CStr) (cut : Nat → Nat) : Option (Option (List Xpproc)) :=
  match text with
  | none => some none
  | some text => (readLoop nd cut 0 text [] true []).map fun xps => xps.map (setParents nd)

/-- The loop over the nodes from `i` on, with the array `ret`. -/
def listLoop (cuts : Nat → Nat → Nat) (i : Nat) (ret : List Xpproc) : List (Option CStr) → Option (List Xpproc)
  | [] => some ret
  | text :: rest =>
      match xpProcListNode i text (cuts i) with
      | none => none
      | some none => listLoop cuts (i + 1) ret rest
      | some (some ps) => listLoop cuts (i + 1) (ret ++ ps) rest

def xpProcList (cuts : Nat → Nat → Nat) (nds : List (Option CStr)) : Option (List Xpproc) :=
  listLoop cuts 0 [] nds

/-- A text of lines. -/
def unlines (lines : List CStr) : CStr := lines.flatMap fun line => line ++ [newline]

/-- The processes of the lines; the first line is skipped while `first` is set. -/
@[simp]
def collect (nd : Nat) : Bool → List Xpproc → List CStr → Option (List Xpproc)
  | _, xps, [] => some xps
  | true, xps, _ :: lines => collect nd false xps lines
  | false, xps, line :: lines =>
      match entry line with
      | none => none
      | some xp => collect nd false (xps ++ [{ xp with node := nd }]) lines

/-- Each line up to the first that is malformed fits the buffer with its newline, and is not blank. A header that does
not fit does no harm where nothing follows. -/
def Readable : Bool → List CStr → Prop
  | _, [] => True
  | true, header :: lines => (lines ≠ [] → header.length < sizeofBuf) ∧ Readable false lines
  | false, line :: lines =>
      line.length < sizeofBuf ∧ trimmed line ≠ [] ∧ ((entry line).isSome = true → Readable false lines)

section Lines

variable {nd : Nat} {first : Bool} {xps : List Xpproc}

theorem unlines_cons (line : CStr) (lines : List CStr) : unlines (line :: lines) = line ++ newline :: unlines lines := by
  simp [unlines]

theorem unlines_append (first second : List CStr) : unlines (first ++ second) = unlines first ++ unlines second :=
  List.flatMap_append

theorem collect_append (done lines : List CStr) : collect nd first xps (done ++ lines) =
    (collect nd first xps done).bind fun xps => collect nd (first && done.isEmpty) xps lines := by
  induction done generalizing first xps with
  | nil => simp [collect]
  | cons line done ih =>
      have later : ∀ xps, collect nd false xps (done ++ lines) =
          (collect nd false xps done).bind fun xps => collect nd false xps lines := fun xps => by simp [ih]
      cases first with
      | true => simp [collect, later]
      | false =>
          cases read : entry line with
          | none => simp [collect, read]
          | some xp => simp [collect, read, later]

theorem collect_length {lines : List CStr} {all : List Xpproc} (read : collect nd false xps lines = some all) :
    all.length = xps.length + lines.length := by
  induction lines generalizing xps with
  | nil =>
      cases read
      rfl
  | cons line lines ih =>
      cases found : entry line with
      | none => simp [collect, found] at read
      | some xp =>
          simp only [collect, found] at read
          rw [ih read, List.length_append, List.length_singleton, List.length_cons]
          omega

theorem Readable.append {done lines : List CStr} {all : List Xpproc} (readable : Readable first (done ++ lines))
    (read : collect nd first xps done = some all) : Readable (first && done.isEmpty) lines := by
  induction done generalizing first xps with
  | nil => simpa using readable
  | cons line done ih =>
      rw [List.isEmpty_cons, Bool.and_false]
      have later : ∀ xps, Readable false (done ++ lines) → collect nd false xps done = some all →
          Readable false lines := fun xps rest read => by simpa using ih rest read
      cases first with
      | true => exact later _ readable.2 read
      | false =>
          cases found : entry line with
          | none => simp [collect, found] at read
          | some xp =>
              simp only [collect, found] at read
              exact later _ (readable.2.2 (by rw [found]; rfl)) read

/-- A cut through a text leaves whole lines before it, and the beginning of a line. -/
theorem unlines_cut {front back : CStr} {lines : List CStr} (plain : ∀ line ∈ lines, newline ∉ line)
    (text : front ++ back = unlines lines) : ∃ done rest later, lines = done ++ later ∧
      front = unlines done ++ rest ∧ newline ∉ rest ∧ rest ++ back = unlines later := by
  induction lines generalizing front with
  | nil =>
      obtain ⟨rfl, rfl⟩ := List.append_eq_nil_iff.mp text
      exact ⟨[], [], [], rfl, rfl, List.not_mem_nil, rfl⟩
  | cons line lines ih =>
      have here := plain line List.mem_cons_self
      rw [unlines_cons] at text
      by_cases within : front.length ≤ line.length
      · refine ⟨[], front, line :: lines, rfl, rfl, ?_, by rw [text, unlines_cons]⟩
        have begun : front <+: line :=
          List.prefix_of_prefix_length_le (text ▸ List.prefix_append front back) (List.prefix_append line _) within
        exact fun inside => here (begun.subset inside)
      · have begun : line ++ [newline] <+: front := by
          refine List.prefix_of_prefix_length_le ?_ (List.prefix_append front back) ?_
          · rw [text]
            exact ⟨unlines lines, by simp⟩
          · rw [List.length_append, List.length_singleton]
            omega
        obtain ⟨front, rfl⟩ := begun
        have rest : front ++ back = unlines lines := by simpa using text
        obtain ⟨done, left, later, rfl, rfl, unbroken, after⟩ :=
          ih (fun other inside => plain other (List.mem_cons_of_mem _ inside)) rest
        exact ⟨line :: done, left, later, rfl, by simp [unlines_cons], unbroken, after⟩

/-- What the inner loop makes of whole lines and the beginning of another. -/
theorem scanLines_unlines {atStart : Bool} {done : List CStr} {rest : CStr} (plain : ∀ line ∈ done, newline ∉ line)
    (unbroken : newline ∉ rest)
    (written : first = false → atStart = true → ∀ line ∈ done.head?, trimmed line ≠ []) :
    scanLines nd atStart first xps (unlines done ++ rest) =
      some ((collect nd first xps done).map fun xps => (first && done.isEmpty, xps, rest)) := by
  induction done generalizing atStart first xps with
  | nil =>
      rw [scanLines]
      split
      · simp [collect, unlines]
      · rename_i found
        have none := memchr_none unbroken
        simp only [unlines, List.flatMap_nil, List.nil_append] at found
        rw [none] at found
        cases found
  | cons line done ih =>
      have here := plain line List.mem_cons_self
      have later : ∀ other ∈ done, newline ∉ other := fun other inside => plain other (List.mem_cons_of_mem _ inside)
      have found : memchr (unlines (line :: done) ++ rest) = some (line, unlines done ++ rest) := by
        rw [unlines_cons, List.append_assoc, List.cons_append]
        exact memchr_append here
      rw [scanLines]
      split
      · rename_i missing
        rw [found] at missing
        cases missing
      · rename_i cut after same
        rw [found] at same
        cases same
        have next : ∀ xps, scanLines nd false false xps (unlines done ++ rest) =
            some ((collect nd false xps done).map fun xps => (false, xps, rest)) := by
          intro xps
          have scanned := @ih false xps false later (fun _ never => absurd never Bool.false_ne_true)
          rwa [Bool.false_and] at scanned
        cases first with
        | true => simp [collect, next]
        | false =>
            have parsed : xpProcParse atStart line = some (entry line) := by
              cases atStart with
              | true => exact xpProcParse_written (written rfl rfl line (by simp)) true
              | false => exact xpProcParse_inside line
            cases read : entry line with
            | none => simp [collect, parsed, read]
            | some xp => simp [collect, parsed, read, next]

/-- A blank line at the start of the buffer has no byte before it. -/
theorem scanLines_blank {line after : CStr} (plain : newline ∉ line) (blank : trimmed line = []) :
    scanLines nd true false xps (line ++ newline :: after) = none := by
  rw [scanLines]
  split
  · rename_i missing
    rw [memchr_append plain] at missing
    cases missing
  · rename_i cut rest found
    rw [memchr_append plain] at found
    cases found
    simp [xpProcParse_blank blank]

variable {cut : Nat → Nat} {k : Nat} {text buf : CStr}

/-- A line without room for its newline stops the reads, with what was found before. -/
theorem readLoop_stuck {line more : CStr} (plain : newline ∉ line) (long : sizeofBuf ≤ line.length)
    (stream : buf ++ text = line ++ newline :: more) (full : buf.length ≤ sizeofBuf) :
    readLoop nd cut k text buf first xps = some (some xps) := by
  induction size : text.length using Nat.strong_induction_on generalizing k text buf with
  | _ size ih =>
      subst size
      rw [readLoop]
      generalize arrived : text.take (min (cut k + 1) (sizeofBuf - buf.length)) = i
      by_cases none : i = []
      · rw [dif_pos none]
      · rw [dif_neg none]
        have taken := congrArg List.length arrived
        rw [List.length_take] at taken
        have some_ : 0 < i.length := List.length_pos_iff.mpr none
        have split : i ++ text.drop i.length = text :=
          List.prefix_iff_eq_append.mp (arrived ▸ List.take_prefix _ text)
        have within : (buf ++ i).length ≤ sizeofBuf := by
          rw [List.length_append]
          omega
        have begun : buf ++ i <+: line := by
          refine List.prefix_of_prefix_length_le ?_ (List.prefix_append line (newline :: more)) (by omega)
          rw [← stream, ← split, ← List.append_assoc]
          exact List.prefix_append _ _
        have unbroken : newline ∉ buf ++ i := fun inside => plain (begun.subset inside)
        have scanned : scanLines nd true first xps (unlines [] ++ (buf ++ i)) =
            some ((collect nd first xps []).map fun xps => (first && ([] : List CStr).isEmpty, xps, buf ++ i)) :=
          scanLines_unlines (fun line never => absurd never List.not_mem_nil) unbroken
            (fun _ _ line never => nomatch never)
        simp only [unlines, List.flatMap_nil, List.nil_append, collect, Option.map_some] at scanned
        rw [scanned]
        dsimp only
        rw [List.isEmpty_nil, Bool.and_true]
        refine ih _ ?_ ?_ within rfl
        · rw [List.length_drop]
          have : 0 < text.length := by omega
          omega
        · rw [List.append_assoc, split]
          exact stream

/-- Whatever the reads are, readable lines are collected, or the reading fails at the first that is malformed. -/
theorem readLoop_collects {lines : List CStr} (plain : ∀ line ∈ lines, newline ∉ line) (readable : Readable first lines)
    (stream : buf ++ text = unlines lines) (unbroken : newline ∉ buf) (full : buf.length ≤ sizeofBuf) :
    readLoop nd cut k text buf first xps = some (collect nd first xps lines) := by
  induction size : text.length using Nat.strong_induction_on generalizing k text buf first xps lines with
  | _ size ih =>
      subst size
      rcases lines with _ | ⟨line, more⟩
      · obtain ⟨rfl, rfl⟩ := List.append_eq_nil_iff.mp stream
        rw [readLoop, dif_pos List.take_nil]
        simp [collect]
      · have here := plain line List.mem_cons_self
        rw [unlines_cons] at stream
        by_cases long : line.length < sizeofBuf
        · have before : buf.length ≤ line.length := by
            by_contra past
            have begun : line ++ [newline] <+: buf := by
              refine List.prefix_of_prefix_length_le ?_ (List.prefix_append buf text) ?_
              · rw [stream]
                exact ⟨unlines more, by simp⟩
              · rw [List.length_append, List.length_singleton]
                omega
            exact unbroken (begun.subset (by simp))
          have lengths := congrArg List.length stream
          rw [List.length_append, List.length_append, List.length_cons] at lengths
          rw [readLoop]
          generalize arrived : text.take (min (cut k + 1) (sizeofBuf - buf.length)) = i
          have taken := congrArg List.length arrived
          rw [List.length_take] at taken
          have some_ : i ≠ [] := List.ne_nil_of_length_pos (by omega)
          rw [dif_neg some_]
          have split : i ++ text.drop i.length = text :=
            List.prefix_iff_eq_append.mp (arrived ▸ List.take_prefix _ text)
          have whole : (buf ++ i) ++ text.drop i.length = unlines (line :: more) := by
            rw [List.append_assoc, split, stream, unlines_cons]
          obtain ⟨done, rest, later, same, front, ended, back⟩ := unlines_cut plain whole
          have doneLines : ∀ line ∈ done, newline ∉ line := fun other inside =>
            plain other (same ▸ List.mem_append_left _ inside)
          have laterLines : ∀ line ∈ later, newline ∉ line := fun other inside =>
            plain other (same ▸ List.mem_append_right _ inside)
          rw [same] at readable ⊢
          have written : first = false → true = true → ∀ line ∈ done.head?, trimmed line ≠ [] := by
            rintro rfl - head inside
            obtain ⟨tail, rfl⟩ : ∃ tail, done = head :: tail := by
              cases done with
              | nil => cases inside
              | cons other tail =>
                  cases inside
                  exact ⟨tail, rfl⟩
            exact readable.2.1
          rw [front, scanLines_unlines doneLines ended written, collect_append]
          cases read : collect nd first xps done with
          | none => rfl
          | some all =>
              have restFull : rest.length ≤ sizeofBuf := by
                have size := congrArg List.length front
                rw [List.length_append, List.length_append] at size
                omega
              exact ih _ (by rw [List.length_drop]; omega) laterLines (readable.append read) back ended restFull rfl
        · have alone : first = true ∧ more = [] := by
            cases first with
            | false => exact absurd readable.1 long
            | true => exact ⟨rfl, not_not.mp fun some_ => long (readable.1 some_)⟩
          obtain ⟨rfl, rfl⟩ := alone
          exact readLoop_stuck here (by omega) stream full

/-- Where each read gives one line, the number that was collected shows that the lines are readable. -/
theorem readLoop_singly {lines : List CStr} (plain : ∀ line ∈ lines, newline ∉ line)
    (single : ∀ j line, lines[j]? = some line → cut (k + j) = line.length)
    (read : (readLoop nd cut k (unlines lines) [] first xps).map (Option.map List.length) =
      some ((collect nd first xps lines).map List.length)) : Readable first lines := by
  induction lines generalizing k first xps with
  | nil => cases first <;> trivial
  | cons line more ih =>
      have here := plain line List.mem_cons_self
      have later : ∀ other ∈ more, newline ∉ other := fun other inside => plain other (List.mem_cons_of_mem _ inside)
      have next : ∀ j other, more[j]? = some other → cut (k + 1 + j) = other.length := by
        intro j other found
        have shifted := single (j + 1) other (by simpa using found)
        rwa [← Nat.add_assoc, Nat.add_right_comm] at shifted
      by_cases long : line.length < sizeofBuf
      · have asked : cut k = line.length := single 0 line rfl
        have text : unlines (line :: more) = (line ++ [newline]) ++ unlines more := by simp [unlines]
        have size : min (cut k + 1) (sizeofBuf - ([] : CStr).length) = (line ++ [newline]).length := by
          rw [asked, List.length_append, List.length_singleton, List.length_nil]
          omega
        rw [readLoop, size, text, List.take_left, dif_neg (by simp), List.drop_left, List.nil_append] at read
        have one : line ++ [newline] = unlines [line] ++ [] := by simp [unlines]
        have scanned : (first = false → trimmed line ≠ []) → scanLines nd true first xps (line ++ [newline]) =
            some ((collect nd first xps [line]).map fun xps => (false, xps, [])) := by
          intro written
          rw [one, scanLines_unlines (by simpa using here) List.not_mem_nil (fun unset _ other inside => ?_)]
          · simp
          · cases inside
            exact written unset
        cases first with
        | true =>
            rw [scanned (fun never => nomatch never)] at read
            exact ⟨fun _ => long, ih later next read⟩
        | false =>
            have written : trimmed line ≠ [] := by
              intro blank
              rw [scanLines_blank here blank] at read
              cases read
            rw [scanned fun _ => written] at read
            refine ⟨long, written, fun parsed => ?_⟩
            obtain ⟨xp, found⟩ := Option.isSome_iff_exists.mp parsed
            simp only [collect, found, Option.map_some] at read
            exact ih later next read
      · have stuck : readLoop nd cut k (unlines (line :: more)) [] first xps = some (some xps) :=
          readLoop_stuck here (by omega) (unlines_cons line more) (Nat.zero_le _)
        rw [stuck] at read
        obtain ⟨all, collected, size⟩ := Option.map_eq_some_iff.mp (Option.some.inj read).symm
        cases first with
        | true =>
            rw [collect] at collected
            have count := collect_length collected
            have none : more = [] := List.eq_nil_of_length_eq_zero (by omega)
            subst none
            exact ⟨fun never => absurd rfl never, trivial⟩
        | false =>
            have count := collect_length collected
            rw [List.length_cons] at count
            omega

end Lines

/-- The file `procs` of a node, each of its lines ended by a newline. -/
structure Procs where
  header : CStr
  lines : List CStr
  plain : ∀ line ∈ header :: lines, newline ∉ line

def Procs.text (procs : Procs) : CStr := unlines (procs.header :: procs.lines)

def Procs.Readable (procs : Procs) : Prop := Proc.Readable true (procs.header :: procs.lines)

/-- The processes of the lines after the header, or none where a line is malformed. -/
def Procs.entries (nd : Nat) (procs : Procs) : Option (List Xpproc) :=
  (procs.lines.mapM entry).map fun xps => xps.map fun xp => { xp with node := nd }

theorem collect_mapM {nd : Nat} {xps : List Xpproc} (lines : List CStr) : collect nd false xps lines =
    (lines.mapM entry).map fun found => xps ++ found.map fun xp => { xp with node := nd } := by
  induction lines generalizing xps with
  | nil => simp [collect]
  | cons line lines ih =>
      rw [collect]
      cases found : entry line with
      | none => simp [found]
      | some xp =>
          simp only [ih, List.mapM_cons, found, Option.bind_eq_bind, Option.bind_some]
          cases lines.mapM entry <;> simp

theorem collect_entries (nd : Nat) (procs : Procs) :
    collect nd true [] (procs.header :: procs.lines) = procs.entries nd := by
  rw [collect, collect_mapM, Procs.entries]
  rfl

/-- A node's processes are those of its lines, for all reads, exactly if the lines are readable. -/
theorem xpProcListNode_iff (nd : Nat) (procs : Procs) :
    (∀ cut, xpProcListNode nd (some procs.text) cut = some ((procs.entries nd).map (setParents nd))) ↔
      procs.Readable := by
  have plain := procs.plain
  constructor
  · intro right
    have read := right fun k => ((procs.header :: procs.lines)[k]?.map List.length).getD 0
    refine @readLoop_singly nd true [] (fun k => ((procs.header :: procs.lines)[k]?.map List.length).getD 0) 0
      (procs.header :: procs.lines) plain (fun j line found => ?_) ?_
    · rw [Nat.zero_add, found]
      rfl
    · have sizes := congrArg (Option.map (Option.map List.length)) read
      rw [xpProcListNode, Option.map_map] at sizes
      rw [collect_entries]
      have kept : Option.map List.length ∘ Option.map (setParents nd) = Option.map List.length := by
        funext outcome
        cases outcome <;> simp [setParents]
      rw [kept] at sizes
      refine sizes.trans ?_
      cases procs.entries nd <;> simp [setParents]
  · intro readable cut
    have read : readLoop nd cut 0 procs.text [] true [] = some (collect nd true [] (procs.header :: procs.lines)) :=
      readLoop_collects plain readable rfl List.not_mem_nil (Nat.zero_le _)
    rw [xpProcListNode, read, collect_entries]
    rfl

/-- Each parent is the entry of the array `array`, which is `ret`, of the same node with that pid; it is there
whenever such an entry is. -/
def Linked (ret : List Xpproc) (array : Nat) : Prop :=
  ∀ xp ∈ ret,
    (∀ ptr, xp.parent = some ptr → ptr.array = array ∧
      ∃ other, ret[ptr.index]? = some other ∧ other.node = xp.node ∧ other.pid = xp.ppid) ∧
    ((∃ other ∈ ret, other.node = xp.node ∧ other.pid = xp.ppid) → xp.parent ≠ none)

/-- No process of the node is the parent of another. -/
def Procs.Orphans (procs : Procs) : Prop :=
  ∀ xps, procs.lines.mapM entry = some xps → ∀ xp ∈ xps, ∀ other ∈ xps, other.pid ≠ xp.ppid

/-- The arrays of the nodes from `i` on, one behind the other. -/
def gathered (i : Nat) : List (Option Procs) → List Xpproc
  | [] => []
  | none :: rest => gathered (i + 1) rest
  | some procs :: rest => ((procs.entries i).map (setParents i)).getD [] ++ gathered (i + 1) rest

section Links

variable {i : Nat} {nodes : List (Option Procs)} {xp : Xpproc} {xps : List Xpproc}

theorem mem_gathered : xp ∈ gathered i nodes ↔ ∃ j procs xps, nodes[j]? = some (some procs) ∧
    procs.entries (i + j) = some xps ∧ xp ∈ setParents (i + j) xps := by
  induction nodes generalizing i with
  | nil => simp [gathered]
  | cons node rest ih =>
      have later : xp ∈ gathered (i + 1) rest ↔ ∃ j procs xps, (node :: rest)[j + 1]? = some (some procs) ∧
          procs.entries (i + (j + 1)) = some xps ∧ xp ∈ setParents (i + (j + 1)) xps := by
        simp only [ih, List.getElem?_cons_succ, Nat.add_assoc, Nat.add_comm 1]
      have cases_ : xp ∈ gathered i (node :: rest) ↔ (∃ procs xps, node = some procs ∧ procs.entries i = some xps ∧
          xp ∈ setParents i xps) ∨ xp ∈ gathered (i + 1) rest := by
        cases node with
        | none => simp [gathered]
        | some procs => cases read : procs.entries i <;> simp [gathered, read]
      rw [cases_, later]
      constructor
      · rintro (⟨procs, xps, rfl, read, inside⟩ | ⟨j, found⟩)
        · exact ⟨0, procs, xps, rfl, read, inside⟩
        · exact ⟨j + 1, found⟩
      · rintro ⟨_ | j, procs, xps, found, read, inside⟩
        · exact Or.inl ⟨procs, xps, Option.some.inj found, read, inside⟩
        · exact Or.inr ⟨j, procs, xps, found, read, inside⟩

theorem listLoop_gathered {cuts : Nat → Nat → Nat} {ret : List Xpproc}
    (read : ∀ j procs, nodes[j]? = some (some procs) → xpProcListNode (i + j) (some procs.text) (cuts (i + j)) =
      some ((procs.entries (i + j)).map (setParents (i + j)))) :
    listLoop cuts i ret (nodes.map (Option.map Procs.text)) = some (ret ++ gathered i nodes) := by
  induction nodes generalizing i ret with
  | nil => simp [listLoop, gathered]
  | cons node rest ih =>
      have later : ∀ ret, listLoop cuts (i + 1) ret (rest.map (Option.map Procs.text)) =
          some (ret ++ gathered (i + 1) rest) := by
        refine fun ret => ih fun j procs found => ?_
        rw [Nat.add_assoc, Nat.add_comm 1]
        exact read (j + 1) procs found
      cases node with
      | none => simp [listLoop, xpProcListNode, gathered, later]
      | some procs =>
          have here := read 0 procs rfl
          rw [Nat.add_zero] at here
          rw [List.map_cons, Option.map_some, listLoop, here]
          cases found : procs.entries i with
          | none => simp [gathered, found, later]
          | some xps => simp [gathered, found, later]

theorem xpProcList_gathered {cuts : Nat → Nat → Nat}
    (read : ∀ j procs, nodes[j]? = some (some procs) →
      xpProcListNode j (some procs.text) (cuts j) = some ((procs.entries j).map (setParents j))) :
    xpProcList cuts (nodes.map (Option.map Procs.text)) = some (gathered 0 nodes) := by
  refine listLoop_gathered fun j procs found => ?_
  rw [Nat.zero_add]
  exact read j procs found

/-- An entry keeps its fields; its parent is an entry of the array of the node, or there is none. -/
theorem mem_setParents (inside : xp ∈ setParents i xps) : ∃ old ∈ xps, xp.node = old.node ∧ xp.pid = old.pid ∧
    xp.ppid = old.ppid ∧ ((xp.parent = old.parent ∧ ∀ other ∈ xps, other.pid ≠ old.ppid) ∨
      ∃ index, xp.parent = some ⟨i, index⟩ ∧ ∃ other ∈ xps, other.pid = old.ppid) := by
  obtain ⟨old, within, rfl⟩ := List.mem_map.mp inside
  refine ⟨old, within, ?_⟩
  split
  · rename_i index found
    obtain ⟨bound, same, -⟩ := List.findIdx?_eq_some_iff_getElem.mp found
    have parent : xps[index].pid = old.ppid := (beq_iff_eq.mp same).symm
    exact ⟨rfl, rfl, rfl, Or.inr ⟨index, rfl, _, List.getElem_mem bound, parent⟩⟩
  · rename_i missing
    refine ⟨rfl, rfl, rfl, Or.inl ⟨rfl, fun other among parent => ?_⟩⟩
    have differs := List.findIdx?_eq_none_iff.mp missing other among
    rw [parent, beq_self_eq_true] at differs
    cases differs

theorem mem_mapM {lines : List CStr} (parsed : lines.mapM entry = some xps) (inside : xp ∈ xps) :
    ∃ line ∈ lines, entry line = some xp := by
  induction lines generalizing xps with
  | nil =>
      cases parsed
      cases inside
  | cons line lines ih =>
      simp only [List.mapM_cons, Option.bind_eq_bind, Option.bind_eq_some_iff, Option.pure_def,
        Option.some.injEq] at parsed
      obtain ⟨head, first, rest, later, rfl⟩ := parsed
      rcases List.mem_cons.mp inside with rfl | after
      · exact ⟨line, List.mem_cons_self, first⟩
      · obtain ⟨other, among, read⟩ := ih later after
        exact ⟨other, List.mem_cons_of_mem _ among, read⟩

/-- An entry of a node before the links are set. -/
theorem mem_entries {procs : Procs} (read : procs.entries i = some xps) (inside : xp ∈ xps) :
    xp.node = i ∧ xp.parent = none := by
  obtain ⟨found, parsed, rfl⟩ := Option.map_eq_some_iff.mp read
  obtain ⟨raw, within, rfl⟩ := List.mem_map.mp inside
  obtain ⟨line, -, same⟩ := mem_mapM parsed within
  have none : raw.parent = none := entry_parent same
  exact ⟨rfl, none⟩

theorem Procs.Orphans.entries {procs : Procs} (orphans : procs.Orphans) (read : procs.entries i = some xps) :
    ∀ xp ∈ xps, ∀ other ∈ xps, other.pid ≠ xp.ppid := by
  obtain ⟨found, parsed, rfl⟩ := Option.map_eq_some_iff.mp read
  intro xp inside other among
  obtain ⟨raw, within, rfl⟩ := List.mem_map.mp inside
  obtain ⟨parent, withinToo, rfl⟩ := List.mem_map.mp among
  exact orphans found parsed raw within parent withinToo

end Links

/-- The lines are cut right by all reads, and the links are right in the array that is returned, exactly if the lines
are readable and no link is ever set: a link is a pointer to the array of the node, which is freed. -/
theorem xpProcList_linked_iff (nodes : List (Option Procs)) :
    (∀ cuts, ∃ ret, xpProcList cuts (nodes.map (Option.map Procs.text)) = some ret ∧
      (∀ i procs, nodes[i]? = some (some procs) →
        xpProcListNode i (some procs.text) (cuts i) = some ((procs.entries i).map (setParents i))) ∧
      Linked ret nodes.length) ↔
    ∀ procs, some procs ∈ nodes → procs.Readable ∧ procs.Orphans := by
  constructor
  · intro right procs inside
    obtain ⟨i, bound, at_⟩ := List.getElem_of_mem inside
    have found : nodes[i]? = some (some procs) := by rw [List.getElem?_eq_getElem bound, at_]
    refine ⟨(xpProcListNode_iff i procs).mp fun cut => ?_, fun raws parsed raw within parent among same => ?_⟩
    · obtain ⟨ret, -, read, -⟩ := right fun _ => cut
      exact read i procs found
    · obtain ⟨ret, all, read, linked⟩ := right fun _ _ => 0
      have same_ : ret = gathered 0 nodes := Option.some.inj (all.symm.trans (xpProcList_gathered read))
      have entries : procs.entries i = some (raws.map fun xp => { xp with node := i }) := by
        rw [Procs.entries, parsed]
        rfl
      obtain ⟨index, linkedTo⟩ : ∃ index, (raws.map fun xp => { xp with node := i }).findIdx?
          (fun other => raw.ppid == other.pid) = some index := by
        refine Option.isSome_iff_exists.mp (List.findIdx?_isSome ▸ ?_)
        exact List.any_eq_true.mpr ⟨_, List.mem_map_of_mem among, beq_iff_eq.mpr same.symm⟩
      have child : { raw with node := i, parent := some ⟨i, index⟩ } ∈ ret := by
        rw [same_, mem_gathered]
        refine ⟨i, procs, _, found, by rw [Nat.zero_add]; exact entries, ?_⟩
        rw [Nat.zero_add]
        refine List.mem_map.mpr ⟨_, List.mem_map_of_mem within, ?_⟩
        simp only [linkedTo]
      have array := ((linked _ child).1 _ rfl).1
      dsimp only at array
      omega
  · intro clean cuts
    have read : ∀ i procs, nodes[i]? = some (some procs) →
        xpProcListNode i (some procs.text) (cuts i) = some ((procs.entries i).map (setParents i)) :=
      fun i procs found => (xpProcListNode_iff i procs).mpr (clean procs (List.mem_of_getElem? found)).1 (cuts i)
    refine ⟨gathered 0 nodes, xpProcList_gathered read, read, fun xp inside => ?_⟩
    obtain ⟨j, procs, xps, found, entries, among⟩ := mem_gathered.mp inside
    have orphans := (clean procs (List.mem_of_getElem? found)).2.entries entries
    obtain ⟨old, within, node, pid, ppid, parent⟩ := mem_setParents among
    have none : xp.parent = none := by
      rcases parent with ⟨kept, -⟩ | ⟨_, -, other, present, same⟩
      · rw [kept, (mem_entries entries within).2]
      · exact absurd same (orphans old within other present)
    refine ⟨fun ptr link => ?_, ?_⟩
    · rw [none] at link
      cases link
    · rintro ⟨other, present, sameNode, samePid⟩
      obtain ⟨k, others, ys, foundToo, entriesToo, amongToo⟩ := mem_gathered.mp present
      obtain ⟨old', withinToo, node', pid', -, -⟩ := mem_setParents amongToo
      rw [node, node', (mem_entries entries within).1, (mem_entries entriesToo withinToo).1] at sameNode
      obtain rfl : k = j := by omega
      rw [found] at foundToo
      cases foundToo
      rw [entries] at entriesToo
      cases entriesToo
      exact absurd (pid'.symm.trans (samePid.trans ppid)) (orphans old within old' withinToo)

def initLine : CStr := "(1 (init) S 0 1 1 tty1 1 0 0 0 20 0 wait 0 0 0 0 0 0 1 2 3 4 5 '' '')".toList

def shellLine : CStr := "(2 (sh) S 1 2 2 tty1 2 0 0 0 20 0 wait 0 0 0 0 0 0 1 2 3 4 5 '' '')".toList

theorem initLine_plain : ∀ line ∈ ["(pid)".toList, initLine, shellLine], newline ∉ line := by decide

def initAndShell : Procs := ⟨"(pid)".toList, [initLine, shellLine], initLine_plain⟩

/-- The shell's parent is in the array of the node, which is freed. -/
theorem initAndShell_dangling : ¬ ∀ nodes : List (Option Procs), ∀ cuts, ∃ ret,
    xpProcList cuts (nodes.map (Option.map Procs.text)) = some ret ∧
    (∀ i procs, nodes[i]? = some (some procs) →
      xpProcListNode i (some procs.text) (cuts i) = some ((procs.entries i).map (setParents i))) ∧
    Linked ret nodes.length := by
  intro right
  obtain ⟨ret, all, read, linked⟩ := right [some initAndShell] fun _ _ => 0
  have same : ret = gathered 0 [some initAndShell] := Option.some.inj (all.symm.trans (xpProcList_gathered read))
  have child : ∃ xp ∈ gathered 0 [some initAndShell], xp.parent = some ⟨0, 0⟩ := by with_unfolding_all decide
  obtain ⟨xp, inside, link⟩ := child
  exact absurd ((linked xp (same ▸ inside)).1 _ link).1 (by decide)

end Xcpu.Libxcpu.Proc
