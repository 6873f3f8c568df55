import Mathlib.Data.List.Basic
import Xcpu.Lib.Cells
import Xcpu.Lib.Numerals

/-!
The lines of the configuration file: `getargs` splits a line in place at unquoted white space and takes quotes
and escapes out. A line that ends in an escape sends it past its terminator; every other line is split right.
-/

namespace Xcpu.Bjs.Cmconf

open Xcpu.Cells (store store_append)
open Xcpu.Numerals (isspace)

/-- White space that the line has from a place on; `none` past the terminator. -/
def skipSpace (line : List UInt8) : Nat → Nat → Option Nat
  | 0, _ => none
  | fuel + 1, i =>
      match (line)[i]? with
      | none => none
      | some c => if c ≠ 0 ∧ isspace c then skipSpace line fuel (i + 1) else some i

/-- The line and both cursors, with the quote that is open or 0. -/
structure Scan where
  line : List UInt8
  i : Nat
  j : Nat
  quote : UInt8
  deriving DecidableEq

/-- The loop over the bytes of one argument. -/
def scanArg : Nat → Scan → Option Scan
  | 0, _ => none
  | fuel + 1, s =>
      match (s.line)[s.i]? with
      | none => none
      | some c =>
          if c ≠ 0 ∧ (s.quote ≠ 0 ∨ isspace c = false) then
            if c = s.quote then scanArg fuel { s with quote := 0, i := s.i + 1 }
            else if s.quote = 0 ∧ (c = 34 ∨ c = 39) then scanArg fuel { s with quote := c, i := s.i + 1 }
            else
              -- The byte behind a backslash is copied whatever it is.
              let i := if c = 92 then s.i + 1 else s.i
              match (s.line)[i]? with
              | none => none
              | some d =>
                  match store s.line s.j d with
                  | none => none
                  | some line => scanArg fuel { s with line := line, i := i + 1, j := s.j + 1 }
          else some s

/-- The loop over the arguments, with the places that it found; the inner `none` is a null pointer. -/
def getargsLoop (malloc : Nat → Bool) : Nat → List UInt8 → Nat → UInt8 → Nat → List Nat →
    Option (Option (List UInt8 × List Nat))
  | 0, _, _, _, _, _ => none
  | fuel + 1, line, i, quote, nargs, args =>
      match skipSpace line line.length i with
      | none => none
      | some ptr =>
          if (line)[ptr]? = some 0 then if args.length < nargs then some (some (line, args)) else none
          else
            match scanArg line.length ⟨line, ptr, ptr, quote⟩ with
            | none => none
            | some s =>
                match (s.line)[s.i]?, store s.line s.j 0 with
                | some c, some line =>
                    let i := if c ≠ 0 then s.i + 1 else s.i
                    if nargs ≤ args.length then none
                    else if args.length + 1 = nargs then
                      if malloc (nargs + 10) then
                        getargsLoop malloc fuel line i s.quote (nargs + 10) (args ++ [ptr])
                      else some none
                    else getargsLoop malloc fuel line i s.quote nargs (args ++ [ptr])
                | _, _ => none

/-- `getargs` of a string, with its terminator in the last cell that there is. -/
def getargs (malloc : Nat → Bool) (line : List UInt8) : Option (Option (List UInt8 × List Nat)) :=
  if malloc 10 then getargsLoop malloc (line.length + 1) (line ++ [0]) 0 0 10 [] else some none

/-- The argument at a place of the line. -/
def argText (line : List UInt8) (ptr : Nat) : List UInt8 := (line.drop ptr).takeWhile (· ≠ 0)

/-- What a byte of a line is for. -/
inductive Mark where
  | space
  | quote
  | escape
  | char (c : UInt8)
  deriving DecidableEq

def Mark.kept : Mark → Option UInt8
  | .char c => some c
  | _ => none

/-- The bytes of a line one after the other, with the quote that is open or 0. -/
@[simp]
def marks : UInt8 → List UInt8 → List Mark
  | _, [] => []
  | quote, c :: rest =>
      if quote = 0 ∧ isspace c then .space :: marks 0 rest
      else if c = quote then .quote :: marks 0 rest
      else if quote = 0 ∧ (c = 34 ∨ c = 39) then .quote :: marks c rest
      else if c = 92 then
        match rest with
        | [] => [.escape]
        | d :: more => .escape :: .char d :: marks quote more
      else .char c :: marks quote rest

/-- The arguments: what is between white space that is not quoted, without quotes and escapes. -/
def arguments (line : List UInt8) : List (List UInt8) :=
  (((marks 0 line).splitOnP (· = .space)).filter (· ≠ [])).map (List.filterMap Mark.kept)

theorem marks_cons (quote c : UInt8) (rest : List UInt8) :
    marks quote (c :: rest) =
      if quote = 0 ∧ isspace c then .space :: marks 0 rest
      else if c = quote then .quote :: marks 0 rest
      else if quote = 0 ∧ (c = 34 ∨ c = 39) then .quote :: marks c rest
      else if c = 92 then
        match rest with
        | [] => [.escape]
        | d :: more => .escape :: .char d :: marks quote more
      else .char c :: marks quote rest := by
  rw [marks.eq_def]

section Marks

variable {quote c d : UInt8} {rest more : List UInt8}

theorem marks_space (space : quote = 0 ∧ isspace c) : marks quote (c :: rest) = [.space] ++ marks 0 rest := by
  rw [marks_cons, if_pos space, List.singleton_append]

theorem marks_close (stop : ¬(quote = 0 ∧ isspace c)) (closes : c = quote) :
    marks quote (c :: rest) = [.quote] ++ marks 0 rest := by
  rw [marks_cons, if_neg stop, if_pos closes, List.singleton_append]

theorem marks_open (stop : ¬(quote = 0 ∧ isspace c)) (closes : ¬c = quote) (opens : quote = 0 ∧ (c = 34 ∨ c = 39)) :
    marks quote (c :: rest) = [.quote] ++ marks c rest := by
  rw [marks_cons, if_neg stop, if_neg closes, if_pos opens, List.singleton_append]

theorem marks_dangling (stop : ¬(quote = 0 ∧ isspace 92)) (closes : ¬92 = quote)
    (opens : ¬(quote = 0 ∧ ((92 : UInt8) = 34 ∨ (92 : UInt8) = 39))) : marks quote [92] = [.escape] := by
  rw [marks_cons, if_neg stop, if_neg closes, if_neg opens, if_pos rfl]

theorem marks_escape (stop : ¬(quote = 0 ∧ isspace 92)) (closes : ¬92 = quote)
    (opens : ¬(quote = 0 ∧ ((92 : UInt8) = 34 ∨ (92 : UInt8) = 39))) :
    marks quote (92 :: d :: more) = [.escape, .char d] ++ marks quote more := by
  rw [marks_cons, if_neg stop, if_neg closes, if_neg opens, if_pos rfl, List.cons_append, List.singleton_append]

theorem marks_char (stop : ¬(quote = 0 ∧ isspace c)) (closes : ¬c = quote) (opens : ¬(quote = 0 ∧ (c = 34 ∨ c = 39)))
    (escape : ¬c = 92) : marks quote (c :: rest) = [.char c] ++ marks quote rest := by
  rw [marks_cons, if_neg stop, if_neg closes, if_neg opens, if_neg escape, List.singleton_append]

end Marks

/-- The line ends in a backslash that escapes nothing. -/
def Dangling (quote : UInt8) (rest : List UInt8) : Prop := (marks quote rest).getLast? = some .escape

variable {malloc : Nat → Bool} {quote : UInt8} {rest front gap : List UInt8}

theorem behind (front gap back : List UInt8) : (front ++ gap ++ back)[front.length + gap.length]? = back.head? := by
  rw [← List.length_append, List.getElem?_append_right (Nat.le_refl _), Nat.sub_self, List.head?_eq_getElem?]

/-- The write behind what was kept; the gap moves on over the bytes that were read. -/
theorem store_gap (front gap read back : List UInt8) (some_byte : gap ++ read ≠ []) (c : UInt8) :
    store (front ++ gap ++ (read ++ back)) front.length c = some (front ++ [c] ++ (gap ++ read).tail ++ back) := by
  obtain ⟨old, moved, same⟩ := List.exists_cons_of_ne_nil some_byte
  have cells : front ++ gap ++ (read ++ back) = front ++ old :: (moved ++ back) := by
    rw [List.append_assoc, ← List.append_assoc gap, same, List.cons_append]
  rw [cells, store_append, same, List.tail_cons]
  simp

/-- What the scan of an argument leads to, with the marks of its bytes. -/
def Scanned (front rest : List UInt8) (quote : UInt8) : Option Scan → Prop
  | none => Dangling quote rest
  | some s => ∃ arg rest' gap, marks quote rest = arg ++ marks s.quote rest' ∧ Mark.space ∉ arg ∧ rest' <:+ rest ∧
      (rest' = [] ∧ ¬Dangling quote rest ∨ ∃ c more, rest' = c :: more ∧ isspace c ∧ s.quote = 0) ∧
      s.line = front ++ arg.filterMap Mark.kept ++ gap ++ (rest' ++ [0]) ∧
      s.i = (front ++ arg.filterMap Mark.kept).length + gap.length ∧
      s.j = (front ++ arg.filterMap Mark.kept).length

/-- The marks of a few bytes are followed by those of the rest. -/
theorem dangling_append {first : List Mark} {next : UInt8} {more : List UInt8}
    (marked : marks quote rest = first ++ marks next more) (ends : first.getLast? ≠ some .escape) :
    Dangling quote rest ↔ Dangling next more := by
  rw [Dangling, Dangling, marked, List.getLast?_append]
  cases last : (marks next more).getLast? with
  | none => simp [ends]
  | some mark => simp

theorem Scanned.append {first : List Mark} {next : UInt8} {more : List UInt8} {s : Option Scan}
    (marked : marks quote rest = first ++ marks next more) (inside : Mark.space ∉ first)
    (ends : first.getLast? ≠ some .escape) (suffix : more <:+ rest)
    (scanned : Scanned (front ++ first.filterMap Mark.kept) more next s) : Scanned front rest quote s := by
  have dangling := dangling_append marked ends
  cases s with
  | none => exact dangling.mpr scanned
  | some s =>
      obtain ⟨arg, rest', gap, split, plain, shorter, stops, line, i, j⟩ := scanned
      refine ⟨first ++ arg, rest', gap, ?_, ?_, shorter.trans suffix, ?_, ?_, ?_, ?_⟩
      · rw [marked, split, List.append_assoc]
      · exact fun among => (List.mem_append.mp among).elim inside plain
      · rcases stops with ⟨ended, whole⟩ | stopped
        · exact .inl ⟨ended, fun dangles => whole (dangling.mp dangles)⟩
        · exact .inr stopped
      · rw [line, List.filterMap_append, List.append_assoc front]
      · rw [i, List.filterMap_append, List.append_assoc front]
      · rw [j, List.filterMap_append, List.append_assoc front]

theorem scanArg_scanned {fuel : Nat} (plain : 0 ∉ rest) (enough : rest.length < fuel) :
    Scanned front rest quote
      (scanArg fuel ⟨front ++ gap ++ (rest ++ [0]), front.length + gap.length, front.length, quote⟩) := by
  induction fuel using Nat.strongRecOn generalizing rest front gap quote with
  | ind fuel ih =>
      obtain ⟨fuel, rfl⟩ : ∃ n, fuel = n + 1 := ⟨fuel - 1, by omega⟩
      rw [scanArg]
      dsimp only
      rw [behind]
      cases rest with
      | nil =>
          rw [List.nil_append, List.head?_cons]
          exact ⟨[], [], gap, rfl, List.not_mem_nil, List.suffix_rfl, .inl ⟨rfl, by simp [Dangling]⟩,
            by simp, by simp, by simp⟩
      | cons c more =>
          have nonzero : c ≠ 0 := fun zero => plain (zero ▸ List.mem_cons_self)
          have later : 0 ∉ more := fun among => plain (List.mem_cons_of_mem c among)
          have next : front ++ gap ++ (c :: more ++ [0]) = front ++ (gap ++ [c]) ++ (more ++ [0]) := by simp
          have moved : front.length + gap.length + 1 = front.length + (gap ++ [c]).length := by
            rw [List.length_append, List.length_singleton, Nat.add_assoc]
          have longer : ∀ d : UInt8, (front ++ [d]).length = front.length + 1 := fun d => by simp
          rw [List.length_cons] at enough
          by_cases stop : quote = 0 ∧ isspace c
          · rw [List.cons_append, List.head?_cons]
            dsimp only
            rw [if_neg (by simp [stop.1, stop.2])]
            exact ⟨[], c :: more, gap, rfl, List.not_mem_nil, List.suffix_rfl,
              .inr ⟨c, more, rfl, stop.2, stop.1⟩, by simp, by simp, by simp⟩
          have goes : c ≠ 0 ∧ (quote ≠ 0 ∨ isspace c = false) := by
            refine ⟨nonzero, or_iff_not_imp_left.mpr fun none => ?_⟩
            exact Bool.not_eq_true _ ▸ fun space => stop ⟨not_not.mp none, space⟩
          rw [List.cons_append, List.head?_cons, ← List.cons_append]
          dsimp only
          rw [if_pos goes]
          by_cases closes : c = quote
          · rw [if_pos closes, next, moved]
            refine .append (marks_close stop closes) (by simp) (by simp) (List.suffix_cons c more) ?_
            rw [List.filterMap_cons_none rfl, List.filterMap_nil, List.append_nil]
            exact ih fuel (by omega) later (by omega)
          rw [if_neg closes]
          by_cases opens : quote = 0 ∧ (c = 34 ∨ c = 39)
          · rw [if_pos opens, next, moved]
            refine .append (marks_open stop closes opens) (by simp) (by simp) (List.suffix_cons c more) ?_
            rw [List.filterMap_cons_none rfl, List.filterMap_nil, List.append_nil]
            exact ih fuel (by omega) later (by omega)
          rw [if_neg opens]
          by_cases escape : c = 92
          · subst escape
            simp only [if_true]
            have after := behind front (gap ++ [92]) (more ++ [0])
            rw [← next, ← moved] at after
            rw [after]
            cases more with
            | nil =>
                have stored := store_gap front gap [92] [0] (by simp) 0
                rw [List.singleton_append] at stored
                rw [List.nil_append, List.head?_cons, List.singleton_append]
                dsimp only
                rw [stored]
                dsimp only
                have ended : scanArg fuel ⟨front ++ [0] ++ (gap ++ [92]).tail ++ [0], front.length + gap.length + 1 + 1,
                    front.length + 1, quote⟩ = none := by
                  cases fuel with
                  | zero => rfl
                  | succ fuel =>
                      rw [scanArg, List.getElem?_eq_none]
                      simp only [List.length_append, List.length_tail, List.length_singleton]
                      omega
                rw [ended, Scanned, Dangling, marks_dangling stop closes opens, List.getLast?_singleton]
            | cons d more =>
                have stored := store_gap front gap [92, d] (more ++ [0]) (by simp) d
                rw [List.cons_append, List.head?_cons, List.cons_append, List.cons_append]
                rw [List.cons_append, List.singleton_append] at stored
                dsimp only
                rw [stored]
                refine .append (marks_escape stop closes opens) (by simp) (by simp) ((List.suffix_cons d more).trans (List.suffix_cons 92 _)) ?_
                have kept : [Mark.escape, Mark.char d].filterMap Mark.kept = [d] := rfl
                have place : (front ++ [d]).length + (gap ++ [92, d]).tail.length = front.length + gap.length + 1 + 1 := by
                  simp only [List.length_append, List.length_tail, List.length_cons, List.length_nil]
                  omega
                rw [List.length_cons] at enough
                rw [kept, ← place, ← longer d]
                exact ih fuel (by omega) (fun among => later (List.mem_cons_of_mem d among)) (by omega)
          · simp only [if_neg escape]
            have kept : [Mark.char c].filterMap Mark.kept = [c] := rfl
            have stored := store_gap front gap [c] (more ++ [0]) (by simp) c
            have place : (front ++ [c]).length + (gap ++ [c]).tail.length = front.length + gap.length + 1 := by
              simp only [List.length_append, List.length_tail, List.length_cons, List.length_nil]
              omega
            rw [behind, List.cons_append, List.head?_cons]
            dsimp only
            rw [List.singleton_append] at stored
            rw [stored]
            refine .append (marks_char stop closes opens escape) (by simp) (by simp) (List.suffix_cons c more) ?_
            rw [kept, ← place, ← longer c]
            exact ih fuel (by omega) later (by omega)

theorem skipSpace_eq {fuel : Nat} (done : List UInt8) (plain : 0 ∉ rest) (enough : rest.length < fuel) :
    skipSpace (done ++ (rest ++ [0])) fuel done.length =
      some (done ++ rest.takeWhile isspace).length := by
  induction rest generalizing done fuel with
  | nil =>
      obtain ⟨fuel, rfl⟩ : ∃ n, fuel = n + 1 := ⟨fuel - 1, by omega⟩
      have here := behind done [] [0]
      rw [List.append_nil, List.length_nil, Nat.add_zero] at here
      rw [skipSpace, List.nil_append, here]
      simp
  | cons c more ih =>
      obtain ⟨fuel, rfl⟩ : ∃ n, fuel = n + 1 := ⟨fuel - 1, by omega⟩
      have nonzero : c ≠ 0 := fun zero => plain (zero ▸ List.mem_cons_self)
      have here := behind done [] (c :: more ++ [0])
      rw [List.append_nil, List.length_nil, Nat.add_zero] at here
      rw [skipSpace, here, List.cons_append, List.head?_cons]
      dsimp only
      by_cases space : isspace c
      · rw [if_pos ⟨nonzero, space⟩, List.takeWhile_cons_of_pos space]
        have later := @ih fuel (done ++ [c]) (fun among => plain (List.mem_cons_of_mem c among))
          (by rw [List.length_cons] at enough; omega)
        rw [List.append_assoc, List.singleton_append, List.length_append, List.length_singleton, List.append_assoc,
          List.singleton_append] at later
        exact later
      · rw [if_neg (fun both => space both.2), List.takeWhile_cons_of_neg space, List.append_nil]

theorem arguments_space {c : UInt8} (space : isspace c) (rest : List UInt8) :
    arguments (c :: rest) = arguments rest := by
  rw [arguments, arguments, marks_cons, if_pos ⟨rfl, space⟩, List.splitOnP_cons_eq_if_modifyHead,
    if_pos (decide_eq_true rfl), List.filter_cons_of_neg (by simp)]

theorem dangling_space {c : UInt8} (space : isspace c) (rest : List UInt8) :
    Dangling 0 (c :: rest) ↔ Dangling 0 rest :=
  dangling_append (marks_space ⟨rfl, space⟩) (by simp)

/-- Blanks at the front belong to no argument. -/
theorem skip_blanks (rest : List UInt8) :
    arguments rest = arguments (rest.dropWhile isspace) ∧
      (Dangling 0 rest ↔ Dangling 0 (rest.dropWhile isspace)) := by
  induction rest with
  | nil => exact ⟨rfl, Iff.rfl⟩
  | cons c more ih =>
      by_cases space : isspace c
      · rw [List.dropWhile_cons_of_pos space, arguments_space space, dangling_space space]
        exact ih
      · rw [List.dropWhile_cons_of_neg space]
        exact ⟨rfl, Iff.rfl⟩

/-- The argument that a scan took out of the front of the rest. -/
theorem arguments_scanned {arg : List Mark} {next : UInt8} {rest' : List UInt8} (some_mark : arg ≠ [])
    (split : marks 0 rest = arg ++ marks next rest') (plain : Mark.space ∉ arg)
    (stops : rest' = [] ∨ ∃ c more, rest' = c :: more ∧ isspace c ∧ next = 0) :
    arguments rest = arg.filterMap Mark.kept :: arguments rest' := by
  have inside : ∀ mark ∈ arg, decide (mark = Mark.space) = false := by
    intro mark among
    exact decide_eq_false fun space => plain (space ▸ among)
  rcases stops with rfl | ⟨c, more, rfl, space, rfl⟩
  · rw [arguments, split, marks, List.append_nil, List.splitOnP_eq_singleton inside]
    rw [List.filter_cons_of_pos (by simp [some_mark])]
    rfl
  · rw [arguments_space space, arguments, split, marks_cons, if_pos ⟨rfl, space⟩,
      List.splitOnP_append_cons_of_forall_mem inside _ (decide_eq_true rfl),
      List.filter_cons_of_pos (by simp [some_mark]), List.map_cons]
    rfl

theorem marks_head {c : UInt8} (plain : ¬isspace c) :
    ∃ mark later, marks quote (c :: rest) = mark :: later ∧ mark ≠ .space := by
  rw [marks_cons, if_neg (fun both => plain both.2)]
  split
  · exact ⟨_, _, rfl, by simp⟩
  split
  · exact ⟨_, _, rfl, by simp⟩
  split
  · cases rest with
    | nil => exact ⟨_, _, rfl, by simp⟩
    | cons d more => exact ⟨_, _, rfl, by simp⟩
  · exact ⟨_, _, rfl, by simp⟩

/-- What the loop comes to, from a place behind which the line is as it was. -/
def Outcome (malloc : Nat → Bool) (done rest : List UInt8) (args : List Nat) :
    Option (Option (List UInt8 × List Nat)) → Prop
  | none => Dangling 0 rest
  | some none => ∃ n, malloc n = false
  | some (some (line, all)) => ¬Dangling 0 rest ∧ ∃ tail new, line = done ++ tail ∧ all = args ++ new ∧
      new.map (argText line) = arguments rest

theorem mem_of_char {b : UInt8} (among : Mark.char b ∈ marks quote rest) : b ∈ rest := by
  induction quote, rest using marks.induct with
  | case1 quote => cases among
  | case2 quote c rest space ih =>
      rw [marks_space space] at among
      exact List.mem_cons_of_mem c (ih (List.mem_of_ne_of_mem (by simp) among))
  | case3 c rest stop ih =>
      rw [marks_close stop rfl] at among
      exact List.mem_cons_of_mem c (ih (List.mem_of_ne_of_mem (by simp) among))
  | case4 quote c rest stop closes opens ih =>
      rw [marks_open stop closes opens] at among
      exact List.mem_cons_of_mem c (ih (List.mem_of_ne_of_mem (by simp) among))
  | case5 quote stop closes opens =>
      rw [marks_dangling stop closes opens] at among
      simp at among
  | case6 quote d more stop closes opens ih =>
      rw [marks_escape stop closes opens] at among
      rcases List.mem_cons.mp (List.mem_of_ne_of_mem (by simp) among) with here | later
      · rw [Mark.char.injEq] at here
        exact here ▸ List.mem_cons_of_mem 92 List.mem_cons_self
      · exact List.mem_cons_of_mem 92 (List.mem_cons_of_mem d (ih later))
  | case7 quote c rest stop closes opens escape ih =>
      rw [marks_char stop closes opens escape] at among
      rcases List.mem_cons.mp among with here | later
      · rw [Mark.char.injEq] at here
        exact here ▸ List.mem_cons_self
      · exact List.mem_cons_of_mem c (ih later)

/-- A scan that begins at a byte of an argument takes the argument out of the rest. -/
theorem Scanned.argument {c : UInt8} {more : List UInt8} {s : Scan} (nonzero : 0 ∉ c :: more) (plain : ¬isspace c)
    (scanned : Scanned front (c :: more) 0 (some s)) :
    ∃ text rest' gap, arguments (c :: more) = text :: arguments rest' ∧ 0 ∉ text ∧ rest' <:+ more ∧
      (rest' = [] ∧ ¬Dangling 0 (c :: more) ∨
        ∃ b later, rest' = b :: later ∧ isspace b ∧ s.quote = 0 ∧ (Dangling 0 (c :: more) ↔ Dangling 0 later)) ∧
      s.line = front ++ text ++ gap ++ (rest' ++ [0]) ∧ s.i = (front ++ text).length + gap.length ∧
      s.j = (front ++ text).length := by
  obtain ⟨arg, rest', gap, split, inside, suffix, stops, line, i, j⟩ := scanned
  obtain ⟨mark, later, head, first⟩ := @marks_head 0 more c plain
  have ends : rest' = [] ∨ ∃ b later, rest' = b :: later ∧ isspace b ∧ s.quote = 0 :=
    stops.imp_left And.left
  have some_mark : arg ≠ [] := by
    rintro rfl
    rw [List.nil_append, head] at split
    rcases ends with rfl | ⟨b, later, rfl, space, unquoted⟩
    · cases split
    · rw [unquoted, marks_cons, if_pos ⟨rfl, space⟩] at split
      exact first (List.cons.inj split).1
  refine ⟨arg.filterMap Mark.kept, rest', gap, arguments_scanned some_mark split inside ends, ?_, ?_, ?_, line, i, j⟩
  · intro among
    obtain ⟨mark, member, kept⟩ := List.mem_filterMap.mp among
    cases mark with
    | char b =>
        obtain rfl : b = 0 := Option.some.inj kept
        exact nonzero (mem_of_char (split ▸ List.mem_append_left _ member))
    | space => cases kept
    | quote => cases kept
    | escape => cases kept
  · rcases List.suffix_cons_iff.mp suffix with rfl | shorter
    · rcases ends with none | ⟨b, later, same, space, -⟩
      · cases none
      · exact absurd ((List.cons.inj same).1 ▸ space) plain
    · exact shorter
  · rcases stops with ended | ⟨b, later, rfl, space, unquoted⟩
    · exact .inl ended
    · refine .inr ⟨b, later, rfl, space, unquoted, ?_⟩
      have marked : marks 0 (c :: more) = arg ++ [.space] ++ marks 0 later := by
        rw [split, unquoted, marks_cons, if_pos ⟨rfl, space⟩, List.append_assoc, List.singleton_append]
      exact dangling_append marked (by simp)

theorem argText_eq (front back : List UInt8) {text : List UInt8} (plain : 0 ∉ text) :
    argText (front ++ text ++ 0 :: back) front.length = text := by
  rw [argText, List.append_assoc, List.drop_left, List.takeWhile_append_of_pos, List.takeWhile_cons_of_neg (by simp),
    List.append_nil]
  intro c among
  exact decide_eq_true fun zero => plain (zero ▸ among)

/-- The loop stops at the terminator. -/
theorem getargsLoop_end {fuel nargs : Nat} {args : List Nat} (done : List UInt8) (room : args.length < nargs) :
    getargsLoop malloc (fuel + 1) (done ++ [0]) done.length quote nargs args = some (some (done ++ [0], args)) := by
  have skipped := @skipSpace_eq [] (done ++ [0]).length done List.not_mem_nil (by simp)
  rw [List.nil_append, List.takeWhile_nil, List.append_nil] at skipped
  have here := behind done [] [0]
  rw [List.append_nil, List.length_nil, Nat.add_zero, List.head?_cons] at here
  rw [getargsLoop, skipped]
  dsimp only
  rw [if_pos here, if_pos room]

/-- An argument in front of what the loop comes to later. -/
theorem Outcome.cons {done done' rest' text : List UInt8} {args : List Nat} {ptr : Nat}
    {result : Option (Option (List UInt8 × List Nat))} (outcome : Outcome malloc done' rest' (args ++ [ptr]) result)
    (dangling : Dangling 0 rest ↔ Dangling 0 rest') (longer : done <+: done')
    (cut : ∀ tail, argText (done' ++ tail) ptr = text) (split : arguments rest = text :: arguments rest') :
    Outcome malloc done rest args result := by
  match result, outcome with
  | none, dangles => exact dangling.mpr dangles
  | some none, refused => exact refused
  | some (some (line, all)), ⟨whole, tail, new, grown, found, texts⟩ =>
      obtain ⟨more, rfl⟩ := longer
      refine ⟨fun dangles => whole (dangling.mp dangles), more ++ tail, ptr :: new, ?_, ?_, ?_⟩
      · rw [grown, List.append_assoc]
      · rw [found, List.append_assoc, List.singleton_append]
      · rw [List.map_cons, texts, split, grown, cut]

/-- The last argument ends at the terminator, or before it where something was taken out. -/
theorem getargsLoop_last {fuel : Nat} (front text gap : List UInt8) :
    ∃ back, store (front ++ text ++ gap ++ [0]) (front ++ text).length 0 = some (front ++ text ++ 0 :: back) ∧
      ∀ args nargs, args.length < nargs →
        getargsLoop malloc (fuel + 1) (front ++ text ++ 0 :: back) ((front ++ text).length + gap.length) quote nargs
          args = some (some (front ++ text ++ 0 :: back, args)) := by
  have stored := store_gap (front ++ text) gap [0] [] (by simp) 0
  cases gap with
  | nil => exact ⟨[], by simpa using stored, fun args nargs room => getargsLoop_end (front ++ text) room⟩
  | cons old gap =>
      refine ⟨gap ++ [0], by simpa using stored, fun args nargs room => ?_⟩
      have ended := @getargsLoop_end malloc quote fuel nargs args (front ++ text ++ 0 :: gap) room
      have place : (front ++ text).length + (old :: gap).length = (front ++ text ++ 0 :: gap).length := by
        rw [List.append_assoc front, ← List.append_assoc, @List.length_append _ _ (0 :: gap)]
        rw [List.length_cons, List.length_cons]
      rw [place]
      simpa using ended

theorem getargsLoop_outcome {fuel nargs : Nat} {args : List Nat} (done : List UInt8) (plain : 0 ∉ rest)
    (unquoted : quote = 0 ∨ rest = []) (room : args.length < nargs) (enough : rest.length < fuel) :
    Outcome malloc done rest args
      (getargsLoop malloc fuel (done ++ (rest ++ [0])) done.length quote nargs args) := by
  induction fuel generalizing rest done quote nargs args with
  | zero => omega
  | succ fuel ih =>
      obtain ⟨same, dangling⟩ := skip_blanks rest
      have front : done ++ (rest ++ [0]) =
          done ++ rest.takeWhile isspace ++ [] ++ (rest.dropWhile isspace ++ [0]) := by
        rw [List.append_nil, List.append_assoc, ← List.append_assoc (rest.takeWhile isspace),
          List.takeWhile_append_dropWhile]
      have size : rest.length < (done ++ (rest ++ [0])).length := by
        rw [List.length_append, List.length_append, List.length_singleton]
        omega
      have here := behind (done ++ rest.takeWhile isspace) [] (rest.dropWhile isspace ++ [0])
      rw [← front, List.length_nil, Nat.add_zero] at here
      rw [getargsLoop, skipSpace_eq done plain size]
      dsimp only
      rw [here]
      cases left : rest.dropWhile isspace with
      | nil =>
          rw [left] at same dangling
          rw [List.nil_append, List.head?_cons, if_pos rfl, if_pos room]
          exact ⟨fun dangles => by simpa [Dangling] using dangling.mp dangles, rest ++ [0], [], rfl,
            (List.append_nil args).symm, same.symm⟩
      | cons c more =>
          have suffix : c :: more <:+ rest := left ▸ List.dropWhile_suffix _
          have nonzero : 0 ∉ c :: more := fun among => plain (suffix.subset among)
          have first : ¬isspace c := by
            have head := List.head?_dropWhile_not isspace rest
            rw [left, List.head?_cons] at head
            simpa using head
          have unquoted : quote = 0 := unquoted.resolve_right fun none => by simp [none] at left
          have shorter := suffix.length_le
          rw [left] at same dangling front
          have length : (c :: more).length < (done ++ (rest ++ [0])).length := by omega
          have scan := @scanArg_scanned 0 (c :: more) (done ++ rest.takeWhile isspace) [] _ nonzero length
          rw [← front, List.length_nil, Nat.add_zero] at scan
          rw [List.cons_append, List.head?_cons, if_neg (by simp; exact fun zero => nonzero (zero ▸ List.mem_cons_self)),
            unquoted]
          cases scanned : scanArg (done ++ (rest ++ [0])).length
              ⟨done ++ (rest ++ [0]), (done ++ rest.takeWhile isspace).length,
                (done ++ rest.takeWhile isspace).length, 0⟩ with
          | none =>
              rw [scanned] at scan
              exact dangling.mpr scan
          | some s =>
              rw [scanned] at scan
              obtain ⟨text, rest', gap, split, inside, shorter', ends, line, i, j⟩ := scan.argument nonzero first
              have longer : done <+: done ++ rest.takeWhile isspace := List.prefix_append _ _
              generalize done ++ rest.takeWhile isspace = front at longer line i j
              have smaller := shorter'.length_le
              rw [List.length_cons] at shorter
              dsimp only
              rw [line, i, j, behind]
              -- What comes after the argument, with the array as it is or a longer one.
              obtain ⟨b, line', head, stored, later⟩ : ∃ b line', (rest' ++ [0]).head? = some b ∧
                  store (front ++ text ++ gap ++ (rest' ++ [0])) (front ++ text).length 0 = some line' ∧
                  ∀ nargs', (args ++ [front.length]).length < nargs' → Outcome malloc done rest args
                    (getargsLoop malloc fuel line'
                      (if b ≠ 0 then (front ++ text).length + gap.length + 1 else (front ++ text).length + gap.length)
                      s.quote nargs' (args ++ [front.length])) := by
                rcases ends with ⟨rfl, whole⟩ | ⟨b, later, rfl, space, unquoted, dangles⟩
                · obtain ⟨fuel, rfl⟩ : ∃ n, fuel = n + 1 := ⟨fuel - 1, by omega⟩
                  obtain ⟨back, stored, ended⟩ := @getargsLoop_last malloc s.quote fuel front text gap
                  refine ⟨0, front ++ text ++ 0 :: back, rfl, stored, fun nargs' room' => ?_⟩
                  rw [if_neg (not_not.mpr rfl), ended _ _ room']
                  obtain ⟨blanks, rfl⟩ := longer
                  refine ⟨fun dangle => whole (dangling.mp dangle), blanks ++ text ++ 0 :: back, [_], ?_, rfl, ?_⟩
                  · simp
                  · rw [List.map_singleton, argText_eq _ _ inside, same, split]
                    rfl
                · have nonzero' : 0 ∉ b :: later := fun among =>
                    nonzero (List.mem_cons_of_mem c (shorter'.subset among))
                  have byte : b ≠ 0 := fun zero => nonzero' (zero ▸ List.mem_cons_self)
                  refine ⟨b, front ++ text ++ [0] ++ (gap ++ [b]).tail ++ (later ++ [0]), rfl, ?_, fun nargs' room' => ?_⟩
                  · exact store_gap (front ++ text) gap [b] (later ++ [0]) (by simp) 0
                  · have place : (front ++ text).length + gap.length + 1 =
                        (front ++ text ++ [0] ++ (gap ++ [b]).tail).length := by
                      simp only [List.length_append, List.length_tail, List.length_singleton]
                      omega
                    rw [if_pos byte, place]
                    rw [List.length_cons] at smaller
                    have cut : ∀ tail,
                        argText (front ++ text ++ [0] ++ (gap ++ [b]).tail ++ tail) front.length = text := by
                      intro tail
                      have cut := argText_eq front ((gap ++ [b]).tail ++ tail) inside
                      simpa using cut
                    have further := @ih 0 later nargs' _ (front ++ text ++ [0] ++ (gap ++ [b]).tail)
                      (fun among => nonzero' (List.mem_cons_of_mem b among)) (.inl rfl) room' (by omega)
                    rw [unquoted]
                    refine further.cons (dangling.trans dangles) ?_ cut ?_
                    · exact longer.trans ⟨text ++ [0] ++ (gap ++ [b]).tail, by simp⟩
                    · rw [same, split, arguments_space space]
              rw [head, stored]
              dsimp only
              rw [if_neg (by omega)]
              by_cases full : args.length + 1 = nargs
              · rw [if_pos full]
                by_cases grown : malloc (nargs + 10)
                · rw [if_pos grown]
                  exact later _ (by rw [List.length_append, List.length_singleton]; omega)
                · rw [if_neg grown]
                  exact ⟨_, Bool.not_eq_true _ ▸ grown⟩
              · rw [if_neg full]
                exact later _ (by rw [List.length_append, List.length_singleton]; omega)

/-- The number of backslashes that the line ends in. -/
def backslashes (line : List UInt8) : Nat := (line.reverse.takeWhile (· = 92)).length

theorem backslashes_all (all : ∀ d ∈ rest, d = 92) : backslashes rest = rest.length := by
  rw [backslashes, List.takeWhile_eq_self_iff.mpr, List.length_reverse]
  intro d among
  exact decide_eq_true (all d (List.mem_reverse.mp among))

theorem backslashes_all_cons (all : ∀ d ∈ rest, d = 92) : backslashes (92 :: rest) = rest.length + 1 := by
  rw [backslashes_all (List.forall_mem_cons.mpr ⟨rfl, all⟩), List.length_cons]

theorem backslashes_cons {c : UInt8} (other : ¬ ((∀ d ∈ rest, d = 92) ∧ c = 92)) :
    backslashes (c :: rest) = backslashes rest := by
  by_cases all : ∀ d ∈ rest, d = 92
  · have front : ∀ d ∈ rest.reverse, decide (d = 92) = true := fun d among =>
      decide_eq_true (all d (List.mem_reverse.mp among))
    have escape : c ≠ 92 := fun same => other ⟨all, same⟩
    rw [backslashes, List.reverse_cons, List.takeWhile_append_of_pos front,
      List.takeWhile_cons_of_neg (by simpa using escape), List.append_nil, List.length_reverse, backslashes_all all]
  · rw [backslashes, List.reverse_cons, List.takeWhile_append, if_neg, backslashes]
    intro whole
    refine all fun d among => ?_
    have every := List.takeWhile_eq_self_iff.mp ((List.takeWhile_prefix _).eq_of_length whole)
    exact of_decide_eq_true (every d (List.mem_reverse.mpr among))

theorem backslashes_plain {c : UInt8} (plain : c ≠ 92) : backslashes (c :: rest) = backslashes rest :=
  backslashes_cons fun both => plain both.2

theorem backslashes_escape (d : UInt8) (more : List UInt8) :
    backslashes (92 :: d :: more) % 2 = backslashes more % 2 := by
  by_cases all : ∀ b ∈ d :: more, b = 92
  · obtain ⟨here, later⟩ := List.forall_mem_cons.mp all
    rw [backslashes_all_cons all, backslashes_all later, List.length_cons]
    omega
  · rw [backslashes_cons fun both => all both.1]
    by_cases escape : d = 92
    · rw [backslashes_cons fun both => all (List.forall_mem_cons.mpr ⟨escape, both.1⟩)]
    · rw [backslashes_plain escape]

/-- An escape is left open by the last of an odd number of backslashes, in quotes and outside of them. -/
theorem dangling_iff (quote : UInt8) (rest : List UInt8) (plain : quote ≠ 92) :
    Dangling quote rest ↔ backslashes rest % 2 = 1 := by
  induction quote, rest using marks.induct with
  | case1 quote => simp [Dangling, backslashes]
  | case2 quote c rest space ih =>
      have other : c ≠ 92 := by
        rintro rfl
        exact absurd space.2 (by decide)
      rw [dangling_append (marks_space space) (by simp), ih (by decide), backslashes_plain other]
  | case3 c rest stop ih =>
      rw [dangling_append (marks_close stop rfl) (by simp), ih (by decide), backslashes_plain plain]
  | case4 quote c rest stop closes opens ih =>
      have other : c ≠ 92 := by
        rintro rfl
        exact absurd opens.2 (by decide)
      rw [dangling_append (marks_open stop closes opens) (by simp), ih other, backslashes_plain other]
  | case5 quote stop closes opens =>
      rw [Dangling, marks_dangling stop closes opens]
      exact iff_of_true rfl rfl
  | case6 quote d more stop closes opens ih =>
      rw [dangling_append (marks_escape stop closes opens) (by simp), ih plain, backslashes_escape]
  | case7 quote c rest stop closes opens escape ih =>
      rw [dangling_append (marks_char stop closes opens escape) (by simp), ih plain, backslashes_plain escape]

/-- The line was split right: no cell behind its terminator was touched, and the places that are returned are
those of the arguments, unless there is no memory for the array. -/
def Splits (malloc : Nat → Bool) (line : List UInt8) : Prop :=
  ∃ result, getargs malloc line = some result ∧
    match result with
    | none => ∃ n, malloc n = false
    | some (edited, args) => args.map (argText edited) = arguments line

/-- Exactly the lines that end in an odd number of backslashes are not split right. -/
theorem getargs_splits_iff {line : List UInt8} (plain : 0 ∉ line) :
    (∀ malloc, Splits malloc line) ↔ backslashes line % 2 = 0 := by
  have outcome : ∀ malloc, Outcome malloc [] line [] (getargsLoop malloc (line.length + 1) (line ++ [0]) 0 0 10 []) :=
    fun malloc => getargsLoop_outcome [] plain (.inl rfl) (by decide) (Nat.lt_succ_self _)
  have dangling := dangling_iff 0 line (by decide)
  constructor
  · intro splits
    obtain ⟨result, returned, right⟩ := splits fun _ => true
    have loop := outcome fun _ => true
    rw [getargs, if_pos rfl] at returned
    rw [returned] at loop
    cases result with
    | none =>
        obtain ⟨n, refused⟩ := right
        cases refused
    | some found =>
        have whole := loop.1
        rw [dangling] at whole
        omega
  · intro even malloc
    have whole : ¬Dangling 0 line := by
      rw [dangling]
      omega
    rw [Splits, getargs]
    by_cases first : malloc 10
    · rw [if_pos first]
      have loop := outcome malloc
      cases returned : getargsLoop malloc (line.length + 1) (line ++ [0]) 0 0 10 [] with
      | none =>
          rw [returned] at loop
          exact absurd loop whole
      | some result =>
          rw [returned] at loop
          refine ⟨result, rfl, ?_⟩
          cases result with
          | none => exact loop
          | some found =>
              obtain ⟨-, tail, new, -, all, texts⟩ := loop
              rw [List.nil_append] at all
              rw [← all] at texts
              exact texts
    · rw [if_neg first]
      exact ⟨none, rfl, 10, Bool.not_eq_true _ ▸ first⟩

/-- `a\` at the end of a line: the terminator is copied, and the scan goes on behind it. -/
theorem trailingBackslash_leaves : ¬ ∀ line : List UInt8, 0 ∉ line → ∀ malloc, Splits malloc line := by
  intro right
  obtain ⟨result, returned, -⟩ := right [97, 92] (by decide) fun _ => true
  have left : getargs (fun _ => true) [97, 92] = none := by decide
  rw [left] at returned
  cases returned

/-- `a "b c"'d'\\` with its quotes and its even number of backslashes. -/
theorem quotedLine_splits :
    (∀ malloc, Splits malloc [97, 32, 34, 98, 32, 99, 34, 39, 100, 39, 92, 92]) ↔
      backslashes [97, 32, 34, 98, 32, 99, 34, 39, 100, 39, 92, 92] % 2 = 0 :=
  getargs_splits_iff (by decide)

end Xcpu.Bjs.Cmconf
