import Xcpu.Bjs.Sexp

/-!
Printing and parsing s-expressions. The loop of `sexp_print` prints what the structure of the
elements says, the parser puts each printed element behind the ones it has, and what one call of
the parser makes of a text does not depend on how the text is cut.
-/

namespace Xcpu.Bjs

open Xcpu.Numerals (isspace)

/-- How deep lists are nested in a list of elements. -/
def Sexp.depth : Sexp → Nat
  | .null => 0
  | .value _ next => next.depth
  | .list elts next => max (elts.depth + 1) next.depth

/-- Every atom has characters, and no NUL among them. -/
def Sexp.Plain : Sexp → Prop
  | .null => True
  | .value val next => val ≠ [] ∧ 0 ∉ val ∧ next.Plain
  | .list elts next => elts.Plain ∧ next.Plain

/-- The elements and the parenthesis that closes them. -/
def printElements : Sexp → Bool → Bytes
  | .null, _ => [41]
  | .value val next, lastAtom =>
      (if lastAtom then [32] else []) ++ printAtom val ++ printElements next true
  | .list elts next, _ => 40 :: printElements elts false ++ printElements next false

theorem sexpPrintLoop_cons (sx : Sexp) (stack : List Sexp) (lastAtom : Bool)
    (fits : stack.length + sx.depth < sexpParserStackSize) :
    sexpPrintLoop (sx :: stack) lastAtom =
      (sexpPrintLoop stack false).map (printElements sx lastAtom ++ ·) := by
  induction sx generalizing stack lastAtom with
  | null =>
      rw [sexpPrintLoop]
      rfl
  | value val next ih =>
      rw [sexpPrintLoop, ih stack true fits, Option.map_map]
      congr 1
      funext rest
      simp [printElements]
  | list elts next ihElts ihNext =>
      simp only [Sexp.depth] at fits
      have inner : (next :: stack).length + elts.depth < sexpParserStackSize := by
        simp only [List.length_cons]
        omega
      rw [sexpPrintLoop, if_pos (by omega), ihElts (next :: stack) false inner,
        ihNext stack false (by omega), Option.map_map, Option.map_map]
      congr 1
      funext rest
      simp [printElements]

theorem sexpPrint_eq (elts next : Sexp) (fits : elts.depth < sexpParserStackSize) :
    sexpPrint (.list elts next) = some (40 :: printElements elts false) := by
  rw [sexpPrint, Sexp.elements, sexpPrintLoop_cons elts [] false (by simpa using fits), sexpPrintLoop]
  simp

theorem Parsed.after_after (parsed : Parsed) (first second : Nat) :
    (parsed.after first).after second = parsed.after (second + first) := by
  cases parsed <;> simp [Parsed.after, Nat.add_assoc]

@[simp] theorem Parsed.after_more (used later : Nat) (s : SexpParser) :
    (Parsed.more later s).after used = .more (used + later) s := rfl

@[simp] theorem Parsed.after_value (used later : Nat) (sx : Sexp) (s : SexpParser) :
    (Parsed.value later sx s).after used = .value (used + later) sx s := rfl

@[simp] theorem Parsed.after_error (used : Nat) : Parsed.error.after used = .error := rfl

theorem Parsed.after_zero (parsed : Parsed) : parsed.after 0 = parsed := by
  cases parsed <;> simp [Parsed.after]

/-- Between two characters of a printed text: what the innermost open list has, the lists around
it, and the atom that is being read. -/
structure At (s : SexpParser) (elements : Sexp) (stack : List Sexp) (pending : Bytes) : Prop where
  unlimited : s.maxBytes = 0
  room : s.atom.length ≤ s.atomSize
  elements_eq : s.elements = elements
  stack_eq : s.stack = stack
  atom_eq : s.atom = pending
  state_eq : s.state = if pending = [] then .none else .atom

/-- The elements once the atom has ended. -/
def finish (elements : Sexp) (pending : Bytes) : Sexp :=
  if pending = [] then elements else elements.append (.value pending .null)

variable {s next : SexpParser} {elements outer : Sexp} {stack : List Sexp} {pending rest : Bytes} {c : UInt8}

theorem mallocSx_unlimited (unlimited : s.maxBytes = 0) (size : Nat) :
    mallocSx s size = some { s with bytes := s.bytes + sizeofSexp + size } := by
  rw [mallocSx, if_neg (by simp [unlimited])]

theorem addToAtom_at (unlimited : s.maxBytes = 0) (room : s.atom.length ≤ s.atomSize)
    (elements_eq : s.elements = elements) (stack_eq : s.stack = stack) (atom_eq : s.atom = pending)
    (state_eq : s.state = .atom) (c : UInt8) :
    ∃ next, addToAtom s c = some next ∧ At next elements stack (pending ++ [c]) := by
  unfold addToAtom
  rw [if_neg (by simp [unlimited])]
  dsimp only
  by_cases grown : s.atom.length + 1 ≥ s.atomSize
  · rw [if_pos grown, if_pos (by simp only [incr]; omega)]
    refine ⟨_, rfl, unlimited, ?_, elements_eq, stack_eq, by rw [atom_eq], by simp [state_eq]⟩
    simp only [List.length_append, List.length_cons, List.length_nil, incr]
    omega
  · rw [if_neg grown, if_pos (by omega)]
    refine ⟨_, rfl, unlimited, ?_, elements_eq, stack_eq, by rw [atom_eq], by simp [state_eq]⟩
    simp only [List.length_append, List.length_cons, List.length_nil]
    omega

theorem sexpParserRound_none (state : s.state = .none) : sexpParserRound s c =
    if c = 40 then
      Round.ofOption (fun s =>
        if s.stack.length + 1 ≥ sexpParserStackSize then .error
        else .next { s with elements := .null, stack := s.elements :: s.stack }) (mallocSx s 0)
    else if c = 41 then
      match s.stack with
      | [] => .error
      | outer :: stack =>
          let elements := outer.append (.list s.elements .null)
          if stack = [] then .done elements sexpParserNew
          else .next { s with elements, stack }
    else if isspace c then .next s
    else .again { s with state := .atom } := by
  unfold sexpParserRound
  split
  · rfl
  · simp_all
  · simp_all

theorem sexpParserRound_once (unlimited : s.maxBytes = 0) (state : s.state = .none)
    (delimiter : isDelimiter c = true) (later : SexpParser) : sexpParserRound s c ≠ .again later := by
  rw [sexpParserRound_none state]
  simp only [isDelimiter, Bool.or_eq_true, decide_eq_true_eq] at delimiter
  by_cases opening : c = 40
  · rw [if_pos opening, mallocSx_unlimited unlimited, Round.ofOption]
    split <;> simp
  · rw [if_neg opening]
    by_cases closing : c = 41
    · rw [if_pos closing]
      split
      · simp
      · dsimp only
        split <;> simp
    · have space : isspace c = true := by simpa [opening, closing] using delimiter
      rw [if_neg closing, if_pos space]
      simp

theorem sexpParserChar_delimiter (here : At s elements stack pending) (delimiter : isDelimiter c = true) :
    ∃ next, At next (finish elements pending) stack [] ∧ sexpParserChar s c = sexpParserRound next c := by
  by_cases empty : pending = []
  · have state : s.state = .none := by rw [here.state_eq, if_pos empty]
    refine ⟨s, by rw [finish, if_pos empty, ← empty]; exact here, ?_⟩
    unfold sexpParserChar
    split
    · rename_i later again
      exact absurd again (sexpParserRound_once here.unlimited state delimiter later)
    · rfl
  · have state : s.state = .atom := by rw [here.state_eq, if_neg empty]
    refine ⟨{ s with
      state := .none, bytes := s.bytes + sizeofSexp + (s.atom.length + 1), atom := [],
      elements := s.elements.append (.value s.atom .null) }, ?_, ?_⟩
    · refine ⟨here.unlimited, Nat.zero_le _, ?_, here.stack_eq, rfl, rfl⟩
      rw [finish, if_neg empty, here.elements_eq, here.atom_eq]
    · have round : sexpParserRound s c = .again { s with
          state := .none, bytes := s.bytes + sizeofSexp + (s.atom.length + 1), atom := [],
          elements := s.elements.append (.value s.atom .null) } := by
        unfold sexpParserRound
        rw [state]
        simp only [delimiter, if_true, completeAtom]
        rw [mallocSx_unlimited (by exact here.unlimited)]
        rfl
      unfold sexpParserChar
      rw [round]

theorem sexpParserChar_plain (here : At s elements stack pending) (plain : isSpecial c = false) :
    ∃ next, sexpParserChar s c = .next next ∧ At next elements stack (pending ++ [c]) := by
  simp only [isSpecial, Bool.or_eq_false_iff, decide_eq_false_iff_not] at plain
  obtain ⟨text, slash⟩ := plain
  have inAtom : ∀ t : SexpParser, t.maxBytes = 0 → t.atom.length ≤ t.atomSize → t.elements = elements →
      t.stack = stack → t.atom = pending → t.state = .atom →
      ∃ next, sexpParserRound t c = .next next ∧ At next elements stack (pending ++ [c]) := by
    intro t unlimited room elements_eq stack_eq atom_eq state_eq
    obtain ⟨next, added, there⟩ := addToAtom_at unlimited room elements_eq stack_eq atom_eq state_eq c
    refine ⟨next, ?_, there⟩
    unfold sexpParserRound
    rw [state_eq]
    simp only [text, Bool.false_eq_true, if_false, slash, added, Round.ofOption]
  by_cases empty : pending = []
  · have state : s.state = .none := by rw [here.state_eq, if_pos empty]
    have round : sexpParserRound s c = .again { s with state := .atom } := by
      simp only [isDelimiter, Bool.or_eq_false_iff, decide_eq_false_iff_not] at text
      obtain ⟨⟨opening, closing⟩, space⟩ := text
      unfold sexpParserRound
      rw [state]
      simp only [opening, closing, space, if_false, Bool.false_eq_true]
    unfold sexpParserChar
    rw [round]
    exact inAtom { s with state := .atom } here.unlimited here.room here.elements_eq here.stack_eq
      here.atom_eq rfl
  · have state : s.state = .atom := by rw [here.state_eq, if_neg empty]
    obtain ⟨next, round, there⟩ := inAtom s here.unlimited here.room here.elements_eq here.stack_eq
      here.atom_eq state
    refine ⟨next, ?_, there⟩
    unfold sexpParserChar
    rw [round]

theorem sexpParserChar_slash (here : At s elements stack pending) (escaped : UInt8) :
    ∃ middle next, sexpParserChar s 92 = .next middle ∧ sexpParserChar middle escaped = .next next ∧
      At next elements stack (pending ++ [escaped]) := by
  have slashed : sexpParserChar s 92 = .next { s with state := .atomEsc } := by
    by_cases empty : pending = []
    · have state : s.state = .none := by rw [here.state_eq, if_pos empty]
      have round : sexpParserRound s 92 = .again { s with state := .atom } := by
        unfold sexpParserRound
        rw [state]
        rfl
      unfold sexpParserChar
      rw [round]
      rfl
    · have state : s.state = .atom := by rw [here.state_eq, if_neg empty]
      have round : sexpParserRound s 92 = .next { s with state := .atomEsc } := by
        unfold sexpParserRound
        rw [state]
        rfl
      unfold sexpParserChar
      rw [round]
  obtain ⟨next, added, there⟩ := addToAtom_at (s := { s with state := .atom }) here.unlimited here.room
    here.elements_eq here.stack_eq here.atom_eq rfl escaped
  refine ⟨_, next, slashed, ?_, there⟩
  have round : sexpParserRound { s with state := .atomEsc } escaped = .next next := by
    unfold sexpParserRound
    simp only
    rw [added]
    rfl
  unfold sexpParserChar
  rw [round]

theorem sexpParserParse_next (nonzero : c ≠ 0) (eaten : sexpParserChar s c = .next next) (rest : Bytes) :
    sexpParserParse s (c :: rest) = (sexpParserParse next rest).after 1 := by
  rw [sexpParserParse, if_neg nonzero, eaten]

theorem printAtom_cons {val : Bytes} (nonzero : c ≠ 0) :
    printAtom (c :: val) = (if isSpecial c then [92, c] else [c]) ++ printAtom val := by
  rw [printAtom, List.takeWhile_cons_of_pos (by simpa using nonzero), List.flatMap_cons, printAtom]

theorem parse_printAtom {val : Bytes} (plain : 0 ∉ val) (here : At s elements stack pending) (rest : Bytes) :
    ∃ next, At next elements stack (pending ++ val) ∧
      sexpParserParse s (printAtom val ++ rest) = (sexpParserParse next rest).after (printAtom val).length := by
  induction val generalizing s pending with
  | nil => exact ⟨s, by simpa using here, by simp [printAtom, Parsed.after_zero]⟩
  | cons c val ih =>
      have nonzero : c ≠ 0 := fun zero => plain (zero ▸ List.mem_cons_self)
      have later : 0 ∉ val := fun member => plain (List.mem_cons_of_mem _ member)
      rw [printAtom_cons nonzero]
      by_cases special : isSpecial c = true
      · obtain ⟨middle, next, first, second, there⟩ := sexpParserChar_slash here c
        obtain ⟨final, at_final, parsed⟩ := ih later there
        refine ⟨final, by simpa using at_final, ?_⟩
        simp only [special, if_true, List.cons_append, List.nil_append]
        rw [sexpParserParse_next (by decide) first, sexpParserParse_next nonzero second, parsed,
          Parsed.after_after, Parsed.after_after]
        congr 1
        simp only [List.length_cons]
        omega
      · have plain : isSpecial c = false := by simpa using special
        obtain ⟨next, eaten, there⟩ := sexpParserChar_plain here plain
        obtain ⟨final, at_final, parsed⟩ := ih later there
        refine ⟨final, by simpa using at_final, ?_⟩
        simp only [plain, Bool.false_eq_true, if_false, List.cons_append, List.nil_append]
        rw [sexpParserParse_next nonzero eaten, parsed, Parsed.after_after]
        congr 1
        simp only [List.length_cons]
        omega

theorem parse_space (here : At s elements stack pending) (rest : Bytes) :
    ∃ next, At next (finish elements pending) stack [] ∧
      sexpParserParse s (32 :: rest) = (sexpParserParse next rest).after 1 := by
  obtain ⟨next, there, same⟩ := sexpParserChar_delimiter here (c := 32) (by decide)
  have state : next.state = .none := by rw [there.state_eq, if_pos rfl]
  refine ⟨next, there, sexpParserParse_next (by decide) ?_ rest⟩
  rw [same, sexpParserRound_none state]
  rfl

theorem parse_open (here : At s elements stack pending) (room : stack.length + 1 < sexpParserStackSize)
    (rest : Bytes) :
    ∃ next, At next .null (finish elements pending :: stack) [] ∧
      sexpParserParse s (40 :: rest) = (sexpParserParse next rest).after 1 := by
  obtain ⟨middle, there, same⟩ := sexpParserChar_delimiter here (c := 40) (by decide)
  have state : middle.state = .none := by rw [there.state_eq, if_pos rfl]
  refine ⟨{ middle with
    bytes := middle.bytes + sizeofSexp + 0, elements := .null, stack := middle.elements :: middle.stack },
    ⟨there.unlimited, there.room, rfl, by rw [there.elements_eq, there.stack_eq], there.atom_eq, state⟩,
    sexpParserParse_next (by decide) ?_ rest⟩
  rw [same, sexpParserRound_none state, if_pos rfl, mallocSx_unlimited there.unlimited, Round.ofOption]
  dsimp only
  rw [there.stack_eq, if_neg (by omega)]

/-- What is left to read once the text `text` is: nothing when the outermost list was closed,
which yields it, and else the rest from where there are `elements` in the lists `stack`. -/
def Closes (s : SexpParser) (text rest : Bytes) (elements : Sexp) : List Sexp → Prop
  | [] => sexpParserParse s (text ++ rest) = .value text.length elements sexpParserNew
  | outer :: stack => ∃ next, At next elements (outer :: stack) [] ∧
      sexpParserParse s (text ++ rest) = (sexpParserParse next rest).after text.length

theorem Closes.prepend {before text : Bytes}
    (parsed : sexpParserParse s (before ++ (text ++ rest)) =
      (sexpParserParse next (text ++ rest)).after before.length)
    (closes : Closes next text rest elements stack) : Closes s (before ++ text) rest elements stack := by
  cases stack with
  | nil =>
      rw [Closes] at closes ⊢
      rw [List.append_assoc, parsed, closes, Parsed.after, List.length_append]
  | cons outer stack =>
      obtain ⟨final, there, onward⟩ := closes
      refine ⟨final, there, ?_⟩
      rw [List.append_assoc, parsed, onward, Parsed.after_after, List.length_append]

theorem parse_close (here : At s elements (outer :: stack) pending) (rest : Bytes) :
    Closes s [41] rest (outer.append (.list (finish elements pending) .null)) stack := by
  obtain ⟨middle, there, same⟩ := sexpParserChar_delimiter here (c := 41) (by decide)
  have state : middle.state = .none := by rw [there.state_eq, if_pos rfl]
  have round := sexpParserRound_none (s := middle) (c := 41) state
  rw [if_neg (by decide), if_pos rfl, there.stack_eq, there.elements_eq] at round
  cases stack with
  | nil =>
      rw [Closes, List.singleton_append, sexpParserParse, if_neg (by decide), same, round]
      rfl
  | cons next stack =>
      refine ⟨{ middle with
          elements := outer.append (.list (finish elements pending) .null), stack := next :: stack },
        ⟨there.unlimited, there.room, rfl, rfl, there.atom_eq, state⟩,
        sexpParserParse_next (by decide) ?_ rest⟩
      rw [same, round]
      rfl

theorem finish_append (elements next : Sexp) {val : Bytes} (nonempty : val ≠ []) :
    (finish elements val).append next = elements.append (.value val next) := by
  rw [finish, if_neg nonempty, Sexp.append_assoc]
  rfl

theorem parse_printElements (sx : Sexp) (plain : sx.Plain) (here : At s elements (outer :: stack) pending)
    (fits : stack.length + 1 + sx.depth < sexpParserStackSize) (rest : Bytes) :
    Closes s (printElements sx (decide (pending ≠ []))) rest
      (outer.append (.list ((finish elements pending).append sx) .null)) stack := by
  induction sx generalizing s elements outer stack pending rest with
  | null =>
      rw [Sexp.append_null]
      exact parse_close here rest
  | value val next ih =>
      obtain ⟨nonempty, characters, plain⟩ := plain
      rw [← finish_append _ _ nonempty]
      have more : ∀ t : SexpParser, At t (finish elements pending) (outer :: stack) [] →
          Closes t (printAtom val ++ printElements next true) rest
            (outer.append (.list ((finish (finish elements pending) val).append next) .null)) stack := by
        intro t there
        obtain ⟨final, at_final, parsed⟩ :=
          parse_printAtom characters there (printElements next true ++ rest)
        have onward := ih plain at_final fits rest
        simp only [List.nil_append, ne_eq, nonempty, not_false_eq_true, decide_true] at onward
        exact Closes.prepend parsed onward
      rw [printElements]
      by_cases empty : pending = []
      · subst pending
        simpa using more s (by simpa [finish] using here)
      · obtain ⟨t, there, parsed⟩ := parse_space here (printAtom val ++ printElements next true ++ rest)
        simp only [ne_eq, empty, not_false_eq_true, decide_true, if_true]
        rw [List.append_assoc]
        exact Closes.prepend parsed (more t there)
  | list elts next ihElts ihNext =>
      simp only [Sexp.depth] at fits
      obtain ⟨inside, plain⟩ := plain
      rw [printElements]
      have deep : (outer :: stack).length + 1 + elts.depth < sexpParserStackSize := by
        simp only [List.length_cons]
        omega
      obtain ⟨opened, there, parsed⟩ := parse_open here (by simp only [List.length_cons]; omega)
        (printElements elts false ++ printElements next false ++ rest)
      obtain ⟨closed, at_closed, parsedElts⟩ :=
        ihElts inside there deep (printElements next false ++ rest)
      have onward := ihNext plain at_closed (by omega) rest
      have same : ((finish elements pending).append (.list ((finish .null []).append elts) .null)).append next =
          (finish elements pending).append (.list elts next) := by
        rw [Sexp.append_assoc]
        rfl
      rw [finish, if_pos rfl, same] at onward
      have opening : sexpParserParse s ([40] ++ (printElements elts false ++ printElements next false ++ rest)) =
          (sexpParserParse opened (printElements elts false ++ printElements next false ++ rest)).after
            [(40 : UInt8)].length := parsed
      have text : (40 : UInt8) :: printElements elts false ++ printElements next false =
          [40] ++ (printElements elts false ++ printElements next false) := rfl
      rw [text]
      refine Closes.prepend opening (Closes.prepend ?_ onward)
      rw [← List.append_assoc]
      simpa using parsedElts

theorem sexpParserParse_append (s : SexpParser) (first second : Bytes) :
    sexpParserParse s (first ++ second) =
      match sexpParserParse s first with
      | .more used next =>
          if used = first.length then (sexpParserParse next second).after used else .more used next
      | parsed => parsed := by
  induction first generalizing s with
  | nil => simp [sexpParserParse, Parsed.after_zero]
  | cons c first ih =>
      rw [List.cons_append, sexpParserParse, sexpParserParse]
      by_cases zero : c = 0
      · simp [zero]
      · simp only [if_neg zero]
        cases sexpParserChar s c with
        | again next => rfl
        | error => rfl
        | done sx next => rfl
        | next next =>
            simp only [ih next]
            cases sexpParserParse next first with
            | error => rfl
            | value used sx later => rfl
            | more used later =>
                simp only [Parsed.after_more, List.length_cons]
                by_cases all : used = first.length
                · rw [if_pos all, if_pos (by omega), Parsed.after_after]
                · rw [if_neg all, if_neg (by omega), Parsed.after_more]

theorem sexpParserParse_used {s t : SexpParser} {text : Bytes} {used : Nat} {sx : Sexp}
    (parsed : sexpParserParse s text = .value used sx t) : 0 < used ∧ used ≤ text.length := by
  induction text generalizing s used with
  | nil => simp [sexpParserParse] at parsed
  | cons c text ih =>
      rw [sexpParserParse] at parsed
      split at parsed
      · contradiction
      · split at parsed
        · rename_i next _
          cases inner : sexpParserParse next text with
          | error => simp [inner, Parsed.after] at parsed
          | more used' later => simp [inner, Parsed.after] at parsed
          | value used' sx' later =>
              simp only [inner, Parsed.after, Parsed.value.injEq] at parsed
              obtain ⟨rfl, rfl, rfl⟩ := parsed
              have bounds := ih inner
              simp only [List.length_cons]
              omega
        · simp only [Parsed.value.injEq] at parsed
          simp only [List.length_cons]
          omega
        · contradiction

/-- What the first piece of a text does where the whole of it is one value: it completes the value,
or it is consumed and the rest of the text is that value from there. -/
theorem sexpParserParse_cut {s t : SexpParser} {first second : Bytes} {used : Nat} {sx : Sexp}
    (whole : sexpParserParse s (first ++ second) = .value used sx t) :
    (used ≤ first.length ∧ sexpParserParse s first = .value used sx t) ∨
      ∃ next later, used = first.length + later ∧ sexpParserParse s first = .more first.length next ∧
        sexpParserParse next second = .value later sx t := by
  rw [sexpParserParse_append] at whole
  cases parsed : sexpParserParse s first with
  | error => simp [parsed] at whole
  | value used' sx' t' =>
      simp only [parsed, Parsed.value.injEq] at whole
      obtain ⟨rfl, rfl, rfl⟩ := whole
      exact .inl ⟨(sexpParserParse_used parsed).2, rfl⟩
  | more used' next =>
      simp only [parsed] at whole
      split at whole
      · rename_i all
        cases later : sexpParserParse next second with
        | error => simp [later, Parsed.after] at whole
        | more used'' next' => simp [later, Parsed.after] at whole
        | value used'' sx'' t'' =>
            simp only [later, Parsed.after, Parsed.value.injEq] at whole
            obtain ⟨rfl, rfl, rfl⟩ := whole
            exact .inr ⟨next, used'', by rw [all], by rw [all], later⟩
      · contradiction

theorem feedChunks_empty {chunks : List Bytes} (s : SexpParser) (empty : ∀ chunk ∈ chunks, chunk = []) :
    feedChunks s chunks = some (chunks.map fun _ => (0, none), s) := by
  induction chunks with
  | nil => rfl
  | cons chunk rest ih =>
      have later := ih fun chunk member => empty chunk (List.mem_cons_of_mem _ member)
      simp only [feedChunks, empty chunk List.mem_cons_self, sexpParserParse, later]
      rfl

/-- The calls for the chunks of a text that is one value: each before the last one consumes its
chunk and yields nothing, the last one yields the value, and after it there is nothing to consume. -/
def YieldsOnce (s t : SexpParser) (sx : Sexp) (chunks : List Bytes) : Prop :=
  ∃ before last after, chunks = before ++ last :: after ∧ last ≠ [] ∧ (∀ chunk ∈ after, chunk = []) ∧
    feedChunks s chunks = some (before.map (fun chunk => (chunk.length, none)) ++
      (last.length, some sx) :: after.map fun _ => (0, none), t)

theorem feedChunks_yieldsOnce {s t : SexpParser} {sx : Sexp} (chunks : List Bytes)
    (whole : sexpParserParse s chunks.flatten = .value chunks.flatten.length sx t) :
    YieldsOnce s t sx chunks := by
  induction chunks generalizing s with
  | nil => simp [sexpParserParse] at whole
  | cons chunk rest ih =>
      rw [List.flatten_cons] at whole
      rcases sexpParserParse_cut whole with ⟨short, parsed⟩ | ⟨next, later, split, parsed, onward⟩
      · rw [List.length_append] at short parsed
        have spent : rest.flatten = [] := List.eq_nil_of_length_eq_zero (by omega)
        have empty : ∀ chunk ∈ rest, chunk = [] := List.flatten_eq_nil_iff.mp spent
        have used := sexpParserParse_used parsed
        rw [spent] at parsed used
        simp only [List.length_nil, Nat.add_zero] at parsed used
        refine ⟨[], chunk, rest, rfl, List.ne_nil_of_length_pos used.1, empty, ?_⟩
        rw [feedChunks, parsed]
        simp only [feedChunks_empty t empty]
        rfl
      · rw [List.length_append] at split
        have same : later = rest.flatten.length := by omega
        obtain ⟨before, last, after, cut, filled, empty, fed⟩ := ih (same ▸ onward)
        refine ⟨chunk :: before, last, after, by rw [cut]; rfl, filled, empty, ?_⟩
        rw [feedChunks, parsed]
        simp only [fed]
        rfl

theorem sexpParserParse_print {elts : Sexp} (plain : elts.Plain)
    (fits : elts.depth + 1 < sexpParserStackSize) (rest : Bytes) :
    sexpParserParse sexpParserNew (40 :: printElements elts false ++ rest) =
      .value (40 :: printElements elts false).length (.list elts .null) sexpParserNew := by
  have start : At sexpParserNew .null [] [] := ⟨rfl, Nat.le_refl _, rfl, rfl, rfl, rfl⟩
  obtain ⟨opened, there, parsed⟩ := parse_open start (by decide) (printElements elts false ++ rest)
  have closed := parse_printElements elts plain there (by simp only [List.length_nil]; omega) rest
  have opening : sexpParserParse sexpParserNew ([40] ++ (printElements elts false ++ rest)) =
      (sexpParserParse opened (printElements elts false ++ rest)).after [(40 : UInt8)].length := parsed
  exact Closes.prepend opening closed

/-- Printing and parsing are inverse however the printed text is cut. -/
theorem print_yieldsOnce (elts : Sexp) (plain : elts.Plain)
    (fits : (Sexp.list elts .null).depth < sexpParserStackSize) :
    ∃ text, sexpPrint (.list elts .null) = some text ∧
      ∀ chunks, chunks.flatten = text →
        YieldsOnce sexpParserNew sexpParserNew (.list elts .null) chunks := by
  have deep : elts.depth + 1 < sexpParserStackSize := by
    simp only [Sexp.depth] at fits
    omega
  refine ⟨_, sexpPrint_eq elts .null (by omega), fun chunks cut => feedChunks_yieldsOnce chunks ?_⟩
  have whole := sexpParserParse_print plain deep []
  rw [List.append_nil] at whole
  rw [cut]
  exact whole

/-- `("a b" (")") c)`, with a blank and a parenthesis inside atoms. -/
def quotedSexp : Sexp := .value [97, 32, 98] (.list (.value [41] .null) (.value [99] .null))

theorem print_yieldsOnce_quoted : ∃ text, sexpPrint (.list quotedSexp .null) = some text ∧
    ∀ chunks, chunks.flatten = text →
      YieldsOnce sexpParserNew sexpParserNew (.list quotedSexp .null) chunks :=
  print_yieldsOnce quotedSexp
    ⟨by decide, by decide, ⟨by decide, by decide, trivial⟩, by decide, by decide, trivial⟩ (by decide)

theorem bjsRecv_of_value {s t : SexpParser} {sx : Sexp} {used : Nat} (buf : Bytes) (reads : List Bytes)
    (filled : ∀ chunk ∈ reads, chunk ≠ [])
    (whole : sexpParserParse s (buf ++ reads.flatten) = .value used sx t) :
    ∃ buf' reads', bjsRecv s buf reads = some (sx, t, buf', reads') ∧
      buf' ++ reads'.flatten = (buf ++ reads.flatten).drop used := by
  induction reads generalizing s buf used with
  | nil =>
      simp only [List.flatten_nil, List.append_nil] at whole ⊢
      exact ⟨buf.drop used, [], by rw [bjsRecv, whole], by simp⟩
  | cons chunk reads ih =>
      rcases sexpParserParse_cut whole with ⟨short, parsed⟩ | ⟨next, later, split, parsed, onward⟩
      · refine ⟨buf.drop used, chunk :: reads, by rw [bjsRecv, parsed], ?_⟩
        rw [List.drop_append_of_le_length short]
      · obtain ⟨buf', reads', received, left⟩ :=
          ih chunk (fun c member => filled c (List.mem_cons_of_mem _ member)) onward
        refine ⟨buf', reads', ?_, ?_⟩
        · simp only [bjsRecv, parsed, Nat.lt_irrefl, filled chunk List.mem_cons_self, or_self, if_false]
          exact received
        · rw [left, split, ← List.drop_drop, List.drop_left]
          rfl

/-- One call of `bjs_recv` takes exactly one printed list off the stream, however it arrives, and
leaves what comes after it to the next call. -/
theorem bjsRecv_print {elts : Sexp} (plain : elts.Plain) (fits : elts.depth + 1 < sexpParserStackSize)
    {text tail : Bytes} (printed : sexpPrint (.list elts .null) = some text) (buf : Bytes)
    (reads : List Bytes) (filled : ∀ chunk ∈ reads, chunk ≠ []) (arrives : buf ++ reads.flatten = text ++ tail) :
    ∃ buf' reads', bjsRecv sexpParserNew buf reads = some (.list elts .null, sexpParserNew, buf', reads') ∧
      buf' ++ reads'.flatten = tail := by
  rw [sexpPrint_eq elts .null (by omega), Option.some.injEq] at printed
  have whole := sexpParserParse_print plain fits tail
  rw [printed, ← arrives] at whole
  obtain ⟨buf', reads', received, left⟩ := bjsRecv_of_value buf reads filled whole
  exact ⟨buf', reads', received, by rw [left, arrives, List.drop_left]⟩

theorem Sexp.Plain.append {first second : Sexp} (one : first.Plain) (two : second.Plain) :
    (first.append second).Plain := by
  induction first with
  | null => exact two
  | value val next ih => exact ⟨one.1, one.2.1, ih one.2.2⟩
  | list elts next _ ih => exact ⟨one.1, ih one.2⟩

/-- Between two characters of any text: no atom that was read is empty, and none has a NUL. -/
structure Wholesome (s : SexpParser) : Prop where
  elements : s.elements.Plain
  stack : ∀ outer ∈ s.stack, outer.Plain
  characters : 0 ∉ s.atom
  filled : s.state = .atom → s.atom ≠ []

theorem mallocSx_some {size : Nat} (made : mallocSx s size = some next) :
    next = { s with bytes := s.bytes + sizeofSexp + size } := by
  unfold mallocSx at made
  split at made
  · contradiction
  · exact (Option.some.inj made).symm

theorem addToAtom_some (added : addToAtom s c = some next) :
    ∃ atomSize, next = { s with atom := s.atom ++ [c], atomSize } := by
  unfold addToAtom at added
  split at added
  · contradiction
  · dsimp only at added
    split at added
    · split at added
      · exact ⟨_, (Option.some.inj added).symm⟩
      · contradiction
    · split at added
      · exact ⟨_, (Option.some.inj added).symm⟩
      · contradiction

theorem addToAtom_wholesome (elements : s.elements.Plain) (outer : ∀ outer ∈ s.stack, outer.Plain)
    (characters : 0 ∉ s.atom) (nonzero : c ≠ 0) (added : addToAtom s c = some next) : Wholesome next := by
  obtain ⟨atomSize, same⟩ := addToAtom_some added
  subst next
  refine ⟨elements, outer, ?_, fun _ => by simp⟩
  intro member
  rcases List.mem_append.mp member with before | last
  · exact characters before
  · exact nonzero (List.mem_singleton.mp last).symm

theorem Round.ofOption_eq {round : SexpParser → Round} {made : Option SexpParser} {result : Round}
    (same : Round.ofOption round made = result) (fine : result ≠ .error) :
    ∃ t, made = some t ∧ round t = result := by
  cases made with
  | none => exact absurd same.symm fine
  | some t => exact ⟨t, rfl, same⟩

theorem round_none (good : Wholesome s) (state : s.state = .none) :
    (∀ next, sexpParserRound s c = .next next → Wholesome next) ∧
      (∀ sx next, sexpParserRound s c = .done sx next → sx.Plain ∧ next = sexpParserNew) ∧
      (∀ next, sexpParserRound s c = .again next → next = { s with state := .atom } ∧ isDelimiter c = false) := by
  rw [sexpParserRound_none state]
  by_cases opening : c = 40
  · rw [if_pos opening]
    cases made : mallocSx s 0 with
    | none => simp [Round.ofOption]
    | some t =>
        rw [Round.ofOption]
        have same := mallocSx_some made
        split
        · simp
        · refine ⟨fun next eaten => ?_, by simp, by simp⟩
          rw [← Round.next.inj eaten, same]
          refine ⟨trivial, ?_, good.characters, fun atom => absurd (state.symm.trans atom) (by simp)⟩
          intro outer member
          rcases List.mem_cons.mp member with here | there
          · exact here ▸ good.elements
          · exact good.stack outer there
  · rw [if_neg opening]
    by_cases closing : c = 41
    · rw [if_pos closing]
      split
      · simp
      · rename_i outer stack split
        have inside : outer.Plain := good.stack outer (by simp [split])
        have whole : (outer.append (.list s.elements .null)).Plain := inside.append ⟨good.elements, trivial⟩
        dsimp only
        split
        · refine ⟨by simp, fun sx next finished => ?_, by simp⟩
          obtain ⟨rfl, rfl⟩ := Round.done.inj finished
          exact ⟨whole, rfl⟩
        · refine ⟨fun next eaten => ?_, by simp, by simp⟩
          rw [← Round.next.inj eaten]
          exact ⟨whole, fun other member => good.stack other (by simp [split, member]), good.characters,
            good.filled⟩
    · rw [if_neg closing]
      by_cases space : isspace c = true
      · rw [if_pos space]
        exact ⟨fun next eaten => Round.next.inj eaten ▸ good, by simp, by simp⟩
      · rw [if_neg space]
        refine ⟨by simp, by simp, fun next again => ⟨(Round.again.inj again).symm, ?_⟩⟩
        simp [isDelimiter, opening, closing, space]

theorem round_atom (elements : s.elements.Plain) (outer : ∀ outer ∈ s.stack, outer.Plain)
    (characters : 0 ∉ s.atom) (nonzero : c ≠ 0) (state : s.state = .atom) :
    (∀ next, sexpParserRound s c = .next next → Wholesome next) ∧
      (∀ sx next, sexpParserRound s c ≠ .done sx next) ∧
      (s.atom ≠ [] → ∀ next, sexpParserRound s c = .again next → Wholesome next ∧ next.state = .none) ∧
      (isDelimiter c = false → ∀ next, sexpParserRound s c ≠ .again next) := by
  have round : sexpParserRound s c =
      if isDelimiter c then Round.ofOption .again (completeAtom { s with state := .none })
      else if c = 92 then .next { s with state := .atomEsc }
      else Round.ofOption .next (addToAtom s c) := by
    unfold sexpParserRound
    split <;> simp_all
  rw [round]
  by_cases delimiter : isDelimiter c = true
  · rw [if_pos delimiter]
    cases made : completeAtom { s with state := .none } with
    | none => simp [Round.ofOption]
    | some t =>
        refine ⟨by simp [Round.ofOption], by simp [Round.ofOption], ?_, by simp [delimiter]⟩
        intro filled next again
        rw [← Round.again.inj again]
        obtain ⟨u, allocated, same⟩ := Option.map_eq_some_iff.mp made
        have unchanged := mallocSx_some allocated
        rw [← same, unchanged]
        exact ⟨⟨elements.append ⟨filled, characters, trivial⟩, outer, by simp, by simp⟩, rfl⟩
  · rw [if_neg delimiter]
    by_cases slash : c = 92
    · rw [if_pos slash]
      refine ⟨fun next eaten => ?_, by simp, by simp, by simp⟩
      rw [← Round.next.inj eaten]
      exact ⟨elements, outer, characters, by simp⟩
    · rw [if_neg slash]
      cases added : addToAtom s c with
      | none => simp [Round.ofOption]
      | some t =>
          refine ⟨fun next eaten => ?_, by simp [Round.ofOption], by simp [Round.ofOption],
            by simp [Round.ofOption]⟩
          rw [← Round.next.inj eaten]
          exact addToAtom_wholesome elements outer characters nonzero added

theorem sexpParserChar_wholesome (good : Wholesome s) (nonzero : c ≠ 0) :
    (∀ next, sexpParserChar s c = .next next → Wholesome next) ∧
      (∀ sx next, sexpParserChar s c = .done sx next → sx.Plain ∧ next = sexpParserNew) := by
  unfold sexpParserChar
  cases state : s.state with
  | none =>
      obtain ⟨onward, finished, again⟩ := round_none (c := c) good state
      split
      · rename_i t started
        obtain ⟨same, text⟩ := again t started
        subst t
        obtain ⟨onward, never, -, -⟩ := round_atom (s := { s with state := .atom }) good.elements good.stack
          good.characters nonzero rfl
        exact ⟨onward, fun sx next done => absurd done (never sx next)⟩
      · exact ⟨onward, finished⟩
  | atom =>
      obtain ⟨onward, never, ended, -⟩ :=
        round_atom good.elements good.stack good.characters nonzero state
      split
      · rename_i t ending
        obtain ⟨good', state'⟩ := ended (good.filled state) t ending
        obtain ⟨onward, finished, -⟩ := round_none (c := c) good' state'
        exact ⟨onward, finished⟩
      · exact ⟨onward, fun sx next done => absurd done (never sx next)⟩
  | atomEsc =>
      have round : sexpParserRound s c = Round.ofOption .next (addToAtom { s with state := .atom } c) := by
        unfold sexpParserRound
        split <;> simp_all
      rw [round]
      cases added : addToAtom { s with state := .atom } c with
      | none => simp [Round.ofOption]
      | some t =>
          have good' : Wholesome t := by
            refine addToAtom_wholesome ?_ ?_ ?_ nonzero added
            · exact good.elements
            · exact good.stack
            · exact good.characters
          simp only [Round.ofOption, Round.next.injEq, forall_eq']
          exact ⟨good', by simp⟩

theorem sexpParserNew_wholesome : Wholesome sexpParserNew := ⟨trivial, by simp [sexpParserNew],
  by simp [sexpParserNew], by simp [sexpParserNew]⟩

theorem sexpParserParse_wholesome (text : Bytes) (good : Wholesome s) :
    (∀ used next, sexpParserParse s text = .more used next → Wholesome next) ∧
      ∀ used sx next, sexpParserParse s text = .value used sx next → sx.Plain ∧ Wholesome next := by
  induction text generalizing s with
  | nil =>
      simp only [sexpParserParse, Parsed.more.injEq, reduceCtorEq, false_implies, implies_true, and_true]
      rintro used next ⟨-, rfl⟩
      exact good
  | cons c text ih =>
      rw [sexpParserParse]
      by_cases zero : c = 0
      · rw [if_pos zero]
        simp only [Parsed.more.injEq, reduceCtorEq, false_implies, implies_true, and_true]
        rintro used next ⟨-, rfl⟩
        exact good
      · obtain ⟨onward, finished⟩ := sexpParserChar_wholesome good zero
        rw [if_neg zero]
        split
        · rename_i next eaten
          obtain ⟨more, value⟩ := ih (onward next eaten)
          cases parsed : sexpParserParse next text with
          | error => simp
          | more used t =>
              simp only [Parsed.after_more, Parsed.more.injEq, reduceCtorEq, false_implies, implies_true,
                and_true]
              rintro used' t' ⟨-, rfl⟩
              exact more used t parsed
          | value used sx t =>
              simp only [Parsed.after_value, Parsed.value.injEq, reduceCtorEq, false_implies, implies_true,
                true_and]
              rintro used' sx' t' ⟨-, rfl, rfl⟩
              exact value used sx t parsed
        · rename_i sx next done
          obtain ⟨plain, same⟩ := finished sx next done
          refine ⟨by simp, ?_⟩
          rintro used' sx' t' equal
          obtain ⟨-, rfl, rfl⟩ := Parsed.value.inj equal
          exact ⟨plain, same ▸ sexpParserNew_wholesome⟩
        · simp

theorem feedChunks_plain {chunks : List Bytes} {results : List (Nat × Option Sexp)} (good : Wholesome s)
    (fed : feedChunks s chunks = some (results, next)) :
    ∀ result ∈ results, ∀ sx, result.2 = some sx → sx.Plain := by
  induction chunks generalizing s results with
  | nil =>
      obtain ⟨rfl, -⟩ := Prod.mk.inj (Option.some.inj fed)
      simp
  | cons chunk rest ih =>
      obtain ⟨more, value⟩ := sexpParserParse_wholesome chunk good
      rw [feedChunks] at fed
      split at fed
      · contradiction
      · rename_i used t parsed
        obtain ⟨⟨later, last⟩, onward, same⟩ := Option.map_eq_some_iff.mp fed
        obtain ⟨rfl, rfl⟩ := Prod.mk.inj same
        intro result member sx yields
        rcases List.mem_cons.mp member with here | there
        · rw [here] at yields
          contradiction
        · exact ih (more used t parsed) onward result there sx yields
      · rename_i used sx' t parsed
        obtain ⟨⟨later, last⟩, onward, same⟩ := Option.map_eq_some_iff.mp fed
        obtain ⟨rfl, rfl⟩ := Prod.mk.inj same
        obtain ⟨plain, good'⟩ := value used sx' t parsed
        intro result member sx yields
        rcases List.mem_cons.mp member with here | there
        · rw [here] at yields
          exact Option.some.inj yields ▸ plain
        · exact ih good' onward result there sx yields

end Xcpu.Bjs
