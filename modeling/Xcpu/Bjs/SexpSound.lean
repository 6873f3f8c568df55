import Xcpu.Bjs.SexpRoundTrip
import Xcpu.Lib.Transition

/-!
What the parser of s-expressions accepts, against a grammar: between two values or rejections it has read white space
and the beginning of one list. An atom outside of all lists is accepted too, and a list that is nested too deep is
rejected and kept.
-/

namespace Xcpu.Bjs.SexpSound

open Xcpu.Numerals (isspace)
open Xcpu.Transition (Guarded EachStep eachStep_of_progress)

/-- What a character leaves that is an error. -/
def roundLeft (s : SexpParser) (c : UInt8) : SexpParser :=
  match s.state with
  | .none => if c = 40 then (mallocSx s 0).getD s else s
  | .atom => if isDelimiter c then { s with state := .none } else s
  | .atomEsc => { s with state := .atom }

def charLeft (s : SexpParser) (c : UInt8) : SexpParser :=
  match sexpParserRound s c with
  | .again s => roundLeft s c
  | _ => roundLeft s c

/-- The parser after a call, whatever the call returns. -/
def parseLeft (s : SexpParser) : Bytes → SexpParser
  | [] => s
  | c :: rest =>
      if c = 0 then s
      else match sexpParserChar s c with
        | .next s => parseLeft s rest
        | .done _ s => s
        | _ => charLeft s c

/-- The characters of an atom, which may stand behind a backslash. -/
inductive Chars : Bytes → Bytes → Prop
  | nil : Chars [] []
  | plain {text val : Bytes} (chars : Chars text val) {c : UInt8} (ordinary : isSpecial c = false) :
      Chars (text ++ [c]) (val ++ [c])
  | escaped {text val : Bytes} (chars : Chars text val) (c : UInt8) : Chars (text ++ [92, c]) (val ++ [c])

/-- The elements that stand between parentheses, and whether an atom is the last thing there: another atom needs a
space before it. -/
inductive Elements : Bytes → Sexp → Bool → Prop
  | nil : Elements [] .null false
  | space {text : Bytes} {elts : Sexp} {ends : Bool} (before : Elements text elts ends) {c : UInt8}
      (white : isspace c = true) : Elements (text ++ [c]) elts false
  | atom {text chars val : Bytes} {elts : Sexp} (before : Elements text elts false) (spelled : Chars chars val)
      (nonempty : val ≠ []) : Elements (text ++ chars) (elts.append (.value val .null)) true
  | list {text inside : Bytes} {elts inner : Sexp} {ends ends' : Bool} (before : Elements text elts ends)
      (enclosed : Elements inside inner ends') :
      Elements (text ++ (40 :: inside ++ [41])) (elts.append (.list inner .null)) false

/-- White space and one list in parentheses. -/
def ReadsList (text : Bytes) (sx : Sexp) : Prop :=
  ∃ lead inside inner ends, text = lead ++ (40 :: inside ++ [41]) ∧ (∀ c ∈ lead, isspace c = true) ∧
    Elements inside inner ends ∧ sx = .list inner .null

/-- The text up to the innermost parenthesis that is open. -/
def Opened : List Sexp → Bytes → Prop
  | [], text => text = []
  | outer :: stack, text => ∃ before body ends, text = before ++ body ++ [40] ∧ Opened stack before ∧
      Elements body outer ends ∧ (stack = [] → outer = .null)

/-- Behind a backslash, and elsewhere. -/
def Holding (s : SexpParser) (elements : Sexp) (stack : List Sexp) (pending : Bytes) : Bool → Prop
  | false => At s elements stack pending
  | true => s.state = .atomEsc ∧ At { s with state := if pending = [] then .none else .atom } elements stack pending

/-- What the parser has read since the last value or rejection. -/
def Position (s : SexpParser) (text : Bytes) : Prop :=
  ∃ elements pending slash before body chars, text = before ++ body ++ (chars ++ if slash then [92] else []) ∧
    Holding s elements s.stack pending slash ∧ Opened s.stack before ∧ Elements body elements false ∧
    Chars chars pending ∧ (s.stack = [] → elements = .null ∧ pending = [] ∧ slash = false)

theorem Chars.nil_of {text : Bytes} (chars : Chars text []) : text = [] := by
  generalize empty : ([] : Bytes) = val at chars
  cases chars with
  | nil => rfl
  | plain chars ordinary => simp at empty
  | escaped chars c => simp at empty

theorem append_ne_null (elts : Sexp) {sx : Sexp} (nonnull : sx ≠ .null) : elts.append sx ≠ .null := by
  cases elts with
  | null => exact nonnull
  | value val next => simp [Sexp.append]
  | list inner next => simp [Sexp.append]

/-- No elements are white space. -/
theorem Elements.white {text : Bytes} {elts : Sexp} {ends : Bool} (elements : Elements text elts ends)
    (none_ : elts = .null) : ∀ c ∈ text, isspace c = true := by
  induction elements with
  | nil => exact fun c member => absurd member List.not_mem_nil
  | space before white ih =>
      intro c member
      rcases List.mem_append.mp member with member | member
      · exact ih none_ c member
      · exact List.mem_singleton.mp member ▸ white
  | atom before spelled nonempty => exact absurd none_ (append_ne_null _ (by simp))
  | list before enclosed => exact absurd none_ (append_ne_null _ (by simp))

/-- An atom that was being read is complete. -/
theorem Elements.finish {body chars pending : Bytes} {elements : Sexp} (read : Elements body elements false)
    (spelled : Chars chars pending) : ∃ ends, Elements (body ++ chars) (finish elements pending) ends := by
  by_cases empty : pending = []
  · subst empty
    rw [spelled.nil_of, List.append_nil, Bjs.finish, if_pos rfl]
    exact ⟨false, read⟩
  · rw [Bjs.finish, if_neg empty]
    exact ⟨true, .atom read spelled empty⟩

section Position

variable {s next : SexpParser} {elements : Sexp} {stack : List Sexp} {text pending : Bytes} {c : UInt8}

theorem holding_escaped (holding : Holding s elements stack pending true) (c : UInt8) :
    ∃ next, sexpParserChar s c = .next next ∧ At next elements stack (pending ++ [c]) := by
  obtain ⟨state, here⟩ := holding
  obtain ⟨next, added, there⟩ := addToAtom_at (s := { s with state := .atom }) here.unlimited here.room
    here.elements_eq here.stack_eq here.atom_eq rfl c
  refine ⟨next, ?_, there⟩
  have round : sexpParserRound s c = .next next := by
    unfold sexpParserRound
    rw [state]
    dsimp only
    rw [added]
    rfl
  unfold sexpParserChar
  rw [round]

theorem holding_slash (here : At s elements stack pending) :
    ∃ next, sexpParserChar s 92 = .next next ∧ next.stack = stack ∧ Holding next elements stack pending true := by
  refine ⟨{ s with state := .atomEsc }, ?_, here.stack_eq, rfl, here.unlimited, here.room, here.elements_eq,
    here.stack_eq, here.atom_eq, rfl⟩
  by_cases empty : pending = []
  · have state : s.state = .none := by rw [here.state_eq, if_pos empty]
    have round : sexpParserRound s 92 = .again { s with state := .atom } := by
      unfold sexpParserRound
      rw [state]
      rfl
    unfold sexpParserChar
    rw [round]
    rfl
  · have state : s.state = .atom := by rw [here.state_eq, if_neg empty]
    have round : sexpParserRound s 92 = .next { s with state := .atomEsc } := by
      unfold sexpParserRound
      rw [state]
      rfl
    unfold sexpParserChar
    rw [round]

/-- Nothing has been read that is kept. -/
theorem position_clean (here : At s .null [] []) : Position s [] := by
  have stack := here.stack_eq
  refine ⟨.null, [], false, [], [], [], rfl, ?_, ?_, .nil, .nil, fun _ => ⟨rfl, rfl, rfl⟩⟩
  · rw [stack]
    exact here
  · rw [stack]
    rfl

theorem Position.escaped (position : Position s text) (state : s.state = .atomEsc) (c : UInt8) :
    ∃ next, sexpParserChar s c = .next next ∧ next.stack = s.stack ∧ next.state ≠ .atomEsc ∧
      Position next (text ++ [c]) := by
  obtain ⟨elements, pending, slash, before, body, chars, rfl, holding, opened, read, spelled, top⟩ := position
  cases slash with
  | false =>
      have plain := holding.state_eq
      rw [state] at plain
      split at plain <;> cases plain
  | true =>
      obtain ⟨next, eaten, there⟩ := holding_escaped holding c
      have inside : s.stack ≠ [] := fun empty => by
        have := (top empty).2.2
        cases this
      refine ⟨next, eaten, there.stack_eq, ?_, elements, pending ++ [c], false, before, body, chars ++ [92, c], ?_, ?_,
        ?_, read, spelled.escaped c, ?_⟩
      · rw [there.state_eq, if_neg (by simp)]
        decide
      · simp
      · rw [there.stack_eq]
        exact there
      · rw [there.stack_eq]
        exact opened
      · rw [there.stack_eq]
        exact fun empty => absurd empty inside

/-- A character of an atom, inside of some list. -/
theorem Position.plain (position : Position s text) (state : s.state ≠ .atomEsc) (ordinary : isDelimiter c = false)
    (inside : s.stack ≠ []) :
    ∃ next, sexpParserChar s c = .next next ∧ next.stack = s.stack ∧ (next.state = .atomEsc ↔ c = 92) ∧
      Position next (text ++ [c]) := by
  obtain ⟨elements, pending, slash, before, body, chars, rfl, holding, opened, read, spelled, -⟩ := position
  cases slash with
  | true => exact absurd holding.1 state
  | false =>
      by_cases slash : c = 92
      · subst slash
        obtain ⟨next, eaten, stack, there⟩ := holding_slash holding
        refine ⟨next, eaten, stack, iff_of_true there.1 rfl, elements, pending, true, before, body, chars, by simp, ?_,
          ?_, read, spelled, ?_⟩
        · rw [stack]
          exact there
        · rw [stack]
          exact opened
        · rw [stack]
          exact fun empty => absurd empty inside
      · have plain : isSpecial c = false := by simp [isSpecial, ordinary, slash]
        obtain ⟨next, eaten, there⟩ := sexpParserChar_plain holding plain
        refine ⟨next, eaten, there.stack_eq, iff_of_false ?_ slash, elements, pending ++ [c], false, before, body,
          chars ++ [c], by simp, ?_, ?_, read, spelled.plain plain, ?_⟩
        · rw [there.state_eq, if_neg (by simp)]
          decide
        · rw [there.stack_eq]
          exact there
        · rw [there.stack_eq]
          exact opened
        · rw [there.stack_eq]
          exact fun empty => absurd empty inside

/-- Between two elements, where an atom that was being read is complete. -/
theorem Position.delimiter (position : Position s text) (state : s.state ≠ .atomEsc) (c : UInt8)
    (delimits : isDelimiter c = true) :
    ∃ mid elements before body ends, At mid elements s.stack [] ∧ sexpParserChar s c = sexpParserRound mid c ∧
      text = before ++ body ∧ Opened s.stack before ∧ Elements body elements ends ∧
      (s.stack = [] → elements = .null) := by
  obtain ⟨elements, pending, slash, before, body, chars, rfl, holding, opened, read, spelled, top⟩ := position
  cases slash with
  | true => exact absurd holding.1 state
  | false =>
      obtain ⟨mid, there, same⟩ := sexpParserChar_delimiter holding delimits
      obtain ⟨ends, complete⟩ := read.finish spelled
      refine ⟨mid, finish elements pending, before, body ++ chars, ends, there, same, by simp, opened, complete, ?_⟩
      intro empty
      obtain ⟨rfl, rfl, -⟩ := top empty
      rfl

theorem Position.white (position : Position s text) (state : s.state ≠ .atomEsc) (white : isspace c = true) :
    ∃ next, sexpParserChar s c = .next next ∧ next.stack = s.stack ∧ next.state ≠ .atomEsc ∧
      Position next (text ++ [c]) := by
  obtain ⟨mid, elements, before, body, ends, there, same, rfl, opened, read, top⟩ :=
    position.delimiter state c (by simp [isDelimiter, white])
  have none_ : mid.state = .none := by rw [there.state_eq, if_pos rfl]
  have opening : c ≠ 40 := by
    rintro rfl
    exact absurd white (by decide)
  have closing : c ≠ 41 := by
    rintro rfl
    exact absurd white (by decide)
  refine ⟨mid, ?_, there.stack_eq, by rw [none_]; decide, elements, [], false, before, body ++ [c], [], by simp, ?_, ?_,
    read.space white, .nil, ?_⟩
  · rw [same, sexpParserRound_none none_, if_neg opening, if_neg closing, if_pos white]
  · rw [there.stack_eq]
    exact there
  · rw [there.stack_eq]
    exact opened
  · rw [there.stack_eq]
    exact fun empty => ⟨top empty, rfl, rfl⟩

theorem Position.opening (position : Position s text) (state : s.state ≠ .atomEsc)
    (room : s.stack.length + 1 < sexpParserStackSize) :
    ∃ next, sexpParserChar s 40 = .next next ∧ next.stack.length = s.stack.length + 1 ∧ next.state ≠ .atomEsc ∧
      Position next (text ++ [40]) := by
  obtain ⟨mid, elements, before, body, ends, there, same, rfl, opened, read, top⟩ :=
    position.delimiter state 40 (by decide)
  have none_ : mid.state = .none := by rw [there.state_eq, if_pos rfl]
  have stack := there.stack_eq
  refine ⟨{ mid with
    bytes := mid.bytes + sizeofSexp + 0, elements := .null, stack := mid.elements :: mid.stack }, ?_, ?_, ?_,
    .null, [], false, before ++ body ++ [40], [], [], by simp, ?_, ?_, .nil, .nil, ?_⟩
  · rw [same, sexpParserRound_none none_, if_pos rfl, mallocSx_unlimited there.unlimited, Round.ofOption]
    dsimp only
    rw [stack, if_neg (by omega)]
  · rw [List.length_cons, stack]
  · rw [none_]
    decide
  · exact ⟨there.unlimited, there.room, rfl, rfl, there.atom_eq, none_⟩
  · refine ⟨before, body, ends, rfl, ?_, ?_, ?_⟩
    · rw [stack]
      exact opened
    · rw [there.elements_eq]
      exact read
    · rw [stack, there.elements_eq]
      exact top
  · exact fun empty => absurd empty (by simp)

/-- A parenthesis that closes nothing is rejected, and nothing is kept. -/
theorem Position.closing_top (position : Position s text) (empty : s.stack = []) :
    sexpParserChar s 41 = .error ∧ charLeft s 41 = s ∧ Position s [] := by
  obtain ⟨elements, pending, slash, before, body, chars, -, holding, -, -, -, top⟩ := position
  obtain ⟨rfl, rfl, rfl⟩ := top empty
  have none_ : s.state = .none := by rw [holding.state_eq, if_pos rfl]
  have round : sexpParserRound s 41 = .error := by
    rw [sexpParserRound_none none_, if_neg (by decide), if_pos rfl, empty]
  refine ⟨?_, ?_, ?_⟩
  · unfold sexpParserChar
    rw [round]
  · unfold charLeft
    rw [round, roundLeft, none_]
    rfl
  · rw [empty] at holding
    exact position_clean holding

/-- The parenthesis that closes the outermost list completes the value. -/
theorem Position.closing_outer (position : Position s text) (state : s.state ≠ .atomEsc) {outer : Sexp}
    (single : s.stack = [outer]) :
    ∃ sx, sexpParserChar s 41 = .done sx sexpParserNew ∧ ReadsList (text ++ [41]) sx := by
  obtain ⟨mid, elements, before, body, ends, there, same, rfl, opened, read, top⟩ :=
    position.delimiter state 41 (by decide)
  have none_ : mid.state = .none := by rw [there.state_eq, if_pos rfl]
  rw [single] at opened there
  obtain ⟨lead, front, ends', rfl, rfl, white, outermost⟩ := opened
  obtain rfl := outermost rfl
  refine ⟨.list elements .null, ?_, front, body, elements, ends, by simp, white.white rfl, read, rfl⟩
  rw [same, sexpParserRound_none none_, if_neg (by decide), if_pos rfl, there.stack_eq, there.elements_eq]
  rfl

theorem Position.closing_inner (position : Position s text) (state : s.state ≠ .atomEsc) {outer next_ : Sexp}
    (nested : s.stack = outer :: next_ :: stack) :
    ∃ next, sexpParserChar s 41 = .next next ∧ next.stack = next_ :: stack ∧ next.state ≠ .atomEsc ∧
      Position next (text ++ [41]) := by
  obtain ⟨mid, elements, before, body, ends, there, same, rfl, opened, read, -⟩ :=
    position.delimiter state 41 (by decide)
  have none_ : mid.state = .none := by rw [there.state_eq, if_pos rfl]
  rw [nested] at opened there
  obtain ⟨lead, front, ends', rfl, around, list, -⟩ := opened
  refine ⟨{ mid with elements := outer.append (.list elements .null), stack := next_ :: stack }, ?_, rfl, ?_,
    outer.append (.list elements .null), [], false, lead, front ++ (40 :: body ++ [41]), [], by simp, ?_, around,
    list.list read, .nil, ?_⟩
  · rw [same, sexpParserRound_none none_, if_neg (by decide), if_pos rfl, there.stack_eq, there.elements_eq]
    rfl
  · exact none_.trans_ne (by decide)
  · exact ⟨there.unlimited, there.room, rfl, rfl, there.atom_eq, none_⟩
  · exact fun empty => absurd empty (List.cons_ne_nil _ _)

end Position

/-- Outside of all lists there are only white space and parentheses, and no list is opened inside of too many. The
number is how many lists are open, and then comes whether a backslash is before the text. -/
def ListsOnly : Nat → Bool → Bytes → Prop
  | _, _, [] => True
  | depth, slash, c :: rest =>
      if c = 0 then True
      else if slash then ListsOnly depth false rest
      else if c = 40 then depth + 1 < sexpParserStackSize ∧ ListsOnly (depth + 1) false rest
      else if c = 41 then depth ≤ 1 ∨ ListsOnly (depth - 1) false rest
      else if isspace c then ListsOnly depth false rest
      else 0 < depth ∧ ListsOnly depth (c = 92) rest

/-- Where a call leaves the parser, and what it returns. -/
def CallDone (s : SexpParser) (text chunk : Bytes) : Prop :=
  match sexpParserParse s chunk with
  | .error => Position (parseLeft s chunk) []
  | .more used next => Position next (text ++ chunk.take used)
  | .value used sx next => Position next [] ∧ ReadsList (text ++ chunk.take used) sx

theorem CallDone.next {s next : SexpParser} {text chunk : Bytes} {c : UInt8} (nonzero : c ≠ 0)
    (eaten : sexpParserChar s c = .next next) (later : CallDone next (text ++ [c]) chunk) :
    CallDone s text (c :: chunk) := by
  rw [CallDone, sexpParserParse_next nonzero eaten]
  have left : parseLeft s (c :: chunk) = parseLeft next chunk := by rw [parseLeft, if_neg nonzero, eaten]
  rw [CallDone] at later
  cases parsed : sexpParserParse next chunk with
  | error =>
      rw [parsed] at later
      rw [Parsed.after_error, left]
      exact later
  | more used final =>
      rw [parsed] at later
      rw [Parsed.after_more, Nat.add_comm]
      dsimp only
      rw [List.take_succ_cons, List.append_cons]
      exact later
  | value used sx final =>
      rw [parsed] at later
      rw [Parsed.after_value, Nat.add_comm]
      dsimp only
      rw [List.take_succ_cons, List.append_cons]
      exact later

theorem Position.call {s : SexpParser} {text chunk : Bytes} (position : Position s text)
    (lists : ListsOnly s.stack.length (s.state = .atomEsc) chunk) : CallDone s text chunk := by
  induction chunk generalizing s text with
  | nil =>
      rw [CallDone, sexpParserParse]
      simpa using position
  | cons c chunk ih =>
      by_cases zero : c = 0
      · rw [CallDone, sexpParserParse, if_pos zero]
        simpa using position
      rw [ListsOnly, if_neg zero] at lists
      by_cases state : s.state = .atomEsc
      · rw [if_pos (by simpa using state)] at lists
        obtain ⟨next, eaten, stack, plain, there⟩ := position.escaped state c
        refine .next zero eaten (ih there ?_)
        simpa [stack, plain] using lists
      rw [if_neg (by simpa using state)] at lists
      by_cases opening : c = 40
      · subst opening
        rw [if_pos rfl] at lists
        obtain ⟨next, eaten, stack, plain, there⟩ := position.opening state lists.1
        refine .next zero eaten (ih there ?_)
        simpa [stack, plain] using lists.2
      rw [if_neg opening] at lists
      by_cases closing : c = 41
      · subst closing
        rw [if_pos rfl] at lists
        cases nested : s.stack with
        | nil =>
            obtain ⟨rejected, left, clean⟩ := position.closing_top nested
            rw [CallDone, sexpParserParse, if_neg zero, rejected]
            dsimp only
            rw [parseLeft, if_neg zero, rejected]
            dsimp only
            rw [left]
            exact clean
        | cons outer stack =>
            cases stack with
            | nil =>
                obtain ⟨sx, done, reads⟩ := position.closing_outer state nested
                rw [CallDone, sexpParserParse, if_neg zero, done]
                exact ⟨position_clean ⟨rfl, Nat.zero_le _, rfl, rfl, rfl, rfl⟩, reads⟩
            | cons around stack =>
                obtain ⟨next, eaten, left, plain, there⟩ := position.closing_inner state nested
                refine .next zero eaten (ih there ?_)
                rw [nested] at lists
                simpa [left, plain] using lists
      rw [if_neg closing] at lists
      by_cases white : isspace c = true
      · rw [if_pos white] at lists
        obtain ⟨next, eaten, stack, plain, there⟩ := position.white state white
        refine .next zero eaten (ih there ?_)
        simpa [stack, plain] using lists
      rw [if_neg white] at lists
      have ordinary : isDelimiter c = false := by simp [isDelimiter, opening, closing, white]
      obtain ⟨next, eaten, stack, slash, there⟩ := position.plain state ordinary (List.length_pos_iff.mp lists.1)
      refine .next zero eaten (ih there ?_)
      simpa [stack, slash] using lists.2

/-- Where only white space was read, no list is open. -/
theorem Position.blank {s : SexpParser} {text : Bytes} (position : Position s text)
    (blank : ∀ b ∈ text, isspace b = true) : s.stack = [] ∧ s.state ≠ .atomEsc := by
  obtain ⟨elements, pending, slash, before, body, chars, rfl, holding, opened, -, -, top⟩ := position
  have empty : s.stack = [] := by
    cases nested : s.stack with
    | nil => rfl
    | cons outer stack =>
        rw [nested] at opened
        obtain ⟨lead, front, ends, rfl, -⟩ := opened
        have parenthesis := blank 40 (by simp)
        exact absurd parenthesis (by decide)
  obtain ⟨rfl, rfl, rfl⟩ := top empty
  refine ⟨empty, ?_⟩
  rw [holding.state_eq, if_pos rfl]
  decide

/-- What is not a list is rejected. -/
theorem Position.rejects {s : SexpParser} {text lead rest : Bytes} {c : UInt8} (position : Position s text)
    (blank : ∀ b ∈ text ++ lead, isspace b = true) (nonzero : c ≠ 0) (black : isspace c = false) (other : c ≠ 40)
    (lists : ListsOnly 0 false (lead ++ c :: rest)) : sexpParserParse s (lead ++ c :: rest) = .error := by
  obtain ⟨empty, state⟩ := position.blank fun b member => blank b (List.mem_append_left _ member)
  induction lead generalizing s text with
  | nil =>
      rw [List.nil_append, ListsOnly, if_neg nonzero, if_neg Bool.false_ne_true, if_neg other] at lists
      by_cases closing : c = 41
      · subst closing
        rw [List.nil_append, sexpParserParse, if_neg nonzero, (position.closing_top empty).1]
      · rw [if_neg closing, if_neg (by simp [black])] at lists
        exact absurd lists.1 (lt_irrefl 0)
  | cons b lead ih =>
      have white : isspace b = true := blank b (List.mem_append_right _ List.mem_cons_self)
      have zero : b ≠ 0 := by
        rintro rfl
        exact absurd white (by decide)
      have opening : b ≠ 40 := by
        rintro rfl
        exact absurd white (by decide)
      have closing : b ≠ 41 := by
        rintro rfl
        exact absurd white (by decide)
      rw [List.cons_append, ListsOnly, if_neg zero, if_neg Bool.false_ne_true, if_neg opening, if_neg closing,
        if_pos white] at lists
      obtain ⟨next, eaten, stack, plain, there⟩ := position.white state white
      have later := ih there (by simpa using blank) lists (stack.trans empty) plain
      rw [List.cons_append, sexpParserParse_next zero eaten, later, Parsed.after_error]

/-- A parser that is fed, with what it has consumed since the last value or rejection. -/
structure Feed where
  parser : SexpParser
  text : Bytes

def Feed.start : Feed := ⟨sexpParserNew, []⟩

def Feed.step (feed : Feed) (chunk : Bytes) : Option Feed :=
  match sexpParserParse feed.parser chunk with
  | .error => some ⟨parseLeft feed.parser chunk, []⟩
  | .more used next => some ⟨next, feed.text ++ chunk.take used⟩
  | .value _ _ next => some ⟨next, []⟩

/-- What is fed has only lists. -/
def Feed.Allowed (feed : Feed) (chunk : Bytes) : Prop :=
  ListsOnly feed.parser.stack.length (feed.parser.state = .atomEsc) chunk

/-- A value is the list that was consumed since the last value or rejection, and anything else is rejected. -/
def Feed.Sound (feed : Feed) (chunk : Bytes) (_ : Feed) : Prop :=
  (∀ used sx next, sexpParserParse feed.parser chunk = .value used sx next →
      ReadsList (feed.text ++ chunk.take used) sx) ∧
    ∀ lead c rest, chunk = lead ++ c :: rest → (∀ b ∈ feed.text ++ lead, isspace b = true) → c ≠ 0 →
      isspace c = false → c ≠ 40 → sexpParserParse feed.parser chunk = .error

theorem feed_progress (feed : Feed) (chunk : Bytes) (position : Position feed.parser feed.text)
    (allowed : feed.Allowed chunk) :
    ∃ next, feed.step chunk = some next ∧ feed.Sound chunk next ∧ Position next.parser next.text := by
  have done := position.call allowed
  have rejects : ∀ lead c rest, chunk = lead ++ c :: rest → (∀ b ∈ feed.text ++ lead, isspace b = true) → c ≠ 0 →
      isspace c = false → c ≠ 40 → sexpParserParse feed.parser chunk = .error := by
    rintro lead c rest rfl blank nonzero black other
    obtain ⟨empty, state⟩ := position.blank fun b member => blank b (List.mem_append_left _ member)
    rw [Feed.Allowed, empty] at allowed
    exact position.rejects blank nonzero black other (by simpa [state] using allowed)
  have reads : ∀ used sx next, sexpParserParse feed.parser chunk = .value used sx next →
      ReadsList (feed.text ++ chunk.take used) sx := by
    intro used sx next parsed
    rw [CallDone, parsed] at done
    exact done.2
  rw [CallDone] at done
  rw [Feed.step]
  cases parsed : sexpParserParse feed.parser chunk with
  | error =>
      rw [parsed] at done
      exact ⟨_, rfl, ⟨reads, rejects⟩, done⟩
  | more used next =>
      rw [parsed] at done
      exact ⟨_, rfl, ⟨reads, rejects⟩, done⟩
  | value used sx next =>
      rw [parsed] at done
      exact ⟨_, rfl, ⟨reads, rejects⟩, done.1⟩

/-- Where only lists are fed, every value is the list that was consumed. -/
theorem feed_sound (chunks : List Bytes) (allowed : Guarded Feed.step Feed.Allowed Feed.start chunks) :
    EachStep Feed.step Feed.Sound Feed.start chunks := by
  have clean : Position Feed.start.parser Feed.start.text := position_clean ⟨rfl, Nat.zero_le _, rfl, rfl, rfl, rfl⟩
  exact eachStep_of_progress Feed.step (fun feed chunk => feed_progress feed chunk) clean allowed

/-- A list in two pieces, with a parenthesis that is rejected before it. -/
theorem twoPieces_sound :
    EachStep Feed.step Feed.Sound Feed.start [[32, 41], [40, 97], [41, 10]] := by
  refine feed_sound _ ⟨?_, fun first rejected => ⟨?_, fun second begun => ⟨?_, fun _ _ => trivial⟩⟩⟩
  · change ListsOnly 0 false [32, 41]
    simp [ListsOnly, isspace]
  · obtain rfl : ⟨sexpParserNew, []⟩ = first := Option.some.inj rejected
    change ListsOnly 0 false [40, 97]
    simp [ListsOnly, isspace, sexpParserStackSize]
  · obtain rfl : ⟨sexpParserNew, []⟩ = first := Option.some.inj rejected
    obtain rfl := Option.some.inj begun
    change ListsOnly 1 false [41, 10]
    simp [ListsOnly]

/-- An atom before the list is accepted, and is the value. -/
theorem leadingAtom_unsound : ¬ EachStep Feed.step Feed.Sound Feed.start [[97, 40, 41]] := by
  rintro ⟨next, -, ⟨-, rejects⟩, -⟩
  have rejected := rejects [] 97 [40, 41] rfl (fun b member => absurd member List.not_mem_nil) (by decide) (by decide)
    (by decide)
  exact absurd rejected (by decide)

end Xcpu.Bjs.SexpSound
