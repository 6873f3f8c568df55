import Xcpu.Bjs.Node
import Xcpu.Lib.Numerals

/-!
The s-expressions of bjs (`sexp.c`): printing, with its explicit stack, and the incremental parser,
which keeps everything it knows between two chunks in `struct sexp_parser_state_t`. Limits on the
depth of a stack are kept; an `int` that counts the characters of one atom is a number.
-/

namespace Xcpu.Bjs

open Xcpu.Numerals (isspace)

/-- A `struct sexp_t *`: an element with the ones after it, or NULL. -/
inductive Sexp where
  | null
  | value (val : Bytes) (next : Sexp)
  | list (elts : Sexp) (next : Sexp)
  deriving DecidableEq

def sexpParserStackSize : Nat := 100

/-- The field `list`, which is NULL in an atom. -/
def Sexp.elements : Sexp → Sexp
  | .list elts _ => elts
  | _ => .null

/-- `*tail = sx`, where `tail` is the last `next` of a list of elements. -/
def Sexp.append : Sexp → Sexp → Sexp
  | .null, sx => sx
  | .value val next, sx => .value val (next.append sx)
  | .list elts next, sx => .list elts (next.append sx)

@[simp] theorem Sexp.null_append (sx : Sexp) : Sexp.null.append sx = sx := rfl

@[simp] theorem Sexp.append_null (sx : Sexp) : sx.append .null = sx := by
  induction sx with
  | null => rfl
  | value val next ih => rw [Sexp.append, ih]
  | list elts next _ ih => rw [Sexp.append, ih]

theorem Sexp.append_assoc (first second third : Sexp) :
    (first.append second).append third = first.append (second.append third) := by
  induction first with
  | null => rfl
  | value val next ih => simp only [Sexp.append, ih]
  | list elts next _ ih => simp only [Sexp.append, ih]

/-- A character that ends an atom. -/
def isDelimiter (c : UInt8) : Bool := c = 40 || c = 41 || isspace c

/-- A character that is printed behind a backslash. -/
def isSpecial (c : UInt8) : Bool := isDelimiter c || c = 92

/-- How an atom is printed, up to its NUL. -/
def printAtom (val : Bytes) : Bytes :=
  (val.takeWhile (· ≠ 0)).flatMap fun c => if isSpecial c then [92, c] else [c]

def Sexp.size : Sexp → Nat
  | .null => 1
  | .value _ next => next.size + 1
  | .list elts next => elts.size + next.size + 1

/-- The loop of `sexp_print`, the top of the stack first, with `last_atom`. `none` is an `abort`
on a stack overflow. -/
def sexpPrintLoop : List Sexp → Bool → Option Bytes
  | [], _ => some []
  | .null :: stack, _ => (sexpPrintLoop stack false).map (41 :: ·)
  | .value val next :: stack, lastAtom =>
      (sexpPrintLoop (next :: stack) true).map ((if lastAtom then [32] else []) ++ printAtom val ++ ·)
  | .list elts next :: stack, _ =>
      if stack.length + 1 < sexpParserStackSize then
        (sexpPrintLoop (elts :: next :: stack) false).map (40 :: ·)
      else none
termination_by stack => (stack.map Sexp.size).sum
decreasing_by all_goals simp only [List.map_cons, List.sum_cons, Sexp.size]; omega

def sexpPrint (sx : Sexp) : Option Bytes := (sexpPrintLoop [sx.elements] false).map (40 :: ·)

inductive SexpParserStates where
  | none
  | atom
  | atomEsc
  deriving DecidableEq

/-- `struct sexp_parser_state_t`. `elements` is what there is so far of the innermost list that is
open, and `stack` the same of the lists around it, so that `sp` is its length; `atom` is the
`val` characters of the atom that is being read. -/
structure SexpParser where
  state : SexpParserStates := .none
  atom : Bytes := []
  atomSize : Nat := 0
  elements : Sexp := .null
  stack : List Sexp := []
  maxBytes : Nat := 0
  bytes : Nat := 0
  deriving DecidableEq

/-- `sexp_parser_new`, and what `sexp_parser_reset` leaves. -/
def sexpParserNew : SexpParser := {}

def sizeofSexp : Nat := 24

def mallocSx (s : SexpParser) (size : Nat) : Option SexpParser :=
  if s.maxBytes ≠ 0 ∧ s.bytes + sizeofSexp + size > s.maxBytes then none
  else some { s with bytes := s.bytes + sizeofSexp + size }

def completeAtom (s : SexpParser) : Option SexpParser :=
  (mallocSx s (s.atom.length + 1)).map fun s =>
    { s with atom := [], elements := s.elements.append (.value s.atom .null) }

def incr : Nat := 64

/-- The buffer has ten characters more than `atom_size` says; one that has no room for the
character and the NUL would be overrun. -/
def addToAtom (s : SexpParser) (c : UInt8) : Option SexpParser :=
  if s.maxBytes ≠ 0 ∧ s.bytes + sizeofSexp + s.atom.length + 2 > s.maxBytes then none
  else
    let atomSize := if s.atom.length + 1 ≥ s.atomSize then s.atomSize + incr else s.atomSize
    if s.atom.length + 2 ≤ atomSize + 10 then some { s with atom := s.atom ++ [c], atomSize }
    else none

/-- One round of the loop: the character is looked at again, is consumed, ends the s-expression,
or is an error. -/
inductive Round where
  | again (s : SexpParser)
  | next (s : SexpParser)
  | done (sx : Sexp) (s : SexpParser)
  | error

def Round.ofOption (round : SexpParser → Round) : Option SexpParser → Round
  | none => .error
  | some s => round s

def sexpParserRound (s : SexpParser) (c : UInt8) : Round :=
  match s.state with
  | .none =>
      if c = 40 then
        Round.ofOption (fun s =>
          if s.stack.length + 1 ≥ sexpParserStackSize then .error
          else .next { s with elements := .null, stack := s.elements :: s.stack }) (mallocSx s 0)
      else if c = 41 then
        match s.stack with
        | [] => .error
        | outer :: stack =>
            let elements := outer.append (.list s.elements .null)
            if stack = [] then .done elements sexpParserNew
            else .next { s with elements, stack }
      else if isspace c then .next s
      else .again { s with state := .atom }
  | .atom =>
      if isDelimiter c then Round.ofOption .again (completeAtom { s with state := .none })
      else if c = 92 then .next { s with state := .atomEsc }
      else Round.ofOption .next (addToAtom s c)
  | .atomEsc => Round.ofOption .next (addToAtom { s with state := .atom } c)

/-- The rounds one character takes. One that begins or ends an atom is looked at twice. -/
def sexpParserChar (s : SexpParser) (c : UInt8) : Round :=
  match sexpParserRound s c with
  | .again s => sexpParserRound s c
  | round => round

/-- What `sexp_parser_parse` returns and leaves in `*sx_out`. -/
inductive Parsed where
  | error
  | more (used : Nat) (s : SexpParser)
  | value (used : Nat) (sx : Sexp) (s : SexpParser)
  deriving DecidableEq

def Parsed.after (used : Nat) : Parsed → Parsed
  | .error => .error
  | .more later s => .more (used + later) s
  | .value later sx s => .value (used + later) sx s

/-- `sexp_parser_parse` of a chunk; a NUL stops it. -/
def sexpParserParse (s : SexpParser) : Bytes → Parsed
  | [] => .more 0 s
  | c :: rest =>
      if c = 0 then .more 0 s
      else match sexpParserChar s c with
        | .next s => (sexpParserParse s rest).after 1
        | .done sx s => .value 1 sx s
        | _ => .error

/-- The loop of `bjs_recv` over what the calls of `read` return, the static buffer first: the
value, the parser, what is left in the buffer and what was not read. `none` is a parse error, the
end of the stream, or a NUL, over which the loop never gets. -/
def bjsRecv (s : SexpParser) (buf : Bytes) : List Bytes →
    Option (Sexp × SexpParser × Bytes × List Bytes)
  | [] =>
      match sexpParserParse s buf with
      | .value used sx s => some (sx, s, buf.drop used, [])
      | _ => none
  | chunk :: reads =>
      match sexpParserParse s buf with
      | .value used sx s => some (sx, s, buf.drop used, chunk :: reads)
      | .more used s => if used < buf.length ∨ chunk = [] then none else bjsRecv s chunk reads
      | .error => none

/-- The chunks that are fed to one parser, one call each: what each call used and yielded. `none`
is a parse error. -/
def feedChunks (s : SexpParser) : List Bytes → Option (List (Nat × Option Sexp) × SexpParser)
  | [] => some ([], s)
  | chunk :: rest =>
      match sexpParserParse s chunk with
      | .error => none
      | .more used s => (feedChunks s rest).map fun (results, s) => ((used, none) :: results, s)
      | .value used sx s => (feedChunks s rest).map fun (results, s) => ((used, some sx) :: results, s)

end Xcpu.Bjs
