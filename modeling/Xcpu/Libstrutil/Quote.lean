import Xcpu.Libstrutil.Tokenize

/-!
`quotestrdup.c` and what `tokenize` makes of quoted words that a line joins with single blanks. The two
sides do not agree on what has to be quoted: a newline ends an unquoted token but does not make
`quotestrdup` quote, and an empty word is written as no text at all.
-/

namespace Xcpu.Libstrutil

/-- `doquote`, as the first loop of `quotestrdup` leaves it. -/
def doquote (str : CStr) : Bool := str.any fun c => c == ' ' || c == '\t' || c == '\''

/-- What follows the opening quote. -/
def quoteBody : CStr → CStr
  | [] => ['\'']
  | '\'' :: str => '\'' :: '\'' :: quoteBody str
  | c :: str => c :: quoteBody str

def quotestrdup (str : CStr) : CStr := if doquote str then '\'' :: quoteBody str else str

theorem quoteBody_cons {c : Char} (plain : c ≠ '\'') (str : CStr) : quoteBody (c :: str) = c :: quoteBody str := by
  conv => lhs; unfold quoteBody
  split
  · rename_i same
    cases same
  · rename_i same
    exact absurd (List.cons.inj same).1 plain
  · rename_i same
    cases same
    rfl

theorem unquoteBody_cons {c : Char} (plain : c ≠ '\'') (rest : CStr) :
    unquoteBody (c :: rest) = (unquoteBody rest).map fun (token, eptr) => (c :: token, eptr) := by
  conv => lhs; unfold unquoteBody
  split
  · rename_i same
    cases same
  · rename_i same
    exact absurd (List.cons.inj same).1 plain
  · rename_i same
    exact absurd (List.cons.inj same).1 plain
  · rename_i same
    cases same
    rfl

theorem unquoteBody_end {rest : CStr} (closed : rest.head? ≠ some '\'') :
    unquoteBody ('\'' :: rest) = some ([], rest) := by
  cases rest with
  | nil => rfl
  | cons c rest =>
      have plain : c ≠ '\'' := by simpa using closed
      unfold unquoteBody
      split
      · rename_i same
        cases same
      · rename_i same
        exact absurd (List.cons.inj (List.cons.inj same).2).1 plain
      · rename_i same
        rw [(List.cons.inj same).2]
      · rename_i other same
        exact absurd (List.cons.inj same).1.symm other

theorem unquoteBody_quoteBody {rest : CStr} (closed : rest.head? ≠ some '\'') (str : CStr) :
    unquoteBody (quoteBody str ++ rest) = some (str, rest) := by
  induction str with
  | nil => exact unquoteBody_end closed
  | cons c str ih =>
      by_cases quote : c = '\''
      · subst quote
        simp only [quoteBody, List.cons_append, unquoteBody, ih, Option.map_some]
      · rw [quoteBody_cons quote, List.cons_append, unquoteBody_cons quote, ih, Option.map_some]

/-- The texts that `unquoteBody` reads are the quoted ones. -/
theorem unquoteBody_shape {text token rest : CStr} (read : unquoteBody text = some (token, rest)) :
    text = quoteBody token ++ rest ∧ rest.head? ≠ some '\'' := by
  fun_induction unquoteBody text generalizing token with
  | case1 => cases read
  | case2 text ih =>
      obtain ⟨⟨body, left⟩, inner, same⟩ := Option.map_eq_some_iff.mp read
      cases same
      obtain ⟨shape, closed⟩ := ih inner
      exact ⟨by rw [shape]; rfl, closed⟩
  | case3 _ single =>
      cases read
      refine ⟨rfl, ?_⟩
      intro quoted
      cases rest with
      | nil => cases quoted
      | cons c rest =>
          cases quoted
          exact single rest rfl
  | case4 c text _ plain ih =>
      obtain ⟨⟨body, left⟩, inner, same⟩ := Option.map_eq_some_iff.mp read
      cases same
      obtain ⟨shape, closed⟩ := ih inner
      refine ⟨?_, closed⟩
      rw [shape, quoteBody_cons plain, List.cons_append]

/-- A text as the tokens that it is written with. -/
inductive Splits : CStr → List CStr → Prop
  | done : Splits [] []
  | word {word rest : CStr} {tokens : List CStr} : word ≠ [] → (∀ c ∈ word, isBlank c = false) →
      word.head? ≠ some '\'' → (∀ c ∈ rest.head?, isBlank c = true) →
      Splits (rest.dropWhile isBlank) tokens → Splits (word ++ rest) (word :: tokens)
  | quoted {token rest : CStr} {tokens : List CStr} : rest.head? ≠ some '\'' →
      Splits (rest.dropWhile isBlank) tokens → Splits ('\'' :: quoteBody token ++ rest) (token :: tokens)

theorem dropWhile_tail_of_blank {rest : CStr} (blank : ∀ c ∈ rest.head?, isBlank c = true) :
    rest.tail.dropWhile isBlank = rest.dropWhile isBlank := by
  cases rest with
  | nil => rfl
  | cons c rest => rw [List.tail_cons, List.dropWhile_cons_of_pos (blank c rfl)]

theorem unquotestr_word {word rest : CStr} (nonempty : word ≠ []) (unblank : ∀ c ∈ word, isBlank c = false)
    (unquoted : word.head? ≠ some '\'') (blank : ∀ c ∈ rest.head?, isBlank c = true) :
    unquotestr (word ++ rest) = some (word, rest.tail) := by
  obtain ⟨c, tail, rfl⟩ := List.exists_cons_of_ne_nil nonempty
  have plain : c ≠ '\'' := by simpa using unquoted
  have inside : ∀ x ∈ c :: tail, (!isBlank x) = true := fun x member => by simp [unblank x member]
  rw [List.cons_append, unquotestr_of_head_ne plain, ← List.cons_append,
    List.takeWhile_append_of_pos inside, List.dropWhile_append_of_pos inside]
  cases rest with
  | nil => rw [List.takeWhile_nil, List.append_nil, List.dropWhile_nil]
  | cons d rest => simp [blank d rfl]

theorem unquotestr_quoted {rest : CStr} (token : CStr) (closed : rest.head? ≠ some '\'') :
    unquotestr ('\'' :: quoteBody token ++ rest) = some (token, rest) :=
  unquoteBody_quoteBody closed token

/-- What `unquotestr` takes off the beginning of a text. -/
theorem unquotestr_cases {c : Char} {text token eptr : CStr} (unblank : isBlank c = false)
    (read : unquotestr (c :: text) = some (token, eptr)) :
    (∃ rest, c :: text = token ++ rest ∧ token ≠ [] ∧ (∀ x ∈ token, isBlank x = false) ∧
      token.head? ≠ some '\'' ∧ (∀ x ∈ rest.head?, isBlank x = true) ∧ eptr = rest.tail) ∨
    c :: text = '\'' :: quoteBody token ++ eptr ∧ eptr.head? ≠ some '\'' := by
  by_cases quote : c = '\''
  · subst quote
    obtain ⟨shape, closed⟩ := unquoteBody_shape read
    exact .inr ⟨by rw [shape, List.cons_append], closed⟩
  · rw [unquotestr_of_head_ne quote] at read
    cases read
    left
    have first : (c :: text).takeWhile (fun c => !isBlank c) = c :: text.takeWhile fun c => !isBlank c := by
      simp [unblank]
    refine ⟨(c :: text).dropWhile fun c => !isBlank c, (List.takeWhile_append_dropWhile).symm, ?_, ?_, ?_, ?_, rfl⟩
    · rw [first]
      exact List.cons_ne_nil _ _
    · intro x member
      simpa using List.mem_takeWhile_imp member
    · rw [first]
      simpa using quote
    · intro x head
      have stops := List.head?_dropWhile_not (fun c => !isBlank c) (c :: text)
      rw [Option.mem_def.mp head] at stops
      simpa using stops

theorem tokenizeLoop_step {slots : Nat} {text token eptr : CStr} (nonempty : text ≠ [])
    (read : unquotestr text = some (token, eptr)) :
    tokenizeLoop (slots + 1) text =
      (tokenizeLoop slots (eptr.dropWhile isBlank)).map (token :: ·) := by
  obtain ⟨c, text, rfl⟩ := List.exists_cons_of_ne_nil nonempty
  rw [tokenizeLoop, read]
  · change (tokenizeLoop slots (eptr.dropWhile isBlank)).bind (fun tokens => some (token :: tokens)) = _
    cases tokenizeLoop slots (eptr.dropWhile isBlank) <;> rfl
  · exact List.cons_ne_nil _ _

theorem unquotestr_of_tokenizeLoop {slots : Nat} {c : Char} {text : CStr} {tokens : List CStr}
    (read : tokenizeLoop (slots + 1) (c :: text) = some tokens) : ∃ found, unquotestr (c :: text) = some found := by
  rw [tokenizeLoop] at read
  · obtain ⟨found, first, -⟩ := Option.bind_eq_some_iff.mp read
    exact ⟨found, first⟩
  · exact List.cons_ne_nil _ _

theorem Splits.tokenizeLoop {text : CStr} {tokens : List CStr} (splits : Splits text tokens) {slots : Nat}
    (enough : tokens.length ≤ slots) : tokenizeLoop slots text = some tokens := by
  induction splits generalizing slots with
  | done => cases slots <;> rfl
  | word nonempty unblank unquoted blank _ ih =>
      rw [List.length_cons] at enough
      obtain ⟨slots, rfl⟩ : ∃ left, slots = left + 1 := ⟨slots - 1, by omega⟩
      rw [tokenizeLoop_step (by simp [nonempty]) (unquotestr_word nonempty unblank unquoted blank),
        dropWhile_tail_of_blank blank, ih (by omega), Option.map_some]
  | quoted closed _ ih =>
      rw [List.length_cons] at enough
      obtain ⟨slots, rfl⟩ : ∃ left, slots = left + 1 := ⟨slots - 1, by omega⟩
      rw [tokenizeLoop_step (by simp) (unquotestr_quoted _ closed), ih (by omega), Option.map_some]

theorem head?_dropWhile_unblank (text : CStr) : ∀ c ∈ (text.dropWhile isBlank).head?, isBlank c = false := by
  intro c head
  have stops := List.head?_dropWhile_not isBlank text
  rw [Option.mem_def.mp head] at stops
  simpa using stops

theorem splits_of_tokenizeLoop {slots : Nat} {text : CStr} {tokens : List CStr}
    (unblank : ∀ c ∈ text.head?, isBlank c = false) (read : Libstrutil.tokenizeLoop slots text = some tokens) :
    Splits text tokens ∧ tokens.length ≤ slots := by
  induction slots generalizing text tokens with
  | zero =>
      cases text with
      | nil =>
          cases read
          exact ⟨.done, Nat.le_refl _⟩
      | cons c text => cases read
  | succ slots ih =>
      cases text with
      | nil =>
          cases read
          exact ⟨.done, Nat.zero_le _⟩
      | cons c text =>
          obtain ⟨⟨token, eptr⟩, first⟩ := unquotestr_of_tokenizeLoop read
          rw [tokenizeLoop_step (List.cons_ne_nil _ _) first] at read
          obtain ⟨more, later, same⟩ := Option.map_eq_some_iff.mp read
          cases same
          obtain ⟨splits, fits⟩ := ih (head?_dropWhile_unblank eptr) later
          refine ⟨?_, by rw [List.length_cons]; omega⟩
          rcases unquotestr_cases (unblank c rfl) first with
            ⟨rest, shape, nonempty, unblank, unquoted, blank, rfl⟩ | ⟨shape, closed⟩
          · rw [shape]
            rw [dropWhile_tail_of_blank blank] at splits
            exact .word nonempty unblank unquoted blank splits
          · rw [shape]
            exact .quoted closed splits

/-- A word that is the same after quoting and tokenizing. -/
def Restorable (str : CStr) : Prop := str ≠ [] ∧ ('\n' ∈ str → doquote str = true)

theorem unblank_of_restorable {str : CStr} (plain : doquote str = false) (restorable : Restorable str) :
    (∀ c ∈ str, isBlank c = false) ∧ '\'' ∉ str := by
  have unquoted : ∀ c ∈ str, (c == ' ' || c == '\t' || c == '\'') = false := by
    intro c member
    exact Bool.eq_false_iff.mpr (List.any_eq_false.mp plain c member)
  constructor
  · intro c member
    have other := unquoted c member
    have noNewline : c ≠ '\n' := by
      rintro rfl
      rw [restorable.2 member] at plain
      cases plain
    simp_all [isBlank]
  · intro member
    exact absurd (unquoted _ member) (by decide)

theorem quotestrdup_head {str : CStr} (restorable : Restorable str) (rest : CStr) :
    (quotestrdup str ++ rest).dropWhile isBlank = quotestrdup str ++ rest := by
  by_cases special : doquote str = true
  · rw [quotestrdup, if_pos special]
    rfl
  · rw [quotestrdup, if_neg special]
    obtain ⟨c, tail, rfl⟩ := List.exists_cons_of_ne_nil restorable.1
    have first := (unblank_of_restorable (Bool.eq_false_iff.mpr special) restorable).1 c (by simp)
    rw [List.cons_append, List.dropWhile_cons_of_neg (by simp [first])]

theorem Splits.quotestrdup {str rest : CStr} {tokens : List CStr} (restorable : Restorable str)
    (blank : ∀ c ∈ rest.head?, isBlank c = true) (splits : Splits (rest.dropWhile isBlank) tokens) :
    Splits (quotestrdup str ++ rest) (str :: tokens) := by
  by_cases special : doquote str = true
  · rw [Libstrutil.quotestrdup, if_pos special]
    refine .quoted ?_ splits
    intro quoted
    exact absurd (blank _ quoted) (by decide)
  · rw [Libstrutil.quotestrdup, if_neg special]
    obtain ⟨unblank, unquoted⟩ := unblank_of_restorable (Bool.eq_false_iff.mpr special) restorable
    exact .word restorable.1 unblank (fun head => unquoted (List.mem_of_head? head)) blank splits

theorem splits_joinWords {words : List CStr} (restorable : ∀ str ∈ words, Restorable str) :
    Splits (joinWords (words.map quotestrdup)) words := by
  induction words with
  | nil => exact .done
  | cons str more ih =>
      have later : ∀ other ∈ more, Restorable other := fun other member => restorable other (by simp [member])
      have first := restorable str (by simp)
      cases more with
      | nil =>
          have alone := @Splits.quotestrdup _ [] _ first (by simp) .done
          rwa [List.append_nil] at alone
      | cons next more =>
          refine @Splits.quotestrdup _ (' ' :: joinWords ((next :: more).map quotestrdup)) _ first ?_ ?_
          · intro c head
            cases head
            rfl
          · have begins : (joinWords ((next :: more).map quotestrdup)).dropWhile isBlank
                = joinWords ((next :: more).map quotestrdup) := by
              have second := restorable next (by simp)
              cases more with
              | nil => simpa [joinWords] using quotestrdup_head second []
              | cons _ _ => exact quotestrdup_head second _
            rw [List.dropWhile_cons_of_pos (by decide), begins]
            exact ih later

theorem joinWords_slots (words : List CStr) : words.length ≤ 1 + (joinWords words).countP isBlank := by
  induction words with
  | nil => exact Nat.zero_le _
  | cons word more ih =>
      cases more with
      | nil => simp
      | cons next more =>
          rw [joinWords, List.countP_append, List.countP_cons_of_pos (by decide), List.length_cons]
          · omega
          · exact List.cons_ne_nil _ _

/-- What a token of a line is made from: the rest of an unquoted word, or a whole quoted one, and the
words behind it. -/
inductive Line : CStr → Prop
  | plain {chars : CStr} (words : List CStr) : doquote chars = false →
      Line (chars ++ (words.map fun str => ' ' :: quotestrdup str).flatten)
  | quoted {str : CStr} (words : List CStr) : doquote str = true →
      Line (quotestrdup str ++ (words.map fun str => ' ' :: quotestrdup str).flatten)

theorem line_words (str : CStr) (words : List CStr) :
    Line (quotestrdup str ++ (words.map fun str => ' ' :: quotestrdup str).flatten) := by
  by_cases special : doquote str = true
  · exact .quoted words special
  · rw [quotestrdup, if_neg special]
    exact .plain words (Bool.eq_false_iff.mpr special)

theorem joinWords_line (words : List CStr) : Line (joinWords (words.map quotestrdup)) := by
  have shape (str : CStr) (words : List CStr) : joinWords ((str :: words).map quotestrdup)
      = quotestrdup str ++ (words.map fun str => ' ' :: quotestrdup str).flatten := by
    induction words generalizing str with
    | nil => simp [joinWords]
    | cons next more ih =>
        have rest := ih next
        rw [List.map_cons] at rest
        rw [List.map_cons, List.map_cons, joinWords, rest]
        · simp
        · exact List.cons_ne_nil _ _
  cases words with
  | nil => exact @Line.plain [] [] rfl
  | cons str words =>
      rw [shape]
      exact line_words str words

theorem doquote_of_suffix {chars more : CStr} (plain : doquote chars = false) (suffix : more <:+ chars) :
    doquote more = false := by
  rw [doquote, List.any_eq_false] at plain ⊢
  exact fun c member => plain c (suffix.subset member)

theorem Line.dropWhile {text : CStr} (line : Line text) : Line (text.dropWhile isBlank) := by
  have behind (words : List CStr) :
      Line (((words.map fun str => ' ' :: Libstrutil.quotestrdup str).flatten).dropWhile isBlank) ∧
      ∀ chars, doquote chars = false →
        Line ((chars ++ (words.map fun str => ' ' :: Libstrutil.quotestrdup str).flatten).dropWhile isBlank) := by
    have raw (words : List CStr)
        (tail : Line (((words.map fun str => ' ' :: Libstrutil.quotestrdup str).flatten).dropWhile isBlank))
        (chars : CStr) (plain : doquote chars = false) :
        Line ((chars ++ (words.map fun str => ' ' :: Libstrutil.quotestrdup str).flatten).dropWhile isBlank) := by
      rw [List.dropWhile_append]
      split
      · exact tail
      · exact .plain words (doquote_of_suffix plain (List.dropWhile_suffix _))
    induction words with
    | nil =>
        have empty := @Line.plain [] [] rfl
        exact ⟨empty, raw [] empty⟩
    | cons str words ih =>
        have tail : Line ((((str :: words).map fun str => ' ' :: Libstrutil.quotestrdup str).flatten).dropWhile
            isBlank) := by
          rw [List.map_cons, List.flatten_cons, List.cons_append, List.dropWhile_cons_of_pos (by decide)]
          by_cases special : doquote str = true
          · have whole := Line.quoted words special
            rw [Libstrutil.quotestrdup, if_pos special] at whole ⊢
            exact whole
          · rw [Libstrutil.quotestrdup, if_neg special]
            exact ih.2 str (Bool.eq_false_iff.mpr special)
        exact ⟨tail, raw _ tail⟩
  cases line with
  | plain words plain => exact (behind words).2 _ plain
  | quoted words special =>
      have whole := Line.quoted words special
      rw [Libstrutil.quotestrdup, if_pos special] at whole ⊢
      exact whole

theorem Line.unquotestr {text token eptr : CStr} (line : Line text) (nonempty : text ≠ [])
    (unblank : ∀ c ∈ text.head?, isBlank c = false) (read : unquotestr text = some (token, eptr)) :
    Restorable token ∧ Line (eptr.dropWhile isBlank) := by
  cases line with
  | @plain chars words plain =>
      set behind := (words.map fun str => ' ' :: Libstrutil.quotestrdup str).flatten with behindEq
      have blank : ∀ c ∈ behind.head?, isBlank c = true := by
        intro c head
        cases words with
        | nil => cases head
        | cons str words =>
            cases head
            rfl
      obtain ⟨c, tail, rfl⟩ : ∃ c tail, chars = c :: tail := by
        cases chars with
        | cons c tail => exact ⟨c, tail, rfl⟩
        | nil =>
            obtain ⟨c, rest, shape⟩ := List.exists_cons_of_ne_nil nonempty
            rw [List.nil_append] at shape unblank
            have here := blank c (by rw [shape]; rfl)
            rw [unblank c (by rw [shape]; rfl)] at here
            cases here
      have first := unblank c rfl
      have unquoted : c ≠ '\'' := by
        rintro rfl
        cases plain
      -- The token ends inside the word, where a newline is, or at its end.
      have word : (c :: tail).takeWhile (fun x => !isBlank x) ≠ [] := by simp [first]
      have unblankWord : ∀ x ∈ (c :: tail).takeWhile (fun x => !isBlank x), isBlank x = false := by
        intro x member
        simpa using List.mem_takeWhile_imp member
      have ends : ∀ x ∈ ((c :: tail).dropWhile (fun x => !isBlank x) ++ behind).head?, isBlank x = true := by
        intro x head
        cases left : (c :: tail).dropWhile (fun x => !isBlank x) with
        | nil =>
            rw [left, List.nil_append] at head
            exact blank x head
        | cons d more =>
            have stops := List.head?_dropWhile_not (fun x => !isBlank x) (c :: tail)
            rw [left] at head stops
            cases head
            simpa using stops
      have whole := unquotestr_word word unblankWord (by simpa [first] using unquoted) ends
      rw [← List.append_assoc, List.takeWhile_append_dropWhile, read] at whole
      cases whole
      refine ⟨⟨word, fun newline => ?_⟩, ?_⟩
      · have unblankNewline := unblankWord _ newline
        cases unblankNewline
      · rw [dropWhile_tail_of_blank ends]
        exact Line.dropWhile (.plain words (doquote_of_suffix plain (List.dropWhile_suffix _)))
  | @quoted str words special =>
      have closed : ((words.map fun str => ' ' :: Libstrutil.quotestrdup str).flatten).head? ≠ some '\'' := by
        cases words with
        | nil => simp
        | cons _ _ => exact fun same => absurd (Option.some.inj same) (by decide)
      have whole := unquotestr_quoted str closed
      rw [Libstrutil.quotestrdup, if_pos special, whole] at read
      cases read
      refine ⟨⟨?_, fun _ => special⟩, ?_⟩
      · rintro rfl
        cases special
      · exact Line.dropWhile (@Line.plain [] words rfl)

theorem Line.tokens {slots : Nat} {text : CStr} {tokens : List CStr} (line : Line text)
    (unblank : ∀ c ∈ text.head?, isBlank c = false) (read : Libstrutil.tokenizeLoop slots text = some tokens) :
    ∀ token ∈ tokens, Restorable token := by
  induction slots generalizing text tokens with
  | zero =>
      cases text with
      | nil =>
          cases read
          exact fun _ member => absurd member List.not_mem_nil
      | cons c text => cases read
  | succ slots ih =>
      cases text with
      | nil =>
          cases read
          exact fun _ member => absurd member List.not_mem_nil
      | cons c text =>
          obtain ⟨⟨token, eptr⟩, first⟩ := unquotestr_of_tokenizeLoop read
          rw [tokenizeLoop_step (List.cons_ne_nil _ _) first] at read
          obtain ⟨more, later, same⟩ := Option.map_eq_some_iff.mp read
          cases same
          obtain ⟨restorable, rest⟩ := line.unquotestr (List.cons_ne_nil _ _) unblank first
          intro other member
          rcases List.mem_cons.mp member with rfl | member
          · exact restorable
          · exact ih rest (head?_dropWhile_unblank eptr) later other member

theorem tokenize_quoted_iff (words : List CStr) :
    tokenize (joinWords (words.map quotestrdup)) = ((words.length : Int), some words) ↔
      ∀ str ∈ words, Restorable str := by
  have enough := joinWords_slots (words.map quotestrdup)
  rw [List.length_map] at enough
  constructor
  · intro restored
    simp only [tokenize] at restored
    split at restored
    · rename_i tokens read
      obtain same : tokens = _ := Option.some.inj (congrArg Prod.snd restored)
      intro str member
      rw [← same] at member
      exact (joinWords_line words).dropWhile.tokens (head?_dropWhile_unblank _) read str member
    · exact absurd (congrArg Prod.snd restored) (by simp)
  · intro restorable
    have begins : (joinWords (words.map quotestrdup)).dropWhile isBlank = joinWords (words.map quotestrdup) := by
      cases words with
      | nil => rfl
      | cons str more =>
          have first := restorable str (by simp)
          cases more with
          | nil => simpa [joinWords] using quotestrdup_head first []
          | cons _ _ => exact quotestrdup_head first _
    simp only [tokenize]
    rw [begins, (splits_joinWords restorable).tokenizeLoop enough]

theorem tokenize_answers (text : CStr) :
    (∃ tokens : List CStr, tokenize text = ((tokens.length : Int), some tokens)) ∨ tokenize text = (eio, none) := by
  simp only [tokenize]
  split
  · exact .inl ⟨_, rfl⟩
  · exact .inr rfl

/-- A text that `tokenize` has the slots for. -/
def Tokens (text : CStr) (tokens : List CStr) : Prop :=
  Splits (text.dropWhile isBlank) tokens ∧ tokens.length ≤ 1 + (text.dropWhile isBlank).countP isBlank

theorem tokenize_eq_some_iff (text : CStr) (tokens : List CStr) :
    tokenize text = ((tokens.length : Int), some tokens) ↔ Tokens text tokens := by
  constructor
  · intro read
    simp only [tokenize] at read
    split at read
    · rename_i found loop
      obtain rfl : found = tokens := Option.some.inj (congrArg Prod.snd read)
      exact splits_of_tokenizeLoop (head?_dropWhile_unblank text) loop
    · exact absurd (congrArg Prod.snd read) (by simp)
  · rintro ⟨splits, enough⟩
    simp only [tokenize]
    rw [splits.tokenizeLoop enough]

end Xcpu.Libstrutil
