import Mathlib.Data.List.Perm.Subperm

/-!
A byte stream fed from a queue of messages, the first of which may be partly written.
`Whole` says that the stream is the messages completed so far and that part of the first.
An `Outbox` adds what became of every message, told apart by a key; `Kept` is the invariant,
and each `kept` lemma is one way a program may touch the queue.
-/

namespace Xcpu.Outbound

section Bytes

variable {Message Byte : Type*} (bytes : Message → List Byte)

def Whole (completed queue : List Message) (position : Nat) (wire : List Byte) : Prop :=
  match queue with
  | [] => position = 0 ∧ wire = completed.flatMap bytes
  | first :: _ => position ≤ (bytes first).length ∧
      wire = completed.flatMap bytes ++ (bytes first).take position

/-- The bytes of one write: at most `count` of those the first message has left. -/
def chunk (message : Message) (position count : Nat) : List Byte :=
  ((bytes message).drop position).take count

variable {bytes} {completed queue rest : List Message} {message : Message} {position count : Nat}
  {wire : List Byte}

theorem whole_more (whole : Whole bytes completed (message :: rest) position wire)
    (fits : position + count ≤ (bytes message).length) :
    Whole bytes completed (message :: rest) (position + count)
      (wire ++ chunk bytes message position count) := by
  refine ⟨fits, ?_⟩
  rw [whole.2, List.append_assoc, chunk, List.take_add]

theorem whole_done (whole : Whole bytes completed (message :: rest) position wire)
    (last : position + count = (bytes message).length) :
    Whole bytes (completed ++ [message]) rest 0 (wire ++ chunk bytes message position count) := by
  have written : wire ++ chunk bytes message position count =
      (completed ++ [message]).flatMap bytes := by
    rw [whole.2, List.append_assoc, chunk, ← List.take_add, last, List.take_length,
      List.flatMap_append, List.flatMap_singleton]
  cases rest with
  | nil => exact ⟨rfl, written⟩
  | cons next others => exact ⟨Nat.zero_le _, by simpa using written⟩

theorem whole_tail {others : List Message}
    (whole : Whole bytes completed (message :: rest) position wire) :
    Whole bytes completed (message :: others) position wire := whole

theorem whole_unstarted {others : List Message} (whole : Whole bytes completed queue 0 wire) :
    Whole bytes completed others 0 wire := by
  have written : wire = completed.flatMap bytes := by
    cases queue with
    | nil => exact whole.2
    | cons first rest => simpa using whole.2
  cases others with
  | nil => exact ⟨rfl, written⟩
  | cons first rest => exact ⟨Nat.zero_le _, by simpa using written⟩

theorem whole_prefix (whole : Whole bytes completed queue position wire) :
    wire <+: (completed ++ queue.take 1).flatMap bytes := by
  cases queue with
  | nil =>
      rw [whole.2]
      simp
  | cons first rest =>
      rw [whole.2, List.flatMap_append, List.prefix_append_right_inj]
      simpa using List.take_prefix position (bytes first)

end Bytes

/-- `lost` is the message the stream was closed in, `next` the first key not yet in use. -/
structure Outbox (Message Byte : Type*) where
  opened : Bool
  queue : List Message
  position : Nat
  wire : List Byte
  completed : List Message
  removed : List Message
  lost : List Message
  next : Nat

namespace Outbox

variable {Message Byte : Type*} (bytes : Message → List Byte) (key : Message → Nat)

def messages (stream : Outbox Message Byte) : List Message :=
  stream.completed ++ stream.lost ++ stream.queue ++ stream.removed

structure Kept (stream : Outbox Message Byte) : Prop where
  distinct : (stream.messages.map key).Nodup
  bounded : ∀ message ∈ stream.messages, key message < stream.next
  whole : stream.opened = true → stream.lost = [] ∧
    Whole bytes stream.completed stream.queue stream.position stream.wire
  ended : stream.opened = false → stream.lost.length ≤ 1 ∧
    stream.wire <+: (stream.completed ++ stream.lost).flatMap bytes

/-- The stream is whole messages of different keys, the last perhaps unfinished, and none of
them is a message that was taken away. -/
def Framed (stream : Outbox Message Byte) : Prop :=
  ∃ last, last.length ≤ 1 ∧ stream.wire <+: (stream.completed ++ last).flatMap bytes ∧
    ((stream.completed ++ last).map key).Nodup ∧
    ∀ message ∈ stream.removed, key message ∉ (stream.completed ++ last).map key

/-- A partly written message stays first until its last byte is written. -/
def Continues (stream next : Outbox Message Byte) : Prop :=
  ∀ message rest, stream.queue = message :: rest → 0 < stream.position → next.opened = true →
    (∃ others, next.queue = message :: others ∧ stream.position ≤ next.position) ∨
      next.completed = stream.completed ++ [message]

def insert (stream : Outbox Message Byte) (front back : List Message) (message : Message) :
    Outbox Message Byte :=
  { stream with queue := front ++ message :: back, next := stream.next + 1 }

def remove (stream : Outbox Message Byte) (front back : List Message) (message : Message) :
    Outbox Message Byte :=
  { stream with queue := front ++ back, removed := message :: stream.removed }

def more (stream : Outbox Message Byte) (message : Message) (count : Nat) : Outbox Message Byte :=
  { stream with
    wire := stream.wire ++ chunk bytes message stream.position count
    position := stream.position + count }

def done (stream : Outbox Message Byte) (message : Message) (rest : List Message) (count : Nat) :
    Outbox Message Byte :=
  { stream with
    wire := stream.wire ++ chunk bytes message stream.position count
    position := 0
    queue := rest
    completed := stream.completed ++ [message] }

/-- The stream ends where it stands; the queue goes. -/
def close (stream : Outbox Message Byte) (position : Nat) : Outbox Message Byte :=
  { stream with
    opened := false
    queue := []
    position := position
    lost := stream.lost ++ if stream.opened then stream.queue.take 1 else [] }

/-- The queue is dropped unwritten. -/
def clear (stream : Outbox Message Byte) : Outbox Message Byte :=
  { stream with queue := [], position := 0, removed := stream.queue ++ stream.removed }

variable {bytes key} {stream next : Outbox Message Byte} {front back rest : List Message}
  {message : Message} {count : Nat}

theorem Kept.framed (kept : stream.Kept bytes key) : stream.Framed bytes key := by
  have distinct := kept.distinct
  have split : ∀ last, (stream.completed ++ last ++ stream.removed).Sublist stream.messages →
      ((stream.completed ++ last).map key).Nodup ∧
        ∀ message ∈ stream.removed, key message ∉ (stream.completed ++ last).map key := by
    intro last inside
    have fewer := distinct.sublist (inside.map key)
    rw [List.map_append, List.nodup_append] at fewer
    refine ⟨fewer.1, ?_⟩
    intro message member taken
    exact fewer.2.2 _ taken _ (List.mem_map_of_mem member) rfl
  cases opened : stream.opened with
  | true =>
      obtain ⟨none, whole⟩ := kept.whole opened
      refine ⟨stream.queue.take 1, List.length_take_le _ _, whole_prefix whole, split _ ?_⟩
      simp only [messages, none, List.append_nil]
      exact ((List.Sublist.refl _).append (List.take_sublist 1 _)).append (List.Sublist.refl _)
  | false =>
      obtain ⟨single, written⟩ := kept.ended opened
      refine ⟨stream.lost, single, written, split _ ?_⟩
      exact (List.sublist_append_left _ _).append (List.Sublist.refl _)

theorem insert_perm (queued : stream.queue = front ++ back) :
    (stream.insert front back message).messages.Perm (message :: stream.messages) := by
  simp only [messages, insert, queued]
  have moved : (stream.completed ++ stream.lost ++ front ++ message :: (back ++ stream.removed)).Perm
      (message :: (stream.completed ++ stream.lost ++ front ++ (back ++ stream.removed))) :=
    List.perm_middle
  simpa using moved

theorem remove_perm (queued : stream.queue = front ++ message :: back) :
    (stream.remove front back message).messages.Perm stream.messages := by
  simp only [messages, remove, queued]
  have moved : (stream.completed ++ stream.lost ++ front ++ (back ++ message :: stream.removed)).Perm
      (stream.completed ++ stream.lost ++ front ++ (message :: (back ++ stream.removed))) :=
    List.perm_middle.append_left _
  simpa using moved

theorem Kept.of_perm (kept : stream.Kept bytes key)
    (same : next.messages.Perm stream.messages) (bound : next.next = stream.next) :
    (next.messages.map key).Nodup ∧ ∀ message ∈ next.messages, key message < next.next := by
  refine ⟨(same.map key).nodup_iff.mpr kept.distinct, ?_⟩
  intro message member
  rw [bound]
  exact kept.bounded message (same.mem_iff.mp member)

theorem kept_insert (kept : stream.Kept bytes key) (fresh : key message = stream.next)
    (queued : stream.queue = front ++ back)
    (behind : front = [] → back ≠ [] → stream.position = 0) :
    (stream.insert front back message).Kept bytes key := by
  have same : (stream.insert front back message).messages.Perm (message :: stream.messages) :=
    insert_perm queued
  refine ⟨?_, ?_, ?_, kept.ended⟩
  · refine (same.map key).nodup_iff.mpr (List.nodup_cons.mpr ⟨?_, kept.distinct⟩)
    intro member
    obtain ⟨old, inside, equal⟩ := List.mem_map.mp member
    have earlier := kept.bounded old inside
    omega
  · intro other member
    rcases List.mem_cons.mp (same.mem_iff.mp member) with new | old
    · rw [new, fresh]
      exact Nat.lt_succ_self _
    · exact Nat.lt_succ_of_lt (kept.bounded other old)
  · intro opened
    obtain ⟨none, whole⟩ := kept.whole opened
    refine ⟨none, ?_⟩
    rw [queued] at whole
    cases front with
    | cons first rest => exact whole_tail whole
    | nil =>
        have start : stream.position = 0 := by
          cases back with
          | nil => exact whole.1
          | cons first rest => exact behind rfl (List.cons_ne_nil _ _)
        simp only [insert, start] at whole ⊢
        exact whole_unstarted whole

theorem kept_remove (kept : stream.Kept bytes key) (queued : stream.queue = front ++ message :: back)
    (unstarted : front = [] → stream.position = 0) :
    (stream.remove front back message).Kept bytes key := by
  obtain ⟨distinct, bounded⟩ := kept.of_perm (remove_perm queued) rfl
  refine ⟨distinct, bounded, ?_, kept.ended⟩
  intro opened
  obtain ⟨none, whole⟩ := kept.whole opened
  refine ⟨none, ?_⟩
  rw [queued] at whole
  cases front with
  | cons first rest => exact whole_tail whole
  | nil =>
      simp only [remove, unstarted rfl] at whole ⊢
      exact whole_unstarted whole

theorem kept_more (kept : stream.Kept bytes key) (opened : stream.opened = true)
    (queued : stream.queue = message :: rest)
    (fits : stream.position + count ≤ (bytes message).length) :
    (stream.more bytes message count).Kept bytes key := by
  refine ⟨kept.distinct, kept.bounded, ?_, ?_⟩
  · intro _
    obtain ⟨none, whole⟩ := kept.whole opened
    refine ⟨none, ?_⟩
    simp only [more, queued] at whole ⊢
    exact whole_more whole fits
  · intro closed
    rw [more, opened] at closed
    contradiction

theorem kept_done (kept : stream.Kept bytes key) (opened : stream.opened = true)
    (queued : stream.queue = message :: rest)
    (last : stream.position + count = (bytes message).length) :
    (stream.done bytes message rest count).Kept bytes key := by
  obtain ⟨none, whole⟩ := kept.whole opened
  have same : (stream.done bytes message rest count).messages.Perm stream.messages := by
    simp [messages, done, none, queued]
  obtain ⟨distinct, bounded⟩ := kept.of_perm same rfl
  refine ⟨distinct, bounded, fun _ => ⟨none, ?_⟩, ?_⟩
  · rw [queued] at whole
    exact whole_done whole last
  · intro closed
    rw [done, opened] at closed
    contradiction

theorem kept_close (kept : stream.Kept bytes key) (position : Nat) :
    (stream.close position).Kept bytes key := by
  have fewer : (stream.close position).messages.Sublist stream.messages := by
    cases opened : stream.opened with
    | true =>
        simp only [messages, close, opened, if_true, (kept.whole opened).1, List.nil_append,
          List.append_nil]
        exact ((List.Sublist.refl _).append (List.take_sublist 1 _)).append (List.Sublist.refl _)
    | false =>
        simp only [messages, close, opened, Bool.false_eq_true, if_false, List.append_nil]
        exact (List.sublist_append_left _ _).append (List.Sublist.refl _)
  refine ⟨kept.distinct.sublist (fewer.map key), ?_, ?_, ?_⟩
  · intro message member
    exact kept.bounded message (fewer.subset member)
  · intro opened
    simp [close] at opened
  · intro _
    cases opened : stream.opened with
    | true =>
        obtain ⟨none, whole⟩ := kept.whole opened
        simp only [close, opened, if_true, none, List.nil_append]
        exact ⟨List.length_take_le _ _, whole_prefix whole⟩
    | false =>
        simp only [close, opened, Bool.false_eq_true, if_false, List.append_nil]
        exact kept.ended opened

theorem kept_clear (kept : stream.Kept bytes key) (unstarted : stream.position = 0) :
    stream.clear.Kept bytes key := by
  have same : stream.clear.messages = stream.messages := by
    simp [messages, clear]
  obtain ⟨distinct, bounded⟩ := kept.of_perm (List.Perm.of_eq same) rfl
  refine ⟨distinct, bounded, ?_, kept.ended⟩
  intro opened
  obtain ⟨none, whole⟩ := kept.whole opened
  rw [unstarted] at whole
  exact ⟨none, whole_unstarted whole⟩

theorem continues_unstarted (unstarted : stream.position = 0) : stream.Continues next := by
  intro message rest _ started _
  omega

theorem Continues.refl (stream : Outbox Message Byte) : stream.Continues stream :=
  fun _ rest queued _ _ => Or.inl ⟨rest, queued, Nat.le_refl _⟩

theorem continues_closed (closed : next.opened = false) : stream.Continues next := by
  intro message rest _ _ opened
  rw [closed] at opened
  contradiction

theorem Continues.after {middle : Outbox Message Byte} (continues : middle.Continues next)
    (position : middle.position = stream.position) (completed : middle.completed = stream.completed)
    (first : ∀ message rest, stream.queue = message :: rest → 0 < stream.position →
      ∃ others, middle.queue = message :: others) : stream.Continues next := by
  intro message rest queued started opened
  obtain ⟨others, behind⟩ := first message rest queued started
  have result := continues message others behind (by omega) opened
  rw [position, completed] at result
  exact result

theorem insert_first (queued : stream.queue = front ++ back)
    (behind : front = [] → back ≠ [] → stream.position = 0) (first : Message)
    (others : List Message) (head : stream.queue = first :: others) (started : 0 < stream.position) :
    ∃ others, (stream.insert front back message).queue = first :: others := by
  rw [queued] at head
  cases front with
  | cons kept rest =>
      simp only [List.cons_append, List.cons.injEq] at head
      exact ⟨rest ++ message :: back, by simp [insert, head.1]⟩
  | nil =>
      have start := behind rfl (by simp_all)
      omega

theorem remove_first (queued : stream.queue = front ++ message :: back)
    (unstarted : front = [] → stream.position = 0) (first : Message) (others : List Message)
    (head : stream.queue = first :: others) (started : 0 < stream.position) :
    ∃ others, (stream.remove front back message).queue = first :: others := by
  rw [queued] at head
  cases front with
  | cons kept rest =>
      simp only [List.cons_append, List.cons.injEq] at head
      exact ⟨rest ++ back, by simp [remove, head.1]⟩
  | nil =>
      have start := unstarted rfl
      omega

theorem continues_more : stream.Continues (stream.more bytes message count) := by
  intro first others head _ _
  left
  exact ⟨others, head, Nat.le_add_right _ _⟩

theorem continues_done (queued : stream.queue = message :: rest) :
    stream.Continues (stream.done bytes message rest count) := by
  intro first others head _ _
  right
  rw [queued, List.cons.injEq] at head
  rw [done, head.1]

end Outbox

end Xcpu.Outbound
