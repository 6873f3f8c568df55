import Mathlib.Data.List.Basic

/-!
Streams of messages that carry their own length in a header of fixed size. How such a stream
falls apart into messages and an unfinished tail does not depend on who takes it apart.
-/

namespace Xcpu.Framing

variable {Byte : Type*}

/-- The length that the first `header` bytes of some data announce. -/
structure Header (Byte : Type*) where
  header : Nat
  size : List Byte → Nat
  positive : 0 < header
  reads : ∀ data more, header ≤ data.length → size (data ++ more) = size data

variable (format : Header Byte)

def Header.Whole (message : List Byte) : Prop :=
  format.header ≤ message.length ∧ format.size message = message.length

def Header.Unfinished (data : List Byte) : Prop :=
  data.length < format.header ∨ data.length < format.size data

variable {format} {frames messages : List (List Byte)} {tail message more : List Byte}

theorem Header.Whole.size_append (whole : format.Whole message) :
    format.size (message ++ more) = message.length := by
  rw [format.reads message more whole.1, whole.2]

theorem Header.Whole.prefix_eq {other : List Byte} (whole : format.Whole message)
    (other_whole : format.Whole other) {rest : List Byte} (same : message ++ more = other ++ rest) :
    message = other ∧ more = rest := by
  have size : format.size (message ++ more) = message.length := whole.size_append
  have sizes : message.length = other.length := by
    rw [← size, same, other_whole.size_append]
  exact List.append_inj same sizes

theorem Header.Unfinished.not_whole_prefix (unfinished : format.Unfinished tail)
    (whole : format.Whole message) (before : message <+: tail) : False := by
  obtain ⟨rest, same⟩ := before
  have size : format.size (message ++ rest) = message.length := whole.size_append
  have long := congrArg List.length same
  rw [same] at size
  rw [List.length_append] at long
  have header := whole.1
  rcases unfinished with short | short <;> omega

theorem frames_aligned (frames_whole : ∀ frame ∈ frames, format.Whole frame)
    (messages_whole : ∀ message ∈ messages, format.Whole message)
    (stream : frames.flatten ++ tail <+: messages.flatten) :
    frames = messages.take frames.length ∧ tail <+: (messages.drop frames.length).flatten := by
  induction frames generalizing messages with
  | nil => exact ⟨rfl, by simpa using stream⟩
  | cons frame frames ih =>
      have whole := frames_whole frame List.mem_cons_self
      obtain ⟨left, same⟩ := stream
      cases messages with
      | nil =>
          have header := whole.1
          have positive := format.positive
          have empty : frame = [] := by simp_all
          rw [empty, List.length_nil] at header
          omega
      | cons message rest =>
          simp only [List.flatten_cons, List.append_assoc] at same
          obtain ⟨first, others⟩ := whole.prefix_eq (messages_whole message List.mem_cons_self) same
          subst first
          obtain ⟨before, after⟩ := ih (fun other member => frames_whole other (List.mem_cons_of_mem _ member))
            (fun other member => messages_whole other (List.mem_cons_of_mem _ member))
            ⟨left, by rw [← others, List.append_assoc]⟩
          exact ⟨by rw [List.length_cons, List.take_succ_cons, ← before], by simpa using after⟩

theorem frames_next (frames_whole : ∀ frame ∈ frames, format.Whole frame)
    (messages_whole : ∀ message ∈ messages, format.Whole message)
    (stream : frames.flatten ++ tail <+: messages.flatten) :
    (messages.length ≤ frames.length ∧ tail = []) ∨
      ∃ message, messages[frames.length]? = some message ∧ (tail <+: message ∨ message <+: tail) := by
  obtain ⟨-, after⟩ := frames_aligned frames_whole messages_whole stream
  cases rest : messages.drop frames.length with
  | nil =>
      rw [rest] at after
      exact .inl ⟨List.drop_eq_nil_iff.mp rest, by simpa using after⟩
  | cons message others =>
      rw [rest, List.flatten_cons] at after
      have found : messages[frames.length]? = some message := by
        rw [← List.head?_drop, rest, List.head?_cons]
      exact .inr ⟨message, found,
        List.prefix_or_prefix_of_prefix after (List.prefix_append message others.flatten)⟩

theorem frames_eq_take (frames_whole : ∀ frame ∈ frames, format.Whole frame)
    (messages_whole : ∀ message ∈ messages, format.Whole message) (unfinished : format.Unfinished tail)
    (stream : frames.flatten ++ tail <+: messages.flatten) :
    frames = messages.take frames.length ∧
      ((messages.length ≤ frames.length ∧ tail = []) ∨
        ∃ message, messages[frames.length]? = some message ∧ tail <+: message ∧
          tail.length < message.length) := by
  refine ⟨(frames_aligned frames_whole messages_whole stream).1, ?_⟩
  rcases frames_next frames_whole messages_whole stream with ended | ⟨message, found, short | long⟩
  · exact .inl ended
  · refine .inr ⟨message, found, short, ?_⟩
    have whole := messages_whole message (List.mem_of_getElem? found)
    by_contra full
    have bound := short.length_le
    have same : tail = message := short.eq_of_length (by omega)
    exact unfinished.not_whole_prefix whole (same ▸ List.prefix_rfl)
  · exact (unfinished.not_whole_prefix (messages_whole message (List.mem_of_getElem? found)) long).elim

end Xcpu.Framing
