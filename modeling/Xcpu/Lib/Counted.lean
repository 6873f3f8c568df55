import Mathlib.Logic.Function.Basic

/-!
Records that are freed with their last reference. An address without a record is freed memory, and nothing
can be read there; a record that exists has a reference.
-/

namespace Xcpu.Counted

variable {Value : Type*}

structure Record (Value : Type*) where
  value : Value
  count : Nat
  held : 0 < count

/-- A record with a reference and so many others. -/
def Record.shared (value : Value) (others : Nat) : Record Value := ⟨value, others + 1, Nat.succ_pos others⟩

abbrev Heap (Value : Type*) := Nat → Option (Record Value)

def take (heap : Heap Value) (a : Nat) : Option (Heap Value) :=
  (heap a).map fun r => Function.update heap a (some ⟨r.value, r.count + 1, Nat.succ_pos _⟩)

/-- One reference less; the value, if that was the last one. -/
def release (heap : Heap Value) (a : Nat) : Option (Heap Value × Option Value) :=
  (heap a).map fun r =>
    if h : 1 < r.count then (Function.update heap a (some ⟨r.value, r.count - 1, Nat.sub_pos_of_lt h⟩), none)
    else (Function.update heap a none, some r.value)

def count (heap : Heap Value) (a : Nat) : Nat := ((heap a).map Record.count).getD 0

/-- The first record of a list that the test accepts. -/
def find (heap : Heap Value) (test : Value → Bool) : List Nat → Option (Option Nat)
  | [] => some none
  | a :: rest => (heap a).bind fun r => if test r.value then some (some a) else find heap test rest

/-- Records may have come to other counts and may have been freed. -/
def Since (heap heap' : Heap Value) : Prop :=
  ∀ a r', heap' a = some r' → ∃ r, heap a = some r ∧ r'.value = r.value

variable {heap heap' : Heap Value} {a b : Nat}

theorem Since.refl (heap : Heap Value) : Since heap heap := fun _ r found => ⟨r, found, rfl⟩

theorem Since.trans {later : Heap Value} (first : Since heap heap') (second : Since heap' later) :
    Since heap later := by
  intro a r found
  obtain ⟨r', found', same⟩ := second a r found
  obtain ⟨r'', found'', same'⟩ := first a r' found'
  exact ⟨r'', found'', same.trans same'⟩

theorem take_since (taken : take heap a = some heap') : Since heap heap' := by
  obtain ⟨r, found, rfl⟩ := Option.map_eq_some_iff.mp taken
  intro b r' found'
  by_cases same : b = a
  · subst same
    rw [Function.update_self] at found'
    cases found'
    exact ⟨r, found, rfl⟩
  · rw [Function.update_of_ne same] at found'
    exact ⟨r', found', rfl⟩

theorem release_since {last : Option Value} (released : release heap a = some (heap', last)) :
    Since heap heap' := by
  obtain ⟨r, found, same⟩ := Option.map_eq_some_iff.mp released
  intro b r' found'
  by_cases here : b = a
  · subst here
    split at same <;> cases same <;> rw [Function.update_self] at found' <;> cases found'
    exact ⟨r, found, rfl⟩
  · split at same <;> cases same <;> rw [Function.update_of_ne here] at found' <;> exact ⟨r', found', rfl⟩

/-- A reference that is taken can be given back, and nothing has happened. -/
theorem release_take (taken : take heap a = some heap') : release heap' a = some (heap, none) := by
  obtain ⟨r, found, rfl⟩ := Option.map_eq_some_iff.mp taken
  have more : 1 < r.count + 1 := Nat.succ_lt_succ r.held
  rw [release, Function.update_self, Option.map_some, dif_pos more, Function.update_idem]
  have same : (⟨r.value, r.count + 1 - 1, Nat.sub_pos_of_lt more⟩ : Record Value) = r := by
    cases r
    rfl
  rw [same, ← found, Function.update_eq_self]

theorem take_release (released : release heap a = some (heap', none)) : take heap' a = some heap := by
  obtain ⟨r, found, same⟩ := Option.map_eq_some_iff.mp released
  split at same
  · rename_i more
    cases same
    rw [take, Function.update_self, Option.map_some, Function.update_idem]
    have back : (⟨r.value, r.count - 1 + 1, Nat.succ_pos _⟩ : Record Value) = r := by
      cases r
      simp only [Record.mk.injEq, true_and]
      omega
    rw [back, ← found, Function.update_eq_self]
  · cases same

/-- What can be taken again after a release was not freed. -/
theorem take_of_release {last : Option Value} {later : Heap Value} (released : release heap a = some (heap', last))
    (taken : take heap' a = some later) : last = none ∧ later = heap := by
  cases last with
  | none =>
      rw [take_release released] at taken
      cases taken
      exact ⟨rfl, rfl⟩
  | some value =>
      obtain ⟨r, -, same⟩ := Option.map_eq_some_iff.mp released
      split at same <;> cases same
      rw [take, Function.update_self] at taken
      cases taken

theorem count_take (taken : take heap a = some heap') :
    count heap' b = count heap b + if b = a then 1 else 0 := by
  obtain ⟨r, found, rfl⟩ := Option.map_eq_some_iff.mp taken
  by_cases same : b = a
  · subst same
    rw [count, count, Function.update_self, found, if_pos rfl]
    rfl
  · rw [count, count, Function.update_of_ne same, if_neg same]
    rfl

theorem count_release {last : Option Value} (released : release heap a = some (heap', last)) :
    count heap' b + (if b = a then 1 else 0) = count heap b := by
  obtain ⟨r, found, same⟩ := Option.map_eq_some_iff.mp released
  by_cases here : b = a
  · subst here
    have held := r.held
    split at same <;> cases same <;> simp only [count, Function.update_self, found, Option.map_some, Option.getD_some,
      Option.map_none, Option.getD_none, if_true] <;> omega
  · split at same <;> cases same <;> simp only [count, Function.update_of_ne here, if_neg here, Nat.add_zero]

theorem find_since {test : Value → Bool} {list : List Nat} {result : Option Nat} (since : Since heap heap')
    (found : find heap' test list = some result) :
    result = list.find? fun a => (heap a).any fun r => test r.value := by
  induction list with
  | nil =>
      cases found
      rfl
  | cons a rest ih =>
      obtain ⟨r', here, found⟩ := Option.bind_eq_some_iff.mp found
      obtain ⟨r, before, same⟩ := since a r' here
      rw [same] at found
      cases hit : test r.value with
      | true =>
          rw [if_pos hit] at found
          cases found
          rw [List.find?_cons_of_pos (by rw [before]; exact hit)]
      | false =>
          rw [if_neg (by rw [hit]; exact Bool.noConfusion)] at found
          rw [List.find?_cons_of_neg (by rw [before]; simp [hit])]
          exact ih found

end Xcpu.Counted
