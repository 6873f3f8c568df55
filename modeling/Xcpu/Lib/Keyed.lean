import Mathlib.Data.List.Nodup

/-!
Lists of records that a number identifies: looking one up, changing it in place, taking it
out. As long as a change leaves the key alone, the other records and the keys stay.
-/

namespace Xcpu.Keyed

variable {Item : Type*} (key : Item → Nat)

def update (items : List Item) (ref : Nat) (change : Item → Item) : List Item :=
  items.map fun item => if key item = ref then change item else item

variable {key} {items : List Item} {ref : Nat} {change : Item → Item} {item : Item}

theorem mem_update : item ∈ update key items ref change ↔
    ∃ old ∈ items, item = if key old = ref then change old else old := by
  rw [update, List.mem_map]
  constructor
  · rintro ⟨old, member, same⟩
    exact ⟨old, member, same.symm⟩
  · rintro ⟨old, member, same⟩
    exact ⟨old, member, same.symm⟩

theorem update_map {Label : Type*} (tag : Item → Label) (same : ∀ item, tag (change item) = tag item) :
    (update key items ref change).map tag = items.map tag := by
  rw [update, List.map_map]
  apply List.map_congr_left
  intro item _
  simp only [Function.comp_apply]
  split
  · exact same item
  · rfl

/-- A change that leaves every record of the key as it is changes nothing. -/
theorem update_absent (absent : ref ∉ items.map key) : update key items ref change = items := by
  rw [update]
  conv => rhs; rw [← List.map_id items]
  apply List.map_congr_left
  intro item member
  rw [if_neg, id]
  intro same
  exact absent (same ▸ List.mem_map_of_mem member)

theorem find?_key (found : items.find? (key · == ref) = some item) : item ∈ items ∧ key item = ref := by
  have same := List.find?_some found
  exact ⟨List.mem_of_find?_eq_some found, by simpa using same⟩

theorem find?_of_mem (distinct : (items.map key).Nodup) (member : item ∈ items)
    (same : key item = ref) : items.find? (key · == ref) = some item := by
  cases found : items.find? (key · == ref) with
  | none =>
      have missing := List.find?_eq_none.mp found item member
      simp [same] at missing
  | some other =>
      obtain ⟨inside, key_eq⟩ := find?_key found
      rw [Option.some.injEq]
      exact List.inj_on_of_nodup_map distinct inside member (key_eq.trans same.symm)

theorem find?_none_iff : items.find? (key · == ref) = none ↔ ref ∉ items.map key := by
  rw [List.find?_eq_none, List.mem_map]
  constructor
  · rintro missing ⟨item, member, same⟩
    exact missing item member (by simpa using same)
  · intro missing item member same
    exact missing ⟨item, member, by simpa using same⟩

theorem find?_update (same : ∀ item, key (change item) = key item) (other : Nat) :
    (update key items ref change).find? (key · == other) =
      (items.find? (key · == other)).map fun item => if key item = ref then change item else item := by
  induction items with
  | nil => rfl
  | cons first rest ih =>
      have kept : key (if key first = ref then change first else first) = key first := by
        split
        · exact same first
        · rfl
      by_cases here : key first = other
      · rw [update, List.map_cons, List.find?_cons_of_pos (by simpa [kept] using here),
          List.find?_cons_of_pos (by simpa using here), Option.map_some]
      · rw [update, List.map_cons, List.find?_cons_of_neg (by simpa [kept] using here),
          List.find?_cons_of_neg (by simpa using here)]
        exact ih

theorem mem_eraseP (distinct : (items.map key).Nodup) :
    item ∈ items.eraseP (key · == ref) ↔ item ∈ items ∧ key item ≠ ref := by
  induction items with
  | nil => simp
  | cons first rest ih =>
      obtain ⟨single, distinct⟩ := List.nodup_cons.mp distinct
      by_cases here : key first = ref
      · rw [List.eraseP_cons_of_pos (by simpa using here)]
        constructor
        · intro member
          exact ⟨List.mem_cons_of_mem _ member,
            fun same => single (here.trans same.symm ▸ List.mem_map_of_mem member)⟩
        · rintro ⟨member, other⟩
          exact (List.mem_cons.mp member).resolve_left fun same => other (same ▸ here)
      · rw [List.eraseP_cons_of_neg (by simpa using here), List.mem_cons, List.mem_cons, ih distinct]
        constructor
        · rintro (same | ⟨member, other⟩)
          · exact ⟨.inl same, same ▸ here⟩
          · exact ⟨.inr member, other⟩
        · rintro ⟨same | member, other⟩
          · exact .inl same
          · exact .inr ⟨member, other⟩

/-- The sum of a measure over the records. -/
@[simp]
def weight (measure : Item → Nat) : List Item → Nat
  | [] => 0
  | item :: rest => measure item + weight measure rest

variable {measure : Item → Nat}

theorem weight_append (first second : List Item) :
    weight measure (first ++ second) = weight measure first + weight measure second := by
  induction first with
  | nil => simp [weight]
  | cons item rest ih =>
      rw [List.cons_append, weight, weight, ih]
      omega

theorem le_weight (member : item ∈ items) : measure item ≤ weight measure items := by
  induction items with
  | nil => cases member
  | cons first rest ih =>
      rw [weight]
      rcases List.mem_cons.mp member with rfl | member
      · omega
      · have below := ih member
        omega

theorem weight_eq_zero (none : ∀ item ∈ items, measure item = 0) : weight measure items = 0 := by
  induction items with
  | nil => rfl
  | cons first rest ih =>
      rw [weight, none first List.mem_cons_self, ih fun item member => none item (List.mem_cons_of_mem _ member)]

theorem weight_mono {other : Item → Nat} (below : ∀ item ∈ items, measure item ≤ other item) :
    weight measure items ≤ weight other items := by
  induction items with
  | nil => exact Nat.le_refl 0
  | cons first rest ih =>
      have here := below first (List.mem_cons_self)
      have later := ih fun item member => below item (List.mem_cons_of_mem _ member)
      rw [weight, weight]
      omega

theorem weight_update (distinct : (items.map key).Nodup) (member : item ∈ items) :
    weight measure (update key items (key item) change) + measure item =
      weight measure items + measure (change item) := by
  induction items with
  | nil => cases member
  | cons first rest ih =>
      obtain ⟨single, distinct⟩ := List.nodup_cons.mp distinct
      rcases List.mem_cons.mp member with rfl | member
      · have others : update key rest (key item) change = rest := update_absent single
        rw [update] at others ⊢
        rw [List.map_cons, if_pos rfl, others, weight, weight]
        omega
      · have apart : key first ≠ key item := fun same => single (same ▸ List.mem_map_of_mem member)
        have later := ih distinct member
        rw [update] at later ⊢
        rw [List.map_cons, if_neg apart, weight, weight]
        omega

theorem weight_eraseP (distinct : (items.map key).Nodup) (member : item ∈ items) :
    weight measure (items.eraseP (key · == key item)) + measure item = weight measure items := by
  induction items with
  | nil => cases member
  | cons first rest ih =>
      obtain ⟨single, distinct⟩ := List.nodup_cons.mp distinct
      rcases List.mem_cons.mp member with rfl | member
      · rw [List.eraseP_cons_of_pos (by simp), weight]
        omega
      · have apart : key first ≠ key item := fun same => single (same ▸ List.mem_map_of_mem member)
        have later := ih distinct member
        rw [List.eraseP_cons_of_neg (by simpa using apart), weight, weight]
        omega

end Xcpu.Keyed
