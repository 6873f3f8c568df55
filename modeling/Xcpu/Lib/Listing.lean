import Mathlib.Algebra.GroupWithZero.Nat
import Mathlib.Data.List.Basic

/-!
Reading a list of items piece by piece. A reader asks for the next items with room for a number of units, or
for the first ones again, and gets whole items in their order, as many as there is room for.
-/

namespace Xcpu.Listing

/-- A read, from the first item on after a rewind. -/
structure Request where
  rewind : Bool
  room : Nat
  deriving DecidableEq

variable {Item : Type*} (size : Item → Nat)

def total (items : List Item) : Nat := (items.map size).sum

/-- As many of the items as there is room for. -/
structure Fills (room : Nat) (part rest : List Item) : Prop where
  fits : total size part ≤ room
  full : ∀ next later, rest = next :: later → room < total size part + size next

/-- What each of the requests gets, with the items that are left before them. -/
inductive Lists (all : List Item) : List Item → List Request → List (List Item) → Prop
  | nil {left : List Item} : Lists all left [] []
  | cons {left part rest : List Item} {request : Request} {requests : List Request} {parts : List (List Item)}
      (next : (if request.rewind then all else left) = part ++ rest) (fills : Fills size request.room part rest)
      (later : Lists all rest requests parts) : Lists all left (request :: requests) (part :: parts)

section Lists

variable {size} {all left part : List Item} {item : Item} {request : Request} {requests : List Request}
  {parts : List (List Item)}

theorem total_cons : total size (item :: part) = size item + total size part :=
  List.sum_cons

theorem total_append {first second : List Item} :
    total size (first ++ second) = total size first + total size second := by
  rw [total, List.map_append, List.sum_append]
  rfl

theorem Lists.length (lists : Lists size all left requests parts) : parts.length = requests.length := by
  induction lists with
  | nil => rfl
  | cons next fills later ih => rw [List.length_cons, List.length_cons, ih]

/-- Between two rewinds nothing is lost, repeated or put in another place. -/
theorem Lists.in_order (lists : Lists size all left requests parts)
    (onward : ∀ request ∈ requests, request.rewind = false) : parts.flatten <+: left := by
  induction lists with
  | nil => exact List.nil_prefix
  | cons next fills later ih =>
      rw [onward _ List.mem_cons_self, if_neg Bool.false_ne_true] at next
      rw [next, List.flatten_cons, List.prefix_append_right_inj]
      exact ih fun request member => onward request (List.mem_cons_of_mem _ member)

/-- A read that gets nothing although there is room for any item comes after the last one. -/
theorem Lists.at_end (lists : Lists size all left (requests ++ [request]) (parts ++ [[]]))
    (onward : ∀ asked ∈ requests ++ [request], asked.rewind = false)
    (room : ∀ item ∈ left, size item ≤ request.room) : parts.flatten = left := by
  have same : parts.length = requests.length := by
    have length := lists.length
    rw [List.length_append, List.length_append] at length
    exact Nat.add_right_cancel length
  induction requests generalizing left parts with
  | nil =>
      obtain rfl : parts = [] := List.length_eq_zero_iff.mp same
      cases lists with
      | cons next fills later =>
          rw [onward _ List.mem_cons_self, if_neg Bool.false_ne_true, List.nil_append] at next
          subst next
          cases left with
          | nil => rfl
          | cons first rest =>
              have full := fills.full first rest rfl
              have enough := room first List.mem_cons_self
              rw [total, List.map_nil, List.sum_nil] at full
              omega
  | cons asked requests ih =>
      cases parts with
      | nil => cases same
      | cons part parts =>
          cases lists with
          | cons next fills later =>
              rw [onward _ List.mem_cons_self, if_neg Bool.false_ne_true] at next
              subst next
              rw [List.flatten_cons, ih later
                (fun request member => onward request (List.mem_cons_of_mem _ member))
                (fun item member => room item (List.mem_append_right _ member)) (Nat.succ.inj same)]

end Lists

end Xcpu.Listing
