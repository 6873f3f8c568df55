import Xcpu.Lib.Linked
import Xcpu.Lib.Transition

/-!
The hash table of a connection's fids. A bucket is a doubly linked list, and a lookup moves the fid that it finds
to the front, so every call changes the lists; they keep the live fids, each once, whatever the calls are.
-/

namespace Xcpu.Libnpfs.FidPool

open Xcpu.Linked Xcpu.Transition

variable {User Aux : Type}

structure Npfid (User Aux : Type) where
  fid : UInt32
  refcount : Int32
  omode : UInt16
  type : UInt8
  diroffset : UInt32
  user : Option User
  aux : Aux
  next : Option Nat
  prev : Option Nat

def fidPtr : Pointers (Npfid User Aux) where
  next := Npfid.next
  prev := Npfid.prev
  setNext next f := { f with next }
  setPrev prev f := { f with prev }
  next_setNext _ _ := rfl
  prev_setNext _ _ := rfl
  next_setPrev _ _ := rfl
  prev_setPrev _ _ := rfl

/-- `FID_HTABLE_SIZE` -/
def fidHtableSize : Nat := 64

/-- A pool with the fids of its connection in memory. `made` is the number of fids that there have been, which no
list is longer than. -/
structure Npfidpool (User Aux : Type) where
  size : Nat
  htable : Nat → Option Nat
  fids : Heap (Npfid User Aux)
  made : Nat

/-- `np_fidpool_create` -/
def Npfidpool.create : Npfidpool User Aux := ⟨fidHtableSize, fun _ => none, fun _ => none, 0⟩

/-- The table has no cells from its size on. -/
def bucket (fp : Npfidpool User Aux) (hash : Nat) : Option (Option Nat) :=
  if hash < fp.size then some (fp.htable hash) else none

def lookup (fp : Npfidpool User Aux) (fid : UInt32) (hash : Nat) : Option (Npfidpool User Aux × Option Nat) := do
  let head ← bucket fp hash
  match ← find fidPtr fp.fids (fun _ f => some (decide (f.fid = fid))) fp.made head with
  | none => return (fp, none)
  | some f =>
      if head = some f then return (fp, some f)
      let record ← fp.fids f
      -- `f->prev` is followed without a test.
      let _ ← record.prev
      let fids ← unlink fidPtr fp.fids record
      let fids ← append fidPtr.flip fids head f record
      return ({ fp with fids, htable := Function.update fp.htable hash (some f) }, some f)

/-- The remainder by a size, which must not be 0. -/
def hashOf (fid : UInt32) (size : Nat) : Option Nat := if size = 0 then none else some (fid.toNat % size)

def fidFind (fp : Npfidpool User Aux) (fid : UInt32) : Option (Npfidpool User Aux × Option Nat) := do
  lookup fp fid (← hashOf fid fp.size)

/-- A new fid, before it is in its list. -/
def newFid (fid : UInt32) (aux : Aux) : Npfid User Aux :=
  { fid, refcount := 0, omode := 0xFFFF, type := 0, diroffset := 0, user := none, aux, next := none, prev := none }

/-- `np_fid_create`, with what the allocation gives if there is one: an address that is not in use, or none. -/
def fidCreate (fp : Npfidpool User Aux) (fid : UInt32) (aux : Aux) (malloc : Option Nat) :
    Option (Npfidpool User Aux × Option Nat) := do
  let hash := fid.toNat % fidHtableSize
  match ← lookup fp fid hash with
  | (fp, some f) => return (fp, some f)
  | (fp, none) =>
      match malloc.filter fun f => (fp.fids f).isNone with
      | none => return (fp, none)
      | some f =>
          let head ← bucket fp hash
          let fids ← append fidPtr.flip fp.fids head f (newFid fid aux)
          return ({ fp with fids, htable := Function.update fp.htable hash (some f), made := fp.made + 1 }, some f)

/-- `np_fid_destroy` of a fid of the connection; the pool is there. -/
def fidDestroy (fp : Npfidpool User Aux) (f : Nat) : Option (Npfidpool User Aux) := do
  let record ← fp.fids f
  let hash ← hashOf record.fid fp.size
  let _ ← bucket fp hash
  let fids ← unlink fidPtr.flip fp.fids record
  return { fp with
    htable := if record.prev = none then Function.update fp.htable hash record.next else fp.htable
    fids := Function.update fids f none }

inductive Call (Aux : Type) where
  | create (fid : UInt32) (aux : Aux) (malloc : Option Nat)
  | find (fid : UInt32)
  | destroy (f : Nat)

/-- The pool, the fids that were created and not destroyed, and what the last call returned. -/
structure Calls (User Aux : Type) where
  fp : Npfidpool User Aux
  live : UInt32 → Option Nat
  answer : Option Nat

/-- The live fids after a call that found or made one. -/
def withFid (live : UInt32 → Option Nat) (fid : UInt32) : Option Nat → UInt32 → Option Nat
  | none => live
  | some f => Function.update live fid (some f)

def Calls.start : Calls User Aux := ⟨.create, fun _ => none, none⟩

def Calls.step (calls : Calls User Aux) : Call Aux → Option (Calls User Aux)
  | .create fid aux malloc => (fidCreate calls.fp fid aux malloc).map fun (fp, answer) =>
      ⟨fp, withFid calls.live fid answer, answer⟩
  | .find fid => (fidFind calls.fp fid).map fun (fp, answer) => ⟨fp, calls.live, answer⟩
  | .destroy f => (fidDestroy calls.fp f).map fun fp =>
      ⟨fp, fun fid => if calls.live fid = some f then none else calls.live fid, none⟩

/-- Only a live fid is destroyed. -/
def Calls.Allowed (calls : Calls User Aux) : Call Aux → Prop
  | .destroy f => ∃ fid, calls.live fid = some f
  | _ => True

/-- The number of a fid. -/
def numberOf (fp : Npfidpool User Aux) (f : Nat) : Option UInt32 := (fp.fids f).map Npfid.fid

/-- The fids of a bucket, in order, are linked both ways, and are the live fids that hash to it. -/
structure Bucket (fp : Npfidpool User Aux) (live : UInt32 → Option Nat) (hash : Nat) (nodes : List Nat) : Prop where
  first : fp.htable hash = nodes.head?
  linked : Doubly fidPtr fp.fids nodes
  exact : ∀ f, f ∈ nodes ↔ ∃ fid, live fid = some f ∧ fid.toNat % fp.size = hash

structure WellFormed (fp : Npfidpool User Aux) (live : UInt32 → Option Nat) : Prop where
  size : fp.size = fidHtableSize
  buckets : ∀ hash < fp.size, ∃ nodes, Bucket fp live hash nodes ∧ (nodes.map (numberOf fp)).Nodup
  numbers : ∀ fid f, live fid = some f → numberOf fp f = some fid

/-- What a call has to return. -/
def Answers (live : UInt32 → Option Nat) : Call Aux → Option Nat → Prop
  | .create fid _ _, answer =>
      match live fid with
      | some f => answer = some f
      | none => answer = none ∨ ∃ f, answer = some f ∧ ∀ other, live other ≠ some f
  | .find fid, answer => answer = live fid
  | .destroy _, _ => True

/-- The lists of all buckets. -/
structure Holds (fp : Npfidpool User Aux) (live : UInt32 → Option Nat) (lists : Nat → List Nat) : Prop where
  size : fp.size = fidHtableSize
  bucket : ∀ hash < fp.size, Bucket fp live hash (lists hash)
  short : ∀ hash < fp.size, (lists hash).length ≤ fp.made
  numbers : ∀ fid f, live fid = some f → numberOf fp f = some fid

section Holds

variable {fp : Npfidpool User Aux} {live live' : UInt32 → Option Nat} {lists : Nat → List Nat} {fid : UInt32}
  {hash : Nat}

theorem Holds.positive (holds : Holds fp live lists) : 0 < fp.size := by
  rw [holds.size]
  decide

theorem Holds.hash_lt (holds : Holds fp live lists) (fid : UInt32) : fid.toNat % fp.size < fp.size :=
  Nat.mod_lt _ holds.positive

/-- A fid has one number. -/
theorem Holds.unique (holds : Holds fp live lists) {other : UInt32} {f : Nat} (first : live fid = some f)
    (second : live other = some f) : fid = other :=
  Option.some.inj ((holds.numbers fid f first).symm.trans (holds.numbers other f second))

theorem Holds.wellFormed (holds : Holds fp live lists) : WellFormed fp live where
  size := holds.size
  numbers := holds.numbers
  buckets hash below := by
    have bucket := holds.bucket hash below
    refine ⟨lists hash, bucket, bucket.linked.distinct.map_on fun first inside second among same => ?_⟩
    obtain ⟨fid, here, -⟩ := (bucket.exact first).mp inside
    obtain ⟨other, there, -⟩ := (bucket.exact second).mp among
    have one : fid = other := Option.some.inj
      ((holds.numbers fid first here).symm.trans (same.trans (holds.numbers other second there)))
    rw [one, there] at here
    exact (Option.some.inj here).symm

/-- One bucket gets another list, and the others are as they were. -/
theorem Holds.replace (holds : Holds fp live lists) (below : hash < fp.size) {fids : Heap (Npfid User Aux)}
    {nodes : List Nat} {made : Nat} (linked : Doubly fidPtr fids nodes)
    (others : ∀ f, f ∉ lists hash → f ∉ nodes → fids f = fp.fids f)
    (apart : ∀ f ∈ nodes, f ∈ lists hash ∨ ∀ fid, live fid ≠ some f)
    (exact : ∀ f, f ∈ nodes ↔ ∃ fid, live' fid = some f ∧ fid.toNat % fp.size = hash)
    (same : ∀ fid, fid.toNat % fp.size ≠ hash → live' fid = live fid)
    (numbers : ∀ fid f, fid.toNat % fp.size = hash → live' fid = some f → (fids f).map Npfid.fid = some fid)
    (short : nodes.length ≤ made) (grows : fp.made ≤ made) :
    Holds ⟨fp.size, Function.update fp.htable hash nodes.head?, fids, made⟩ live'
      (Function.update lists hash nodes) := by
  have away : ∀ {f fid}, live fid = some f → fid.toNat % fp.size ≠ hash → fids f = fp.fids f := by
    intro f fid here different
    have outside : f ∉ lists hash := by
      intro inside
      obtain ⟨other, there, place⟩ := ((holds.bucket hash below).exact f).mp inside
      exact different (holds.unique here there ▸ place)
    exact others f outside fun inside => (apart f inside).elim outside fun never => never fid here
  refine ⟨holds.size, fun hash' below' => ?_, fun hash' below' => ?_, fun fid f here => ?_⟩
  · by_cases this : hash' = hash
    · subst this
      rw [Function.update_self]
      exact ⟨Function.update_self _ _ _, linked, exact⟩
    · have kept := holds.bucket hash' below'
      rw [Function.update_of_ne this]
      refine ⟨(Function.update_of_ne this _ _).trans kept.first, kept.linked.congr fun f inside => ?_, fun f => ?_⟩
      · obtain ⟨fid, here, place⟩ := (kept.exact f).mp inside
        exact away here fun place' => this (place.symm.trans place')
      · rw [kept.exact f]
        refine exists_congr fun fid => and_congr_left fun place => ?_
        rw [same fid fun place' => this (place.symm.trans place')]
  · by_cases this : hash' = hash
    · subst this
      rw [Function.update_self]
      exact short
    · rw [Function.update_of_ne this]
      exact (holds.short hash' below').trans grows
  · by_cases place : fid.toNat % fp.size = hash
    · exact numbers fid f place here
    · rw [same fid place] at here
      exact (congrArg (Option.map Npfid.fid) (away here place)).trans (holds.numbers fid f here)

/-- The list of its bucket has the fid with a number when it is live. -/
theorem Holds.find_live (holds : Holds fp live lists) (fid : UInt32) :
    (lists (fid.toNat % fp.size)).find? (fun f => decide (numberOf fp f = some fid)) = live fid := by
  have bucket := holds.bucket _ (holds.hash_lt fid)
  cases found : (lists (fid.toNat % fp.size)).find? (fun f => decide (numberOf fp f = some fid)) with
  | none =>
      cases here : live fid with
      | none => rfl
      | some f =>
          have inside := (bucket.exact f).mpr ⟨fid, here, rfl⟩
          exact absurd (decide_eq_true (holds.numbers fid f here)) (List.find?_eq_none.mp found f inside)
  | some f =>
      obtain ⟨other, here, -⟩ := (bucket.exact f).mp (List.mem_of_find?_eq_some found)
      have number : numberOf fp f = some fid := by simpa using List.find?_some found
      have one : other = fid := Option.some.inj ((holds.numbers other f here).symm.trans number)
      exact (one ▸ here).symm

theorem Holds.searched (holds : Holds fp live lists) (fid : UInt32) :
    find fidPtr fp.fids (fun _ f => some (decide (f.fid = fid))) fp.made (fp.htable (fid.toNat % fp.size)) = some (live fid) := by
  have bucket := holds.bucket _ (holds.hash_lt fid)
  rw [bucket.first, ← holds.find_live fid]
  refine find_eq bucket.linked.forward (holds.short _ (holds.hash_lt fid)) fun f inside => ?_
  obtain ⟨record, there⟩ := bucket.linked.live f inside
  exact ⟨record, there, by simp [numberOf, there]⟩

/-- A lookup finds the live fid, and the lists hold what they held. -/
theorem Holds.lookup (holds : Holds fp live lists) (fid : UInt32) :
    ∃ fp' lists', lookup fp fid (fid.toNat % fp.size) = some (fp', live fid) ∧ Holds fp' live lists' ∧
      fp'.size = fp.size := by
  have below := holds.hash_lt fid
  have bucket := holds.bucket _ below
  have here : FidPool.bucket fp (fid.toNat % fp.size) = some (fp.htable (fid.toNat % fp.size)) := if_pos below
  simp only [FidPool.lookup, here, Option.bind_eq_bind, Option.bind_some, holds.searched fid]
  cases alive : live fid with
  | none => exact ⟨fp, lists, rfl, holds, rfl⟩
  | some f =>
      dsimp only
      by_cases head : fp.htable (fid.toNat % fp.size) = some f
      · rw [if_pos head]
        exact ⟨fp, lists, rfl, holds, rfl⟩
      have inside := (bucket.exact f).mpr ⟨fid, alive, rfl⟩
      obtain ⟨before, after, nodes⟩ := List.append_of_mem inside
      have linked := bucket.linked
      rw [nodes] at linked
      obtain ⟨record, there⟩ := linked.live f (List.mem_append_right _ List.mem_cons_self)
      obtain ⟨first, before, rfl⟩ : ∃ first rest, before = first :: rest := by
        refine List.exists_cons_of_ne_nil ?_
        rintro rfl
        rw [bucket.first, nodes] at head
        exact head rfl
      have top : fp.htable (fid.toNat % fp.size) = (first :: before ++ after).head? := by
        rw [bucket.first, nodes]
        rfl
      have prev : record.prev = some ((first :: before).getLast (List.cons_ne_nil _ _)) :=
        (linked.prev there).trans (List.getLast?_eq_some_getLast _)
      obtain ⟨apart, fids, unlinked, pushed, joined, outside, kept⟩ := linked.toFront there
      rw [if_neg head, there]
      simp only [Option.bind_some, prev, unlinked, top, pushed]
      have moved : (lists (fid.toNat % fp.size)).Perm (f :: (first :: before ++ after)) := nodes ▸ List.perm_middle
      refine ⟨_, Function.update lists (fid.toNat % fp.size) (f :: (first :: before ++ after)), rfl, ?_, rfl⟩
      refine holds.replace below joined ?_ (fun other among => .inl (moved.mem_iff.mpr among)) ?_ (fun _ _ => rfl) ?_
        (moved.length_eq ▸ holds.short _ below) (Nat.le_refl _)
      · exact fun other absent _ => outside other (nodes ▸ absent)
      · intro other
        rw [← moved.mem_iff, bucket.exact]
      · intro fid' f' _ alive'
        rw [kept Npfid.fid (fun _ _ => rfl) (fun _ _ => rfl)]
        exact holds.numbers fid' f' alive'

theorem Holds.find (holds : Holds fp live lists) (fid : UInt32) :
    ∃ fp' lists', fidFind fp fid = some (fp', live fid) ∧ Holds fp' live lists' := by
  obtain ⟨fp', lists', found, holds', -⟩ := holds.lookup fid
  refine ⟨fp', lists', ?_, holds'⟩
  rw [fidFind, hashOf, if_neg holds.positive.ne', Option.bind_eq_bind, Option.bind_some, found]

theorem Holds.create (holds : Holds fp live lists) (fid : UInt32) (aux : Aux) (malloc : Option Nat) :
    ∃ fp' lists' answer, fidCreate fp fid aux malloc = some (fp', answer) ∧
      Answers live (.create fid aux malloc) answer ∧
      Holds fp' (withFid live fid answer) lists' := by
  obtain ⟨fp', lists', found, holds', size⟩ := holds.lookup fid
  have hash : fid.toNat % fidHtableSize = fid.toNat % fp.size := by rw [holds.size]
  rw [fidCreate]
  simp only [hash, found, Option.bind_eq_bind, Option.bind_some, Answers]
  cases alive : live fid with
  | some f =>
      refine ⟨fp', lists', some f, rfl, rfl, ?_⟩
      rw [withFid, ← alive, Function.update_eq_self]
      exact holds'
  | none =>
      dsimp only
      cases allocated : malloc.filter fun f => (fp'.fids f).isNone with
      | none => exact ⟨fp', lists', none, rfl, .inl rfl, holds'⟩
      | some f =>
          have fresh : fp'.fids f = none := by simpa using (Option.filter_eq_some_iff.mp allocated).2
          have unused : ∀ other, live other ≠ some f := by
            intro other here
            have number := holds'.numbers other f here
            rw [numberOf, fresh] at number
            cases number
          have below := holds'.hash_lt fid
          have bucket := holds'.bucket _ below
          have absent : f ∉ lists' (fid.toNat % fp'.size) := by
            intro inside
            obtain ⟨other, here, -⟩ := (bucket.exact f).mp inside
            exact unused other here
          obtain ⟨fids, pushed, joined, made, outside, kept⟩ := bucket.linked.push absent (newFid fid aux)
          have cell : FidPool.bucket fp' (fid.toNat % fp'.size) = some (fp'.htable (fid.toNat % fp'.size)) := if_pos below
          simp only [← size, cell, Option.bind_some, bucket.first, pushed]
          refine ⟨_, Function.update lists' (fid.toNat % fp'.size) (f :: lists' (fid.toNat % fp'.size)), some f, rfl,
            .inr ⟨f, rfl, unused⟩, ?_⟩
          rw [withFid]
          refine holds'.replace below joined ?_ ?_ ?_ ?_ ?_ (Nat.succ_le_succ (holds'.short _ below)) (Nat.le_succ _)
          · exact fun other _ absent => outside other absent
          · intro other among
            rcases List.mem_cons.mp among with rfl | inside
            · exact .inr unused
            · exact .inl inside
          · intro other
            rw [List.mem_cons, bucket.exact]
            constructor
            · rintro (rfl | ⟨fid', here, place⟩)
              · exact ⟨fid, Function.update_self _ _ _, rfl⟩
              · refine ⟨fid', ?_, place⟩
                rw [Function.update_of_ne, here]
                intro same
                rw [same, alive] at here
                cases here
            · rintro ⟨fid', here, place⟩
              by_cases this : fid' = fid
              · rw [this, Function.update_self] at here
                exact .inl (Option.some.inj here).symm
              · rw [Function.update_of_ne this] at here
                exact .inr ⟨fid', here, place⟩
          · intro fid' different
            refine Function.update_of_ne ?_ _ _
            rintro rfl
            exact different rfl
          · intro fid' other _ here
            by_cases this : fid' = fid
            · rw [this, Function.update_self] at here
              rw [← Option.some.inj here, made, this]
              rfl
            · rw [Function.update_of_ne this] at here
              rw [kept Npfid.fid (fun _ _ => rfl) other fun same => unused fid' (same ▸ here)]
              exact holds'.numbers fid' other here

theorem Holds.destroy (holds : Holds fp live lists) {f : Nat} (alive : live fid = some f) :
    ∃ fp' lists', fidDestroy fp f = some fp' ∧
      Holds fp' (fun fid => if live fid = some f then none else live fid) lists' := by
  have below := holds.hash_lt fid
  have bucket := holds.bucket _ below
  obtain ⟨before, after, nodes⟩ := List.append_of_mem ((bucket.exact f).mpr ⟨fid, alive, rfl⟩)
  have linked := bucket.linked
  rw [nodes] at linked
  obtain ⟨record, there⟩ := linked.live f (List.mem_append_right _ List.mem_cons_self)
  have number : record.fid = fid := by
    have number := holds.numbers fid f alive
    rw [numberOf, there] at number
    exact Option.some.inj number
  have alone : f ∉ before ++ after := by
    have distinct := linked.distinct
    rw [List.nodup_middle, List.nodup_cons] at distinct
    exact distinct.1
  have turned := linked.flip
  rw [List.reverse_append, List.reverse_cons, List.append_assoc, List.singleton_append] at turned
  obtain ⟨fids, unlinked, apart, outside, kept⟩ := turned.unlink there
  have joined := apart.flip
  rw [List.reverse_append, List.reverse_reverse, List.reverse_reverse] at joined
  have freed : ∀ other ∈ before ++ after, Function.update fids f none other = fids other := by
    intro other inside
    refine Function.update_of_ne ?_ _ _
    rintro rfl
    exact alone inside
  have head : (if record.prev = none then Function.update fp.htable (fid.toNat % fp.size) record.next else fp.htable) =
      Function.update fp.htable (fid.toNat % fp.size) (before ++ after).head? := by
    have next : record.next = after.head? := linked.next there
    have prev : record.prev = before.getLast? := linked.prev there
    rw [next, prev]
    cases before with
    | nil => rw [List.getLast?_nil, if_pos rfl, List.nil_append]
    | cons first rest =>
        have top : fp.htable (fid.toNat % fp.size) = (first :: rest ++ after).head? := by
          rw [bucket.first, nodes]
          rfl
        rw [if_neg (by simp), ← top, Function.update_eq_self]
  have here : FidPool.bucket fp (fid.toNat % fp.size) = some (fp.htable (fid.toNat % fp.size)) := if_pos below
  simp only [fidDestroy, there, number, hashOf, if_neg holds.positive.ne', here, Option.bind_eq_bind, Option.bind_some,
    unlinked, head]
  refine ⟨_, Function.update lists (fid.toNat % fp.size) (before ++ after), rfl, ?_⟩
  have left : ∀ other, other ∈ before ++ after ↔ other ∈ lists (fid.toNat % fp.size) ∧ other ≠ f := by
    intro other
    have moved : (lists (fid.toNat % fp.size)).Perm (f :: (before ++ after)) := nodes ▸ List.perm_middle
    rw [moved.mem_iff, List.mem_cons]
    constructor
    · intro inside
      refine ⟨.inr inside, ?_⟩
      rintro rfl
      exact alone inside
    · rintro ⟨here | inside, different⟩
      · exact absurd here different
      · exact inside
  refine holds.replace below (joined.congr freed) ?_ (fun other among => .inl ((left other).mp among).1) ?_ ?_ ?_ ?_
    (Nat.le_refl _)
  · intro other absent _
    have different : other ≠ f := by
      rintro rfl
      exact absent ((bucket.exact other).mpr ⟨fid, alive, rfl⟩)
    rw [Function.update_of_ne different]
    refine outside other fun inside => absent ((left other).mp ?_).1
    rw [List.mem_append, List.mem_reverse, List.mem_reverse] at inside
    exact List.mem_append.mpr inside.symm
  · intro other
    rw [left, bucket.exact]
    constructor
    · rintro ⟨⟨fid', here, place⟩, different⟩
      refine ⟨fid', ?_, place⟩
      rw [if_neg fun same => different (Option.some.inj (here.symm.trans same)), here]
    · rintro ⟨fid', here, place⟩
      split at here
      · cases here
      · rename_i different
        exact ⟨⟨fid', here, place⟩, fun same => different (same ▸ here)⟩
  · intro fid' different
    refine if_neg fun same => different ?_
    rw [holds.unique same alive]
  · intro fid' other place here
    split at here
    · cases here
    · rename_i different
      have inside := (left other).mpr ⟨(bucket.exact other).mpr ⟨fid', here, place⟩, fun same => different (same ▸ here)⟩
      rw [freed other inside, kept Npfid.fid (fun _ _ => rfl) (fun _ _ => rfl)]
      exact holds.numbers fid' other here
  · have shorter := holds.short _ below
    rw [nodes, List.length_append, List.length_cons] at shorter
    rw [List.length_append]
    omega

end Holds

theorem holds_start : Holds (Npfidpool.create : Npfidpool User Aux) (fun _ => none) fun _ => [] where
  size := rfl
  bucket hash _ := ⟨rfl, ⟨List.nodup_nil, fun _ among => absurd among List.not_mem_nil, trivial, trivial⟩, fun f => by simp⟩
  short hash _ := Nat.zero_le _
  numbers fid f here := by cases here

/-- A call on a pool with its lists is defined, returns what it has to, and leaves a pool with its lists. -/
theorem step_holds {calls : Calls User Aux} {call : Call Aux} (holds : ∃ lists, Holds calls.fp calls.live lists)
    (allowed : calls.Allowed call) : ∃ next, calls.step call = some next ∧
      (WellFormed next.fp next.live ∧ Answers calls.live call next.answer) ∧
      ∃ lists, Holds next.fp next.live lists := by
  obtain ⟨lists, holds⟩ := holds
  cases call with
  | create fid aux malloc =>
      obtain ⟨fp, lists', answer, made, answers, holds'⟩ := holds.create fid aux malloc
      rw [Calls.step, made]
      exact ⟨_, rfl, ⟨holds'.wellFormed, answers⟩, lists', holds'⟩
  | find fid =>
      obtain ⟨fp, lists', found, holds'⟩ := holds.find fid
      rw [Calls.step, found]
      exact ⟨_, rfl, ⟨holds'.wellFormed, rfl⟩, lists', holds'⟩
  | destroy f =>
      obtain ⟨fid, alive⟩ := allowed
      obtain ⟨fp, lists', freed, holds'⟩ := holds.destroy alive
      rw [Calls.step, freed]
      exact ⟨_, rfl, ⟨holds'.wellFormed, trivial⟩, lists', holds'⟩

/-- Whatever the calls are, every bucket is a well-formed list of exactly its live fids after each of them, and a
fid is found when it is live. -/
theorem calls_wellFormed (calls : List (Call Aux))
    (allowed : Guarded Calls.step Calls.Allowed (Calls.start : Calls User Aux) calls) :
    EachStep Calls.step
      (fun before call after => WellFormed after.fp after.live ∧ Answers before.live call after.answer)
      (Calls.start : Calls User Aux) calls := by
  have start : ∃ lists, Holds (Calls.start : Calls User Aux).fp (Calls.start : Calls User Aux).live lists :=
    ⟨_, holds_start⟩
  exact eachStep_of_progress Calls.step (fun _ _ holds allowed => step_holds holds allowed) start allowed

/-- Two fids of one bucket; the one at the back is found, and the other one destroyed. -/
theorem sharedBucket_wellFormed :
    EachStep Calls.step
      (fun before call after => WellFormed after.fp after.live ∧ Answers before.live call after.answer)
      (Calls.start : Calls Unit Unit) [.create 1 () (some 10), .create 65 () (some 11), .find 1, .destroy 11] := by
  refine calls_wellFormed _ ⟨trivial, fun first made => ⟨trivial, fun second added => ⟨trivial, fun third found => ?_⟩⟩⟩
  cases made
  cases added
  cases found
  exact ⟨⟨65, rfl⟩, fun _ _ => trivial⟩

end Xcpu.Libnpfs.FidPool
