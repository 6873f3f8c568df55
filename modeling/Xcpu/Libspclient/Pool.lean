import Mathlib.Data.BitVec
import Xcpu.Lib.Bitmap
import Xcpu.Lib.Transition

/-!
The identifier pool of the client library, which hands out tags and fids, over the
bitmap it keeps. `grows` is whether the `realloc` of the call succeeds.
-/

namespace Xcpu.Libspclient

open Xcpu.Bitmap Xcpu.Transition

def m2id : List Nat := [
  0, 1, 0, 2, 0, 1, 0, 3, 0, 1, 0, 2, 0, 1, 0, 4, 0, 1, 0, 2, 0, 1, 0, 3, 0, 1, 0, 2, 0, 1, 0, 5,
  0, 1, 0, 2, 0, 1, 0, 3, 0, 1, 0, 2, 0, 1, 0, 4, 0, 1, 0, 2, 0, 1, 0, 3, 0, 1, 0, 2, 0, 1, 0, 6,
  0, 1, 0, 2, 0, 1, 0, 3, 0, 1, 0, 2, 0, 1, 0, 4, 0, 1, 0, 2, 0, 1, 0, 3, 0, 1, 0, 2, 0, 1, 0, 5,
  0, 1, 0, 2, 0, 1, 0, 3, 0, 1, 0, 2, 0, 1, 0, 4, 0, 1, 0, 2, 0, 1, 0, 3, 0, 1, 0, 2, 0, 1, 0, 7,
  0, 1, 0, 2, 0, 1, 0, 3, 0, 1, 0, 2, 0, 1, 0, 4, 0, 1, 0, 2, 0, 1, 0, 3, 0, 1, 0, 2, 0, 1, 0, 5,
  0, 1, 0, 2, 0, 1, 0, 3, 0, 1, 0, 2, 0, 1, 0, 4, 0, 1, 0, 2, 0, 1, 0, 3, 0, 1, 0, 2, 0, 1, 0, 6,
  0, 1, 0, 2, 0, 1, 0, 3, 0, 1, 0, 2, 0, 1, 0, 4, 0, 1, 0, 2, 0, 1, 0, 3, 0, 1, 0, 2, 0, 1, 0, 5,
  0, 1, 0, 2, 0, 1, 0, 3, 0, 1, 0, 2, 0, 1, 0, 4, 0, 1, 0, 2, 0, 1, 0, 3, 0, 1, 0, 2, 0, 1, 0, 0]

structure Spcpool where
  maxid : UInt32
  -- the length of the list is the source's msize
  map : List (BitVec 8)

def spcCreatePool (maxid : UInt32) : Spcpool := ⟨maxid, List.replicate 32 0#8⟩

def wrap32 (value : Nat) : Nat := value % 4294967296

/-- The byte the search stops at: the first that is not 0xFF, or `msize`. -/
def Spcpool.search (pool : Spcpool) : Nat := pool.map.findIdx (· ≠ BitVec.allOnes 8)

def Spcpool.grownSize (pool : Spcpool) : Nat :=
  if pool.maxid.toNat < wrap32 ((pool.map.length + 32) * 8) then pool.maxid.toNat / 8 + 1
  else pool.map.length + 32

def Spcpool.grow (pool : Spcpool) (grows : Bool) : Spcpool :=
  if pool.map.length ≤ pool.search ∧ wrap32 (pool.map.length * 8) < pool.maxid.toNat ∧ grows then
    { pool with map := pool.map ++ List.replicate (pool.grownSize - pool.map.length) 0#8 }
  else pool

def Spcpool.take (pool : Spcpool) (index : Nat) : Nat × Spcpool :=
  if h : index < pool.map.length then
    (wrap32 (m2id[pool.map[index].toNat]?.getD 0 + index * 8),
      { pool with map := setBit pool.map index (m2id[pool.map[index].toNat]?.getD 0) })
  else (pool.map.length, pool)

def spcGetId (pool : Spcpool) (grows : Bool) : Nat × Spcpool :=
  (pool.grow grows).take pool.search

/-- `none` is a write outside the bitmap. -/
def spcPutId (pool : Spcpool) (id : Nat) : Option Spcpool :=
  if pool.maxid.toNat ≤ id then some pool
  else if id / 8 < pool.map.length then some { pool with map := clearBit pool.map (id / 8) (id % 8) }
  else none

/-- A clear bit is there or can be had: the bitmap is not full, or below its limit and grows. -/
def Spcpool.HasRoom (pool : Spcpool) (grows : Bool) : Prop :=
  pool.search < pool.map.length ∨ pool.map.length * 8 < pool.maxid.toNat ∧ grows = true

structure Spcpool.Sized (pool : Spcpool) : Prop where
  started : 32 ≤ pool.map.length
  addressable : pool.map.length ≤ 536870912
  chunks : 32 ∣ pool.map.length ∨ pool.maxid.toNat < pool.map.length * 8
  close : pool.map.length = 32 ∨ pool.map.length ≤ pool.maxid.toNat / 8 + 1 ∨
    pool.map.length = 536870912 ∧ 4294967040 < pool.maxid.toNat

theorem spcCreatePool_sized (maxid : UInt32) : (spcCreatePool maxid).Sized := by
  constructor
  · simp [spcCreatePool]
  · simp [spcCreatePool]
  · left
    simp [spcCreatePool]
  · left
    simp [spcCreatePool]

def lowestClear (byte bit : Nat) : Bool :=
  decide (bit < 8) && !byte.testBit bit && (List.range bit).all byte.testBit

theorem m2id_all_lowest : m2id.length = 256 ∧
    ((m2id.take 255).zipIdx.all fun (bit, byte) => lowestClear byte bit) = true := by
  decide +kernel

theorem m2id_lowest_below (byte : Nat) (small : byte < 255) : lowestClear byte (m2id[byte]?.getD 0) = true := by
  have inside : byte < m2id.length := by
    have length := m2id_all_lowest.1
    omega
  have entry : ((m2id.take 255).zipIdx)[byte]? = some (m2id[byte], byte) := by
    rw [List.getElem?_zipIdx, List.getElem?_take_of_lt small, List.getElem?_eq_getElem inside]
    simp
  have lowest := List.all_eq_true.mp m2id_all_lowest.2 _ (List.mem_of_getElem? entry)
  rw [List.getElem?_eq_getElem inside]
  exact lowest

/-- The table names the lowest clear bit of every byte but 0xFF. -/
theorem m2id_lowest (byte : BitVec 8) (clear : byte ≠ BitVec.allOnes 8) :
    m2id[byte.toNat]?.getD 0 < 8 ∧ byte.getLsbD (m2id[byte.toNat]?.getD 0) = false ∧
      ∀ bit < m2id[byte.toNat]?.getD 0, byte.getLsbD bit = true := by
  have small : byte.toNat < 255 := by
    have bound := byte.isLt
    have other : byte.toNat ≠ 255 := fun same => clear (BitVec.eq_of_toNat_eq same)
    omega
  have entry := m2id_lowest_below byte.toNat small
  simp only [lowestClear, Bool.and_eq_true, decide_eq_true_eq, Bool.not_eq_true', List.all_eq_true,
    List.mem_range] at entry
  exact ⟨entry.1.1, entry.1.2, entry.2⟩

theorem bitAt_before_search (pool : Spcpool) (id : Nat) (before : id / 8 < pool.search) :
    bitAt pool.map id = true := bitAt_before_findIdx pool.map id (by decide) before

theorem search_le (pool : Spcpool) : pool.search ≤ pool.map.length := List.findIdx_le_length

theorem grow_bits (pool : Spcpool) (grows : Bool) (id : Nat) :
    bitAt (pool.grow grows).map id = bitAt pool.map id := by
  unfold Spcpool.grow
  split
  · exact bitAt_append_zeros ..
  · rfl

theorem grow_maxid (pool : Spcpool) (grows : Bool) : (pool.grow grows).maxid = pool.maxid := by
  unfold Spcpool.grow
  split <;> rfl

theorem grownSize_spec (pool : Spcpool) (sized : pool.Sized)
    (below : pool.map.length * 8 < pool.maxid.toNat) :
    pool.map.length < pool.grownSize ∧ pool.grownSize ≤ 536870912 ∧
      (32 ∣ pool.grownSize ∨ pool.maxid.toNat < pool.grownSize * 8) ∧
      (pool.grownSize ≤ pool.maxid.toNat / 8 + 1 ∨
        pool.grownSize = 536870912 ∧ 4294967040 < pool.maxid.toNat) := by
  have limit : pool.maxid.toNat < 4294967296 := UInt32.toNat_lt pool.maxid
  have chunk : 32 ∣ pool.map.length := by
    rcases sized.chunks with chunk | beyond
    · exact chunk
    · omega
  unfold Spcpool.grownSize wrap32
  split <;> omega

theorem grow_search (pool : Spcpool) (grows : Bool) (sized : pool.Sized)
    (room : pool.HasRoom grows) :
    (pool.grow grows).Sized ∧ ∃ inside : pool.search < (pool.grow grows).map.length,
      (pool.grow grows).map[pool.search] ≠ BitVec.allOnes 8 := by
  have limit : pool.maxid.toNat < 4294967296 := UInt32.toNat_lt pool.maxid
  unfold Spcpool.grow
  by_cases found : pool.search < pool.map.length
  · rw [if_neg (by omega)]
    refine ⟨sized, found, ?_⟩
    have stopped := List.findIdx_getElem (w := found)
    simpa [Spcpool.search] using stopped
  · rcases room with free | ⟨below, grown⟩
    · exact absurd free found
    · obtain ⟨more, addressable, chunks, close⟩ := grownSize_spec pool sized below
      have ended : pool.search = pool.map.length :=
        Nat.le_antisymm (search_le pool) (Nat.le_of_not_lt found)
      have unwrapped : wrap32 (pool.map.length * 8) < pool.maxid.toNat := by
        unfold wrap32
        omega
      rw [if_pos ⟨Nat.le_of_not_lt found, unwrapped, grown⟩]
      have length : (pool.map ++ List.replicate (pool.grownSize - pool.map.length) 0#8).length =
          pool.grownSize := by
        simp
        omega
      have started := sized.started
      refine ⟨⟨?_, ?_, ?_, ?_⟩, ?_, ?_⟩
      · simp only [length]
        omega
      · simp only [length]
        exact addressable
      · simp only [length]
        exact chunks
      · simp only [length]
        exact Or.inr close
      · simp only [length]
        omega
      · simp only [ended]
        rw [List.getElem_append_right (Nat.le_refl _)]
        simp

theorem spcGetId_room (pool : Spcpool) (grows : Bool) (sized : pool.Sized)
    (room : pool.HasRoom grows) :
    bitAt pool.map (spcGetId pool grows).1 = false ∧
      (∀ id < (spcGetId pool grows).1, bitAt pool.map id = true) ∧
      (spcGetId pool grows).1 / 8 < (spcGetId pool grows).2.map.length ∧
      (spcGetId pool grows).2.maxid = pool.maxid ∧ (spcGetId pool grows).2.Sized ∧
      ∀ id, bitAt (spcGetId pool grows).2.map id =
        (decide (id = (spcGetId pool grows).1) || bitAt pool.map id) := by
  obtain ⟨grownSized, inside, clear⟩ := grow_search pool grows sized room
  obtain ⟨small, free, lower⟩ := m2id_lowest _ clear
  have addressable := grownSized.addressable
  unfold spcGetId Spcpool.take
  rw [dif_pos inside]
  generalize entryEq : m2id[((pool.grow grows).map[pool.search]).toNat]?.getD 0 = entry at *
  have exact : wrap32 (entry + pool.search * 8) = pool.search * 8 + entry := by
    unfold wrap32
    omega
  simp only [exact]
  have word : (pool.search * 8 + entry) / 8 = pool.search ∧
      (pool.search * 8 + entry) % 8 = entry := by omega
  refine ⟨?_, ?_, ?_, grow_maxid pool grows, ?_, ?_⟩
  · rw [← grow_bits pool grows, bitAt, word.1, word.2, List.getElem?_eq_getElem inside]
    exact free
  · intro id before
    by_cases earlier : id / 8 < pool.search
    · exact bitAt_before_search pool id earlier
    · have here : id / 8 = pool.search := by omega
      rw [← grow_bits pool grows, bitAt, here, List.getElem?_eq_getElem inside]
      exact lower _ (by omega)
  · rw [setBit_length, word.1]
    exact inside
  · exact ⟨by simpa using grownSized.started, by simpa using grownSized.addressable, by simpa using grownSized.chunks,
      by simpa using grownSized.close⟩
  · intro id
    rw [bitAt_setBit _ _ _ _ small inside, grow_bits]

theorem spcGetId_full (pool : Spcpool) (grows : Bool) (full : pool.map.length ≤ pool.search)
    (stays : pool.maxid.toNat ≤ wrap32 (pool.map.length * 8) ∨ grows = false) :
    spcGetId pool grows = (pool.map.length, pool) := by
  have same : pool.grow grows = pool := by
    unfold Spcpool.grow
    rw [if_neg]
    rintro ⟨_, below, grown⟩
    rcases stays with atLimit | failed
    · omega
    · rw [failed] at grown
      contradiction
  unfold spcGetId Spcpool.take
  rw [same, dif_neg (by omega)]

inductive PoolEvent where
  | get (grows : Bool)
  | put (id : Nat)

/-- A pool and the identifiers its callers hold. A value from `maxid` on is no identifier. -/
structure PoolUse where
  pool : Spcpool
  held : List Nat

def PoolUse.fresh (maxid : UInt32) : PoolUse := ⟨spcCreatePool maxid, []⟩

/-- Callers put back only what they hold. -/
def PoolUse.step (use : PoolUse) : PoolEvent → Option PoolUse
  | .get grows =>
      let (id, pool) := spcGetId use.pool grows
      some ⟨pool, if id < pool.maxid.toNat then id :: use.held else use.held⟩
  | .put id =>
      if id ∈ use.held then (spcPutId use.pool id).map fun pool => ⟨pool, use.held.erase id⟩
      else none

structure PoolUse.Valid (use : PoolUse) : Prop where
  sized : use.pool.Sized
  distinct : use.held.Nodup
  below : ∀ id ∈ use.held, id < use.pool.maxid.toNat
  marked : ∀ id < use.pool.maxid.toNat, bitAt use.pool.map id = true ↔ id ∈ use.held

def PoolUse.Unexhausted (use : PoolUse) : PoolEvent → Prop
  | .get grows => use.pool.HasRoom grows ∨ use.pool.maxid.toNat ≤ use.pool.map.length
  | .put _ => True

/-- The answer a caller may rely on: a new identifier while there is one, else no identifier. -/
def PoolUse.Answers (use : PoolUse) : PoolEvent → PoolUse → Prop
  | .get grows, _ =>
      if use.held.length < use.pool.maxid.toNat then
        (spcGetId use.pool grows).1 < use.pool.maxid.toNat ∧ (spcGetId use.pool grows).1 ∉ use.held
      else use.pool.maxid.toNat ≤ (spcGetId use.pool grows).1
  | .put _, _ => True

theorem PoolUse.fresh_valid (maxid : UInt32) : (PoolUse.fresh maxid).Valid := by
  refine ⟨spcCreatePool_sized maxid, List.nodup_nil, ?_, ?_⟩
  · intro id none
    exact absurd none List.not_mem_nil
  · intro id _
    have clear := bitAt_append_zeros ([] : List (BitVec 8)) 32 id
    rw [List.nil_append, bitAt_outside [] id (Nat.zero_le _)] at clear
    change bitAt (List.replicate 32 0#8) id = true ↔ id ∈ []
    rw [clear]
    simp

theorem not_hasRoom (pool : Spcpool) (grows : Bool) (full : ¬ pool.HasRoom grows) :
    pool.search = pool.map.length ∧ (pool.maxid.toNat ≤ pool.map.length * 8 ∨ grows = false) := by
  unfold Spcpool.HasRoom at full
  have reached := search_le pool
  constructor
  · by_contra earlier
    exact full (Or.inl (by omega))
  · by_cases below : pool.map.length * 8 < pool.maxid.toNat
    · right
      cases grows with
      | false => rfl
      | true => exact absurd (Or.inr ⟨below, rfl⟩) full
    · exact Or.inl (by omega)

theorem spcGetId_wrapped (pool : Spcpool) (ended : pool.search = pool.map.length)
    (whole : pool.map.length = 536870912) (limit : 256 < pool.maxid.toNat) :
    (spcGetId pool true).1 = 0 := by
  have wraps : wrap32 (pool.map.length * 8) < pool.maxid.toNat := by
    unfold wrap32
    omega
  have next : pool.grownSize = pool.map.length + 32 := by
    unfold Spcpool.grownSize wrap32
    rw [if_neg (by omega)]
  have grown : pool.grow true =
      { pool with map := pool.map ++ List.replicate (pool.grownSize - pool.map.length) 0#8 } := by
    unfold Spcpool.grow
    rw [if_pos ⟨by omega, wraps, rfl⟩]
  have inside : pool.search < (pool.grow true).map.length := by
    rw [grown]
    simp
    omega
  have zero : (pool.grow true).map[pool.search] = 0#8 := by
    simp only [grown, ended]
    rw [List.getElem_append_right (Nat.le_refl _)]
    simp
  unfold spcGetId Spcpool.take
  rw [dif_pos inside]
  simp only [zero]
  change wrap32 (0 + pool.search * 8) = 0
  unfold wrap32
  omega

theorem PoolUse.exhausted_answer (use : PoolUse) (grows : Bool) (valid : use.Valid)
    (full : ¬ use.pool.HasRoom grows) (small : use.pool.map.length < use.pool.maxid.toNat) :
    (spcGetId use.pool grows).1 ∈ use.held := by
  obtain ⟨ended, stuck⟩ := not_hasRoom use.pool grows full
  have started := valid.sized.started
  have addressable := valid.sized.addressable
  have limit : use.pool.maxid.toNat < 4294967296 := UInt32.toNat_lt use.pool.maxid
  by_cases stays : use.pool.maxid.toNat ≤ wrap32 (use.pool.map.length * 8) ∨ grows = false
  · rw [spcGetId_full use.pool grows (by omega) stays]
    exact (valid.marked _ small).mp (bitAt_before_search _ _ (by omega))
  · rw [not_or] at stays
    obtain ⟨wraps, grown⟩ := stays
    simp only [Bool.not_eq_false] at grown
    subst grows
    have atLimit := stuck.resolve_right (by decide)
    unfold wrap32 at wraps
    rw [spcGetId_wrapped use.pool ended (by omega) (by omega)]
    exact (valid.marked 0 (by omega)).mp (bitAt_before_search _ _ (by omega))

theorem PoolUse.get_answers (use : PoolUse) (grows : Bool) (valid : use.Valid)
    (room : use.pool.HasRoom grows) :
    if use.held.length < use.pool.maxid.toNat then
      (spcGetId use.pool grows).1 < use.pool.maxid.toNat ∧ (spcGetId use.pool grows).1 ∉ use.held
    else use.pool.maxid.toNat ≤ (spcGetId use.pool grows).1 := by
  obtain ⟨clear, lower, _⟩ := spcGetId_room use.pool grows valid.sized room
  generalize (spcGetId use.pool grows).1 = id at *
  have unheld : id < use.pool.maxid.toNat → id ∉ use.held := by
    intro small held
    rw [(valid.marked id small).mpr held] at clear
    contradiction
  split
  · rename_i fewer
    obtain ⟨missing, small, unmarked⟩ := exists_missing use.held _ fewer
    have lowest : ¬ missing < id := fun before =>
      unmarked ((valid.marked missing small).mp (lower missing before))
    exact ⟨by omega, unheld (by omega)⟩
  · rename_i enough
    by_contra small
    exact unheld (by omega)
      (mem_of_length valid.distinct valid.below (by omega) id (by omega))

theorem PoolUse.full_answers (use : PoolUse) (grows : Bool) (valid : use.Valid)
    (full : ¬ use.pool.HasRoom grows) (large : use.pool.maxid.toNat ≤ use.pool.map.length) :
    spcGetId use.pool grows = (use.pool.map.length, use.pool) ∧
      ¬ use.held.length < use.pool.maxid.toNat := by
  obtain ⟨ended, _⟩ := not_hasRoom use.pool grows full
  have close := valid.sized.close
  have started := valid.sized.started
  constructor
  · apply spcGetId_full use.pool grows (by omega)
    left
    unfold wrap32
    omega
  · intro fewer
    obtain ⟨missing, small, unmarked⟩ := exists_missing use.held _ fewer
    exact unmarked ((valid.marked missing small).mp
      (bitAt_before_search use.pool missing (by omega)))

theorem PoolUse.answers_iff (use next : PoolUse) (event : PoolEvent) (valid : use.Valid) :
    use.Answers event next ↔ use.Unexhausted event := by
  cases event with
  | put id => exact Iff.rfl
  | get grows =>
      by_cases room : use.pool.HasRoom grows
      · exact ⟨fun _ => Or.inl room, fun _ => use.get_answers grows valid room⟩
      constructor
      · intro answers
        right
        by_contra small
        have taken := use.exhausted_answer grows valid room (by omega)
        simp only [PoolUse.Answers] at answers
        split at answers
        · exact answers.2 taken
        · have below := valid.below _ taken
          omega
      · intro allowed
        have large := allowed.resolve_left room
        obtain ⟨answer, enough⟩ := use.full_answers grows valid room large
        simp only [PoolUse.Answers, if_neg enough, answer]
        exact large

theorem PoolUse.step_undefined (use : PoolUse) (event : PoolEvent) (undefined : use.step event = none) :
    use.Unexhausted event := by
  cases event with
  | get grows => simp [PoolUse.step] at undefined
  | put id => trivial

theorem PoolUse.step_valid (use next : PoolUse) (event : PoolEvent) (valid : use.Valid)
    (allowed : use.Unexhausted event) (stepped : use.step event = some next) : next.Valid := by
  cases event with
  | get grows =>
      simp only [PoolUse.step, Option.some.injEq] at stepped
      subst next
      by_cases room : use.pool.HasRoom grows
      · obtain ⟨clear, _, _, limit, sized, bits⟩ := spcGetId_room use.pool grows valid.sized room
        generalize spcGetId use.pool grows = answer at *
        obtain ⟨id, pool⟩ := answer
        simp only at clear limit sized bits ⊢
        rw [limit]
        have unheld : id < use.pool.maxid.toNat → id ∉ use.held := by
          intro small held
          rw [(valid.marked id small).mpr held] at clear
          contradiction
        split
        · rename_i small
          refine ⟨sized, List.nodup_cons.mpr ⟨unheld small, valid.distinct⟩, ?_, ?_⟩
          · intro held member
            simp only [limit]
            rcases List.mem_cons.mp member with new | old
            · omega
            · exact valid.below held old
          · intro other bound
            simp only [limit] at bound
            simp only [bits, Bool.or_eq_true, decide_eq_true_eq, List.mem_cons,
              valid.marked other bound]
        · rename_i large
          refine ⟨sized, valid.distinct, ?_, ?_⟩
          · intro held member
            simp only [limit]
            exact valid.below held member
          · intro other bound
            simp only [limit] at bound
            have different : other ≠ id := by omega
            simp only [bits, different, decide_false, Bool.false_or, valid.marked other bound]
      · have large := allowed.resolve_left room
        obtain ⟨answer, _⟩ := use.full_answers grows valid room large
        rw [answer]
        simp only [if_neg (Nat.not_lt.mpr large)]
        exact valid
  | put id =>
      simp only [PoolUse.step] at stepped
      split at stepped
      · rename_i held
        obtain ⟨pool, put, same⟩ := Option.map_eq_some_iff.mp stepped
        subst next
        have small := valid.below id held
        simp only [spcPutId, if_neg (Nat.not_le.mpr small)] at put
        split at put
        · simp only [Option.some.injEq] at put
          subst pool
          refine ⟨⟨?_, ?_, ?_, ?_⟩, valid.distinct.erase id, ?_, ?_⟩
          · simpa using valid.sized.started
          · simpa using valid.sized.addressable
          · simpa using valid.sized.chunks
          · simpa using valid.sized.close
          · intro other member
            exact valid.below other (List.mem_of_mem_erase member)
          · intro other bound
            have place : id / 8 * 8 + id % 8 = id := by omega
            have bit : id % 8 < 8 := Nat.mod_lt id (by decide)
            simp only at bound
            simp only [bitAt_clearBit _ _ _ _ bit, place, Bool.and_eq_true,
              valid.marked other bound, valid.distinct.mem_erase_iff]
            simp
        · contradiction
      · contradiction

end Xcpu.Libspclient
