import Xcpu.Libspfs.Respond

/-!
The references to the fids of a connection: one for the table and one for each outstanding
request. While a handler runs, `extra` counts what it has taken or dropped besides these.
-/

namespace Xcpu.Libspfs

open Xcpu.Keyed Xcpu.Transition

/-- The outstanding requests whose fid is the one at this address. -/
def holders (reqs : List Spreq) (ref : Nat) : Nat := reqs.countP (·.fid == some ref)

theorem holders_one {reqs : List Spreq} {req : Spreq} (other : Nat)
    (distinct : (reqs.map Spreq.ref).Nodup) (member : req ∈ reqs) :
    reqs.countP (fun r => r.fid == some other && r.ref == req.ref) =
      if req.fid = some other then 1 else 0 := by
  induction reqs with
  | nil => exact absurd member List.not_mem_nil
  | cons first rest ih =>
      obtain ⟨single, distinct⟩ := List.nodup_cons.mp distinct
      rcases List.mem_cons.mp member with here | later
      · subst first
        have none : rest.countP (fun r => r.fid == some other && r.ref == req.ref) = 0 := by
          rw [List.countP_eq_zero]
          intro r inside
          have different : ¬ r.ref = req.ref := fun same => single (same ▸ List.mem_map_of_mem inside)
          simp [different]
        rw [List.countP_cons, none]
        simp
      · have different : ¬ first.ref = req.ref := fun same => single (same ▸ List.mem_map_of_mem later)
        rw [List.countP_cons, ih distinct later]
        simp [different]

theorem holders_answered {reqs : List Spreq} {req : Spreq} {chain : List Nat} (other : Nat)
    (distinct : (reqs.map Spreq.ref).Nodup) (member : req ∈ reqs)
    (unbound : ∀ r ∈ reqs, r.ref ∈ chain → r.fid = none) :
    holders (reqs.filter (·.ref ∉ req.ref :: chain)) other + (if req.fid = some other then 1 else 0) =
      holders reqs other := by
  rw [← holders_one other distinct member, holders, holders, List.countP_filter]
  have gone : reqs.countP (fun r => r.fid == some other && r.ref == req.ref) =
      reqs.countP (fun r => r.fid == some other && !decide (r.ref ∉ req.ref :: chain)) := by
    apply List.countP_congr
    intro r inside
    have free := unbound r inside
    simp only [List.mem_cons, not_or, Bool.and_eq_true, beq_iff_eq]
    constructor
    · intro ⟨held, same⟩
      exact ⟨held, by simp [same]⟩
    · intro ⟨held, listed⟩
      refine ⟨held, ?_⟩
      by_contra different
      have chained : r.ref ∈ chain := by simpa [different] using listed
      rw [free chained] at held
      contradiction
  have whole := List.countP_eq_countP_filter_add reqs (fun r => r.fid == some other)
    fun r => decide (r.ref ∉ req.ref :: chain)
  rw [List.countP_filter, List.countP_filter] at whole
  rw [gone]
  exact whole.symm

theorem holders_cons (req : Spreq) (reqs : List Spreq) (other : Nat) :
    holders (req :: reqs) other = holders reqs other + if req.fid = some other then 1 else 0 := by
  rw [holders, holders, List.countP_cons]
  simp

theorem holders_pos {reqs : List Spreq} {req : Spreq} {ref : Nat} (member : req ∈ reqs)
    (held : req.fid = some ref) : 0 < holders reqs ref := by
  rw [holders, List.countP_pos_iff]
  exact ⟨req, member, by simp [held]⟩

section Table

variable {Tree User Aux : Type} {srv : Spsrv Tree User Aux}

def bump (extra : Nat → Int) (ref : Nat) (by_ : Int) : Nat → Int :=
  fun other => if other = ref then extra other + by_ else extra other

/-- The references of a table: its own, one for each of the requests, and the extra ones. -/
structure Counted (fids : List (Spfid User Aux)) (nextRef : Nat) (reqs : List Spreq)
    (extra : Nat → Int) : Prop where
  refs : (fids.map Spfid.ref).Nodup
  numbers : (fids.map Spfid.fid).Nodup
  fresh : ∀ f ∈ fids, f.ref < nextRef
  bound : ∀ r ∈ reqs, ∀ ref, r.fid = some ref → ref ∈ fids.map Spfid.ref
  counts : ∀ f ∈ fids, f.refcount = 1 + holders reqs f.ref + extra f.ref

variable {fids : List (Spfid User Aux)} {nextRef : Nat} {reqs : List Spreq} {extra : Nat → Int}

theorem Counted.congr {other : Nat → Int} (counted : Counted fids nextRef reqs extra)
    (same : ∀ ref ∈ fids.map Spfid.ref, extra ref = other ref) : Counted fids nextRef reqs other where
  refs := counted.refs
  numbers := counted.numbers
  fresh := counted.fresh
  bound := counted.bound
  counts := by
    intro f member
    rw [counted.counts f member, same f.ref (List.mem_map_of_mem member)]

theorem Counted.holders_unused (counted : Counted fids nextRef reqs extra) {ref : Nat}
    (unused : ref ∉ fids.map Spfid.ref) : holders reqs ref = 0 := by
  rw [holders, List.countP_eq_zero]
  intro r member held
  exact unused (counted.bound r member ref (by simpa using held))

theorem Counted.update {ref : Nat} {change : Spfid User Aux → Spfid User Aux} {by_ : Int}
    (counted : Counted fids nextRef reqs extra) (same_ref : ∀ f, (change f).ref = f.ref)
    (same_fid : ∀ f, (change f).fid = f.fid)
    (moved : ∀ f, (change f).refcount = f.refcount + by_) :
    Counted (update Spfid.ref fids ref change) nextRef reqs (bump extra ref by_) where
  refs := by rw [update_map Spfid.ref same_ref]; exact counted.refs
  numbers := by rw [update_map Spfid.fid same_fid]; exact counted.numbers
  fresh := by
    intro f member
    obtain ⟨old, inside, rfl⟩ := mem_update.mp member
    have below := counted.fresh old inside
    split
    · rw [same_ref]
      exact below
    · exact below
  bound := by rw [update_map Spfid.ref same_ref]; exact counted.bound
  counts := by
    intro f member
    obtain ⟨old, inside, rfl⟩ := mem_update.mp member
    have before := counted.counts old inside
    split
    · rename_i here
      simp only [same_ref, moved, before, bump, here, if_true]
      omega
    · rename_i elsewhere
      simp only [before, bump, elsewhere, if_false]

theorem Counted.create (counted : Counted fids nextRef reqs extra) {fid : Nat}
    (unused : fid ∉ fids.map Spfid.fid) :
    Counted ({ ref := nextRef, fid } :: fids) (nextRef + 1) reqs
      (fun ref => if ref = nextRef then -1 else extra ref) where
  refs := by
    rw [List.map_cons, List.nodup_cons]
    refine ⟨?_, counted.refs⟩
    intro member
    obtain ⟨f, inside, same : f.ref = nextRef⟩ := List.mem_map.mp member
    have below := counted.fresh f inside
    omega
  numbers := by
    rw [List.map_cons, List.nodup_cons]
    exact ⟨unused, counted.numbers⟩
  fresh := by
    intro f member
    rcases List.mem_cons.mp member with here | inside
    · subst f
      exact Nat.lt_succ_self nextRef
    · have below := counted.fresh f inside
      omega
  bound := by
    intro r member ref held
    exact List.mem_cons_of_mem _ (counted.bound r member ref held)
  counts := by
    have unheld : nextRef ∉ fids.map Spfid.ref := by
      intro member
      obtain ⟨f, inside, same⟩ := List.mem_map.mp member
      have below := counted.fresh f inside
      omega
    intro f member
    rcases List.mem_cons.mp member with here | inside
    · subst f
      simp [counted.holders_unused unheld]
    · have below := counted.fresh f inside
      have other : f.ref ≠ nextRef := by omega
      simp only [other, if_false]
      exact counted.counts f inside

/-- The fid with a number leaves the table once no request holds it. -/
theorem Counted.erase (counted : Counted fids nextRef reqs extra) {f : Spfid User Aux}
    (member : f ∈ fids) (unheld : holders reqs f.ref = 0) :
    Counted (fids.eraseP (·.fid == f.fid)) nextRef reqs extra := by
  have sub : (fids.eraseP (·.fid == f.fid)).Sublist fids := List.eraseP_sublist
  refine ⟨(sub.map _).nodup counted.refs, (sub.map _).nodup counted.numbers, ?_, ?_, ?_⟩
  · intro g inside
    exact counted.fresh g (sub.subset inside)
  · intro r waiting ref held
    obtain ⟨g, inside, same⟩ := List.mem_map.mp (counted.bound r waiting ref held)
    subst ref
    refine List.mem_map_of_mem ((mem_eraseP counted.numbers).mpr ⟨inside, ?_⟩)
    intro number
    have equal : g = f := List.inj_on_of_nodup_map counted.numbers inside member number
    subst equal
    have positive := holders_pos waiting held
    omega
  · intro g inside
    exact counted.counts g (sub.subset inside)

theorem bump_zero (extra : Nat → Int) (ref : Nat) : bump extra ref 0 = extra := by
  funext other
  simp [bump]

theorem bump_bump (extra : Nat → Int) (ref : Nat) (first second : Int) :
    bump (bump extra ref first) ref second = bump extra ref (first + second) := by
  funext other
  simp only [bump]
  split
  · omega
  · rfl

/-- Each of the fids is in both tables, under the same number. -/
def Keeps (before after : List (Spfid User Aux)) : Prop :=
  ∀ f ∈ before, ∃ g ∈ after, g.ref = f.ref ∧ g.fid = f.fid

theorem Keeps.refl (fids : List (Spfid User Aux)) : Keeps fids fids :=
  fun f member => ⟨f, member, rfl, rfl⟩

theorem Keeps.trans {first second third : List (Spfid User Aux)} (one : Keeps first second)
    (two : Keeps second third) : Keeps first third := by
  intro f member
  obtain ⟨g, inside, ref, fid⟩ := one f member
  obtain ⟨h, last, ref', fid'⟩ := two g inside
  exact ⟨h, last, ref'.trans ref, fid'.trans fid⟩

theorem Keeps.refs {before after : List (Spfid User Aux)} (keeps : Keeps before after) {ref : Nat}
    (member : ref ∈ before.map Spfid.ref) : ref ∈ after.map Spfid.ref := by
  obtain ⟨f, inside, same⟩ := List.mem_map.mp member
  obtain ⟨g, stays, equal, -⟩ := keeps f inside
  exact same ▸ equal ▸ List.mem_map_of_mem stays

theorem keeps_update {ref : Nat} {change : Spfid User Aux → Spfid User Aux}
    (same_ref : ∀ f, (change f).ref = f.ref) (same_fid : ∀ f, (change f).fid = f.fid) :
    Keeps fids (update Spfid.ref fids ref change) := by
  intro f member
  refine ⟨_, mem_update.mpr ⟨f, member, rfl⟩, ?_, ?_⟩
  · split
    · exact same_ref f
    · rfl
  · split
    · exact same_fid f
    · rfl

theorem keeps_erase (distinct : (fids.map Spfid.fid).Nodup) {f g : Spfid User Aux} (member : f ∈ fids)
    (inside : g ∈ fids) (other : g.ref ≠ f.ref) : g ∈ fids.eraseP (·.fid == f.fid) := by
  refine (mem_eraseP distinct).mpr ⟨inside, ?_⟩
  intro number
  exact other (congrArg Spfid.ref (List.inj_on_of_nodup_map distinct inside member number))

variable {conn next : Spconn Tree User Aux}

theorem fidAt_mem {ref : Nat} {f : Spfid User Aux} (found : conn.fidAt ref = some f) :
    f ∈ conn.fids ∧ f.ref = ref :=
  find?_key found

theorem spFidFind_mem {fid : Nat} {f : Spfid User Aux} (found : spFidFind conn fid = some f) :
    f ∈ conn.fids ∧ f.fid = fid :=
  find?_key found

theorem spFidFind_none {fid : Nat} : spFidFind conn fid = none ↔ fid ∉ conn.fids.map Spfid.fid :=
  find?_none_iff

theorem spFidDecref_cases {ref : Nat} (counted : Counted conn.fids conn.nextRef reqs extra)
    (dropped : spFidDecref srv conn ref = some next) :
    ∃ f ∈ conn.fids, f.ref = ref ∧
      ((f.refcount = 1 ∧ next = { conn with
          fids := conn.fids.eraseP (·.fid == f.fid), tree := srv.fiddestroy conn.tree f }) ∨
        (f.refcount ≠ 1 ∧ next = conn.setFid ref fun f => { f with refcount := f.refcount - 1 })) := by
  unfold spFidDecref at dropped
  cases found : conn.fidAt ref with
  | none => simp [found] at dropped
  | some f =>
      obtain ⟨member, same⟩ := fidAt_mem found
      have itself : conn.fids.find? (·.fid == f.fid) = some f :=
        find?_of_mem counted.numbers member rfl
      refine ⟨f, member, same, ?_⟩
      simp only [found] at dropped
      split at dropped
      · rename_i last
        simp only [spFidDestroy, itself, Option.some.injEq] at dropped
        exact .inl ⟨by omega, dropped.symm⟩
      · rename_i more
        exact .inr ⟨by omega, (Option.some.inj dropped).symm⟩

theorem Counted.decref {ref : Nat} (counted : Counted conn.fids conn.nextRef reqs extra)
    (enough : 0 ≤ extra ref) (dropped : spFidDecref srv conn ref = some next) :
    Counted next.fids next.nextRef reqs (bump extra ref (-1)) := by
  obtain ⟨f, member, here, ⟨last, same⟩ | ⟨-, same⟩⟩ := spFidDecref_cases counted dropped
  · subst next here
    have count := counted.counts f member
    have without := counted.erase member (by omega)
    refine without.congr ?_
    intro other inside
    simp only [bump]
    split
    · rename_i itself
      subst other
      obtain ⟨g, left, ref⟩ := List.mem_map.mp inside
      have number := List.inj_on_of_nodup_map counted.refs (List.eraseP_sublist.subset left) member ref
      subst g
      exact absurd rfl ((mem_eraseP counted.numbers).mp left).2
    · rfl
  · subst next
    exact counted.update (fun _ => rfl) (fun _ => rfl) fun f => by simp only; omega

theorem Counted.decref_keeps {ref : Nat} (counted : Counted conn.fids conn.nextRef reqs extra)
    (more : 1 ≤ extra ref) (dropped : spFidDecref srv conn ref = some next) :
    Keeps conn.fids next.fids := by
  obtain ⟨f, member, here, ⟨last, same⟩ | ⟨-, same⟩⟩ := spFidDecref_cases counted dropped
  · have count := counted.counts f member
    subst ref
    omega
  · subst next
    exact keeps_update (fun _ => rfl) fun _ => rfl

theorem Counted.decref_others {ref : Nat} (counted : Counted conn.fids conn.nextRef reqs extra)
    (dropped : spFidDecref srv conn ref = some next) :
    ∀ f ∈ conn.fids, f.ref ≠ ref → f ∈ next.fids := by
  intro f inside other
  obtain ⟨g, member, here, ⟨-, same⟩ | ⟨-, same⟩⟩ := spFidDecref_cases counted dropped
  · subst next ref
    exact keeps_erase counted.numbers member inside other
  · subst next
    exact mem_update.mpr ⟨f, inside, by rw [if_neg other]⟩

theorem Counted.decref_last {f : Spfid User Aux} (counted : Counted conn.fids conn.nextRef reqs extra)
    (member : f ∈ conn.fids) (one : holders reqs f.ref + extra f.ref = 0)
    (dropped : spFidDecref srv conn f.ref = some next) :
    f.ref ∉ next.fids.map Spfid.ref := by
  obtain ⟨g, inside, here, rest⟩ := spFidDecref_cases counted dropped
  have itself := List.inj_on_of_nodup_map counted.refs inside member here
  subst g
  have count := counted.counts f member
  obtain ⟨-, same⟩ | ⟨more, -⟩ := rest
  · subst next
    intro remains
    obtain ⟨g, left, ref⟩ := List.mem_map.mp remains
    obtain ⟨inside, number⟩ := (mem_eraseP counted.numbers).mp left
    exact number (congrArg Spfid.fid (List.inj_on_of_nodup_map counted.refs inside member ref))
  · omega

theorem Counted.setFid {ref : Nat} {change : Spfid User Aux → Spfid User Aux}
    (counted : Counted conn.fids conn.nextRef reqs extra) (same_ref : ∀ f, (change f).ref = f.ref)
    (same_fid : ∀ f, (change f).fid = f.fid) (same_count : ∀ f, (change f).refcount = f.refcount) :
    Counted (conn.setFid ref change).fids (conn.setFid ref change).nextRef reqs extra := by
  rw [← bump_zero extra ref]
  exact counted.update same_ref same_fid fun f => (same_count f).trans (Int.add_zero _).symm

theorem noteDiroffset_counted {req : Spreq} {rc : Option Rcall}
    (noted : noteDiroffset conn req rc = some next)
    (counted : Counted conn.fids conn.nextRef reqs extra) :
    Counted next.fids next.nextRef reqs extra ∧ Keeps conn.fids next.fids := by
  rcases noteDiroffset_cases noted with same | ⟨ref, offset, same⟩
  · subst next
    exact ⟨counted, .refl _⟩
  · subst next
    exact ⟨counted.setFid (fun _ => rfl) (fun _ => rfl) fun _ => rfl,
      keeps_update (fun _ => rfl) fun _ => rfl⟩

/-- The requests a connection works on: no two are one, and a flush that hangs off another
request holds no fid. -/
structure Queue (reqs : List Spreq) (nextRef : Nat) : Prop where
  distinct : (reqs.map Spreq.ref).Nodup
  recent : ∀ r ∈ reqs, r.ref < nextRef
  links : ∀ r ∈ reqs, ∀ ref, r.flushreq = some ref → ref < nextRef
  hung : ∀ r ∈ reqs, ∀ q ∈ reqs, r.flushreq = some q.ref → q.fid = none
  versions : ∀ r ∈ reqs, r.tcall.type = .tversion → r.fid = none

theorem Queue.filter (queue : Queue reqs nextRef) (kept : Spreq → Bool) :
    Queue (reqs.filter kept) nextRef where
  distinct := (List.filter_sublist.map _).nodup queue.distinct
  recent r member := queue.recent r (List.mem_of_mem_filter member)
  links r member := queue.links r (List.mem_of_mem_filter member)
  hung r member q other := queue.hung r (List.mem_of_mem_filter member) q (List.mem_of_mem_filter other)
  versions r member := queue.versions r (List.mem_of_mem_filter member)

theorem Queue.later {later : Nat} (queue : Queue reqs nextRef) (more : nextRef ≤ later) :
    Queue reqs later where
  distinct := queue.distinct
  recent r member := Nat.lt_of_lt_of_le (queue.recent r member) more
  links r member ref linked := Nat.lt_of_lt_of_le (queue.links r member ref linked) more
  hung := queue.hung
  versions := queue.versions

/-- Every fid is counted once for the table and once for each request on it. -/
structure FidInv (conn : Spconn Tree User Aux) : Prop where
  counted : Counted conn.fids conn.nextRef conn.workreqs fun _ => 0
  queue : Queue conn.workreqs conn.nextRef
  past : ∀ reply ∈ conn.sent, reply.1 < conn.nextRef

theorem FidInv.respond {ref : Nat} {rc : Option Rcall} (inv : FidInv conn)
    (responded : spRespond srv conn ref rc = some next) :
    FidInv next ∧ Keeps conn.fids next.fids := by
  obtain ⟨req, chain, noted, dropped, found, chained, note, drop, same⟩ := spRespond_cases responded
  obtain ⟨member, here⟩ := find?_key found
  have unbound : ∀ r ∈ conn.workreqs, r.ref ∈ chain → r.fid = none := by
    intro r inside listed
    rcases flushChain_linked chained r.ref listed with direct | ⟨q, waiting, linked⟩
    · exact inv.queue.hung req member r inside direct
    · exact inv.queue.hung q waiting r inside linked
  let owned : Nat → Int := fun other => if req.fid = some other then 1 else 0
  have counted : Counted conn.fids conn.nextRef (conn.workreqs.filter (·.ref ∉ ref :: chain)) owned := by
    refine ⟨inv.counted.refs, inv.counted.numbers, inv.counted.fresh, ?_, ?_⟩
    · intro r waiting
      exact inv.counted.bound r (List.mem_of_mem_filter waiting)
    · intro f inside
      have count := inv.counted.counts f inside
      have split := holders_answered f.ref inv.queue.distinct member unbound
      rw [here] at split
      simp only [owned]
      split_ifs at split ⊢ <;> omega
  obtain ⟨counted', keeps⟩ := noteDiroffset_counted note counted
  have noted_queue := noteDiroffset_queue note
  have dropped_queue := spFidDecref?_queue drop
  have same_reqs : dropped.workreqs = conn.workreqs.filter (·.ref ∉ ref :: chain) :=
    dropped_queue.workreqs.trans noted_queue.workreqs
  have same_next : dropped.nextRef = conn.nextRef := dropped_queue.nextRef.trans noted_queue.nextRef
  subst next
  have queue : Queue dropped.workreqs dropped.nextRef := by
    rw [same_reqs, same_next]
    exact inv.queue.filter _
  have past : ∀ reply ∈ conn.sent ++ replies ref rc chain, reply.1 < dropped.nextRef := by
    rw [same_next]
    intro reply queued
    rcases List.mem_append.mp queued with before | added
    · exact inv.past reply before
    · rcases replies_mem added with own | flushed
      · rw [own, ← here]
        exact inv.queue.recent req member
      · rcases flushChain_linked chained reply.1 flushed with direct | ⟨q, waiting, linked⟩
        · exact inv.queue.links req member reply.1 direct
        · exact inv.queue.links q waiting reply.1 linked
  cases bound : req.fid with
  | none =>
      simp only [bound, spFidDecref?, Option.some.injEq] at drop
      subst dropped
      refine ⟨⟨?_, queue, past⟩, keeps⟩
      simp only [same_reqs]
      exact counted'.congr fun other _ => by simp [owned, bound]
  | some fid =>
      simp only [bound, spFidDecref?] at drop
      have one : owned fid = 1 := by simp [owned, bound]
      have kept := counted'.decref_keeps (Int.le_of_eq one.symm) drop
      have less := counted'.decref (by omega) drop
      refine ⟨⟨?_, queue, past⟩, keeps.trans kept⟩
      simp only [same_reqs]
      refine less.congr ?_
      intro other _
      simp only [bump, owned, bound, Option.some.injEq]
      split_ifs <;> omega

end Table

end Xcpu.Libspfs
