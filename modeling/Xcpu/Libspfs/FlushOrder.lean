import Xcpu.Lib.Chains
import Xcpu.Libspfs.Workreqs

/-!
The flush protocol of a connection. Outstanding Tflush requests are linked behind the request
they flush; `asks` remembers every message, with the outstanding requests its `oldtag` named.
-/

namespace Xcpu.Libspfs

open Xcpu.Keyed Xcpu.Transition Xcpu.Chains

structure Ask where
  ref : Nat
  tc : Spfcall
  named : List Nat

structure Watched (Tree User Aux : Type) where
  conn : Spconn Tree User Aux
  asks : List Ask

section Flush

variable {Tree User Aux : Type} (srv : Spsrv Tree User Aux)

def Spconn.link (conn : Spconn Tree User Aux) (ref : Nat) : Option Nat :=
  (conn.reqAt ref).bind Spreq.flushreq

def Spconn.pending (conn : Spconn Tree User Aux) : List Nat := conn.workreqs.map Spreq.ref

def Spconn.ask (conn : Spconn Tree User Aux) (tc : Spfcall) : Ask :=
  ⟨conn.nextRef, tc, (conn.workreqs.filter (·.tag == tc.oldtag)).map Spreq.ref⟩

def Watched.step (watched : Watched Tree User Aux) (event : ConnEvent) : Option (Watched Tree User Aux) :=
  (watched.conn.step srv event).map fun next => ⟨next, match event with
    | .message tc _ => watched.conn.ask tc :: watched.asks
    | .answer _ _ => watched.asks⟩

def flushRefs (asks : List Ask) : List Nat := (asks.filter (·.tc.type == .tflush)).map Ask.ref

/-- A Tflush must not name its own tag, nor a tag of several outstanding requests; a Tversion
must not come while a Tflush is outstanding, which it would try to flush for ever. -/
def FlushSafe (watched : Watched Tree User Aux) : ConnEvent → Prop
  | .answer _ _ => True
  | .message tc _ => tc.type.number % 2 = 0 ∧
      (tc.type = .tflush → tc.oldtag ≠ tc.tag ∧
        (watched.conn.workreqs.filter (·.tag == tc.oldtag)).length ≤ 1) ∧
      (tc.type = .tversion → ∀ r ∈ watched.conn.workreqs, r.tcall.type ≠ .tflush)

/-- The invariant of the requests, links and replies of a connection. -/
structure FlushInv (conn : Spconn Tree User Aux) (asks : List Ask) : Prop where
  chains : ∃ chains, Forest conn.link chains conn.pending ∧
    (∀ chain ∈ chains, ∃ request flushes, chain = request :: flushes ∧ request ∉ flushRefs asks ∧
      ∀ flush ∈ flushes, flush ∈ flushRefs asks) ∧
    ∀ ask ∈ asks, ask.tc.type = .tflush → ask.ref ∈ conn.pending → ∀ ref ∈ ask.named,
      ref ∈ conn.pending → ∃ chain ∈ chains, [ref, ask.ref].Sublist chain
  recent : ∀ ref ∈ conn.pending, ref < conn.nextRef
  asked : ∀ ref ∈ conn.pending, ∃ ask ∈ asks, ask.ref = ref
  asks_distinct : (asks.map Ask.ref).Nodup
  asks_recent : ∀ ask ∈ asks, ask.ref < conn.nextRef ∧ ∀ ref ∈ ask.named, ref < ask.ref
  unbound : ∀ r ∈ conn.workreqs, r.ref ∈ flushRefs asks → r.fid = none
  once : (conn.sent.map Prod.fst).Nodup
  past : ∀ reply ∈ conn.sent, reply.1 ∉ conn.pending ∧ reply.1 < conn.nextRef
  answered : ∀ ask ∈ asks, ask.tc.type = .tflush → ask.ref ∉ conn.pending →
    (ask.ref, FcallType.rflush) ∈ conn.sent ∧ ∀ ref ∈ ask.named, ref ∉ conn.pending
  order : ∀ ask ∈ asks, ask.tc.type = .tflush → ∀ ref ∈ ask.named, ∀ answer reply,
    ¬ [(ask.ref, answer), (ref, reply)].Sublist conn.sent

variable {srv} {conn now next : Spconn Tree User Aux} {asks : List Ask}

theorem FlushInv.of_same (inv : FlushInv conn asks) (work : next.workreqs = conn.workreqs)
    (sent : next.sent = conn.sent) (nextRef : next.nextRef = conn.nextRef) : FlushInv next asks := by
  have pending : next.pending = conn.pending := by rw [Spconn.pending, work, Spconn.pending]
  have link : next.link = conn.link := by
    funext ref
    rw [Spconn.link, Spconn.reqAt, work, Spconn.link, Spconn.reqAt]
  constructor
  · rw [link, pending]
    exact inv.chains
  · rw [pending, nextRef]
    exact inv.recent
  · rw [pending]
    exact inv.asked
  · exact inv.asks_distinct
  · rw [nextRef]
    exact inv.asks_recent
  · rw [work]
    exact inv.unbound
  · rw [sent]
    exact inv.once
  · rw [sent, pending, nextRef]
    exact inv.past
  · rw [sent, pending]
    exact inv.answered
  · rw [sent]
    exact inv.order

theorem mem_flushRefs {ask : Ask} (member : ask ∈ asks) (kind : ask.tc.type = .tflush) :
    ask.ref ∈ flushRefs asks := by
  refine List.mem_map_of_mem (List.mem_filter.mpr ⟨member, ?_⟩)
  simp [kind]

theorem mem_pending {ref : Nat} : ref ∈ conn.pending ↔ ∃ r ∈ conn.workreqs, r.ref = ref := List.mem_map

theorem flushChain_threaded {steps : Nat} {chain : List Nat} (threaded : Threaded conn.link chain)
    (inside : ∀ ref ∈ chain, ref ∈ conn.pending) (enough : chain.length ≤ steps) :
    flushChain conn.workreqs steps chain.head? = some chain := by
  induction chain generalizing steps with
  | nil => cases steps <;> rfl
  | cons first rest ih =>
      cases steps with
      | zero => simp at enough
      | succ steps =>
          obtain ⟨r, member, same⟩ := mem_pending.mp (inside first List.mem_cons_self)
          have found : ∃ freq, conn.reqAt first = some freq := by
            rw [← Option.isSome_iff_exists, Spconn.reqAt, List.find?_isSome]
            exact ⟨r, member, by simp [same]⟩
          obtain ⟨freq, found⟩ := found
          have next : freq.flushreq = rest.head? := by
            have link := threaded.1
            rw [Spconn.link, found] at link
            exact link
          have later := ih threaded.2 (fun ref held => inside ref (List.mem_cons_of_mem _ held))
            (by simpa using enough)
          unfold Spconn.reqAt at found
          simp only [List.head?_cons, flushChain, found, next, later, Option.map_some]

theorem not_both_sublists {chain : List Nat} {first second : Nat} (distinct : chain.Nodup)
    (one : [first, second].Sublist chain) (two : [second, first].Sublist chain) : False := by
  induction chain with
  | nil => simp at one
  | cons head rest ih =>
      obtain ⟨single, distinct⟩ := List.nodup_cons.mp distinct
      cases one with
      | cons _ one =>
          cases two with
          | cons _ two => exact ih distinct one two
          | cons_cons _ two => exact single (one.subset (by simp))
      | cons_cons _ one =>
          cases two with
          | cons _ two => exact single (two.subset (by simp))
          | cons_cons _ two => exact single (two.subset (by simp))

theorem reqAt_filter {gone : List Nat} {ref : Nat} (stays : ref ∉ gone) :
    (conn.workreqs.filter (·.ref ∉ gone)).find? (·.ref == ref) = conn.workreqs.find? (·.ref == ref) := by
  rw [List.find?_filter]
  congr 1
  funext r
  by_cases here : r.ref = ref <;> simp [here, stays]

theorem pending_filter (gone : List Nat) :
    (conn.workreqs.filter (·.ref ∉ gone)).map Spreq.ref = conn.pending.filter (· ∉ gone) := by
  rw [Spconn.pending, List.filter_map]
  rfl

theorem replies_refs (ref : Nat) (rc : Option Rcall) (chain : List Nat) :
    ((replies ref rc chain).map Prod.fst).Sublist (ref :: chain) := by
  cases rc with
  | none => simp [replies, Function.comp_def]
  | some rc => simp [replies, Function.comp_def]

theorem sublist_append_pair {Reply : Type} {old new : List Reply} {first second : Reply}
    (ordered : [first, second].Sublist (old ++ new)) :
    [first, second].Sublist old ∨ [first, second].Sublist new ∨ (first ∈ old ∧ second ∈ new) := by
  obtain ⟨left, right, same, before, after⟩ := List.sublist_append_iff.mp ordered
  cases left with
  | nil => exact .inr (.inl (by rw [← List.nil_append right, ← same] at after; exact after))
  | cons head tail =>
      cases tail with
      | nil =>
          simp only [List.cons_append, List.nil_append, List.cons.injEq] at same
          obtain ⟨rfl, rfl⟩ := same
          exact .inr (.inr ⟨before.subset (by simp), after.subset (by simp)⟩)
      | cons other rest =>
          simp only [List.cons_append, List.cons.injEq] at same
          obtain ⟨rfl, rfl, same⟩ := same
          refine .inl (List.Sublist.trans ?_ before)
          simp

/-- Answering a request that is no flush answers the flushes that wait for it, in the order of
its chain. -/
theorem FlushInv.respond {ref : Nat} {rc : Option Rcall} (inv : FlushInv conn asks)
    (head : ref ∉ flushRefs asks) (responded : spRespond srv conn ref rc = some next) :
    FlushInv next asks := by
  obtain ⟨req, chain, noted, dropped, found, chained, note, drop, same⟩ := spRespond_cases responded
  obtain ⟨member, here⟩ := find?_key found
  have outstanding : ref ∈ conn.pending := mem_pending.mpr ⟨req, member, here⟩
  obtain ⟨chains, forest, shape, behind⟩ := inv.chains
  obtain ⟨whole, inside, held⟩ := forest.exists_chain outstanding
  obtain ⟨request, flushes, split, no_flush, all_flushes⟩ := shape whole inside
  subst whole
  have first : request = ref := by
    rcases List.mem_cons.mp held with same | later
    · exact same.symm
    · exact absurd (all_flushes ref later) head
  subst request
  have threaded := forest.threaded _ inside
  have follows : flushChain conn.workreqs conn.workreqs.length req.flushreq = some flushes := by
    have link : req.flushreq = flushes.head? := by
      have next := threaded.1
      rw [Spconn.link, found] at next
      exact next
    rw [link]
    refine flushChain_threaded threaded.2
      (fun other listed => forest.mem_nodes inside (List.mem_cons_of_mem _ listed)) ?_
    have fewer := (List.sublist_flatten_of_mem inside).length_le
    have equal := forest.covers.length_eq
    simp only [Spconn.pending, List.length_map, List.length_cons] at fewer equal
    omega
  have chain_eq : chain = flushes := by
    rw [follows] at chained
    exact (Option.some.inj chained).symm
  subst chain
  have work : next.workreqs = conn.workreqs.filter (·.ref ∉ ref :: flushes) := by
    rw [same]
    exact (spFidDecref?_queue drop).workreqs.trans (noteDiroffset_queue note).workreqs
  have next_ref : next.nextRef = conn.nextRef := by
    rw [same]
    exact (spFidDecref?_queue drop).nextRef.trans (noteDiroffset_queue note).nextRef
  have sent : next.sent = conn.sent ++ replies ref rc flushes := by rw [same]
  have pending : next.pending = conn.pending.filter (· ∉ ref :: flushes) := by
    rw [Spconn.pending, work, pending_filter]
  have fewer : ∀ other ∈ next.pending, other ∈ conn.pending ∧ other ∉ ref :: flushes := by
    intro other waiting
    rw [pending, List.mem_filter] at waiting
    exact ⟨waiting.1, by simpa using waiting.2⟩
  have link : ∀ other ∈ conn.pending, other ∉ ref :: flushes → next.link other = conn.link other := by
    intro other _ stays
    rw [Spconn.link, Spconn.reqAt, work, reqAt_filter stays, Spconn.link, Spconn.reqAt]
  obtain ⟨rest, forest', sub, kept⟩ := forest.remove inside link
  have distinct := forest.nodup_chain inside
  have new_refs := replies_refs ref rc flushes
  have gone_replies : ∀ reply ∈ replies ref rc flushes, reply.1 ∈ ref :: flushes := fun reply queued =>
    new_refs.subset (List.mem_map_of_mem queued)
  constructor
  · refine ⟨rest, pending ▸ forest', fun other listed => shape other (sub.subset listed), ?_⟩
    intro ask asked kind waiting other named waiting'
    obtain ⟨chain, listed, ordered⟩ := behind ask asked kind (fewer _ waiting).1 other named (fewer _ waiting').1
    rcases kept chain listed with removed | stays
    · have there : ask.ref ∈ chain := ordered.subset (by simp)
      exact absurd (removed ▸ there) (fewer _ waiting).2
    · exact ⟨chain, stays, ordered⟩
  · rw [next_ref]
    exact fun other waiting => inv.recent other (fewer other waiting).1
  · exact fun other waiting => inv.asked other (fewer other waiting).1
  · exact inv.asks_distinct
  · rw [next_ref]
    exact inv.asks_recent
  · intro r waiting
    rw [work] at waiting
    exact inv.unbound r (List.mem_of_mem_filter waiting)
  · rw [sent, List.map_append, List.nodup_append]
    refine ⟨inv.once, new_refs.nodup distinct, ?_⟩
    intro other old another new equal
    obtain ⟨reply, queued, rfl⟩ := List.mem_map.mp old
    have in_chain := new_refs.subset (equal ▸ new)
    exact (inv.past reply queued).1 (forest.mem_nodes inside in_chain)
  · rw [sent, next_ref]
    intro reply queued
    rcases List.mem_append.mp queued with old | new
    · obtain ⟨left, below⟩ := inv.past reply old
      exact ⟨fun waiting => left (fewer _ waiting).1, below⟩
    · have in_chain := gone_replies reply new
      exact ⟨fun waiting => (fewer _ waiting).2 in_chain,
        inv.recent _ (forest.mem_nodes inside in_chain)⟩
  · intro ask asked kind left
    rw [sent]
    by_cases waiting : ask.ref ∈ conn.pending
    · have in_chain : ask.ref ∈ ref :: flushes := by
        by_contra stays
        refine left ?_
        rw [pending, List.mem_filter]
        exact ⟨waiting, by simpa using stays⟩
      have flush : ask.ref ∈ flushes := by
        rcases List.mem_cons.mp in_chain with itself | listed
        · exact absurd (itself ▸ mem_flushRefs asked kind) head
        · exact listed
      refine ⟨List.mem_append_right _ (List.mem_append_right _ (List.mem_map_of_mem flush)), ?_⟩
      intro other named waiting'
      obtain ⟨still, stays⟩ := fewer other waiting'
      obtain ⟨chain, listed, ordered⟩ := behind ask asked kind waiting other named still
      have there : ask.ref ∈ chain := ordered.subset (by simp)
      rcases kept chain listed with removed | elsewhere
      · exact stays (removed ▸ ordered.subset (by simp))
      · have off := forest'.mem_nodes elsewhere there
        rw [List.mem_filter] at off
        simp [in_chain] at off
    · obtain ⟨answer, named_gone⟩ := inv.answered ask asked kind waiting
      exact ⟨List.mem_append_left _ answer, fun other named waiting' =>
        named_gone other named (fewer other waiting').1⟩
  · intro ask asked kind other named answer reply ordered
    rw [sent] at ordered
    rcases sublist_append_pair ordered with old | new | ⟨old, new⟩
    · exact inv.order ask asked kind other named answer reply old
    · have refs : [ask.ref, other].Sublist (ref :: flushes) := (new.map Prod.fst).trans new_refs
      have waiting : ask.ref ∈ conn.pending := forest.mem_nodes inside (refs.subset (by simp))
      have waiting' : other ∈ conn.pending := forest.mem_nodes inside (refs.subset (by simp))
      obtain ⟨chain, listed, before⟩ := behind ask asked kind waiting other named waiting'
      rcases kept chain listed with removed | elsewhere
      · exact not_both_sublists distinct refs (removed ▸ before)
      · have off := forest'.mem_nodes elsewhere (before.subset (by simp) : ask.ref ∈ chain)
        have in_chain : ask.ref ∈ ref :: flushes := refs.subset (by simp)
        rw [List.mem_filter] at off
        simp [in_chain] at off
    · have left := (inv.past _ old).1
      have in_chain := gone_replies _ new
      exact (inv.answered ask asked kind left).2 other named (forest.mem_nodes inside in_chain)

theorem flushRefs_cons_other {ask : Ask} (kind : ask.tc.type ≠ .tflush) :
    flushRefs (ask :: asks) = flushRefs asks := by
  simp [flushRefs, kind]

theorem flushRefs_sub {ask : Ask} : ∀ ref ∈ flushRefs asks, ref ∈ flushRefs (ask :: asks) := by
  intro ref member
  obtain ⟨old, listed, same⟩ := List.mem_map.mp member
  obtain ⟨inside, kind⟩ := List.mem_filter.mp listed
  exact same ▸ List.mem_map_of_mem (List.mem_filter.mpr ⟨List.mem_cons_of_mem _ inside, kind⟩)

theorem flushRefs_cons_flush {ask : Ask} (kind : ask.tc.type = .tflush) :
    flushRefs (ask :: asks) = ask.ref :: flushRefs asks := by
  simp [flushRefs, kind]

theorem FlushInv.flushRefs_recent (inv : FlushInv conn asks) :
    ∀ ref ∈ flushRefs asks, ref < conn.nextRef := by
  intro ref member
  obtain ⟨ask, listed, same⟩ := List.mem_map.mp member
  exact same ▸ (inv.asks_recent ask (List.mem_of_mem_filter listed)).1

theorem FlushInv.fresh (inv : FlushInv conn asks) : conn.nextRef ∉ conn.pending :=
  fun waiting => Nat.lt_irrefl _ (inv.recent _ waiting)

theorem FlushInv.newest (inv : FlushInv conn asks) {ask : Ask} (here : ask.ref = conn.nextRef) :
    (ask :: asks).map Ask.ref |>.Nodup := by
  rw [List.map_cons, List.nodup_cons]
  refine ⟨?_, inv.asks_distinct⟩
  intro member
  obtain ⟨old, inside, same⟩ := List.mem_map.mp member
  have below := (inv.asks_recent old inside).1
  omega

theorem FlushInv.push {newest : Spreq} {ask : Ask} (inv : FlushInv conn asks)
    (work : now.workreqs = newest :: conn.workreqs) (sent : now.sent = conn.sent)
    (later : conn.nextRef < now.nextRef) (here : newest.ref = conn.nextRef)
    (unlinked : newest.flushreq = none) (asked : ask.ref = conn.nextRef)
    (named : ∀ ref ∈ ask.named, ref < ask.ref) (kind : ask.tc.type ≠ .tflush) :
    FlushInv now (ask :: asks) := by
  have pending : now.pending = conn.nextRef :: conn.pending := by
    rw [Spconn.pending, work, List.map_cons, here, Spconn.pending]
  have link_new : now.link conn.nextRef = none := by
    rw [Spconn.link, Spconn.reqAt, work, List.find?_cons_of_pos (by simp [here])]
    exact unlinked
  have link_old : ∀ ref ∈ conn.pending, now.link ref = conn.link ref := by
    intro ref waiting
    have below := inv.recent ref waiting
    have other : ¬ newest.ref = ref := by omega
    rw [Spconn.link, Spconn.reqAt, work, List.find?_cons_of_neg (by simpa using other), Spconn.link,
      Spconn.reqAt]
  obtain ⟨chains, forest, shape, behind⟩ := inv.chains
  constructor
  · rw [pending, flushRefs_cons_other kind]
    refine ⟨[conn.nextRef] :: chains, forest.root inv.fresh link_new link_old, ?_, ?_⟩
    · intro chain listed
      rcases List.mem_cons.mp listed with single | old
      · refine ⟨conn.nextRef, [], single, ?_, by simp⟩
        exact fun member => Nat.lt_irrefl _ (inv.flushRefs_recent _ member)
      · exact shape chain old
    · intro other listed flush waiting ref inside waiting'
      rcases List.mem_cons.mp listed with itself | old
      · exact absurd flush (itself ▸ kind)
      · obtain ⟨recent, before⟩ := inv.asks_recent other old
        have earlier := before ref inside
        obtain ⟨chain, member, ordered⟩ := behind other old flush
          ((List.mem_cons.mp waiting).resolve_left (by omega)) ref inside
          ((List.mem_cons.mp waiting').resolve_left (by omega))
        exact ⟨chain, List.mem_cons_of_mem _ member, ordered⟩
  · rw [pending]
    intro ref waiting
    rcases List.mem_cons.mp waiting with itself | old
    · omega
    · have below := inv.recent ref old
      omega
  · rw [pending]
    intro ref waiting
    rcases List.mem_cons.mp waiting with itself | old
    · exact ⟨ask, List.mem_cons_self, asked.trans itself.symm⟩
    · obtain ⟨other, listed, same⟩ := inv.asked ref old
      exact ⟨other, List.mem_cons_of_mem _ listed, same⟩
  · exact inv.newest asked
  · intro other listed
    rcases List.mem_cons.mp listed with itself | old
    · subst other
      exact ⟨by omega, named⟩
    · obtain ⟨recent, before⟩ := inv.asks_recent other old
      exact ⟨by omega, before⟩
  · rw [work, flushRefs_cons_other kind]
    intro r waiting member
    rcases List.mem_cons.mp waiting with itself | old
    · subst r
      have below := inv.flushRefs_recent _ member
      omega
    · exact inv.unbound r old member
  · rw [sent]
    exact inv.once
  · rw [sent, pending]
    intro reply queued
    obtain ⟨left, below⟩ := inv.past reply queued
    refine ⟨?_, by omega⟩
    intro waiting
    rcases List.mem_cons.mp waiting with itself | old
    · omega
    · exact left old
  · rw [sent, pending]
    intro other listed flush left
    rcases List.mem_cons.mp listed with itself | old
    · exact absurd flush (itself ▸ kind)
    · obtain ⟨recent, before⟩ := inv.asks_recent other old
      obtain ⟨answer, gone⟩ := inv.answered other old flush fun waiting =>
        left (List.mem_cons_of_mem _ waiting)
      refine ⟨answer, ?_⟩
      intro ref inside waiting
      have earlier := before ref inside
      exact gone ref inside ((List.mem_cons.mp waiting).resolve_left (by omega))
  · rw [sent]
    intro other listed flush
    rcases List.mem_cons.mp listed with itself | old
    · exact absurd flush (itself ▸ kind)
    · exact inv.order other old flush

theorem FlushInv.recount {ask counted : Ask} (inv : FlushInv conn (counted :: asks))
    (here : counted.ref = ask.ref) (kind : ask.tc.type = .tflush) (other : counted.tc.type ≠ .tflush)
    (answer : (ask.ref, FcallType.rflush) ∈ conn.sent) (named : ∀ ref ∈ ask.named, ref < ask.ref)
    (gone : ∀ ref ∈ ask.named, ref ∉ conn.pending)
    (order : ∀ ref ∈ ask.named, ∀ answer reply, ¬ [(ask.ref, answer), (ref, reply)].Sublist conn.sent) :
    FlushInv conn (ask :: asks) := by
  have left := (inv.past _ answer).1
  have refs : flushRefs (ask :: asks) = ask.ref :: flushRefs (counted :: asks) := by
    rw [flushRefs_cons_flush kind, flushRefs_cons_other other]
  obtain ⟨chains, forest, shape, behind⟩ := inv.chains
  constructor
  · refine ⟨chains, forest, ?_, ?_⟩
    · intro chain listed
      obtain ⟨request, flushes, split, no_flush, all⟩ := shape chain listed
      rw [refs]
      refine ⟨request, flushes, split, ?_, fun flush member => List.mem_cons_of_mem _ (all flush member)⟩
      intro member
      rcases List.mem_cons.mp member with itself | old
      · have waiting : request ∈ conn.pending := forest.mem_nodes listed (split ▸ List.mem_cons_self)
        exact left (itself ▸ waiting)
      · exact no_flush old
    · intro one listed flush waiting
      rcases List.mem_cons.mp listed with itself | old
      · subst one
        exact absurd waiting left
      · exact behind one (List.mem_cons_of_mem _ old) flush waiting
  · exact inv.recent
  · intro ref waiting
    obtain ⟨one, listed, same⟩ := inv.asked ref waiting
    rcases List.mem_cons.mp listed with itself | old
    · exact ⟨ask, List.mem_cons_self, here ▸ itself ▸ same⟩
    · exact ⟨one, List.mem_cons_of_mem _ old, same⟩
  · have distinct := inv.asks_distinct
    rw [List.map_cons, here] at distinct
    exact distinct
  · intro one listed
    rcases List.mem_cons.mp listed with itself | old
    · subst one
      exact ⟨here ▸ (inv.asks_recent counted List.mem_cons_self).1, named⟩
    · exact inv.asks_recent one (List.mem_cons_of_mem _ old)
  · rw [refs]
    intro r waiting member
    rcases List.mem_cons.mp member with itself | old
    · exact absurd (itself ▸ mem_pending.mpr ⟨r, waiting, rfl⟩) left
    · exact inv.unbound r waiting old
  · exact inv.once
  · exact inv.past
  · intro one listed flush off
    rcases List.mem_cons.mp listed with itself | old
    · subst one
      exact ⟨answer, gone⟩
    · exact inv.answered one (List.mem_cons_of_mem _ old) flush off
  · intro one listed flush
    rcases List.mem_cons.mp listed with itself | old
    · subst one
      exact order
    · exact inv.order one (List.mem_cons_of_mem _ old) flush

theorem FlushInv.linkFlush {creq : Nat} {ask : Ask} (inv : FlushInv conn asks)
    (outstanding : creq ∈ conn.pending) (pending : now.pending = conn.nextRef :: conn.pending)
    (link : ∀ ref ∈ now.pending, now.link ref = insertBehind conn.link creq conn.nextRef ref)
    (unbound : ∀ r ∈ now.workreqs, r.ref = conn.nextRef ∨ r.ref ∈ flushRefs asks → r.fid = none)
    (sent : now.sent = conn.sent) (later : conn.nextRef < now.nextRef)
    (asked : ask.ref = conn.nextRef) (kind : ask.tc.type = .tflush) (named : ask.named = [creq]) :
    FlushInv now (ask :: asks) := by
  have refs : flushRefs (ask :: asks) = conn.nextRef :: flushRefs asks := by
    rw [flushRefs_cons_flush kind, asked]
  obtain ⟨chains, forest, shape, behind⟩ := inv.chains
  obtain ⟨front, back, before, after, split, forest'⟩ := forest.insert outstanding inv.fresh
  have inside : before ++ creq :: after ∈ chains := by
    rw [split]
    exact List.mem_append_right _ List.mem_cons_self
  have longer : (before ++ creq :: after).Sublist (before ++ creq :: conn.nextRef :: after) :=
    (List.Sublist.refl before).append ((List.sublist_cons_self conn.nextRef after).cons_cons creq)
  constructor
  · refine ⟨front ++ (before ++ creq :: conn.nextRef :: after) :: back, ?_, ?_, ?_⟩
    · rw [pending] at link ⊢
      exact forest'.congr link
    · rw [refs]
      have old (chain : List Nat) (there : chain ∈ chains) : ∃ request flushes, chain = request :: flushes ∧
          request ∉ conn.nextRef :: flushRefs asks ∧ ∀ flush ∈ flushes, flush ∈ conn.nextRef :: flushRefs asks := by
        obtain ⟨request, flushes, same, no_flush, all⟩ := shape chain there
        refine ⟨request, flushes, same, ?_, fun flush member => List.mem_cons_of_mem _ (all flush member)⟩
        intro member
        rcases List.mem_cons.mp member with itself | flush
        · exact inv.fresh (itself ▸ forest.mem_nodes there (same ▸ List.mem_cons_self))
        · exact no_flush flush
      intro chain listed
      rcases List.mem_append.mp listed with first | second
      · exact old chain (split ▸ List.mem_append_left _ first)
      · rcases List.mem_cons.mp second with here | third
        · obtain ⟨request, flushes, same, no_flush, all⟩ := old _ inside
          cases before with
          | nil =>
              simp only [List.nil_append, List.cons.injEq] at same
              refine ⟨creq, conn.nextRef :: after, here, same.1 ▸ no_flush, ?_⟩
              intro flush member
              rcases List.mem_cons.mp member with itself | listed'
              · exact itself ▸ List.mem_cons_self
              · exact all flush (same.2 ▸ listed')
          | cons first rest =>
              simp only [List.cons_append, List.cons.injEq] at same
              refine ⟨first, rest ++ creq :: conn.nextRef :: after, here, same.1 ▸ no_flush, ?_⟩
              intro flush member
              by_cases itself : flush = conn.nextRef
              · exact itself ▸ List.mem_cons_self
              · refine all flush ?_
                rw [← same.2]
                simp only [List.mem_append, List.mem_cons, itself, false_or] at member ⊢
                exact member
        · exact old chain (split ▸ List.mem_append_right _ (List.mem_cons_of_mem _ third))
    · intro one listed flush waiting ref inside' waiting'
      rcases List.mem_cons.mp listed with itself | older
      · subst one
        rw [named, List.mem_singleton] at inside'
        subst ref
        refine ⟨_, List.mem_append_right _ List.mem_cons_self, ?_⟩
        rw [asked]
        refine List.Sublist.trans ?_ (List.sublist_append_right before _)
        exact ((List.nil_sublist after).cons_cons conn.nextRef).cons_cons creq
      · obtain ⟨recent, earlier⟩ := inv.asks_recent one older
        have below := earlier ref inside'
        rw [pending] at waiting waiting'
        obtain ⟨chain, member, ordered⟩ := behind one older flush
          ((List.mem_cons.mp waiting).resolve_left (by omega)) ref inside'
          ((List.mem_cons.mp waiting').resolve_left (by omega))
        rw [split] at member
        rcases List.mem_append.mp member with first | second
        · exact ⟨chain, List.mem_append_left _ first, ordered⟩
        · rcases List.mem_cons.mp second with here | third
          · refine ⟨_, List.mem_append_right _ List.mem_cons_self, ordered.trans ?_⟩
            rw [here]
            exact longer
          · exact ⟨chain, List.mem_append_right _ (List.mem_cons_of_mem _ third), ordered⟩
  · rw [pending]
    intro ref waiting
    rcases List.mem_cons.mp waiting with itself | old
    · omega
    · have below := inv.recent ref old
      omega
  · rw [pending]
    intro ref waiting
    rcases List.mem_cons.mp waiting with itself | old
    · exact ⟨ask, List.mem_cons_self, asked.trans itself.symm⟩
    · obtain ⟨other, listed, same⟩ := inv.asked ref old
      exact ⟨other, List.mem_cons_of_mem _ listed, same⟩
  · exact inv.newest asked
  · intro other listed
    rcases List.mem_cons.mp listed with itself | old
    · subst other
      refine ⟨by omega, ?_⟩
      intro ref inside'
      rw [named, List.mem_singleton] at inside'
      have below := inv.recent creq outstanding
      omega
    · obtain ⟨recent, earlier⟩ := inv.asks_recent other old
      exact ⟨by omega, earlier⟩
  · rw [refs]
    intro r waiting member
    exact unbound r waiting (List.mem_cons.mp member)
  · rw [sent]
    exact inv.once
  · rw [sent, pending]
    intro reply queued
    obtain ⟨left, below⟩ := inv.past reply queued
    refine ⟨?_, by omega⟩
    intro waiting
    rcases List.mem_cons.mp waiting with itself | old
    · omega
    · exact left old
  · rw [sent, pending]
    intro other listed flush left
    rcases List.mem_cons.mp listed with itself | old
    · subst other
      exact absurd (asked ▸ List.mem_cons_self) left
    · obtain ⟨recent, earlier⟩ := inv.asks_recent other old
      obtain ⟨answer, gone⟩ := inv.answered other old flush fun waiting =>
        left (List.mem_cons_of_mem _ waiting)
      refine ⟨answer, ?_⟩
      intro ref inside' waiting
      have below := earlier ref inside'
      exact gone ref inside' ((List.mem_cons.mp waiting).resolve_left (by omega))
  · rw [sent]
    intro other listed flush ref inside' answer reply ordered
    rcases List.mem_cons.mp listed with itself | old
    · subst other
      have below := (inv.past _ (ordered.subset List.mem_cons_self)).2
      simp only [asked] at below
      omega
    · exact inv.order other old flush ref inside' answer reply ordered

theorem FlushInv.recent_reqs (inv : FlushInv conn asks) : ∀ r ∈ conn.workreqs, r.ref < conn.nextRef :=
  fun r waiting => inv.recent r.ref (mem_pending.mpr ⟨r, waiting, rfl⟩)

theorem FlushInv.named_recent (inv : FlushInv conn asks) (tc : Spfcall) :
    ∀ ref ∈ (conn.ask tc).named, ref < (conn.ask tc).ref := by
  intro ref member
  obtain ⟨r, listed, same⟩ := List.mem_map.mp member
  exact same ▸ inv.recent_reqs r (List.mem_of_mem_filter listed)

theorem FlushInv.bound_head (inv : FlushInv conn asks) {r : Spreq} (waiting : r ∈ conn.workreqs)
    (held : r.fid ≠ none) : r.ref ∉ flushRefs asks :=
  fun flush => held (inv.unbound r waiting flush)

variable {tc : Spfcall} {pkt : Packet} {outcome : Outcome}

theorem FlushInv.accept (inv : FlushInv conn asks) {ask : Ask} (asked : ask.ref = conn.nextRef)
    (named : ∀ ref ∈ ask.named, ref < ask.ref) (kind : ask.tc.type ≠ .tflush) :
    FlushInv (conn.accept tc) (ask :: asks) :=
  inv.push rfl rfl (Nat.lt_succ_self _) rfl rfl asked named kind

theorem FlushInv.xflush {creq : Spreq} {flushed : Bool} (inv : FlushInv conn asks)
    (waiting : creq ∈ conn.workreqs) (ran : xflush srv conn creq = some (flushed, next)) :
    FlushInv next asks := by
  rcases xflush_cases ran with ⟨-, tree, same⟩ | ⟨-, held, tree, responded⟩
  · exact inv.of_same (same ▸ rfl) (same ▸ rfl) (same ▸ rfl)
  · have inv' : FlushInv { conn with tree := tree } asks := inv.of_same rfl rfl rfl
    exact inv'.respond (inv.bound_head waiting held) responded

theorem FlushInv.flushWorkreqs {steps : Nat} (inv : FlushInv conn asks)
    (ran : flushWorkreqs srv conn steps = some next) : FlushInv next asks := by
  induction steps generalizing conn with
  | zero => simp [Libspfs.flushWorkreqs] at ran
  | succ steps ih =>
      unfold Libspfs.flushWorkreqs at ran
      split at ran
      · exact Option.some.inj ran ▸ inv
      · rename_i req found
        obtain ⟨⟨flushed, mid⟩, tried, again⟩ := Option.bind_eq_some_iff.mp ran
        dsimp only at again
        split at again
        · have waiting := List.mem_of_find?_eq_some found
          exact ih (inv.xflush waiting tried) again
        · contradiction

theorem FlushInv.answer {ref : Nat} (inv : FlushInv now asks) (head : ref ∉ flushRefs asks)
    (answered : answerOutcome srv now ref outcome = some next) : FlushInv next asks := by
  rcases answerOutcome_cases answered with ⟨-, -, same⟩ | ⟨rc, responded, -⟩
  · exact same ▸ inv
  · exact inv.respond head responded

theorem FlushInv.head_new (inv : FlushInv conn asks) {ask : Ask} (kind : ask.tc.type ≠ .tflush) :
    conn.nextRef ∉ flushRefs (ask :: asks) := by
  rw [flushRefs_cons_other kind]
  exact fun member => Nat.lt_irrefl _ (inv.flushRefs_recent _ member)

theorem spVersion_flushInv (inv : FlushInv conn asks) (kind : tc.type = .tversion)
    (ran : spVersion srv (conn.accept tc) conn.nextRef tc pkt = some (now, outcome))
    (answered : answerOutcome srv now conn.nextRef outcome = some next) :
    FlushInv next (conn.ask tc :: asks) := by
  have other : (conn.ask tc).tc.type ≠ .tflush := by simp [Spconn.ask, kind]
  have start : FlushInv (conn.accept tc) (conn.ask tc :: asks) :=
    inv.accept rfl (inv.named_recent tc) other
  refine FlushInv.answer ?_ (inv.head_new other) answered
  unfold spVersion at ran
  split at ran
  · simp only [Option.some.injEq, Prod.mk.injEq] at ran
    exact ran.1 ▸ start
  · unfold spDefaultVersion at ran
    split at ran
    · contradiction
    · split at ran
      · contradiction
      · obtain ⟨mid, reset, same⟩ := Option.map_eq_some_iff.mp ran
        obtain ⟨rfl, rfl⟩ := Prod.mk.inj same
        obtain ⟨flushed, ran, equal⟩ := Option.map_eq_some_iff.mp reset
        exact (start.flushWorkreqs ran).of_same (equal ▸ rfl) (equal ▸ rfl) (equal ▸ rfl)

/-- A Tflush that is answered at once: its request counts as no flush until it has its reply. -/
theorem FlushInv.flush_answered (inv : FlushInv conn asks) (kind : tc.type = .tflush)
    (mid : FlushInv now (⟨conn.nextRef, { type := .tversion }, []⟩ :: asks))
    (outstanding : conn.nextRef ∈ now.pending)
    (gone : ∀ ref ∈ (conn.ask tc).named, ref ∉ now.pending)
    (answered : answerOutcome srv now conn.nextRef (.replied .rflush) = some next) :
    FlushInv next (conn.ask tc :: asks) := by
  have other : (⟨conn.nextRef, { type := .tversion }, []⟩ : Ask).tc.type ≠ .tflush := by simp
  have last := mid.answer (inv.head_new other) answered
  rcases answerOutcome_cases answered with ⟨-, nothing, -⟩ | ⟨rc, responded, ⟨failed, -⟩ | ⟨-, given⟩⟩
  · contradiction
  · contradiction
  · have given := Option.some.inj given
    subst rc
    obtain ⟨req, chain, noted, dropped, -, chained, note, drop, same⟩ := spRespond_cases responded
    have sent : next.sent = now.sent ++ replies conn.nextRef (some { type := .rflush }) chain := by
      rw [same]
    have fewer : ∀ ref ∈ next.pending, ref ∈ now.pending := by
      intro ref waiting
      obtain ⟨r, listed, itself⟩ := mem_pending.mp waiting
      have work : next.workreqs = now.workreqs.filter (·.ref ∉ conn.nextRef :: chain) := by
        rw [same]
        exact (spFidDecref?_queue drop).workreqs.trans (noteDiroffset_queue note).workreqs
      rw [work] at listed
      exact mem_pending.mpr ⟨r, List.mem_of_mem_filter listed, itself⟩
    refine last.recount rfl kind other ?_ (inv.named_recent tc)
      (fun ref named waiting => gone ref named (fewer ref waiting)) ?_
    · rw [sent]
      exact List.mem_append_right _ (List.mem_append_left _ (by simp [Spconn.ask]))
    · intro ref named answer reply ordered
      rw [sent] at ordered
      rcases sublist_append_pair ordered with old | new | ⟨old, -⟩
      · exact (mid.past _ (old.subset List.mem_cons_self)).1 outstanding
      · rcases replies_mem (new.subset (List.mem_cons_of_mem _ List.mem_cons_self)) with itself | flushed
        · have below := inv.named_recent tc ref named
          simp only [Spconn.ask] at below itself
          omega
        · exact gone ref named (mem_pending.mpr (flushChain_waiting chained ref flushed))
      · exact (mid.past _ old).1 outstanding

/-- The two assignments that link the newest request behind another. -/
def Spconn.linkBehind (conn : Spconn Tree User Aux) (req : Nat) (creq : Spreq) : Spconn Tree User Aux :=
  (conn.setReq req fun r => { r with flushreq := creq.flushreq }).setReq creq.ref
    fun r => { r with flushreq := some req }

theorem setReq_pending {ref : Nat} {flushreq : Option Nat} :
    (conn.setReq ref fun r => { r with flushreq := flushreq }).pending = conn.pending :=
  update_map Spreq.ref fun _ => rfl

theorem setReq_link {ref : Nat} {flushreq : Option Nat} (other : Nat) (waiting : other ∈ conn.pending) :
    (conn.setReq ref fun r => { r with flushreq := flushreq }).link other =
      if other = ref then flushreq else conn.link other := by
  have found : ∃ r, conn.reqAt other = some r := by
    obtain ⟨r, member, same⟩ := mem_pending.mp waiting
    rw [← Option.isSome_iff_exists, Spconn.reqAt, List.find?_isSome]
    exact ⟨r, member, by simp [same]⟩
  obtain ⟨r, found⟩ := found
  have after : (conn.setReq ref fun r => { r with flushreq := flushreq }).reqAt other =
      (conn.reqAt other).map fun item =>
        if item.ref = ref then { item with flushreq := flushreq } else item := by
    unfold Spconn.reqAt Spconn.setReq
    exact find?_update (by intro item; rfl) other
  have key : r.ref = other := (find?_key found).2
  rw [Spconn.link, after, Spconn.link, found]
  by_cases here : other = ref
  · simp [key, here]
  · simp [key, here]

theorem linkBehind_flushInv {creq : Spreq} {mid : Spconn Tree User Aux} (inv : FlushInv conn asks)
    (kind : tc.type = .tflush) (work : mid.workreqs = (conn.accept tc).workreqs)
    (sent : mid.sent = conn.sent) (nextRef : mid.nextRef = conn.nextRef + 1)
    (member : creq ∈ conn.workreqs) (named : (conn.ask tc).named = [creq.ref]) :
    FlushInv (mid.linkBehind conn.nextRef creq) (conn.ask tc :: asks) := by
  have outstanding : creq.ref ∈ conn.pending := mem_pending.mpr ⟨creq, member, rfl⟩
  have pending_mid : mid.pending = conn.nextRef :: conn.pending := by
    rw [Spconn.pending, work]
    rfl
  have pending : (mid.linkBehind conn.nextRef creq).pending = conn.nextRef :: conn.pending := by
    rw [Spconn.linkBehind, setReq_pending, setReq_pending, pending_mid]
  have creq_link : conn.link creq.ref = creq.flushreq := by
    rw [Spconn.link, Spconn.reqAt]
    obtain ⟨chains, forest, -⟩ := inv.chains
    rw [find?_of_mem forest.distinct member rfl, Option.bind_some]
  refine inv.linkFlush outstanding pending ?_ ?_ sent (by simp [Spconn.linkBehind, Spconn.setReq, nextRef])
    rfl kind named
  · rw [pending]
    intro ref waiting
    have below := inv.recent creq.ref outstanding
    have waiting_mid : ref ∈ mid.pending := pending_mid ▸ waiting
    have waiting_once : ref ∈ (mid.setReq conn.nextRef fun r =>
        { r with flushreq := creq.flushreq }).pending := by
      rw [setReq_pending]
      exact waiting_mid
    rw [Spconn.linkBehind, setReq_link ref waiting_once, setReq_link ref waiting_mid]
    unfold insertBehind
    split
    · rfl
    · split
      · rw [creq_link]
      · rename_i elsewhere
        have older : ref ∈ conn.pending := (List.mem_cons.mp waiting).resolve_left elsewhere
        have apart : ¬ conn.nextRef = ref := fun same => elsewhere same.symm
        rw [Spconn.link, Spconn.reqAt, work, Spconn.accept, List.find?_cons_of_neg (by simpa using apart),
          Spconn.link, Spconn.reqAt]
  · intro r waiting held
    obtain ⟨first, inside, rfl⟩ := mem_update.mp waiting
    obtain ⟨old, inside', rfl⟩ := mem_update.mp inside
    have free : old.fid = none := by
      rw [work] at inside'
      rcases List.mem_cons.mp inside' with newest | older
      · rw [newest]
      · have below := inv.recent_reqs old older
        refine inv.unbound old older ?_
        have key : old.ref = conn.nextRef ∨ old.ref ∈ flushRefs asks := by
          split_ifs at held <;> exact held
        exact key.resolve_left (by omega)
    split_ifs <;> exact free

theorem named_single {creq : Spreq} (member : creq ∈ conn.workreqs) (tag : creq.tag = tc.oldtag)
    (single : (conn.workreqs.filter (·.tag == tc.oldtag)).length ≤ 1) :
    (conn.ask tc).named = [creq.ref] := by
  have inside : creq ∈ conn.workreqs.filter (·.tag == tc.oldtag) :=
    List.mem_filter.mpr ⟨member, by simp [tag]⟩
  rw [Spconn.ask]
  cases filtered : conn.workreqs.filter (·.tag == tc.oldtag) with
  | nil => simp [filtered] at inside
  | cons first rest =>
      rw [filtered] at inside single
      have empty : rest = [] := List.eq_nil_of_length_eq_zero (by simpa using single)
      subst rest
      rw [List.mem_singleton] at inside
      simp [inside]

theorem spFlush_flushInv (inv : FlushInv conn asks) (kind : tc.type = .tflush) (other : tc.oldtag ≠ tc.tag)
    (single : (conn.workreqs.filter (·.tag == tc.oldtag)).length ≤ 1)
    (ran : spFlush srv (conn.accept tc) conn.nextRef tc = some (now, outcome))
    (answered : answerOutcome srv now conn.nextRef outcome = some next) :
    FlushInv next (conn.ask tc :: asks) := by
  have start : FlushInv (conn.accept tc) (⟨conn.nextRef, { type := .tversion }, []⟩ :: asks) :=
    inv.accept rfl (by simp) (by simp)
  have search : (conn.accept tc).workreqs.find? (·.tag == tc.oldtag) =
      conn.workreqs.find? (·.tag == tc.oldtag) := by
    rw [Spconn.accept, List.find?_cons_of_neg]
    simpa using fun same => other same.symm
  unfold spFlush at ran
  rw [search] at ran
  split at ran
  · rename_i missing
    simp only [Option.some.injEq, Prod.mk.injEq] at ran
    obtain ⟨rfl, rfl⟩ := ran
    refine inv.flush_answered kind start List.mem_cons_self ?_ answered
    intro ref named
    obtain ⟨r, listed, -⟩ := List.mem_map.mp named
    obtain ⟨waiting, tag⟩ := List.mem_filter.mp listed
    have absent := List.find?_eq_none.mp missing r waiting
    exact absurd tag (by simpa using absent)
  · rename_i creq found
    have member := List.mem_of_find?_eq_some found
    have tag : creq.tag = tc.oldtag := by
      have matched := List.find?_some found
      simpa using matched
    have named := named_single member tag single
    obtain ⟨⟨flushed, mid⟩, tried, rest⟩ := Option.bind_eq_some_iff.mp ran
    cases flushed with
    | false =>
        simp only [Bool.false_eq_true, if_false, Option.some.injEq, Prod.mk.injEq] at rest
        obtain ⟨rfl, rfl⟩ := rest
        have same : ∃ tree, mid = { conn.accept tc with tree := tree } := by
          split at tried
          · rcases xflush_cases tried with ⟨-, tree, same⟩ | ⟨yes, -⟩
            · exact ⟨tree, same⟩
            · contradiction
          · simp only [Option.some.injEq, Prod.mk.injEq] at tried
            exact ⟨_, tried.2.symm⟩
        obtain ⟨tree, same⟩ := same
        rcases answerOutcome_cases answered with ⟨-, -, done⟩ | ⟨sent, -, ⟨failed, -⟩ | ⟨-, given⟩⟩
        · subst next
          exact linkBehind_flushInv inv kind (same ▸ rfl) (same ▸ rfl) (same ▸ rfl) member named
        · contradiction
        · contradiction
    | true =>
        simp only [if_true, Option.some.injEq, Prod.mk.injEq] at rest
        obtain ⟨rfl, rfl⟩ := rest
        split at tried
        · rename_i unlinked
          have waiting : creq ∈ (conn.accept tc).workreqs := List.mem_cons_of_mem _ member
          have mid_inv := start.xflush waiting tried
          rcases xflush_cases tried with ⟨no, -⟩ | ⟨-, -, tree, responded⟩
          · contradiction
          · obtain ⟨req, chain, noted, dropped, reqAt, chained, note, drop, same⟩ := spRespond_cases responded
            have below := inv.recent_reqs creq member
            have itself : req = creq := by
              obtain ⟨chains, forest, -⟩ := start.chains
              have lookup : (conn.accept tc).workreqs.find? (·.ref == creq.ref) = some creq :=
                find?_of_mem forest.distinct waiting rfl
              have reqAt : (conn.accept tc).workreqs.find? (·.ref == creq.ref) = some req := reqAt
              rw [lookup] at reqAt
              exact (Option.some.inj reqAt).symm
            subst req
            rw [unlinked] at chained
            have alone : chain = [] := by
              generalize List.length _ = steps at chained
              cases steps <;> simp_all [flushChain]
            have work : mid.workreqs = (conn.accept tc).workreqs.filter (·.ref ∉ creq.ref :: chain) := by
              rw [same]
              exact (spFidDecref?_queue drop).workreqs.trans (noteDiroffset_queue note).workreqs
            have pending : mid.pending = (conn.accept tc).pending.filter (· ∉ creq.ref :: chain) := by
              rw [Spconn.pending, work, pending_filter]
            refine inv.flush_answered kind mid_inv ?_ ?_ answered
            · rw [pending, alone, List.mem_filter]
              have apart : ¬ conn.nextRef = creq.ref := by omega
              exact ⟨List.mem_cons_self, by simpa using apart⟩
            · rw [named, pending]
              intro ref here waiting
              rw [List.mem_singleton] at here
              simp [here] at waiting
        · simp at tried

theorem FlushInv.step {event : ConnEvent} (inv : FlushInv conn asks) (safe : FlushSafe ⟨conn, asks⟩ event)
    (stepped : Spconn.step srv conn event = some next) :
    FlushInv next (match event with
      | .message tc _ => conn.ask tc :: asks
      | .answer _ _ => asks) := by
  cases event with
  | answer ref rc =>
      simp only [Spconn.step] at stepped
      split at stepped
      · exact Option.some.inj stepped ▸ inv
      · rename_i req found
        split at stepped
        · exact Option.some.inj stepped ▸ inv
        · rename_i held
          obtain ⟨member, same⟩ := find?_key found
          exact inv.respond (same ▸ inv.bound_head member held) stepped
  | message tc pkt =>
      obtain ⟨even, flush, -⟩ := safe
      obtain ⟨now, outcome, found, answered⟩ := spSrvProcessFcall_cases stepped
      by_cases is_flush : tc.type = .tflush
      · obtain ⟨other, single⟩ := flush is_flush
        rw [is_flush] at found
        exact spFlush_flushInv inv is_flush other single (Option.some.inj found) answered
      · by_cases is_version : tc.type = .tversion
        · rw [is_version] at found
          exact spVersion_flushInv inv is_version (Option.some.inj found) answered
        · have index : (tc.type.number - 100) / 2 ≠ 0 ∧ (tc.type.number - 100) / 2 ≠ 4 := by
            cases kind : tc.type <;> simp_all [FcallType.number]
          have same := spFcalls_sameWork index.1 index.2 found
          obtain ⟨bound, work⟩ := same.newest inv.recent_reqs
          have later : conn.nextRef < now.nextRef := same.later
          have pushed : FlushInv now (conn.ask tc :: asks) :=
            inv.push work same.sent later rfl rfl rfl (inv.named_recent tc) is_flush
          exact pushed.answer (inv.head_new is_flush) answered

def Watched.create (srv : Spsrv Tree User Aux) (tree : Tree) : Watched Tree User Aux :=
  ⟨spConnCreate srv tree, []⟩

end Flush

section Runs

def read (fid tag : Nat) : ConnEvent := .message { type := .tread, fid, tag, count := 8 } []

def flush (tag oldtag : Nat) : ConnEvent := .message { type := .tflush, tag, oldtag } []

end Runs

end Xcpu.Libspfs
