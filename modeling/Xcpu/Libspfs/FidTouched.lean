import Xcpu.Libspfs.FileAccess

/-!
The fids of a connection before and after a request on one of them. The handler changes that
fid and counts on it, the answer gives its reference back, and the others stay.
-/

namespace Xcpu.Libspfs.File

open Xcpu.Keyed

section Table

variable {State User Group : Type} {srv : Spsrv (Files State User Group) User Spfilefid}
  {conn now next : Spconn (Files State User Group) User Spfilefid} {f g h : Spfid User Spfilefid}
  {req ref : Nat} {count : Int}

/-- One fid before and after: a request on it finds the same. -/
structure Same (f g : Spfid User Spfilefid) : Prop where
  ref : g.ref = f.ref
  fid : g.fid = f.fid
  omode : g.omode = f.omode
  type : g.type = f.type
  file : g.aux.map Spfilefid.file = f.aux.map Spfilefid.file

theorem Same.refl (f : Spfid User Spfilefid) : Same f f := ⟨rfl, rfl, rfl, rfl, rfl⟩

theorem Same.trans (one : Same f g) (two : Same g h) : Same f h :=
  ⟨two.ref.trans one.ref, two.fid.trans one.fid, two.omode.trans one.omode, two.type.trans one.type,
    two.file.trans one.file⟩

theorem Same.symm (same : Same f g) : Same g f :=
  ⟨same.ref.symm, same.fid.symm, same.omode.symm, same.type.symm, same.file.symm⟩

def Kept (conn next : Spconn (Files State User Group) User Spfilefid) : Prop :=
  ∀ f ∈ conn.fids, ∃ g ∈ next.fids, Same f g

/-- What a `sp_fid_decref` of a fid does to the table. -/
structure Dropped (now next : Spconn (Files State User Group) User Spfilefid) (g : Spfid User Spfilefid) : Prop where
  inside : g ∈ now.fids
  gone : g.refcount = 1 → g.ref ∉ next.fids.map Spfid.ref
  stays : g.refcount ≠ 1 → { g with refcount := g.refcount - 1 } ∈ next.fids
  others : ∀ h ∈ now.fids, h.ref ≠ g.ref → h ∈ next.fids
  back : ∀ h ∈ next.fids, ∃ old ∈ now.fids, Same old h
  workreqs : next.workreqs = now.workreqs
  sent : next.sent = now.sent

theorem spFidDecref_dropped (safe : Safe False now) (dropped : spFidDecref srv now ref = some next) :
    ∃ g, g.ref = ref ∧ Dropped now next g := by
  rw [spFidDecref] at dropped
  cases found : now.fidAt ref with
  | none =>
      rw [found] at dropped
      cases dropped
  | some g =>
      obtain ⟨inside, here⟩ : g ∈ now.fids ∧ g.ref = ref := find?_key found
      rw [found] at dropped
      dsimp only at dropped
      refine ⟨g, here, ?_⟩
      split at dropped
      · rename_i last
        have itself : now.fids.find? (·.fid == g.fid) = some g := find?_of_mem safe.numbers inside rfl
        rw [spFidDestroy, itself] at dropped
        obtain rfl := Option.some.inj dropped
        refine ⟨inside, ?_, fun more => by omega, ?_, ?_, rfl, rfl⟩
        · intro _ remains
          obtain ⟨h, left, same⟩ := List.mem_map.mp remains
          obtain ⟨before, number⟩ := (mem_eraseP safe.numbers).mp left
          exact number (congrArg Spfid.fid (List.inj_on_of_nodup_map safe.refs before inside same))
        · intro h before other
          refine (mem_eraseP safe.numbers).mpr ⟨before, ?_⟩
          intro number
          exact other (congrArg Spfid.ref (List.inj_on_of_nodup_map safe.numbers before inside number))
        · intro h left
          exact ⟨h, List.mem_of_mem_eraseP left, .refl h⟩
      · rename_i more
        obtain rfl := Option.some.inj dropped
        refine ⟨inside, fun last => by omega, ?_, ?_, ?_, rfl, rfl⟩
        · intro _
          exact mem_update.mpr ⟨g, inside, by rw [if_pos here]⟩
        · intro h before other
          exact mem_update.mpr ⟨h, before, by rw [if_neg (here ▸ other)]⟩
        · intro h left
          obtain ⟨old, before, rfl⟩ := mem_update.mp left
          refine ⟨old, before, ?_⟩
          split
          · exact ⟨rfl, rfl, rfl, rfl, rfl⟩
          · exact .refl old

theorem Dropped.kept_iff (dropped : Dropped now next g) (safe : Safe False now) :
    Kept now next ↔ g.refcount ≠ 1 := by
  constructor
  · intro kept last
    obtain ⟨new, left, same⟩ := kept g dropped.inside
    exact dropped.gone last (same.ref ▸ List.mem_map_of_mem left)
  · intro more h before
    by_cases here : h.ref = g.ref
    · obtain rfl := List.inj_on_of_nodup_map safe.refs before dropped.inside here
      exact ⟨_, dropped.stays more, rfl, rfl, rfl, rfl, rfl⟩
    · exact ⟨h, dropped.others h before here, .refl h⟩

/-- A fid amid a request on it: the handler has changed it to `g` and counted on it, and has left
the others. -/
structure Touched (conn now : Spconn (Files State User Group) User Spfilefid) (req : Nat) (count : Int)
    (f g : Spfid User Spfilefid) : Prop where
  others : ∀ h ∈ conn.fids, h.ref ≠ f.ref → ∃ new ∈ now.fids, Same h new
  inside : g ∈ now.fids
  ref : g.ref = f.ref
  refcount : g.refcount = f.refcount + count
  bound : ∃ r, now.reqAt req = some r ∧ r.fid = some f.ref
  sent : now.sent = conn.sent

theorem Touched.setFid (touched : Touched conn now req count f g)
    {change : Spfid User Spfilefid → Spfid User Spfilefid} {more : Int}
    (same_ref : ∀ g, (change g).ref = g.ref) (counts : (change g).refcount = g.refcount + more) :
    Touched conn (now.setFid f.ref change) req (count + more) f (change g) where
  others := by
    intro h member other
    obtain ⟨new, inside, same⟩ := touched.others h member other
    exact ⟨new, mem_update.mpr ⟨new, inside, by rw [if_neg (by rw [same.ref]; exact other)]⟩, same⟩
  inside := mem_update.mpr ⟨g, touched.inside, by rw [if_pos touched.ref]⟩
  ref := (same_ref g).trans touched.ref
  refcount := by
    rw [counts, touched.refcount]
    omega
  bound := touched.bound
  sent := touched.sent

theorem Touched.relabel (touched : Touched conn now req count f g)
    {change : Spfid User Spfilefid → Spfid User Spfilefid} (same_ref : ∀ g, (change g).ref = g.ref)
    (same_count : (change g).refcount = g.refcount) :
    Touched conn (now.setFid f.ref change) req count f (change g) := by
  have set := touched.setFid same_ref (same_count.trans (Int.add_zero _).symm)
  rw [Int.add_zero] at set
  exact set

theorem Touched.called {Value : Type} {back : Back (Files State User Group) Spfilefid Value}
    (touched : Touched conn now req count f g) :
    Touched conn (now.called f.ref back) req count f { g with aux := back.aux } := by
  have changed : Touched conn { now with tree := back.tree } req count f g :=
    ⟨touched.others, touched.inside, touched.ref, touched.refcount, touched.bound, touched.sent⟩
  exact changed.relabel (fun _ => rfl) rfl

theorem Touched.incref (touched : Touched conn now req count f g) :
    Touched conn (spFidIncref now f.ref) req (count + 1) f { g with refcount := g.refcount + 1 } :=
  touched.setFid (fun _ => rfl) rfl

/-- Nothing but the request holds the fid any more, or it loses one reference. -/
theorem Touched.decref (touched : Touched conn now req count f g) (safe : Safe False now)
    (dropped : spFidDecref srv now f.ref = some next) :
    (g.refcount = 1 ∧ f.ref ∉ next.fids.map Spfid.ref) ∨
      Touched conn next req (count - 1) f { g with refcount := g.refcount - 1 } := by
  obtain ⟨g', here, drop⟩ := spFidDecref_dropped safe dropped
  obtain rfl : g' = g := List.inj_on_of_nodup_map safe.refs drop.inside touched.inside (here.trans touched.ref.symm)
  by_cases last : g'.refcount = 1
  · exact .inl ⟨last, here ▸ drop.gone last⟩
  · refine .inr ⟨?_, drop.stays last, here, ?_, ?_, drop.sent.trans touched.sent⟩
    · intro h member other
      obtain ⟨new, inside, same⟩ := touched.others h member other
      exact ⟨new, drop.others new inside (by rw [same.ref, here]; exact other), same⟩
    · dsimp only
      rw [touched.refcount]
      omega
    · obtain ⟨r, waiting, held⟩ := touched.bound
      exact ⟨r, by rw [Spconn.reqAt, drop.workreqs]; exact waiting, held⟩

theorem Touched.decref_other (touched : Touched conn now req count f g) (safe : Safe False now) (other : ref ≠ f.ref)
    (more : ∀ d ∈ now.fids, d.ref = ref → ref ∈ conn.fids.map Spfid.ref → d.refcount ≠ 1)
    (dropped : spFidDecref srv now ref = some next) : Touched conn next req count f g := by
  obtain ⟨d, rfl, drop⟩ := spFidDecref_dropped safe dropped
  refine ⟨?_, drop.others g touched.inside (by rw [touched.ref]; exact Ne.symm other), touched.ref, touched.refcount,
    ?_, drop.sent.trans touched.sent⟩
  · intro h member apart
    obtain ⟨new, inside, same⟩ := touched.others h member apart
    by_cases here : new.ref = d.ref
    · obtain rfl := List.inj_on_of_nodup_map safe.refs inside drop.inside here
      have listed : new.ref ∈ conn.fids.map Spfid.ref := same.ref ▸ List.mem_map_of_mem member
      exact ⟨_, drop.stays (more new inside rfl listed), same.trans ⟨rfl, rfl, rfl, rfl, rfl⟩⟩
    · exact ⟨new, drop.others new inside here, same⟩
  · obtain ⟨r, waiting, held⟩ := touched.bound
    exact ⟨r, by rw [Spconn.reqAt, drop.workreqs]; exact waiting, held⟩

theorem Touched.created (touched : Touched conn now req count f g) (safe : Safe False now) {fid newfid : Nat}
    (created : spFidCreate now fid = (some newfid, next)) :
    Touched conn next req count f g ∧ newfid ≠ f.ref ∧ newfid ∉ conn.fids.map Spfid.ref := by
  rw [spFidCreate] at created
  split at created
  · obtain ⟨same, rfl⟩ := Prod.mk.inj created
    obtain rfl := Option.some.inj same
    have below := safe.fresh g touched.inside
    have ref := touched.ref
    refine ⟨⟨?_, List.mem_cons_of_mem _ touched.inside, ref, touched.refcount, touched.bound, touched.sent⟩,
      by omega, ?_⟩
    · intro h member apart
      obtain ⟨new, inside, same⟩ := touched.others h member apart
      exact ⟨new, List.mem_cons_of_mem _ inside, same⟩
    · intro listed
      obtain ⟨h, member, here⟩ := List.mem_map.mp listed
      by_cases apart : h.ref = f.ref
      · omega
      · obtain ⟨new, inside, same⟩ := touched.others h member apart
        have recent := safe.fresh new inside
        have number := same.ref
        omega
  · cases created

theorem Touched.setNew (touched : Touched conn now req count f g) (other : ref ≠ f.ref)
    (fresh : ref ∉ conn.fids.map Spfid.ref) (change : Spfid User Spfilefid → Spfid User Spfilefid) :
    Touched conn (now.setFid ref change) req count f g where
  others := by
    intro h member apart
    obtain ⟨new, inside, same⟩ := touched.others h member apart
    refine ⟨new, mem_update.mpr ⟨new, inside, ?_⟩, same⟩
    rw [if_neg]
    intro here
    exact fresh (here ▸ same.ref ▸ List.mem_map_of_mem member)
  inside := mem_update.mpr ⟨g, touched.inside, by rw [if_neg (by rw [touched.ref]; exact Ne.symm other)]⟩
  ref := touched.ref
  refcount := touched.refcount
  bound := touched.bound
  sent := touched.sent

theorem Touched.calledNew {Value : Type} {back : Back (Files State User Group) Spfilefid Value}
    (touched : Touched conn now req count f g) (other : ref ≠ f.ref) (fresh : ref ∉ conn.fids.map Spfid.ref) :
    Touched conn (now.called ref back) req count f g := by
  have changed : Touched conn { now with tree := back.tree } req count f g :=
    ⟨touched.others, touched.inside, touched.ref, touched.refcount, touched.bound, touched.sent⟩
  exact changed.setNew other fresh _

theorem Touched.walkNames {pkt : Packet} {names : List Spstr} (touched : Touched conn now req count f g)
    (other : ref ≠ f.ref) (fresh : ref ∉ conn.fids.map Spfid.ref) :
    Touched conn (walkNames srv now ref pkt names).2.1 req count f g := by
  induction names generalizing now with
  | nil => exact touched
  | cons name names ih =>
      rw [Libspfs.walkNames]
      split
      · exact touched
      · dsimp only
        split
        · exact touched.calledNew other fresh
        · exact ih ((touched.calledNew other fresh).setNew other fresh _)

theorem walkNames_zero {pkt : Packet} {names : List Spstr} (none : (walkNames srv now ref pkt names).1 = 0) :
    (walkNames srv now ref pkt names).2.1 = now ∨ ∃ old name, now.fidAt ref = some old ∧
      (srv.walk now.tree old name).value = Option.none ∧
        (walkNames srv now ref pkt names).2.1 = now.called ref (srv.walk now.tree old name) := by
  cases names with
  | nil => exact .inl rfl
  | cons name names =>
      rw [Libspfs.walkNames] at none ⊢
      cases there : now.fidAt ref with
      | none => exact .inl rfl
      | some old =>
          rw [there] at none
          dsimp only at none ⊢
          cases answer : (srv.walk now.tree old (name.bytes pkt)).value with
          | none => exact .inr ⟨old, _, rfl, answer, rfl⟩
          | some qid =>
              rw [answer] at none
              cases none

theorem walkNames_queue {pkt : Packet} {names : List Spstr} :
    SameQueue now (walkNames srv now ref pkt names).2.1 := by
  induction names generalizing now with
  | nil => exact .refl now
  | cons name names ih =>
      rw [Libspfs.walkNames]
      split
      · exact .refl now
      · rename_i old there
        have called : SameQueue now (now.called ref (srv.walk now.tree old (name.bytes pkt))) :=
          ⟨rfl, rfl, rfl, rfl, rfl, rfl⟩
        dsimp only
        split
        · exact called
        · exact (called.trans (setFid_queue ref _)).trans ih

theorem spRespond_dropped {r : Spreq} {fid : Nat} (safe : Safe False now) (waiting : now.reqAt req = some r)
    (held : r.fid = some fid) {rc : Rcall} (rerror : rc.type = .rerror)
    (responded : spRespond srv now req (some rc) = some next) :
    ∃ mid dropped, mid.fids = now.fids ∧ Safe False mid ∧ spFidDecref srv mid fid = some dropped ∧
      dropped.fids = next.fids := by
  obtain ⟨other, chain, noted, dropped, found, -, note, drop, rfl⟩ := spRespond_cases responded
  rw [waiting] at found
  obtain rfl := Option.some.inj found
  obtain ⟨type, qidType, count⟩ := rc
  obtain rfl : type = .rerror := rerror
  have plain : some _ = some noted := note
  obtain rfl := Option.some.inj plain
  rw [held] at drop
  exact ⟨{ now with workreqs := now.workreqs.filter (·.ref ∉ req :: chain) }, dropped, rfl,
    safe.congr rfl (Nat.le_refl _) rfl, drop, rfl⟩

/-- The answer gives the request's reference back. Nothing was lost if that was not the last one
and the fid is as it was. -/
theorem Touched.kept_iff (touched : Touched conn now req 1 f g) (start : Safe False conn) (member : f ∈ conn.fids)
    (safe : Safe False now) {rc : Rcall} (rerror : rc.type = .rerror)
    (responded : spRespond srv now req (some rc) = some next) : Kept conn next ↔ f.refcount ≠ 0 ∧ Same f g := by
  obtain ⟨r, waiting, held⟩ := touched.bound
  obtain ⟨mid, dropped, fids, kept, drop, final⟩ := spRespond_dropped safe waiting held rerror responded
  obtain ⟨g', here, loses⟩ := spFidDecref_dropped kept drop
  have inside := loses.inside
  rw [fids] at inside
  obtain rfl : g' = g := List.inj_on_of_nodup_map safe.refs inside touched.inside (here.trans touched.ref.symm)
  have counts := touched.refcount
  constructor
  · intro kept
    obtain ⟨new, left, same⟩ := kept f member
    rw [← final] at left
    refine ⟨?_, ?_⟩
    · intro zero
      exact loses.gone (by omega) (by rw [here, ← same.ref]; exact List.mem_map_of_mem left)
    · obtain ⟨old, before, from_⟩ := loses.back new left
      rw [fids] at before
      have itself : old = g' := List.inj_on_of_nodup_map safe.refs before touched.inside
        (from_.ref.symm.trans (same.ref.trans here.symm))
      exact same.trans (itself ▸ from_.symm)
  · rintro ⟨more, same⟩ h before
    rw [← final]
    by_cases other : h.ref = f.ref
    · obtain rfl := List.inj_on_of_nodup_map start.refs before member other
      exact ⟨_, loses.stays (by omega), same.trans ⟨rfl, rfl, rfl, rfl, rfl⟩⟩
    · obtain ⟨new, there, like⟩ := touched.others h before other
      exact ⟨new, loses.others new (fids ▸ there) (by rw [like.ref, here]; exact other), like⟩

/-- The reply queued for a message is Rerror. -/
def Failed (conn next : Spconn (Files State User Group) User Spfilefid) : Prop :=
  ∃ later, next.sent = conn.sent ++ (conn.nextRef, .rerror) :: later

theorem answerOutcome_rerror {outcome : Outcome} (sent : now.sent = conn.sent)
    (answered : answerOutcome srv now conn.nextRef outcome = some next) (failed : Failed conn next) :
    ∃ rc, rc.type = .rerror ∧ spRespond srv now conn.nextRef (some rc) = some next ∧
      (outcome.error = true ∨ outcome.rc = some rc) := by
  obtain ⟨later, queue⟩ := failed
  rcases answerOutcome_cases answered with ⟨-, -, rfl⟩ | ⟨rc, responded, origin⟩
  · rw [sent] at queue
    have lengths := congrArg List.length queue
    rw [List.length_append, List.length_cons] at lengths
    omega
  · refine ⟨rc, ?_, responded, origin.imp And.left And.right⟩
    obtain ⟨r, chain, noted, dropped, -, -, -, -, rfl⟩ := spRespond_cases responded
    dsimp only at queue
    rw [sent] at queue
    have reply := List.append_cancel_left queue
    rw [replies, Option.map_some, Option.toList_some, List.singleton_append, List.cons.injEq, Prod.mk.injEq] at reply
    exact reply.1.2

theorem Touched.failed_iff {tc : Spfcall} {outcome : Outcome}
    (touched : Touched (conn.accept tc) now conn.nextRef 1 f g) (start : Safe False conn) (member : f ∈ conn.fids)
    (safe : Safe False now) (answered : answerOutcome srv now conn.nextRef outcome = some next)
    (failed : Failed conn next) : Kept conn next ↔ f.refcount ≠ 0 ∧ Same f g := by
  have sent : now.sent = conn.sent := touched.sent
  obtain ⟨rc, rerror, responded, -⟩ := answerOutcome_rerror sent answered failed
  have accepted : Safe False (conn.accept tc) := start.congr rfl (Nat.le_succ _) rfl
  exact touched.kept_iff accepted member safe rerror responded

theorem bindFid_touched {tc : Spfcall} (member : f ∈ conn.fids) :
    Touched (conn.accept tc) ((conn.accept tc).bindFid conn.nextRef f.ref) conn.nextRef 1 f
      { f with refcount := f.refcount + 1 } where
  others := by
    intro h inside other
    exact ⟨h, mem_update.mpr ⟨h, inside, by rw [if_neg other]⟩, .refl h⟩
  inside := mem_update.mpr ⟨f, member, by rw [if_pos rfl]⟩
  ref := rfl
  refcount := rfl
  bound := by
    refine ⟨{ ref := conn.nextRef, tag := tc.tag, tcall := tc, fid := some f.ref }, ?_, rfl⟩
    simp [Spconn.reqAt, Spconn.bindFid, Spconn.setReq, Spconn.accept, spFidIncref, Spconn.setFid, update]
  sent := rfl

end Table

end Xcpu.Libspfs.File
